/-
# What an iterator yields

An iterator is in a node, before or after an entry: its cursor is at the element in
front of the next entry to read, the last of the entry before or of the master entry
(`edge`), which in reverse is the last of the entry to read itself. What is left to read is a
list of entries in the order of the iteration (`Left`): the entries of the node on that
side, and those of the nodes after or before it.

Key definitions: `In`, `Left`, `Emitted`.
Key theorems: `readEntry_eq`, `scan_spec`, `streamIteratorGetID_spec`, `getFields_spec`, `streamRange_spec`.
-/
import RedisZk.Streams.Nodes

namespace RedisZk.Streams

/-! ### Reading one entry -/

/-- The iterator is in a node. -/
structure In (si : StreamIterator) (n : Node) : Prop where
  lp : si.lp = some n.eles
  master : si.master_id = n.master
  count : si.master_fields_count = n.names.length
  start : si.master_fields_start = some 3
  ri : si.ri = .at n.master

namespace StreamIterator

/-- The entry is not emitted. -/
def skips (si : StreamIterator) (e : Entry) : Bool :=
  if !si.rev then !decide (e.id ≥ si.start_key ∧ !e.deleted) else !decide (e.id ≤ si.end_key ∧ !e.deleted)

/-- The entry ends the iteration. -/
def beyond (si : StreamIterator) (e : Entry) : Bool :=
  if !si.rev then decide (e.id > si.end_key) else decide (e.id < si.start_key)

/-- The iterator that has read the head of the entry after `es`. -/
def head (si : StreamIterator) (n : Node) (es : List Entry) (e : Entry) : StreamIterator :=
  { si with lp_flags := some (n.pos es), lp_ele := some (n.pos es + e.skip) }

def emitted (si : StreamIterator) (n : Node) (es : List Entry) (e : Entry) : StreamIterator :=
  { si.head n es e with
    entry_flags := e.flags
    master_fields_ptr := if e.same then si.master_fields_start else si.master_fields_ptr }

def passed (si : StreamIterator) (n : Node) (es : List Entry) (e : Entry) : StreamIterator :=
  { si.head n es e with lp_ele := some (if !si.rev then n.pos (es ++ [e]) - 1 else n.pos es - 1) }

end StreamIterator

section Entry

variable {si : StreamIterator} {n : Node} {es es' : List Entry} {e : Entry}

theorem Node.Ok.length_lt (hn : n.Ok) : n.eles.length < 2 ^ 31 - 3 := length_lt_of_bytes hn.fits

theorem Node.Ok.body_lt (hn : n.Ok) (h : n.entries = es ++ e :: es') : e.body.length + 8 < 2 ^ 31 := by
  have hlt := hn.length_lt
  rw [Node.length_split h, Node.pos] at hlt
  omega

theorem Entry.fields_le (e : Entry) : e.fields.length ≤ e.body.length := by
  rw [Entry.body_length]
  split_ifs <;> omega

theorem Entry.eles_own {master : StreamID} (hs : e.same = false) :
    e.eles master = [ll2string e.flags, ll2string (toInt64 (e.id.ms - master.ms)),
      ll2string (toInt64 (e.id.seq - master.seq))] ++ ll2string e.fields.length ::
        ((e.fields.flatMap fun fv => [fv.1, fv.2]) ++ [ll2string (3 + e.body.length : ℕ)]) := by
  rw [Entry.eles]
  congr 3
  rw [Entry.body, hs]
  rfl

/-- A number in an entry is read. -/
theorem read_number (h : n.entries = es ++ e :: es') (pre : List Sds) {post : List Sds} {v : ℤ} {i : ℕ}
    (he : e.eles n.master = pre ++ ll2string v :: post) (hi : i = pre.length) (hv : IsInt64 v) :
    lpGetInteger n.eles (some (n.pos es + i)) = .ok v := by
  obtain ⟨pre', post', hsplit, hpos⟩ := Node.eles_getElem h he hi
  exact lpGetInteger_split hsplit hpos hv

/-- What `readEntry` does once it has read the head of the entry. -/
theorem readEntry_branches (si : StreamIterator) (n : Node) (es : List Entry) (e : Entry)
    (hlp : n.pos es + e.body.length + 4 ≤ n.eles.length) :
    (if !si.rev then
      if e.id ≥ si.start_key ∧ !e.deleted then
        .ok (if e.id > si.end_key then .stop (si.head n es e) else .emit (si.emitted n es e) e.id e.fields.length)
      else do
        let lp_ele ← lpNexts n.eles (some (n.pos es + e.skip))
          (if e.same then (e.fields.length : ℤ) else e.fields.length * 2).toNat
        .ok (.pass { si.head n es e with lp_ele := lp_ele })
    else
      if e.id ≤ si.end_key ∧ !e.deleted then
        .ok (if e.id < si.start_key then .stop (si.head n es e) else .emit (si.emitted n es e) e.id e.fields.length)
      else do
        let lp_ele ← lpPrevs n.eles (some (n.pos es + e.skip)) (if e.same then 4 else 5)
        .ok (.pass { si.head n es e with lp_ele := lp_ele })) =
      (.ok (if si.skips e then .pass (si.passed n es e)
        else if si.beyond e then .stop (si.head n es e)
        else .emit (si.emitted n es e) e.id e.fields.length) : Except LpAbort Visit) := by
  have hb := e.body_length
  unfold StreamIterator.skips StreamIterator.beyond StreamIterator.passed
  by_cases hrev : si.rev = true
  · simp only [hrev, Bool.not_true, Bool.false_eq_true, if_false]
    by_cases hlo : e.id ≤ si.end_key ∧ !e.deleted
    · simp only [hlo, and_self, if_true, decide_true, Bool.not_true, Bool.false_eq_true, if_false, decide_eq_true_eq]
    · have hback : lpPrevs n.eles (some (n.pos es + e.skip)) (if e.same then 4 else 5) = .ok (some (n.pos es - 1)) := by
        rw [lpPrevs_le _ (by unfold Entry.skip Node.pos; split_ifs <;> omega)]
        congr 2
        unfold Entry.skip
        split_ifs <;> omega
      simp only [hlo, if_false, decide_false, Bool.not_false, if_true, hback, bind, Except.bind]
  · simp only [hrev, Bool.not_false, if_true]
    by_cases hlo : e.id ≥ si.start_key ∧ !e.deleted
    · simp only [hlo, and_self, if_true, decide_true, Bool.not_true, Bool.false_eq_true, if_false, decide_eq_true_eq]
    · have hskip : lpNexts n.eles (some (n.pos es + e.skip))
          (if e.same then (e.fields.length : ℤ) else e.fields.length * 2).toNat = .ok (some (n.pos (es ++ [e]) - 1)) := by
        rw [Node.pos_append]
        cases hs : e.same
        · simp only [hs, Entry.skip, Bool.false_eq_true, if_false] at hb ⊢
          rw [lpNexts_lt _ (by omega)]
          congr 2
          omega
        · simp only [hs, Entry.skip, if_true] at hb ⊢
          rw [lpNexts_lt _ (by omega)]
          congr 2
          omega
      simp only [hlo, if_false, decide_false, Bool.not_false, if_true, hskip, bind, Except.bind]

theorem readEntry_eq (hn : n.Ok) (hin : In si n) (h : n.entries = es ++ e :: es') (hp : si.lp_ele = some (n.pos es)) :
    si.readEntry n.eles = .ok (if si.skips e then .pass (si.passed n es e)
      else if si.beyond e then .stop (si.head n es e)
      else .emit (si.emitted n es e) e.id e.fields.length) := by
  have hbody := hn.body_lt h
  have hlen := Node.length_split h
  have hflags : lpGetInteger n.eles (some (n.pos es)) = .ok (e.flags : ℤ) :=
    read_number (i := 0) h [] rfl rfl (.ofNat e.flags_lt)
  have hms : lpGetInteger n.eles (some (n.pos es + 1)) = .ok (toInt64 (e.id.ms - n.master.ms)) :=
    read_number h [_] rfl rfl (toInt64_isInt64 _)
  have hseq : lpGetInteger n.eles (some (n.pos es + 2)) = .ok (toInt64 (e.id.seq - n.master.seq)) :=
    read_number h [_, _] rfl rfl (toInt64_isInt64 _)
  have hnext0 : lpNext n.eles (some (n.pos es)) = .ok (some (n.pos es + 1)) := lpNext_lt (by omega)
  have hnext1 : lpNext n.eles (some (n.pos es + 1)) = .ok (some (n.pos es + 2)) := lpNext_lt (by omega)
  have hnext2 : lpNext n.eles (some (n.pos es + 2)) = .ok (some (n.pos es + 3)) := lpNext_lt (by omega)
  have hid : (⟨n.master.ms + toUInt64 (toInt64 (e.id.ms - n.master.ms)),
      n.master.seq + toUInt64 (toInt64 (e.id.seq - n.master.seq))⟩ : StreamID) = e.id := by
    rw [add_delta, add_delta]
  have hbranch := readEntry_branches si n es e (by omega)
  rw [← hbranch]
  have hb := e.body_length
  cases hs : e.same with
  | true =>
    have hcount : si.master_fields_count = e.fields.length := by
      rw [hin.count, ← hn.same e (by simp [h]) hs, List.length_map]
    simp only [StreamIterator.readEntry, bind, Except.bind, hp, hflags, hnext0, hms, hnext1, hseq, hnext2,
      Entry.hasFlag_same, Entry.hasFlag_deleted, hs, hin.master, hid, if_true, hcount, StreamIterator.head,
      StreamIterator.emitted, Entry.skip]
  | false =>
    have hnum : lpGetInteger n.eles (some (n.pos es + 3)) = .ok (e.fields.length : ℤ) :=
      read_number h [_, _, _] (Entry.eles_own hs) rfl (.ofNat (by have := e.fields_le; omega))
    have hnext3 : lpNext n.eles (some (n.pos es + 3)) = .ok (some (n.pos es + 4)) := by
      rw [hs] at hb
      simp only [Bool.false_eq_true, if_false] at hb
      exact lpNext_lt (by omega)
    simp only [StreamIterator.readEntry, bind, Except.bind, hp, hflags, hnext0, hms, hnext1, hseq, hnext2, hnum, hnext3,
      Entry.hasFlag_same, Entry.hasFlag_deleted, hs, hin.master, hid, Bool.false_eq_true, if_false, StreamIterator.head,
      StreamIterator.emitted, Entry.skip]

end Entry

/-! ### Reading the fields -/

section Fields

variable {si : StreamIterator} {lp A B C D : Listpack} {f v : Sds} {fp vp : ℕ}

/-- A field is taken from the master entry, and its value from the entry. -/
theorem getField_same (hlp : si.lp = some lp) (hflag : hasFlag si.entry_flags STREAM_ITEM_FLAG_SAMEFIELDS = true)
    (hfp : si.master_fields_ptr = some fp) (hvp : si.lp_ele = some vp) (hA : lp = A ++ f :: B) (hC : lp = C ++ v :: D)
    (hB : B ≠ []) (hD : D ≠ []) (hfA : fp = A.length) (hvC : vp = C.length) :
    streamIteratorGetField si =
      .ok ({ si with master_fields_ptr := some (fp + 1), lp_ele := some (vp + 1) }, f, v) := by
  have hBlen := List.length_pos_of_ne_nil hB
  have hDlen := List.length_pos_of_ne_nil hD
  have hlenA := congrArg List.length hA
  have hlenC := congrArg List.length hC
  simp only [List.length_append, List.length_cons] at hlenA hlenC
  unfold streamIteratorGetField
  split
  · rename_i hnull
    rw [hlp] at hnull
    cases hnull
  · rename_i lp' hlp'
    rw [hlp, Option.some.injEq] at hlp'
    subst hlp'
    simp only [hflag, hfp, hvp, if_true, lpGet_split hA hfA, lpGet_split hC hvC, bind, Except.bind]
    rw [lpNext_lt (by omega), lpNext_lt (by omega)]

/-- Field and value stand side by side in the entry. -/
theorem getField_own (hlp : si.lp = some lp) (hflag : hasFlag si.entry_flags STREAM_ITEM_FLAG_SAMEFIELDS = false)
    (hvp : si.lp_ele = some vp) (hC : lp = C ++ f :: v :: D) (hD : D ≠ []) (hvC : vp = C.length) :
    streamIteratorGetField si = .ok ({ si with lp_ele := some (vp + 2) }, f, v) := by
  have hDlen := List.length_pos_of_ne_nil hD
  have hlenC := congrArg List.length hC
  simp only [List.length_append, List.length_cons] at hlenC
  have hsecond : lp = (C ++ [f]) ++ v :: D := by rw [hC]; simp
  unfold streamIteratorGetField
  split
  · rename_i hnull
    rw [hlp] at hnull
    cases hnull
  · rename_i lp' hlp'
    rw [hlp, Option.some.injEq] at hlp'
    subst hlp'
    have hnext : lpNext lp (some vp) = .ok (some (vp + 1)) := lpNext_lt (by omega)
    have hvalue : lpGet lp (some (vp + 1)) = .ok v := lpGet_split hsecond (by simp [hvC])
    simp only [hflag, hvp, Bool.false_eq_true, if_false, lpGet_split hC hvC, hnext, hvalue, bind, Except.bind]
    rw [lpNext_lt (by omega)]

theorem getFields_same : ∀ (fs : List (Sds × Sds)) (si : StreamIterator) (A C : Listpack) (fp vp : ℕ), si.lp = some lp →
    hasFlag si.entry_flags STREAM_ITEM_FLAG_SAMEFIELDS = true → si.master_fields_ptr = some fp → si.lp_ele = some vp →
    lp = A ++ (fs.map Prod.fst ++ B) → lp = C ++ (fs.map Prod.snd ++ D) → B ≠ [] → D ≠ [] → fp = A.length → vp = C.length →
    ∃ si', getFields fs.length si = .ok (si', fs) ∧ si' = { si with
      master_fields_ptr := some (fp + fs.length), lp_ele := some (vp + fs.length) }
  | [], si, A, C, fp, vp, _, _, hfp, hvp, _, _, _, _, _, _ => by
    refine ⟨si, rfl, ?_⟩
    rw [List.length_nil, Nat.add_zero, Nat.add_zero, ← hfp, ← hvp]
  | f :: fs, si, A, C, fp, vp, hlp, hflag, hfp, hvp, hA, hC, hB, hD, hfA, hvC => by
    have hfield := getField_same hlp hflag hfp hvp hA hC (by simp [hB]) (by simp [hD]) hfA hvC
    obtain ⟨si', hrest, hsi'⟩ := getFields_same fs { si with master_fields_ptr := some (fp + 1), lp_ele := some (vp + 1) }
      (A ++ [f.1]) (C ++ [f.2]) (fp + 1) (vp + 1) hlp hflag rfl rfl (by rw [hA]; simp) (by rw [hC]; simp) hB hD
      (by simp [hfA]) (by simp [hvC])
    refine ⟨si', ?_, ?_⟩
    · simp only [List.length_cons, getFields, hfield, bind, Except.bind, hrest]
    · rw [hsi', List.length_cons, Nat.add_right_comm fp, Nat.add_right_comm vp]
      rfl

theorem getFields_own : ∀ (fs : List (Sds × Sds)) (si : StreamIterator) (C : Listpack) (vp : ℕ), si.lp = some lp →
    hasFlag si.entry_flags STREAM_ITEM_FLAG_SAMEFIELDS = false → si.lp_ele = some vp →
    lp = C ++ ((fs.flatMap fun fv => [fv.1, fv.2]) ++ D) → D ≠ [] → vp = C.length →
    ∃ si', getFields fs.length si = .ok (si', fs) ∧ si' = { si with lp_ele := some (vp + fs.length * 2) }
  | [], si, C, vp, _, _, hvp, _, _, _ => by
    refine ⟨si, rfl, ?_⟩
    rw [List.length_nil, Nat.zero_mul, Nat.add_zero, ← hvp]
  | f :: fs, si, C, vp, hlp, hflag, hvp, hC, hD, hvC => by
    have hfield := getField_own hlp hflag hvp hC (by simp [hD]) hvC
    obtain ⟨si', hrest, hsi'⟩ := getFields_own fs { si with lp_ele := some (vp + 2) } (C ++ [f.1, f.2]) (vp + 2) hlp hflag
      rfl (by rw [hC]; simp) hD (by simp [hvC])
    refine ⟨si', ?_, ?_⟩
    · simp only [List.length_cons, getFields, hfield, bind, Except.bind, hrest]
    · rw [hsi', List.length_cons, show vp + 2 + fs.length * 2 = vp + (fs.length + 1) * 2 by omega]

end Fields

/-! ### Inside a node -/

/-- The same direction and range. -/
structure SameRange (si si' : StreamIterator) : Prop where
  rev : si'.rev = si.rev
  start_key : si'.start_key = si.start_key
  end_key : si'.end_key = si.end_key

theorem SameRange.refl (si : StreamIterator) : SameRange si si := ⟨rfl, rfl, rfl⟩

theorem SameRange.trans {si si' si'' : StreamIterator} (h : SameRange si si') (h' : SameRange si' si'') :
    SameRange si si'' :=
  ⟨h'.rev.trans h.rev, h'.start_key.trans h.start_key, h'.end_key.trans h.end_key⟩

theorem SameRange.skips {si si' : StreamIterator} (h : SameRange si si') : si'.skips = si.skips := by
  funext e
  simp only [StreamIterator.skips, h.rev, h.start_key, h.end_key]

theorem SameRange.beyond {si si' : StreamIterator} (h : SameRange si si') : si'.beyond = si.beyond := by
  funext e
  simp only [StreamIterator.beyond, h.rev, h.start_key, h.end_key]

/-- The iterator is in the node with `R` left to read there. -/
def At (si : StreamIterator) (n : Node) (R : List Entry) : Prop :=
  In si n ∧ ∃ es es', n.entries = es ++ es' ∧ si.lp_ele = some (n.pos es - 1) ∧ R = if !si.rev then es' else es.reverse

/-- The iterator has emitted an entry, with `R` left to read in the node. -/
structure Emitted (si : StreamIterator) (n : Node) (e : Entry) (R : List Entry) (es es' : List Entry) : Prop where
  inside : In si n
  split : n.entries = es ++ e :: es'
  lp_flags : si.lp_flags = some (n.pos es)
  lp_ele : si.lp_ele = some (n.pos es + e.skip)
  flags : si.entry_flags = e.flags
  ptr : e.same = true → si.master_fields_ptr = some 3
  left : R = if !si.rev then es' else es.reverse

/-- The fields of an entry have been read, with `R` left to read in the node. -/
def Finished (si : StreamIterator) (n : Node) (R : List Entry) : Prop :=
  In si n ∧ ∃ es e es', n.entries = es ++ e :: es' ∧ si.lp_ele = some (n.pos (es ++ [e]) - 1) ∧
    R = if !si.rev then es' else es.reverse

section Inside

variable {si : StreamIterator} {n : Node} {R : List Entry} {es es' : List Entry} {e : Entry}

theorem In.move (h : In si n) (flags ele : Option ℕ) : In { si with lp_flags := flags, lp_ele := ele } n :=
  ⟨h.lp, h.master, h.count, h.start, h.ri⟩

theorem edge_lt (h : n.entries = es ++ es') : n.pos es - 1 < n.eles.length ∧ 4 ≤ n.pos es := by
  have hlen := Node.length_eq h
  have hpos : 4 ≤ n.pos es := by
    unfold Node.pos
    omega
  omega

/-- The count at the end of an entry. -/
theorem read_count (hn : n.Ok) (h : n.entries = es ++ e :: es') :
    lpGetInteger n.eles (some (n.pos (es ++ [e]) - 1)) = .ok ((3 + e.body.length : ℕ) : ℤ) := by
  have hbody := hn.body_lt h
  have heles : e.eles n.master = ([ll2string e.flags, ll2string (toInt64 (e.id.ms - n.master.ms)),
      ll2string (toInt64 (e.id.seq - n.master.seq))] ++ e.body) ++ [ll2string (3 + e.body.length : ℕ)] := by
    simp [Entry.eles]
  have hcount := read_number h _ heles rfl (.ofNat (by omega))
  rw [Node.pos_append]
  convert hcount using 3
  simp only [List.length_append, List.length_cons, List.length_nil]
  omega

/-- The zero at the end of the master entry. -/
theorem read_zero (hpos : es = []) : lpGetInteger n.eles (some (n.pos es - 1)) = .ok 0 := by
  have heles : n.eles = ([ll2string n.valid, ll2string n.deleted, ll2string n.names.length] ++ n.names) ++
      ll2string 0 :: n.entries.flatMap (Entry.eles n.master) := by
    simp [Node.eles, Node.header]
  refine lpGetInteger_split heles ?_ ⟨by omega, by omega⟩
  rw [hpos, Node.pos]
  simp only [List.length_append, List.length_cons, List.length_nil, List.flatMap_nil]
  omega

/-- At the end of the node. -/
theorem visit_nil (h : At si n []) : ∃ si', si.visit n.eles = .ok (.leave si') ∧ SameRange si si' ∧ si'.ri = si.ri ∧
    (si'.lp = none ∨ si'.lp_ele = none) := by
  obtain ⟨hin, es, es', hsplit, hele, hR⟩ := h
  unfold StreamIterator.visit
  by_cases hrev : si.rev = true
  · have hes : es = [] := by simpa [hrev] using hR
    simp only [hrev, Bool.not_true, Bool.false_eq_true, if_false, hele, read_zero hes, bind, Except.bind, if_true]
    exact ⟨_, rfl, ⟨hrev.symm, rfl, rfl⟩, rfl, .inl rfl⟩
  · have hes : es' = [] := by simpa [hrev] using hR.symm
    have hlen := Node.length_eq hsplit
    have hpos := (edge_lt hsplit).2
    rw [hes, List.flatMap_nil, List.length_nil] at hlen
    have hend : lpNext n.eles (some (n.pos es - 1)) = .ok none := lpNext_end (by omega)
    simp only [hrev, Bool.not_false, if_true, hele, hend, bind, Except.bind]
    exact ⟨_, rfl, ⟨by simpa using hrev, rfl, rfl⟩, rfl, .inr rfl⟩

/-- At an entry. -/
theorem visit_cons (hn : n.Ok) (h : At si n (e :: R)) : ∃ es es', n.entries = es ++ e :: es' ∧
    (R = if !si.rev then es' else es.reverse) ∧
    si.visit n.eles = .ok (if si.skips e then .pass (si.passed n es e)
      else if si.beyond e then .stop (si.head n es e)
      else .emit (si.emitted n es e) e.id e.fields.length) := by
  obtain ⟨hin, es, es', hsplit, hele, hR⟩ := h
  have hpos := (edge_lt hsplit).2
  unfold StreamIterator.visit
  by_cases hrev : si.rev = true
  · obtain ⟨es₀, rfl⟩ : ∃ es₀, es = es₀ ++ [e] := by
      have hrevd : es = (e :: R).reverse := by
        rw [hR]
        simp [hrev]
      exact ⟨R.reverse, by rw [hrevd, List.reverse_cons]⟩
    have hsplit' : n.entries = es₀ ++ e :: es' := by simpa using hsplit
    have hRr : R = es₀.reverse := by simpa [hrev] using hR
    refine ⟨es₀, es', hsplit', by simpa [hrev] using hRr, ?_⟩
    have hbody := hn.body_lt hsplit'
    have hpos₀ := (edge_lt hsplit').2
    have hback : lpPrevs n.eles (some (n.pos (es₀ ++ [e]) - 1)) (3 + e.body.length) = .ok (some (n.pos es₀)) := by
      rw [Node.pos_append, lpPrevs_le _ (by omega)]
      congr 2
      omega
    have hne : ((3 + e.body.length : ℕ) : ℤ) ≠ 0 := by omega
    rw [if_neg (by simp [hrev])]
    simp only [hele, read_count hn hsplit', hne, if_false, countdown_ofNat, hback, bind, Except.bind]
    exact readEntry_eq hn (hin.move si.lp_flags (some (n.pos es₀))) hsplit' rfl
  · have hes : es' = e :: R := by simpa [hrev] using hR.symm
    subst hes
    have hlen := Node.length_split hsplit
    refine ⟨es, R, hsplit, by simp [hrev], ?_⟩
    have hnext : lpNext n.eles (some (n.pos es - 1)) = .ok (some (n.pos es)) := by
      rw [lpNext_lt (by omega)]
      congr 2
      omega
    rw [if_pos (by simp [hrev])]
    simp only [hele, hnext, bind, Except.bind, reduceCtorEq, if_false]
    exact readEntry_eq hn (hin.move si.lp_flags (some (n.pos es))) hsplit rfl

theorem At.passed (h : In si n) (hsplit : n.entries = es ++ e :: es')
    (hR : R = if !si.rev then es' else es.reverse) : At (si.passed n es e) n R := by
  refine ⟨h.move _ _, ?_⟩
  by_cases hrev : si.rev = true
  · refine ⟨es, e :: es', hsplit, ?_, ?_⟩
    · simp [StreamIterator.passed, StreamIterator.head, hrev]
    · simpa [StreamIterator.passed, StreamIterator.head, hrev] using hR
  · refine ⟨es ++ [e], es', by simpa using hsplit, ?_, ?_⟩
    · simp [StreamIterator.passed, StreamIterator.head, hrev]
    · simpa [StreamIterator.passed, StreamIterator.head, hrev] using hR

theorem Emitted.of_head (h : In si n) (hsplit : n.entries = es ++ e :: es')
    (hR : R = if !si.rev then es' else es.reverse) : Emitted (si.emitted n es e) n e R es es' where
  inside := ⟨h.lp, h.master, h.count, h.start, h.ri⟩
  split := hsplit
  lp_flags := rfl
  lp_ele := rfl
  flags := rfl
  ptr hs := by
    simp only [StreamIterator.emitted, hs, if_true, h.start]
  left := hR

/-- What a search among the entries `R` comes to: nothing, or the first that is not skipped, with what is left
after it. -/
def Found (skips : Entry → Bool) (R : List Entry) (P : Prop) (Q : Entry → List Entry → Prop) : Prop :=
  match R.dropWhile skips with
  | [] => P
  | e :: R' => Q e R'

theorem Found.imp {skips : Entry → Bool} {R : List Entry} {P P' : Prop} {Q Q' : Entry → List Entry → Prop}
    (h : Found skips R P Q) (hP : P → P') (hQ : ∀ e R', Q e R' → Q' e R') : Found skips R P' Q' := by
  unfold Found at h ⊢
  split
  · next heq =>
    rw [heq] at h
    exact hP h
  · next e R' heq =>
    rw [heq] at h
    exact hQ e R' h

theorem Found.skip {skips : Entry → Bool} {R : List Entry} {P : Prop} {Q : Entry → List Entry → Prop} {e : Entry}
    (he : skips e = true) (h : Found skips R P Q) : Found skips (e :: R) P Q := by
  unfold Found
  rw [List.dropWhile_cons_of_pos he]
  exact h

theorem Found.here {skips : Entry → Bool} {R : List Entry} {P : Prop} {Q : Entry → List Entry → Prop} {e : Entry}
    (he : skips e = false) (h : Q e R) : Found skips (e :: R) P Q := by
  unfold Found
  rw [List.dropWhile_cons_of_neg (by simp [he])]
  exact h

/-- The entries of a node are scanned. -/
theorem scan_spec (hn : n.Ok) : ∀ (R : List Entry) {si : StreamIterator} (fuel : ℕ), At si n R → R.length < fuel →
    Found si.skips R
      (∃ si', si.scan n.eles fuel = .ok (.leave si') ∧ SameRange si si' ∧ si'.ri = .at n.master ∧
        (si'.lp = none ∨ si'.lp_ele = none))
      fun e R' =>
        if si.beyond e then ∃ si', si.scan n.eles fuel = .ok (.stop si')
        else ∃ si' es es', si.scan n.eles fuel = .ok (.emit si' e.id e.fields.length) ∧ Emitted si' n e R' es es' ∧
          SameRange si si'
  | [], si, fuel + 1, h, _ => by
    obtain ⟨si', hvisit, hsame, hri, hend⟩ := visit_nil h
    refine ⟨si', ?_, hsame, hri.trans h.1.ri, hend⟩
    simp only [StreamIterator.scan, hvisit, bind, Except.bind]
  | e :: R, si, fuel + 1, h, hfuel => by
    obtain ⟨es, es', hsplit, hR, hvisit⟩ := visit_cons hn h
    cases hskip : si.skips e with
    | true =>
      have hsame : SameRange si (si.passed n es e) := ⟨rfl, rfl, rfl⟩
      have hscan : si.scan n.eles (fuel + 1) = (si.passed n es e).scan n.eles fuel := by
        simp only [StreamIterator.scan, hvisit, hskip, if_true, bind, Except.bind]
      have hrest := scan_spec hn R fuel (At.passed h.1 hsplit hR) (by rw [List.length_cons] at hfuel; omega)
      rw [hsame.skips, hsame.beyond] at hrest
      simp only [hscan]
      refine Found.skip hskip (hrest.imp ?_ ?_)
      · rintro ⟨si', hleave, hrange, hri, hend⟩
        exact ⟨si', hleave, hsame.trans hrange, hri, hend⟩
      · intro e' R' hQ
        split at hQ
        · rwa [if_pos ‹_›]
        · rw [if_neg ‹_›]
          obtain ⟨si', es1, es1', hemit, hemitted, hrange⟩ := hQ
          exact ⟨si', es1, es1', hemit, hemitted, hsame.trans hrange⟩
    | false =>
      refine Found.here hskip ?_
      cases hbeyond : si.beyond e with
      | true =>
        rw [if_pos rfl]
        refine ⟨si.head n es e, ?_⟩
        simp only [StreamIterator.scan, hvisit, hskip, hbeyond, Bool.false_eq_true, if_false, if_true, bind, Except.bind]
      | false =>
        rw [if_neg (by simp)]
        refine ⟨si.emitted n es e, es, es', ?_, .of_head h.1 hsplit hR, ⟨rfl, rfl, rfl⟩⟩
        simp only [StreamIterator.scan, hvisit, hskip, hbeyond, Bool.false_eq_true, if_false, bind, Except.bind]

theorem backUp_eq {lp : Listpack} {p k : ℕ} (hele : si.lp_ele = some p) (hcount : lpGetInteger lp (some p) = .ok (k : ℤ))
    (hk : k < 2 ^ 31) (hkp : k < p) : si.backUp lp = .ok { si with lp_ele := some (p - k - 1) } := by
  rw [StreamIterator.backUp, hele, hcount, ok_bind, asInt_ofNat hk, countdown_ofNat, ok_bind, lpPrevs_le k hkp.le, ok_bind,
    lpPrev_pos (Nat.sub_pos_of_lt hkp), ok_bind]

/-- After the fields of an entry, the iteration goes on with what is left. -/
theorem finished_next (hn : n.Ok) (h : Finished si n R) :
    ∃ si', (if si.rev then si.backUp n.eles else .ok si) = .ok si' ∧ At si' n R ∧ SameRange si si' := by
  obtain ⟨hin, es, e, es', hsplit, hele, hR⟩ := h
  by_cases hrev : si.rev = true
  · have hbody := hn.body_lt hsplit
    have hpos := (edge_lt hsplit).2
    have hlast : n.pos (es ++ [e]) - 1 - (3 + e.body.length) - 1 = n.pos es - 1 := by
      rw [Node.pos_append]
      omega
    have hback := backUp_eq hele (read_count hn hsplit) (by omega) (by rw [Node.pos_append]; omega)
    rw [hlast] at hback
    refine ⟨{ si with lp_ele := some (n.pos es - 1) }, ?_, ⟨hin.move _ _, es, e :: es', hsplit, rfl, ?_⟩, ⟨rfl, rfl, rfl⟩⟩
    · rw [if_pos hrev, hback]
    · simpa [hrev] using hR
  · refine ⟨si, by rw [if_neg hrev], ⟨hin, es ++ [e], es', by simpa using hsplit, hele, ?_⟩, .refl si⟩
    simpa [hrev] using hR

/-- Goes to the first entry of the node. -/
theorem enter_spec (hn : n.Ok) (si : StreamIterator) :
    ∃ si', si.enter (n.master, n.eles) = .ok si' ∧ At si' n (if !si.rev then n.entries else n.entries.reverse) ∧
      SameRange si si' := by
  have hlen := Node.length_eq (show n.entries = [] ++ n.entries from rfl)
  rw [Node.pos, List.flatMap_nil, List.length_nil] at hlen
  have hlt := hn.length_lt
  have hfirst : lpFirst n.eles = some 0 := lpFirst_cons
  have hnexts : lpNexts n.eles (some 0) 2 = .ok (some 2) := lpNexts_lt 2 (by omega)
  have hcount : lpGetInteger n.eles (some 2) = .ok (n.names.length : ℤ) :=
    lpGetInteger_split (show n.eles = [_, _] ++ _ :: _ from rfl) rfl (.ofNat (by omega))
  have hnext : lpNext n.eles (some 2) = .ok (some 3) := lpNext_lt (by omega)
  let start : StreamIterator := { si with
    master_id := n.master, master_fields_count := n.names.length, master_fields_start := some 3, ri := .at n.master,
    lp := some n.eles }
  have hin : ∀ ele, In { start with lp_ele := ele } n := fun ele => ⟨rfl, rfl, rfl, rfl, rfl⟩
  by_cases hrev : si.rev = true
  · have hlast : lpLast n.eles = some (n.eles.length - 1) := by
      rw [lpLast, if_neg]
      intro hnil
      rw [hnil, List.length_nil] at hlen
      omega
    refine ⟨{ start with lp_ele := some (n.eles.length - 1) }, ?_, ⟨hin _, n.entries, [], by simp, ?_, ?_⟩, ⟨rfl, rfl, rfl⟩⟩
    · simp only [StreamIterator.enter, hfirst, hnexts, hcount, hnext, bind, Except.bind]
      rw [if_neg (by simp [hrev]), hlast]
    · have hall := Node.length_eq (show n.entries = n.entries ++ [] by simp)
      rw [List.flatMap_nil, List.length_nil, Nat.add_zero] at hall
      rw [hall]
    · simp [start, hrev]
  · refine ⟨{ start with lp_ele := some (3 + n.names.length) }, ?_, ⟨hin _, [], n.entries, rfl, ?_, ?_⟩, ⟨rfl, rfl, rfl⟩⟩
    · simp only [StreamIterator.enter, hfirst, hnexts, hcount, hnext, bind, Except.bind]
      rw [if_pos (by simp [hrev]), Int.toNat_natCast, lpNexts_lt _ (by omega)]
    · rw [Node.pos, List.flatMap_nil, List.length_nil, show 4 + n.names.length + 0 - 1 = 3 + n.names.length by omega]
    · simp [start, hrev]

/-- The fields of the entry are those it was added with. -/
theorem getFields_spec (hn : n.Ok) (h : Emitted si n e R es es') :
    ∃ si', getFields e.fields.length si = .ok (si', e.fields) ∧ Finished si' n R ∧ SameRange si si' := by
  have hb := e.body_length
  have hflag : hasFlag si.entry_flags STREAM_ITEM_FLAG_SAMEFIELDS = e.same := by rw [h.flags, Entry.hasFlag_same]
  have hele := h.lp_ele
  have hfinish : ∀ ptr ele, ele = n.pos (es ++ [e]) - 1 →
      Finished { si with master_fields_ptr := ptr, lp_ele := some ele } n R := by
    intro ptr ele hpos
    refine ⟨⟨h.inside.lp, h.inside.master, h.inside.count, h.inside.start, h.inside.ri⟩, es, e, es', h.split, ?_, h.left⟩
    rw [hpos]
  rw [Node.pos_append] at hfinish
  cases hs : e.same with
  | true =>
    rw [hs] at hflag
    rw [Entry.skip, hs, if_pos rfl] at hele
    rw [hs, if_pos rfl] at hb
    have hnames := hn.same e (by simp [h.split]) hs
    have hA : n.eles = [ll2string n.valid, ll2string n.deleted, ll2string n.names.length] ++
        (e.fields.map Prod.fst ++ (ll2string 0 :: n.entries.flatMap (Entry.eles n.master))) := by
      simp [Node.eles, Node.header, hnames]
    have hC : n.eles = ((n.header ++ es.flatMap (Entry.eles n.master)) ++ [ll2string e.flags,
        ll2string (toInt64 (e.id.ms - n.master.ms)), ll2string (toInt64 (e.id.seq - n.master.seq))]) ++
        (e.fields.map Prod.snd ++ (ll2string (3 + e.body.length : ℕ) :: es'.flatMap (Entry.eles n.master))) := by
      rw [Node.eles_split h.split, Entry.eles]
      simp [Entry.body, hs]
    obtain ⟨si', hget, hsi'⟩ := getFields_same e.fields si _ _ 3 (n.pos es + 3) h.inside.lp hflag (h.ptr hs) hele hA hC
      (by simp) (by simp) rfl (by rw [Node.pos_eq]; simp; omega)
    refine ⟨si', hget, ?_, ?_⟩
    · rw [hsi']
      exact hfinish _ _ (by omega)
    · rw [hsi']
      exact ⟨rfl, rfl, rfl⟩
  | false =>
    rw [hs] at hflag
    rw [Entry.skip, hs, if_neg (by simp)] at hele
    rw [hs, if_neg (by simp)] at hb
    have hC : n.eles = ((n.header ++ es.flatMap (Entry.eles n.master)) ++ [ll2string e.flags,
        ll2string (toInt64 (e.id.ms - n.master.ms)), ll2string (toInt64 (e.id.seq - n.master.seq)),
        ll2string e.fields.length]) ++ ((e.fields.flatMap fun fv => [fv.1, fv.2]) ++
          (ll2string (3 + e.body.length : ℕ) :: es'.flatMap (Entry.eles n.master))) := by
      rw [Node.eles_split h.split, Entry.eles_own hs]
      simp
    obtain ⟨si', hget, hsi'⟩ := getFields_own e.fields si _ (n.pos es + 4) h.inside.lp hflag hele hC (by simp)
      (by rw [Node.pos_eq]; simp; omega)
    refine ⟨si', hget, ?_, ?_⟩
    · rw [hsi']
      exact hfinish si.master_fields_ptr _ (by omega)
    · rw [hsi']
      exact ⟨rfl, rfl, rfl⟩

end Inside

/-! ### From node to node -/

/-- What the tree gives next. -/
def step (s : Stream) (rev : Bool) (ri : RaxIterator) : Option (StreamID × Listpack) :=
  if rev then raxPrev s.rax ri else raxNext s.rax ri

/-- The iterator of the tree goes to the nodes `ms` next. -/
def Upcoming (s : Stream) (ns : List Node) (rev : Bool) (ri : RaxIterator) (ms : List Node) : Prop :=
  step s rev ri = ms.head?.map Node.binding ∧ ∃ other, ns = if !rev then other ++ ms else ms.reverse ++ other

/-- The entries of a node as they are read. -/
def order (rev : Bool) (n : Node) : List Entry := if !rev then n.entries else n.entries.reverse

/-- An entry was emitted, with `L` left to read. -/
def Hit (s : Stream) (ns : List Node) (si : StreamIterator) (e : Entry) (L : List Entry) : Prop :=
  ∃ n R es es' ms, n ∈ ns ∧ Emitted si n e R es es' ∧ Upcoming s ns si.rev (.at n.master) ms ∧
    L = R ++ ms.flatMap (order si.rev)

/-- The iterator has `L` left to read. -/
def Left (s : Stream) (ns : List Node) (si : StreamIterator) (L : List Entry) : Prop :=
  (si.lp = none ∧ ∃ ms, Upcoming s ns si.rev si.ri ms ∧ L = ms.flatMap (order si.rev)) ∨
    ∃ n R ms, n ∈ ns ∧ Finished si n R ∧ Upcoming s ns si.rev (.at n.master) ms ∧ L = R ++ ms.flatMap (order si.rev)

section Nodes

variable {s : Stream} {ns ms : List Node} {si : StreamIterator} {n : Node} {e : Entry} {L : List Entry}

theorem Found.append {skips : Entry → Bool} {R S : List Entry} {P : Prop} {Q : Entry → List Entry → Prop}
    (h : Found skips R (Found skips S P Q) fun e R' => Q e (R' ++ S)) : Found skips (R ++ S) P Q := by
  induction R with
  | nil => exact h
  | cons e R ih =>
    unfold Found at h
    cases he : skips e with
    | true =>
      rw [List.dropWhile_cons_of_pos he] at h
      exact Found.skip he (ih h)
    | false =>
      rw [List.dropWhile_cons_of_neg (by simp [he])] at h
      exact Found.here he h

/-- After a node come the ones behind it, in reverse the ones before. -/
theorem Represents.upcoming_at (h : Represents s ns) {pre post : List Node} (hns : ns = pre ++ n :: post) (rev : Bool) :
    Upcoming s ns rev (.at n.master) (if !rev then post else pre.reverse) := by
  have hrax : s.rax.entries = pre.map Node.binding ++ (n.master, n.eles) :: post.map Node.binding := by
    rw [h.rax, hns, List.map_append, List.map_cons]
    rfl
  cases rev with
  | true =>
    refine ⟨?_, n :: post, by simpa using hns⟩
    show s.rax.prev? n.master = _
    rw [SortedMap.prev?_split hrax, List.getLast?_map]
    simp
  | false =>
    refine ⟨?_, pre ++ [n], by simpa using hns⟩
    show s.rax.next? n.master = _
    rw [SortedMap.next?_split hrax, List.head?_map]
    rfl

/-- Having gone to a node, the iterator goes to the others next. -/
theorem Upcoming.tail (h : Represents s ns) {rev : Bool} {ri : RaxIterator} (hup : Upcoming s ns rev ri (n :: ms)) :
    n ∈ ns ∧ Upcoming s ns rev (.at n.master) ms := by
  obtain ⟨-, other, hns⟩ := hup
  cases rev with
  | true =>
    have hns : ns = ms.reverse ++ n :: other := by simpa using hns
    have hup := h.upcoming_at hns true
    simp only [Bool.not_true, Bool.false_eq_true, if_false, List.reverse_reverse] at hup
    exact ⟨by simp [hns], hup⟩
  | false =>
    have hns : ns = other ++ n :: ms := by simpa using hns
    exact ⟨by simp [hns], h.upcoming_at hns false⟩

theorem length_order (rev : Bool) (n : Node) : (order rev n).length = n.entries.length := by
  unfold order
  split
  · rfl
  · rw [List.length_reverse]

theorem Node.entries_lt (n : Node) : n.entries.length < n.eles.length := by
  have hlen := Node.length_eq (show n.entries = [] ++ n.entries from rfl)
  have hflat : ∀ es : List Entry, es.length ≤ (es.flatMap (Entry.eles n.master)).length := by
    intro es
    induction es with
    | nil => exact le_rfl
    | cons e es ih =>
      rw [List.flatMap_cons, List.length_append, Entry.eles_length, List.length_cons]
      omega
  have hle := hflat n.entries
  unfold Node.pos at hlen
  omega

/-- The nodes are gone through until an entry is not skipped. -/
theorem nodes_spec (h : Represents s ns) : ∀ (ms : List Node) {si : StreamIterator} (fuel : ℕ),
    Upcoming s ns si.rev si.ri ms → ms.length < fuel →
    Found si.skips (ms.flatMap (order si.rev)) (∃ si', si.nodes s fuel = .ok (si', none))
      fun e L => if si.beyond e then ∃ si', si.nodes s fuel = .ok (si', none)
        else ∃ si', si.nodes s fuel = .ok (si', some (e.id, e.fields.length)) ∧ Hit s ns si' e L ∧ SameRange si si' := by
  intro ms
  induction ms with
  | nil =>
    intro si fuel hup hfuel
    obtain ⟨fuel, rfl⟩ := Nat.exists_eq_succ_of_ne_zero (Nat.ne_zero_of_lt hfuel)
    have hstep : (if si.rev = true then raxPrev s.rax si.ri else raxNext s.rax si.ri) = none := hup.1
    refine ⟨{ si with ri := .eof }, ?_⟩
    simp only [StreamIterator.nodes, hstep]
  | cons n ms ih =>
    intro si fuel hup hfuel
    obtain ⟨fuel, rfl⟩ := Nat.exists_eq_succ_of_ne_zero (Nat.ne_zero_of_lt hfuel)
    have hstep : (if si.rev = true then raxPrev s.rax si.ri else raxNext s.rax si.ri) = some (n.master, n.eles) := hup.1
    obtain ⟨hn, hup'⟩ := hup.tail h
    have hok := h.ok n hn
    obtain ⟨si1, henter, hat, hrange⟩ := enter_spec hok si
    have hscan := scan_spec hok _ (n.eles.length + 1) hat (by
      have hlt := n.entries_lt
      have hlen := length_order si.rev n
      unfold order at hlen
      omega)
    have hemits : ∀ si' id numfields, si1.scan n.eles (n.eles.length + 1) = .ok (.emit si' id numfields) →
        si.nodes s (fuel + 1) = .ok (si', some (id, numfields)) := by
      intro si' id numfields hv
      simp only [StreamIterator.nodes, hstep, henter, hv, bind, Except.bind]
    have hstops : ∀ si', si1.scan n.eles (n.eles.length + 1) = .ok (.stop si') → si.nodes s (fuel + 1) = .ok (si', none) := by
      intro si' hv
      simp only [StreamIterator.nodes, hstep, henter, hv, bind, Except.bind]
    have hleaves : ∀ si', si1.scan n.eles (n.eles.length + 1) = .ok (.leave si') → si.nodes s (fuel + 1) = si'.nodes s fuel := by
      intro si' hv
      simp only [StreamIterator.nodes, hstep, henter, hv, bind, Except.bind]
    rw [hrange.skips, hrange.beyond] at hscan
    rw [List.flatMap_cons]
    refine Found.append (hscan.imp ?_ ?_)
    · rintro ⟨si2, hleave, hrange2, hri, -⟩
      have hrange2 := hrange.trans hrange2
      have hrest := ih fuel (show Upcoming s ns si2.rev si2.ri ms by rw [hrange2.rev, hri]; exact hup')
        (by rw [List.length_cons] at hfuel; omega)
      rw [hrange2.skips, hrange2.beyond, hrange2.rev] at hrest
      simp only [hleaves _ hleave]
      refine hrest.imp (fun h => h) ?_
      intro e L hQ
      split at hQ
      · rwa [if_pos ‹_›]
      · rw [if_neg ‹_›]
        obtain ⟨si', hemit, hhit, hsame⟩ := hQ
        exact ⟨si', hemit, hhit, hrange2.trans hsame⟩
    · intro e R hQ
      split at hQ
      · rw [if_pos ‹_›]
        obtain ⟨si', hstop⟩ := hQ
        exact ⟨si', hstops _ hstop⟩
      · rw [if_neg ‹_›]
        obtain ⟨si', es, es', hemit, hemitted, hrange2⟩ := hQ
        have hrange2 := hrange.trans hrange2
        refine ⟨si', hemits _ _ _ hemit, ⟨n, R, es, es', ms, hn, hemitted, ?_, ?_⟩, hrange2⟩
        · rw [hrange2.rev]
          exact hup'
        · rw [hrange2.rev]

theorem Upcoming.length_le {rev : Bool} {ri : RaxIterator} (hup : Upcoming s ns rev ri ms) : ms.length ≤ ns.length := by
  obtain ⟨-, other, hns⟩ := hup
  rw [hns]
  split
  · rw [List.length_append]
    omega
  · rw [List.length_append, List.length_reverse]
    omega

/-- **The next entry.** The entries left are read up to the first that is live and in the range at its near end. -/
theorem streamIteratorGetID_spec (h : Represents s ns) (hleft : Left s ns si L) :
    Found si.skips L (∃ si', streamIteratorGetID s si = .ok (si', none))
      fun e L' => if si.beyond e then ∃ si', streamIteratorGetID s si = .ok (si', none)
        else ∃ si', streamIteratorGetID s si = .ok (si', some (e.id, e.fields.length)) ∧ Hit s ns si' e L' ∧
          SameRange si si' := by
  have hlen : s.rax.entries.length = ns.length := by rw [h.rax, List.length_map]
  rcases hleft with ⟨hlp, ms, hup, rfl⟩ | ⟨n, R, ms, hn, hfin, hup, rfl⟩
  · have hget : streamIteratorGetID s si = si.nodes s (s.rax.entries.length + 1) := by
      unfold streamIteratorGetID
      rw [hlp]
    rw [hget]
    exact nodes_spec h ms _ hup (by have := hup.length_le; omega)
  · have hok := h.ok n hn
    obtain ⟨si1, hback, hat, hrange⟩ := finished_next hok hfin
    obtain ⟨hin, es0, e0, es0', -, hele, -⟩ := hfin
    have hscan := scan_spec hok R (n.eles.length + 1) hat (by
      obtain ⟨-, es, es', hsplit, -, hR⟩ := hat
      have hlt := n.entries_lt
      have hlenR : R.length ≤ n.entries.length := by
        rw [hR, hsplit, List.length_append]
        split
        · omega
        · rw [List.length_reverse]
          omega
      omega)
    obtain ⟨hemits, hstops, hleaves⟩ : (∀ si' id numfields, si1.scan n.eles (n.eles.length + 1) = .ok (.emit si' id numfields) →
          streamIteratorGetID s si = .ok (si', some (id, numfields))) ∧
        (∀ si', si1.scan n.eles (n.eles.length + 1) = .ok (.stop si') → streamIteratorGetID s si = .ok (si', none)) ∧
        ∀ si', si1.scan n.eles (n.eles.length + 1) = .ok (.leave si') →
          streamIteratorGetID s si = si'.nodes s (s.rax.entries.length + 1) := by
      unfold streamIteratorGetID
      rw [hin.lp]
      by_cases hrev : si.rev = true
      · rw [if_pos hrev] at hback
        refine ⟨fun _ _ _ hv => ?_, fun _ hv => ?_, fun _ hv => ?_⟩ <;>
          simp only [hele, reduceCtorEq, if_false, hrev, if_true, hback, hv, bind, Except.bind]
      · rw [if_neg hrev] at hback
        cases hback
        refine ⟨fun _ _ _ hv => ?_, fun _ hv => ?_, fun _ hv => ?_⟩ <;>
          simp only [hele, reduceCtorEq, if_false, hrev, hv, bind, Except.bind]
    rw [hrange.skips, hrange.beyond] at hscan
    refine Found.append (hscan.imp ?_ ?_)
    · rintro ⟨si2, hleave, hrange2, hri, -⟩
      have hrange2 := hrange.trans hrange2
      have hrest := nodes_spec h ms (s.rax.entries.length + 1)
        (show Upcoming s ns si2.rev si2.ri ms by rw [hrange2.rev, hri]; exact hup)
        (by have := hup.length_le; omega)
      rw [hrange2.skips, hrange2.beyond, hrange2.rev] at hrest
      simp only [hleaves _ hleave]
      refine hrest.imp (fun h => h) ?_
      intro e L hQ
      split at hQ
      · rwa [if_pos ‹_›]
      · rw [if_neg ‹_›]
        obtain ⟨si', hemit, hhit, hsame⟩ := hQ
        exact ⟨si', hemit, hhit, hrange2.trans hsame⟩
    · intro e R' hQ
      split at hQ
      · rw [if_pos ‹_›]
        obtain ⟨si', hstop⟩ := hQ
        exact ⟨si', hstops _ hstop⟩
      · rw [if_neg ‹_›]
        obtain ⟨si', es, es', hemit, hemitted, hrange2⟩ := hQ
        have hrange2 := hrange.trans hrange2
        refine ⟨si', hemits _ _ _ hemit, ⟨n, R', es, es', ms, hn, hemitted, ?_, ?_⟩, hrange2⟩
        · rw [hrange2.rev]
          exact hup
        · rw [hrange2.rev]

/-- The fields of the entry emitted are those it was added with, and the iteration may go on. -/
theorem Hit.getFields (h : Represents s ns) (hhit : Hit s ns si e L) :
    ∃ si', getFields e.fields.length si = .ok (si', e.fields) ∧ Left s ns si' L ∧ SameRange si si' := by
  obtain ⟨n, R, es, es', ms, hn, hemitted, hup, hL⟩ := hhit
  obtain ⟨si', hget, hfin, hrange⟩ := getFields_spec (h.ok n hn) hemitted
  refine ⟨si', hget, .inr ⟨n, R, ms, hn, hfin, ?_, ?_⟩, hrange⟩
  · rw [hrange.rev]
    exact hup
  · rw [hrange.rev]
    exact hL

/-! ### The start -/

/-- All entries, as they are read. -/
def reading (rev : Bool) (ns : List Node) : List Entry :=
  if !rev then ns.flatMap Node.entries else (ns.flatMap Node.entries).reverse

theorem flatMap_order (rev : Bool) (ms : List Node) :
    ms.flatMap (order rev) = reading rev (if !rev then ms else ms.reverse) := by
  cases rev with
  | true =>
    show ms.flatMap (fun n => n.entries.reverse) = (ms.reverse.flatMap Node.entries).reverse
    rw [List.reverse_flatMap]
    simp [Function.comp_def]
  | false => rfl

theorem step_seek (rev : Bool) (e : Option (StreamID × Listpack)) : step s rev (.seek e) = e := by
  cases e with
  | none => cases rev <;> rfl
  | some e => cases rev <;> rfl

/-- From the end, all nodes are upcoming. -/
theorem Represents.upcoming_end (h : Represents s ns) (rev : Bool) :
    Upcoming s ns rev (.seek (if !rev then s.rax.first? else s.rax.last?)) (if !rev then ns else ns.reverse) := by
  refine ⟨?_, ?_⟩
  · rw [step_seek, SortedMap.first?, SortedMap.last?, h.rax]
    cases rev with
    | true => simp [List.getLast?_map]
    | false => simp [List.head?_map]
  · cases rev with
    | true => exact ⟨[], by simp⟩
    | false => exact ⟨[], rfl⟩

/-- The iterator does not go to the nodes that are all before `key`, in reverse not to those behind it. -/
theorem Represents.upcoming_seekLe (h : Represents s ns) (key : StreamID) (rev : Bool) :
    ∃ ms pre, Upcoming s ns rev (seekLeOr s.rax key (if !rev then s.rax.first? else s.rax.last?)) ms ∧
      reading rev ns = pre ++ ms.flatMap (order rev) ∧
      ∀ e ∈ pre, e.deleted = false → if !rev then e.id < key else key < e.id := by
  obtain ⟨a, b, hab, hseek, ha, hb⟩ := s.rax.seekLe?_split key
  rw [h.rax] at hab
  obtain ⟨na, nb, hns, rfl, rfl⟩ := List.map_eq_append_iff.mp hab
  unfold seekLeOr
  rcases List.eq_nil_or_concat na with rfl | ⟨na, n, rfl⟩
  · rw [hseek]
    refine ⟨_, [], h.upcoming_end rev, ?_, nofun⟩
    rw [flatMap_order, List.nil_append]
    cases rev <;> simp
  · rw [List.concat_eq_append] at hns ha hseek
    rw [List.append_assoc, List.singleton_append] at hns
    rw [hseek, List.map_append, List.getLast?_append, List.map_singleton, List.getLast?_singleton, Option.some_or]
    show ∃ ms pre, Upcoming s ns rev (.sought n.binding) ms ∧ _
    have hsought : ∀ ms : List Node, step s rev (.sought n.binding) = (n :: ms).head?.map Node.binding := by
      intro ms
      cases rev <;> rfl
    have hn : n.master ≤ key := ha n.binding (by simp)
    have hbefore := h.before
    rw [hns, List.pairwise_append] at hbefore
    cases rev with
    | false =>
      refine ⟨n :: nb, na.flatMap Node.entries, ⟨hsought nb, na, hns⟩, ?_, ?_⟩
      · rw [flatMap_order]
        show ns.flatMap Node.entries = na.flatMap Node.entries ++ (n :: nb).flatMap Node.entries
        rw [hns, List.flatMap_append]
      · intro e he hlive
        obtain ⟨m, hm, hem⟩ := List.mem_flatMap.mp he
        exact (hbefore.2.2 m hm n List.mem_cons_self e (mem_live.mpr ⟨hem, hlive⟩)).trans_le hn
    | true =>
      refine ⟨n :: na.reverse, (nb.flatMap Node.entries).reverse, ⟨hsought _, nb, by simpa using hns⟩, ?_, ?_⟩
      · rw [flatMap_order]
        show (ns.flatMap Node.entries).reverse = _ ++ ((n :: na.reverse).reverse.flatMap Node.entries).reverse
        rw [hns]
        simp
      · intro e he _
        obtain ⟨m, hm, hem⟩ := List.mem_flatMap.mp (List.mem_reverse.mp he)
        have hkey : key < m.master := hb m.binding (List.mem_map_of_mem hm)
        exact hkey.trans_le ((h.ok m (by simp [hns, hm])).above e hem)

/-- An iterator that starts has left to read all entries but some that it would skip. -/
theorem start_left (h : Represents s ns) (start stop : Option StreamID) (rev : Bool) :
    ∃ pre L, reading rev ns = pre ++ L ∧ (∀ e ∈ pre, (streamIteratorStart s start stop rev).skips e = true) ∧
      Left s ns (streamIteratorStart s start stop rev) L := by
  have hall : (streamIteratorStart s start stop rev).ri = .seek (if !rev then s.rax.first? else s.rax.last?) →
      Left s ns (streamIteratorStart s start stop rev) (reading rev ns) := by
    intro hri
    refine .inl ⟨rfl, if !rev then ns else ns.reverse, ?_, ?_⟩
    · rw [hri]
      exact h.upcoming_end rev
    · show _ = List.flatMap (order rev) _
      rw [flatMap_order]
      cases rev <;> simp
  cases rev with
  | false =>
    cases start with
    | none => exact ⟨[], _, rfl, nofun, hall rfl⟩
    | some id =>
      by_cases hz : id.ms ≠ 0 ∨ id.seq ≠ 0
      · obtain ⟨ms, pre, hup, hread, hlow⟩ := h.upcoming_seekLe id false
        refine ⟨pre, _, hread, ?_, .inl ⟨rfl, ms, ?_, rfl⟩⟩
        · intro e he
          cases hd : e.deleted with
          | true => simp [StreamIterator.skips, streamIteratorStart, hd]
          | false =>
            have hlt : e.id < id := hlow e he hd
            simp [StreamIterator.skips, streamIteratorStart, hlt]
        · simp only [streamIteratorStart, Bool.not_false, if_true, if_pos hz]
          exact hup
      · refine ⟨[], _, rfl, nofun, hall ?_⟩
        simp only [streamIteratorStart, Bool.not_false, if_true, if_neg hz]
  | true =>
    cases stop with
    | none => exact ⟨[], _, rfl, nofun, hall rfl⟩
    | some id =>
      by_cases hz : id.ms ≠ 0 ∨ id.seq ≠ 0
      · obtain ⟨ms, pre, hup, hread, hlow⟩ := h.upcoming_seekLe id true
        refine ⟨pre, _, hread, ?_, .inl ⟨rfl, ms, ?_, rfl⟩⟩
        · intro e he
          cases hd : e.deleted with
          | true => simp [StreamIterator.skips, streamIteratorStart, hd]
          | false =>
            have hlt : id < e.id := hlow e he hd
            simp [StreamIterator.skips, streamIteratorStart, hlt]
        · simp only [streamIteratorStart, Bool.not_true, Bool.false_eq_true, if_false, if_pos hz]
          exact hup
      · refine ⟨[], _, rfl, nofun, hall ?_⟩
        simp only [streamIteratorStart, Bool.not_true, Bool.false_eq_true, if_false, if_neg hz]

theorem Found.skip_all {skips : Entry → Bool} {P : Prop} {Q : Entry → List Entry → Prop} {pre : List Entry}
    (hpre : ∀ e ∈ pre, skips e = true) (hf : Found skips L P Q) : Found skips (pre ++ L) P Q := by
  induction pre with
  | nil => exact hf
  | cons e pre ih => exact Found.skip (hpre e List.mem_cons_self) (ih fun x hx => hpre x (List.mem_cons_of_mem _ hx))

/-- **The first entry of a range**, in the direction of the iteration. -/
theorem first_spec (h : Represents s ns) (start stop : Option StreamID) (rev : Bool) :
    let si := streamIteratorStart s start stop rev
    Found si.skips (reading rev ns) (∃ si', streamIteratorGetID s si = .ok (si', none))
      fun e L' => if si.beyond e then ∃ si', streamIteratorGetID s si = .ok (si', none)
        else ∃ si', streamIteratorGetID s si = .ok (si', some (e.id, e.fields.length)) ∧ Hit s ns si' e L' ∧
          SameRange si si' := by
  obtain ⟨pre, L, hread, hskip, hleft⟩ := start_left h start stop rev
  rw [hread]
  exact Found.skip_all hskip (streamIteratorGetID_spec h hleft)

end Nodes

end RedisZk.Streams
