/-
# Trimming

Trimming removes whole nodes from the front, and marks the first live entries of the node that it
ends in as deleted. What can stop it is the counter of the deleted entries, which may take one
byte more than before: the listpack must not be too long with it.

Key definitions: `markFirst`, `trimmed`.
Key theorems: `markDeleted_spec`, `trimNode_spec`, `streamTrimByLength_spec`.
-/
import RedisZk.Streams.Append

namespace RedisZk.Streams

open Stepwise

/-! ### Elements that are replaced -/

theorem lpBytes_replace (pre post : Listpack) (x : Sds) :
    lpBytes (pre ++ x :: post) = lpBytes (pre ++ post) + lpEleBytes x := by
  simp only [lpBytes, List.map_append, List.map_cons, List.sum_append, List.sum_cons]
  omega

theorem lpEnclen_ofNat {n : ℕ} (h : n < 2 ^ 31) :
    lpEnclen (ll2string n) = if n ≤ 127 then 1 else if n ≤ 4095 then 2 else if n ≤ 32767 then 3
      else if n ≤ 8388607 then 4 else 5 := by
  rw [lpEnclen, lpStringToInt64_ll2string (.ofNat (by omega))]
  dsimp only
  split_ifs <;> omega

theorem lpEleBytes_ofNat {n : ℕ} (h : n < 2 ^ 31) : lpEleBytes (ll2string n) = lpEnclen (ll2string n) + 1 := by
  have hle : lpEnclen (ll2string n) ≤ 127 := by
    rw [lpEnclen_ofNat h]
    split_ifs <;> omega
  rw [lpEleBytes, lpEncodeBacklen, if_pos hle]

/-- A smaller number takes no more bytes. -/
theorem lpEleBytes_mono {m n : ℕ} (hmn : m ≤ n) (h : n < 2 ^ 31) : lpEleBytes (ll2string m) ≤ lpEleBytes (ll2string n) := by
  rw [lpEleBytes_ofNat h, lpEleBytes_ofNat (by omega), lpEnclen_ofNat h, lpEnclen_ofNat (by omega)]
  split_ifs <;> omega

theorem lpEleBytes_flags (e : Entry) : lpEleBytes (ll2string e.flags) = 2 := by
  have hlt : e.flags ≤ 127 := by
    unfold Entry.flags
    split_ifs <;> omega
  rw [lpEleBytes_ofNat (by omega), lpEnclen_ofNat (by omega), if_pos hlt]

/-! ### Marks -/

/-- The entry with its deleted flag set. -/
def Entry.mark (e : Entry) : Entry := { e with deleted := true }

theorem Entry.eles_mark (e : Entry) (master : StreamID) :
    e.mark.eles master = ll2string e.mark.flags :: (e.eles master).tail := rfl

theorem Entry.setFlag_mark (e : Entry) : setFlag e.flags STREAM_ITEM_FLAG_DELETED = e.mark.flags := e.setFlag_deleted

theorem Entry.eles_cons (e : Entry) (master : StreamID) :
    e.eles master = ll2string e.flags :: (e.eles master).tail := rfl

/-- The first `k` live entries are marked. -/
def markFirst : ℕ → List Entry → List Entry
  | 0, es => es
  | _ + 1, [] => []
  | k + 1, e :: es => if e.deleted then e :: markFirst (k + 1) es else e.mark :: markFirst k es

theorem markFirst_deleted {e : Entry} (hd : e.deleted = true) (k : ℕ) (es : List Entry) :
    markFirst (k + 1) (e :: es) = e :: markFirst (k + 1) es := by
  rw [markFirst, if_pos hd]

theorem markFirst_live {e : Entry} (hd : e.deleted = false) (k : ℕ) (es : List Entry) :
    markFirst (k + 1) (e :: es) = e.mark :: markFirst k es := by
  rw [markFirst, if_neg (by simp [hd])]

theorem live_markFirst : ∀ (k : ℕ) (es : List Entry), live (markFirst k es) = (live es).drop k
  | 0, es => by rw [markFirst, List.drop_zero]
  | k + 1, [] => rfl
  | k + 1, e :: es => by
    cases hd : e.deleted with
    | true =>
      rw [markFirst_deleted hd]
      rw [live_cons_deleted hd, live_cons_deleted hd]
      exact live_markFirst (k + 1) es
    | false =>
      rw [markFirst_live hd]
      rw [live_cons_deleted (e := e.mark) rfl, live_cons_live hd, List.drop_succ_cons]
      exact live_markFirst k es

theorem deleted_markFirst : ∀ (k : ℕ) (es : List Entry), k ≤ (live es).length →
    (markFirst k es).countP (fun e => e.deleted) = es.countP (fun e => e.deleted) + k
  | 0, es, _ => by rw [markFirst, Nat.add_zero]
  | k + 1, [], h => by simp [live] at h
  | k + 1, e :: es, h => by
    cases hd : e.deleted with
    | true =>
      rw [live_cons_deleted hd] at h
      rw [markFirst_deleted hd, List.countP_cons, List.countP_cons, deleted_markFirst (k + 1) es h]
      omega
    | false =>
      rw [live_cons_live hd, List.length_cons] at h
      rw [markFirst_live hd, List.countP_cons, List.countP_cons, deleted_markFirst k es (Nat.le_of_succ_le_succ h)]
      simp [hd, Entry.mark]
      omega

theorem mem_markFirst : ∀ {k : ℕ} {es : List Entry} {e : Entry}, e ∈ markFirst k es → e ∈ es ∨ ∃ e' ∈ es, e = e'.mark
  | 0, es, e, h => by
    rw [markFirst] at h
    exact .inl h
  | k + 1, e' :: es, e, h => by
    rw [markFirst] at h
    split at h
    · rcases List.mem_cons.mp h with rfl | h
      · exact .inl List.mem_cons_self
      · exact (mem_markFirst h).imp (List.mem_cons_of_mem _) fun ⟨x, hx, hex⟩ => ⟨x, List.mem_cons_of_mem _ hx, hex⟩
    · rcases List.mem_cons.mp h with rfl | h
      · exact .inr ⟨e', List.mem_cons_self, rfl⟩
      · exact (mem_markFirst h).imp (List.mem_cons_of_mem _) fun ⟨x, hx, hex⟩ => ⟨x, List.mem_cons_of_mem _ hx, hex⟩

/-- A flag is rewritten in place. -/
theorem lpBytes_mark (pre post : Listpack) (e : Entry) :
    lpBytes (pre ++ ll2string e.mark.flags :: post) = lpBytes (pre ++ ll2string e.flags :: post) := by
  rw [lpBytes_replace, lpBytes_replace, lpEleBytes_flags, lpEleBytes_flags]

section Mark

variable {master : StreamID} {m maxlen : ℕ}

/-- The bytes that the marks leave as they are. -/
theorem lpBytes_markFirst : ∀ (k : ℕ) (es : List Entry) (H : Listpack),
    lpBytes (H ++ (markFirst k es).flatMap (Entry.eles master)) = lpBytes (H ++ es.flatMap (Entry.eles master))
  | 0, es, H => by rw [markFirst]
  | k + 1, [], H => rfl
  | k + 1, e :: es, H => by
    rw [markFirst]
    split
    · rw [List.flatMap_cons, List.flatMap_cons, ← List.append_assoc, ← List.append_assoc]
      exact lpBytes_markFirst (k + 1) es _
    · rw [List.flatMap_cons, List.flatMap_cons, ← List.append_assoc, lpBytes_markFirst k es, List.append_assoc,
        Entry.eles_mark, e.eles_cons]
      exact lpBytes_mark H _ e

/-- From one entry to the next. -/
theorem skipEntry {α : Type} {H post : Listpack} {e : Entry} (hlt : (H ++ (e.eles master ++ post)).length < 2 ^ 31)
    (hm : e.same = true → e.fields.length = m) (f : Option ℕ → Except LpAbort α) :
    (do
      let p ← lpNexts (H ++ (e.eles master ++ post)) (some H.length) 3
      let to_skip ← if hasFlag e.flags STREAM_ITEM_FLAG_SAMEFIELDS then .ok (asInt m) else do
        let n ← lpGetInteger (H ++ (e.eles master ++ post)) p
        .ok (asInt (1 + asInt n * 2))
      let n ← countdown to_skip
      let p ← lpNexts (H ++ (e.eles master ++ post)) p n
      let p ← lpNext (H ++ (e.eles master ++ post)) p
      f p) = f (if post = [] then none else some (H ++ e.eles master).length) := by
  have hb := e.body_length
  have hlen : (H ++ (e.eles master ++ post)).length = H.length + e.body.length + 4 + post.length := by
    rw [List.length_append, List.length_append, Entry.eles_length]
    omega
  have hfields := e.fields_le
  rw [lpNexts_lt 3 (by omega), ok_bind, Entry.hasFlag_same]
  have hlast : ∀ n : ℕ, n + 3 = e.body.length + 3 →
      (do
        let p ← lpNexts (H ++ (e.eles master ++ post)) (some (H.length + 3)) n
        let p ← lpNext (H ++ (e.eles master ++ post)) p
        f p) = f (if post = [] then none else some (H ++ e.eles master).length) := by
    intro n hn
    rw [lpNexts_lt n (by omega), ok_bind]
    split
    · rename_i hpost
      rw [hpost, List.length_nil] at hlen
      rw [hpost, lpNext_end (by rw [hlen]; omega), ok_bind]
    · rename_i hpost
      have hpos := List.length_pos_of_ne_nil hpost
      have hp : H.length + 3 + n + 1 = H.length + (e.body.length + 4) := by omega
      rw [lpNext_lt (by omega), ok_bind, List.length_append, Entry.eles_length, hp]
  cases hs : e.same with
  | true =>
    rw [hs, if_pos rfl] at hb
    have hmlen := hm hs
    rw [if_pos rfl, ok_bind, asInt_ofNat (by omega)]
    dsimp only
    rw [countdown_ofNat, ok_bind]
    exact hlast m (by omega)
  | false =>
    rw [hs, if_neg (by simp)] at hb
    have hnum : lpGetInteger (H ++ (e.eles master ++ post)) (some (H.length + 3)) = .ok (e.fields.length : ℤ) := by
      rw [Entry.eles_own hs]
      refine @lpGetInteger_split _ (H ++ [ll2string e.flags, ll2string (toInt64 (e.id.ms - master.ms)),
        ll2string (toInt64 (e.id.seq - master.seq))]) (((e.fields.flatMap fun fv => [fv.1, fv.2]) ++
          [ll2string (3 + e.body.length : ℕ)]) ++ post) _ _ (by simp) (by simp) (.ofNat (by omega))
    have hskip : asInt (1 + asInt (e.fields.length : ℤ) * 2) = ((1 + e.fields.length * 2 : ℕ) : ℤ) := by
      rw [asInt_ofNat (by omega)]
      exact_mod_cast asInt_ofNat (n := 1 + e.fields.length * 2) (by omega)
    rw [if_neg (by simp), hnum, ok_bind, ok_bind, hskip]
    dsimp only
    rw [countdown_ofNat, ok_bind]
    exact hlast _ (by omega)

/-- The loop marks the first live entries of those from `p` on. -/
theorem markDeleted_spec (maxlen : ℕ) : ∀ (es : List Entry) (H : Listpack) (fuel k deleted : ℕ), 0 < k →
    k ≤ (live es).length → es.length < fuel →
    lpBytes (H ++ es.flatMap (Entry.eles master)) ≤ UINT32_MAX → (∀ e ∈ es, e.same = true → e.fields.length = m) →
    markDeleted maxlen m fuel (H ++ es.flatMap (Entry.eles master)) (some H.length) (maxlen + k) deleted =
      .ok (H ++ (markFirst k es).flatMap (Entry.eles master), maxlen, deleted + k)
  | [], H, fuel, k, deleted, hk, hle, _, _, _ => by
    rw [live, List.filter_nil, List.length_nil] at hle
    omega
  | e :: es, H, fuel + 1, k + 1, deleted, _, hle, hfuel, hfits, hm => by
    have hlt := length_lt_of_bytes hfits
    have hread : ∀ e' : Entry, lpGetInteger (H ++ (e'.eles master ++ es.flatMap (Entry.eles master))) (some H.length) =
        .ok (e'.flags : ℤ) := fun e' => lpGetInteger_split (by rw [e'.eles_cons]; rfl) rfl (.ofNat e'.flags_lt)
    have hrest : ∀ x ∈ es, x.same = true → x.fields.length = m := fun x hx => hm x (List.mem_cons_of_mem _ hx)
    rw [List.length_cons] at hfuel
    rw [List.flatMap_cons] at hlt hfits ⊢
    -- what is left when the entry has been passed, which is `e` or marked
    have hpass : ∀ (e' : Entry) (j deleted : ℕ), e'.same = e.same → e'.fields = e.fields → 0 < j → j ≤ (live es).length →
        lpBytes (H ++ (e'.eles master ++ es.flatMap (Entry.eles master))) ≤ UINT32_MAX →
        (do
          let p ← lpNexts (H ++ (e'.eles master ++ es.flatMap (Entry.eles master))) (some H.length) 3
          let to_skip ← if hasFlag e'.flags STREAM_ITEM_FLAG_SAMEFIELDS then .ok (asInt m) else do
            let n ← lpGetInteger (H ++ (e'.eles master ++ es.flatMap (Entry.eles master))) p
            .ok (asInt (1 + asInt n * 2))
          let n ← countdown to_skip
          let p ← lpNexts (H ++ (e'.eles master ++ es.flatMap (Entry.eles master))) p n
          let p ← lpNext (H ++ (e'.eles master ++ es.flatMap (Entry.eles master))) p
          markDeleted maxlen m fuel (H ++ (e'.eles master ++ es.flatMap (Entry.eles master))) p (maxlen + j) deleted) =
        .ok (H ++ (e'.eles master ++ (markFirst j es).flatMap (Entry.eles master)), maxlen, deleted + j) := by
      intro e' j deleted hsame hfields hj hjle hbytes
      rw [skipEntry (by have := length_lt_of_bytes hbytes; omega)
        (fun hs => by rw [hfields]; exact hm e List.mem_cons_self (hsame ▸ hs))]
      have hne : es.flatMap (Entry.eles master) ≠ [] := by
        cases es with
        | nil =>
          rw [live, List.filter_nil, List.length_nil] at hjle
          omega
        | cons x xs => simp [Entry.eles]
      rw [← List.append_assoc] at hbytes
      rw [if_neg hne, ← List.append_assoc,
        markDeleted_spec maxlen es (H ++ e'.eles master) fuel j deleted hj hjle (by omega) hbytes hrest, List.append_assoc]
    rw [markDeleted, hread e, ok_bind, Entry.hasFlag_deleted]
    cases hd : e.deleted with
    | true =>
      rw [live_cons_deleted hd] at hle
      rw [markFirst_deleted hd, List.flatMap_cons]
      simp only [Bool.not_true, Bool.false_eq_true, if_false, false_and]
      rw [ok_bind]
      exact hpass e (k + 1) deleted rfl rfl (Nat.succ_pos k) hle hfits
    | false =>
      rw [live_cons_live hd, List.length_cons] at hle
      have hreplace : lpReplaceInteger (H ++ (e.eles master ++ es.flatMap (Entry.eles master))) (some H.length)
          (setFlag e.flags STREAM_ITEM_FLAG_DELETED) =
          .ok (H ++ (e.mark.eles master ++ es.flatMap (Entry.eles master))) := by
        rw [e.eles_cons, List.cons_append, lpReplaceInteger_eq _ _ _ rfl, Entry.setFlag_mark, Entry.eles_mark,
          List.cons_append, lpGrown_fits]
        rw [e.eles_cons, List.cons_append] at hfits
        exact (lpBytes_mark H _ e).trans_le hfits
      have hmarkfits : lpBytes (H ++ (e.mark.eles master ++ es.flatMap (Entry.eles master))) ≤ UINT32_MAX := by
        rw [Entry.eles_mark, List.cons_append]
        rw [e.eles_cons, List.cons_append] at hfits
        exact (lpBytes_mark H _ e).trans_le hfits
      have hlen : maxlen + (k + 1) - 1 = maxlen + k := by omega
      rw [markFirst_live hd, List.flatMap_cons]
      simp only [Bool.not_false, if_true, true_and, hreplace, hlen]
      rw [ok_bind]
      by_cases hk0 : k = 0
      · rw [hk0, if_pos (by omega), markFirst, Nat.add_zero, Nat.zero_add]
      · rw [if_neg (by omega), Entry.setFlag_mark]
        have hp := hpass e.mark k (deleted + 1) rfl rfl (by omega) (by omega) hmarkfits
        rw [show deleted + 1 + k = deleted + (k + 1) by omega] at hp
        exact hp

end Mark

/-! ### Nodes that change -/

namespace Node

variable {n : Node} {k : ℕ}

/-- The node with its first `k` live entries marked. -/
def markFirst (n : Node) (k : ℕ) : Node := { n with entries := Streams.markFirst k n.entries }

theorem valid_markFirst (n : Node) (k : ℕ) : (n.markFirst k).valid = n.valid - k := by
  rw [valid_eq, valid_eq, markFirst, live_markFirst, List.length_drop]

theorem deleted_markFirst (h : k ≤ n.valid) : (n.markFirst k).deleted = n.deleted + k := by
  rw [valid_eq] at h
  exact Streams.deleted_markFirst k n.entries h

/-- A node whose entries are some of those of a good one. -/
theorem Ok.of_sublist {n' : Node} (hn : n.Ok) (hmaster : n'.master = n.master) (hnames : n'.names = n.names)
    (hnonempty : 0 < n'.valid) (hfits : lpBytes n'.eles ≤ UINT32_MAX) (hlive : (live n'.entries).Sublist (live n.entries))
    (hmem : ∀ e ∈ n'.entries, ∃ e' ∈ n.entries, e.id = e'.id ∧ e.same = e'.same ∧ e.fields = e'.fields) : n'.Ok where
  nonempty := hnonempty
  fits := hfits
  above e he := by
    obtain ⟨e', he', hid, -, -⟩ := hmem e he
    rw [hmaster, hid]
    exact hn.above e' he'
  sorted := hn.sorted.sublist hlive
  same e he hs := by
    obtain ⟨e', he', -, hsame, hfields⟩ := hmem e he
    rw [hnames, hfields]
    exact hn.same e' he' (hsame ▸ hs)

theorem Ok.markFirst (hn : n.Ok) (hk : k < n.valid) (hfits : lpBytes (n.markFirst k).eles ≤ UINT32_MAX) :
    (n.markFirst k).Ok := by
  refine hn.of_sublist rfl rfl (by rw [valid_markFirst]; omega) hfits ?_ ?_
  · show (live (Streams.markFirst k n.entries)).Sublist _
    rw [live_markFirst]
    exact List.drop_sublist ..
  · intro e he
    rcases mem_markFirst he with he | ⟨e', he', rfl⟩
    · exact ⟨e, he, rfl, rfl, rfl⟩
    · exact ⟨e', he', rfl, rfl, rfl⟩

end Node

section Nodes

variable {s : Stream} {ns pre post : List Node} {n n' : Node}

theorem Represents.entries_split (h : Represents s ns) (hns : ns = pre ++ n :: post) :
    s.rax.entries = pre.map Node.binding ++ (n.master, n.eles) :: post.map Node.binding := by
  rw [h.rax, hns, List.map_append, List.map_cons]
  rfl

/-- A node is replaced by one with some of its live entries. -/
theorem Represents.replace (h : Represents s ns) (hns : ns = pre ++ n :: post) (hmaster : n'.master = n.master)
    (hok : n'.Ok) (hlive : (live n'.entries).Sublist (live n.entries)) {len : ℕ} (hlen : len + n.valid = s.length + n'.valid) :
    Represents { s with rax := s.rax.insert n.master n'.eles, length := len } (pre ++ n' :: post) := by
  have hrax := h.entries_split hns
  have hlength := h.length
  have hbefore := h.before
  rw [hns] at hlength hbefore
  rw [List.pairwise_append, List.pairwise_cons] at hbefore
  obtain ⟨hpre, ⟨hnpost, hpost⟩, hcross⟩ := hbefore
  constructor
  · rw [SortedMap.entries_insert_split hrax, List.map_append, List.map_cons, ← hmaster]
    rfl
  · rw [List.map_append, List.map_cons, List.sum_append, List.sum_cons] at hlength ⊢
    show len = _
    omega
  · intro m hm
    rcases List.mem_append.mp hm with hm | hm
    · exact h.ok m (by simp [hns, hm])
    · rcases List.mem_cons.mp hm with rfl | hm
      · exact hok
      · exact h.ok m (by simp [hns, hm])
  · rw [List.pairwise_append, List.pairwise_cons]
    refine ⟨hpre, ⟨fun m hm e he => hnpost m hm e (hlive.subset he), hpost⟩, fun m hm x hx e he => ?_⟩
    rcases List.mem_cons.mp hx with rfl | hx
    · rw [hmaster]
      exact hcross m hm n List.mem_cons_self e he
    · exact hcross m hm x (List.mem_cons_of_mem _ hx) e he
  · intro m hm e he
    rcases List.mem_append.mp hm with hm | hm
    · exact h.last m (by simp [hns, hm]) e he
    · rcases List.mem_cons.mp hm with rfl | hm
      · exact h.last n (by simp [hns]) e (hlive.subset he)
      · exact h.last m (by simp [hns, hm]) e he

/-- A node is removed. -/
theorem Represents.remove (h : Represents s ns) (hns : ns = pre ++ n :: post) {len : ℕ} (hlen : len + n.valid = s.length) :
    Represents { s with rax := s.rax.erase n.master, length := len } (pre ++ post) := by
  have hrax := h.entries_split hns
  have hlength := h.length
  have hbefore := h.before
  have hsub : (pre ++ post).Sublist ns := by
    rw [hns]
    exact List.Sublist.append_left (List.sublist_cons_self ..) _
  rw [hns] at hlength
  constructor
  · rw [SortedMap.entries_erase_split hrax, List.map_append]
  · rw [List.map_append, List.map_cons, List.sum_append, List.sum_cons] at hlength
    rw [List.map_append, List.sum_append]
    show len = _
    omega
  · exact fun m hm => h.ok m (hsub.subset hm)
  · exact hbefore.sublist hsub
  · exact fun m hm e he => h.last m (hsub.subset hm) e he

/-! ### Trimming one node -/

/-- The listpack with its two counters rewritten, and what follows them. -/
theorem eles_markFirst {k : ℕ} (h : k ≤ n.valid) : (n.markFirst k).eles =
    (ll2string (n.valid - k : ℕ) :: ll2string (n.deleted + k : ℕ) :: ll2string n.names.length ::
      (n.names ++ [ll2string 0])) ++ (markFirst k n.entries).flatMap (Entry.eles n.master) := by
  rw [Node.eles, Node.header, Node.valid_markFirst, Node.deleted_markFirst h]
  rfl

/-- The master entry is passed. -/
theorem skipMaster_spec {A B C : Listpack} (hC : C ≠ []) (hlt : B.length < 2 ^ 31) :
    skipMaster (A ++ ll2string B.length :: ((B ++ [ll2string 0]) ++ C)) (some A.length) =
      .ok (some (A.length + (B.length + 2)), (B.length : ℤ)) := by
  have hpos := List.length_pos_of_ne_nil hC
  have hlen : (A ++ ll2string B.length :: ((B ++ [ll2string 0]) ++ C)).length = A.length + (B.length + 2) + C.length := by
    simp
    omega
  rw [skipMaster, lpGetInteger_split rfl rfl (.ofNat (by omega)), ok_bind, lpNext_lt (by omega), ok_bind,
    Int.toNat_natCast, lpNexts_lt _ (by omega), ok_bind, lpNext_lt (by omega), ok_bind]
  congr 3
  omega

/-- The first live entries of a node are marked, if the listpack has room for the counters. -/
theorem trimNode_spec (hn : n.Ok) {maxlen k : ℕ} (hk : s.length = maxlen + k) (hpos : 0 < k) (hlt : k < n.valid)
    (deleted : ℕ) : trimNode s n.master n.eles maxlen deleted =
      if lpBytes (n.markFirst k).eles ≤ UINT32_MAX then
        .ok ({ s with rax := s.rax.insert n.master (n.markFirst k).eles, length := maxlen }, deleted + k)
      else .error .tooLong := by
  have hvalid := Node.valid_lt hn
  have hdeleted := Node.deleted_lt hn
  have hlen := length_lt_of_bytes hn.fits
  have hfirst : lpFirst n.eles = some 0 := lpFirst_cons
  have hto : ((s.length - maxlen : ℕ) : ℤ) = k := by omega
  -- what follows the two counters
  obtain ⟨rest, hrest⟩ : ∃ rest, rest = ll2string (n.names.length : ℤ) :: ((n.names ++ [ll2string 0]) ++
    n.entries.flatMap (Entry.eles n.master)) := ⟨_, rfl⟩
  have heles : n.eles = [] ++ ll2string n.valid :: ll2string n.deleted :: rest := by
    rw [hrest]
    simp [Node.eles, Node.header]
  have hrestlen : rest.length = n.names.length + 2 + (n.entries.flatMap (Entry.eles n.master)).length := by
    rw [hrest]
    simp
    omega
  rw [heles] at hlen
  simp only [List.nil_append, List.length_cons] at hlen
  have hbytes1 : lpBytes ([] ++ ll2string (n.valid - k : ℕ) :: ll2string n.deleted :: rest) ≤ UINT32_MAX := by
    have hfits := hn.fits
    rw [heles, lpBytes_replace] at hfits
    rw [lpBytes_replace]
    exact (Nat.add_le_add_left (lpEleBytes_mono (Nat.sub_le ..) (by omega)) _).trans hfits
  have hcount : lpReplaceInteger n.eles (some 0) ((n.valid : ℤ) - k) =
      .ok (ll2string (n.valid - k : ℕ) :: ll2string n.deleted :: rest) := by
    rw [heles, lpReplaceInteger_eq [] _ _ (show 0 = _ from rfl), ← Nat.cast_sub hlt.le, lpGrown_fits hbytes1,
      List.nil_append]
  have hmarked : lpGetInteger (ll2string (n.valid - k : ℕ) :: ll2string n.deleted :: rest) (some 1) =
      .ok (n.deleted : ℤ) :=
    lpGetInteger_split (show _ = [_] ++ _ :: _ from rfl) rfl (.ofNat (by omega))
  have hmarking : lpReplaceInteger (ll2string (n.valid - k : ℕ) :: ll2string n.deleted :: rest) (some 1)
      ((n.deleted : ℤ) + k) = lpGrown ([ll2string (n.valid - k : ℕ)] ++ ll2string (n.deleted + k : ℕ) :: rest) := by
    rw [← Nat.cast_add]
    exact lpReplaceInteger_eq [ll2string (n.valid - k : ℕ)] rest (ll2string n.deleted) rfl _
  have hbytes2 : lpBytes ([ll2string (n.valid - k : ℕ)] ++ ll2string (n.deleted + k : ℕ) :: rest) =
      lpBytes (n.markFirst k).eles := by
    rw [eles_markFirst hlt.le, lpBytes_markFirst, hrest]
    rfl
  rw [trimNode, hfirst]
  dsimp only
  rw [Node.read_valid hn, ok_bind, hto, if_neg (by omega), hcount, ok_bind, lpNext_lt (by simp), ok_bind, hmarked, ok_bind,
    hmarking]
  split
  · rename_i hfits
    have hfits2 := hbytes2.trans_le hfits
    have hne : n.entries.flatMap (Entry.eles n.master) ≠ [] := by
      obtain ⟨e, he⟩ := hn.exists_live
      obtain ⟨es, es', hsplit⟩ := List.append_of_mem (mem_live.mp he).1
      rw [hsplit, List.flatMap_append, List.flatMap_cons]
      simp [Entry.eles]
    obtain ⟨H, hH⟩ : ∃ H, H = ll2string ((n.valid - k : ℕ) : ℤ) :: ll2string ((n.deleted + k : ℕ) : ℤ) ::
      ll2string (n.names.length : ℤ) :: (n.names ++ [ll2string 0]) := ⟨_, rfl⟩
    have hHlen : H.length = 2 + (n.names.length + 2) := by
      rw [hH]
      simp
      omega
    have hmaster : [ll2string (n.valid - k : ℕ)] ++ ll2string (n.deleted + k : ℕ) :: rest =
        H ++ n.entries.flatMap (Entry.eles n.master) := by
      rw [hrest, hH]
      simp
    have hskip : skipMaster (H ++ n.entries.flatMap (Entry.eles n.master)) (some 2) =
        .ok (some H.length, (n.names.length : ℤ)) := by
      have hskip := skipMaster_spec (A := [ll2string (n.valid - k : ℕ), ll2string (n.deleted + k : ℕ)]) (B := n.names) hne
        (by omega)
      rw [hHlen, hH]
      simpa using hskip
    have hlive : k ≤ (live n.entries).length := by
      rw [← Node.valid_eq]
      exact hlt.le
    have hentries : n.entries.length < (H ++ n.entries.flatMap (Entry.eles n.master)).length + 1 := by
      have hlt := n.entries_lt
      rw [heles] at hlt
      simp only [List.nil_append, List.length_cons] at hlt
      rw [List.length_append]
      omega
    have hsame : ∀ e ∈ n.entries, e.same = true → e.fields.length = n.names.length := by
      intro e he hs
      rw [← hn.same e he hs, List.length_map]
    have hmark := markDeleted_spec maxlen n.entries H _ k deleted hpos hlive hentries (by rwa [← hmaster]) hsame
    rw [lpGrown_fits hfits2, ok_bind, lpNext_lt (by simp; omega), ok_bind, hmaster, hskip, ok_bind, hk]
    dsimp only
    rw [hmark, ok_bind, eles_markFirst hlt.le, ← hH]
  · rename_i hfits
    rw [lpGrown_tooLong (by rw [hbytes2]; exact hfits)]
    rfl

/-! ### Trimming a stream -/

/-- The number of live entries. -/
def total (ns : List Node) : ℕ := (ns.map Node.valid).sum

theorem total_cons (n : Node) (ns : List Node) : total (n :: ns) = n.valid + total ns := by
  rw [total, List.map_cons, List.sum_cons, total]

/-- The nodes that are left. -/
def trimmed (maxlen : ℕ) (approx : Bool) : List Node → List Node
  | [] => []
  | n :: ns =>
    if total (n :: ns) ≤ maxlen then n :: ns
    else if maxlen ≤ total ns then trimmed maxlen approx ns
    else if approx then n :: ns
    else n.markFirst (total (n :: ns) - maxlen) :: ns

/-- The listpacks that are left are not too long: the one of the node that the trimming ends in has
its counters rewritten. -/
def TrimFits (maxlen : ℕ) (approx : Bool) (ns : List Node) : Prop :=
  ∀ n ∈ trimmed maxlen approx ns, lpBytes n.eles ≤ UINT32_MAX

theorem total_trimmed_le (maxlen : ℕ) (approx : Bool) : ∀ ns : List Node, total (trimmed maxlen approx ns) ≤ total ns
  | [] => le_rfl
  | n :: ns => by
    have hrest := total_trimmed_le maxlen approx ns
    rw [trimmed]
    split_ifs
    · exact le_rfl
    · rw [total_cons]
      omega
    · exact le_rfl
    · rw [total_cons, total_cons, Node.valid_markFirst]
      omega

theorem seekGe?_erase_first {m : SortedMap StreamID Listpack} {k : StreamID} {v : Listpack}
    {l : List (StreamID × Listpack)} (h : m.entries = (k, v) :: l) : (m.erase k).seekGe? k = (m.erase k).first? := by
  have hl := (SortedMap.split_lt (show m.entries = [] ++ (k, v) :: l from h)).2
  rw [SortedMap.seekGe?, SortedMap.first?, SortedMap.entries_erase_split (show m.entries = [] ++ (k, v) :: l from h),
    List.nil_append]
  cases l with
  | nil => rfl
  | cons e l => rw [List.find?_cons_of_pos (by simpa using (hl e List.mem_cons_self).le), List.head?_cons]

theorem lengthWithout_eq {length entries : ℕ} (h : entries ≤ length) :
    lengthWithout length (entries : ℤ) = length - entries := by
  rw [lengthWithout, if_pos (by exact_mod_cast h)]
  omega

theorem Node.Ok.fits_of_mem {ns : List Node} (h : ∀ n ∈ ns, n.Ok) : ∀ n ∈ ns, lpBytes n.eles ≤ UINT32_MAX :=
  fun n hn => (h n hn).fits

/-- What the loop comes to, at the first node. -/
theorem trimLoop_spec (maxlen : ℕ) (approx : Bool) : ∀ (ns : List Node) {s : Stream} (fuel deleted : ℕ),
    Represents s ns → ns.length < fuel →
    (TrimFits maxlen approx ns → ∃ s', trimLoop maxlen approx fuel s s.rax.first? deleted =
        .ok (s', deleted + (total ns - total (trimmed maxlen approx ns))) ∧
        Represents s' (trimmed maxlen approx ns) ∧ s'.last_id = s.last_id) ∧
      (¬ TrimFits maxlen approx ns → trimLoop maxlen approx fuel s s.rax.first? deleted = .error .tooLong)
  | [], s, fuel + 1, deleted, h, _ => by
    have hfirst : s.rax.first? = none := by
      rw [SortedMap.first?, h.rax]
      rfl
    have hlen : s.length ≤ maxlen := h.length.le.trans (Nat.zero_le _)
    refine ⟨fun _ => ⟨s, ?_, h, rfl⟩, fun hno => absurd (fun n hn => absurd hn List.not_mem_nil) hno⟩
    rw [hfirst, trimLoop, if_pos hlen, trimmed, Nat.sub_self, Nat.add_zero]
  | n :: ns, s, fuel + 1, deleted, h, hfuel => by
    have hrax : s.rax.entries = (n.master, n.eles) :: ns.map Node.binding := h.rax
    have hfirst : s.rax.first? = some (n.master, n.eles) := by
      rw [SortedMap.first?, hrax]
      rfl
    have hok := h.ok n List.mem_cons_self
    have htotal : s.length = total (n :: ns) := h.length
    have hcons := total_cons n ns
    have hall : ∀ m ∈ n :: ns, lpBytes m.eles ≤ UINT32_MAX := Node.Ok.fits_of_mem h.ok
    rw [hfirst, trimLoop, TrimFits, trimmed, htotal]
    by_cases hlen : total (n :: ns) ≤ maxlen
    · rw [if_pos hlen, if_pos hlen, Nat.sub_self, Nat.add_zero]
      exact ⟨fun _ => ⟨s, rfl, h, rfl⟩, fun hno => absurd hall hno⟩
    · have hwithout : lengthWithout (total (n :: ns)) (n.valid : ℤ) = total ns := by
        rw [lengthWithout_eq (by omega)]
        omega
      have hfirstlp : lpGetInteger n.eles (lpFirst n.eles) = .ok (n.valid : ℤ) := Node.read_valid hok
      rw [if_neg hlen, if_neg hlen, hfirstlp, ok_bind, hwithout]
      by_cases hwhole : maxlen ≤ total ns
      · rw [if_pos hwhole, if_pos hwhole]
        have hrest := h.remove (show n :: ns = [] ++ n :: ns from rfl) (show total ns + n.valid = s.length by omega)
        have hloop := trimLoop_spec maxlen approx ns fuel (deleted + n.valid) hrest
          (by rw [List.length_cons] at hfuel; omega)
        have hle := total_trimmed_le maxlen approx ns
        have hsum : deleted + n.valid + (total ns - total (trimmed maxlen approx ns)) =
            deleted + (total (n :: ns) - total (trimmed maxlen approx ns)) := by omega
        rw [hsum] at hloop
        dsimp only
        rw [Int.toNat_natCast, seekGe?_erase_first hrax]
        exact hloop
      · rw [if_neg hwhole, if_neg hwhole]
        cases approx with
        | true =>
          rw [if_pos rfl, if_pos rfl, Nat.sub_self, Nat.add_zero]
          exact ⟨fun _ => ⟨s, rfl, h, rfl⟩, fun hno => absurd hall hno⟩
        | false =>
          rw [if_neg (by simp), if_neg (by simp)]
          have hvalid := Node.valid_markFirst n (total (n :: ns) - maxlen)
          have hnode := trimNode_spec hok (show s.length = maxlen + (total (n :: ns) - maxlen) by omega) (by omega)
            (by omega) deleted
          rw [hnode]
          by_cases hfits : lpBytes (n.markFirst (total (n :: ns) - maxlen)).eles ≤ UINT32_MAX
          · rw [if_pos hfits]
            have hmark := hok.markFirst (k := total (n :: ns) - maxlen) (by omega) hfits
            have hlive : (live (n.markFirst (total (n :: ns) - maxlen)).entries).Sublist (live n.entries) := by
              rw [Node.markFirst, live_markFirst]
              exact List.drop_sublist ..
            have hrest := @Represents.replace s _ [] ns n (n.markFirst (total (n :: ns) - maxlen)) h rfl rfl hmark hlive
              maxlen (by rw [hvalid]; omega)
            refine ⟨fun _ => ⟨_, ?_, hrest, rfl⟩, fun hno => ?_⟩
            · have hleft := total_cons (n.markFirst (total (n :: ns) - maxlen)) ns
              rw [hvalid] at hleft
              congr 3
              omega
            · refine absurd (fun m hm => ?_) hno
              rcases List.mem_cons.mp hm with rfl | hm
              · exact hfits
              · exact hall m (List.mem_cons_of_mem _ hm)
          · rw [if_neg hfits]
            exact ⟨fun hyes => absurd (hyes _ List.mem_cons_self) hfits, fun _ => rfl⟩

/-- **What trimming does**: it leaves the nodes `trimmed`, if their listpacks are not too long. -/
theorem streamTrimByLength_spec (h : Represents s ns) (maxlen : ℕ) (approx : Bool) :
    (TrimFits maxlen approx ns → ∃ s', streamTrimByLength s maxlen approx =
        .ok (s', total ns - total (trimmed maxlen approx ns)) ∧ Represents s' (trimmed maxlen approx ns) ∧
        s'.last_id = s.last_id) ∧
      (¬ TrimFits maxlen approx ns → streamTrimByLength s maxlen approx = .error .tooLong) := by
  have hlen : s.rax.entries.length = ns.length := by rw [h.rax, List.length_map]
  have hloop := trimLoop_spec maxlen approx ns (s.rax.entries.length + 1) 0 h (by omega)
  rw [Nat.zero_add] at hloop
  have heq : streamTrimByLength s maxlen approx =
      trimLoop maxlen approx (s.rax.entries.length + 1) s s.rax.first? 0 := by
    rw [streamTrimByLength]
    split
    · rename_i hle
      rw [trimLoop.eq_def]
      exact (if_pos hle).symm
    · rfl
  rw [heq]
  exact hloop

theorem total_eq (ns : List Node) : total ns = (content ns).length := (length_content ns).symm

/-- An exact trimming leaves the newest entries. -/
theorem content_trimmed (maxlen : ℕ) : ∀ ns : List Node,
    content (trimmed maxlen false ns) = (content ns).drop (total ns - maxlen)
  | [] => List.drop_nil.symm
  | n :: ns => by
    have hrest := content_trimmed maxlen ns
    have hcons := total_cons n ns
    have hvalid := n.valid_eq
    have hlen := total_eq ns
    simp only [trimmed, Bool.false_eq_true, if_false]
    split_ifs with hle hwhole
    · rw [Nat.sub_eq_zero_of_le hle, List.drop_zero]
    · rw [hrest, content_cons, List.drop_append]
      have hall : (live n.entries).drop (total (n :: ns) - maxlen) = [] := List.drop_eq_nil_of_le (by omega)
      rw [hall, List.nil_append]
      congr 1
      omega
    · rw [content_cons, content_cons, Node.markFirst, live_markFirst, List.drop_append_of_le_length (by omega)]

/-- An approximated one removes whole nodes. -/
theorem trimmed_approx (maxlen : ℕ) : ∀ ns : List Node, ∃ k, trimmed maxlen true ns = ns.drop k
  | [] => ⟨0, rfl⟩
  | n :: ns => by
    obtain ⟨k, hk⟩ := trimmed_approx maxlen ns
    simp only [trimmed, if_true]
    split_ifs
    · exact ⟨0, rfl⟩
    · exact ⟨k + 1, hk⟩
    · exact ⟨0, rfl⟩

/-- Never are fewer left than asked for. -/
theorem le_total_trimmed (maxlen : ℕ) (approx : Bool) : ∀ ns : List Node,
    min maxlen (total ns) ≤ total (trimmed maxlen approx ns)
  | [] => Nat.min_le_right ..
  | n :: ns => by
    have hrest := le_total_trimmed maxlen approx ns
    have hcons := total_cons n ns
    rw [trimmed]
    split_ifs
    · exact Nat.min_le_right ..
    · omega
    · exact Nat.min_le_right ..
    · have hleft := total_cons (n.markFirst (total (n :: ns) - maxlen)) ns
      rw [Node.valid_markFirst] at hleft
      omega

end Nodes

end RedisZk.Streams
