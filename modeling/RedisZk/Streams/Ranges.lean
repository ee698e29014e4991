/-
# The entries of a range

What the readers of a stream get: a lookup of one ID finds the live entry with this ID
(`find_spec`), the last valid ID is that of the last live entry, and a range gives the live
entries in it, in order and with their fields.

Key definitions: `wanted`, `limit`.
Key theorems: `find_spec`, `streamLastValidID_spec`, `streamRange_spec`.
-/
import RedisZk.Streams.Iterate

namespace RedisZk.Streams

variable {s : Stream} {ns : List Node} {si : StreamIterator} {L : List Entry}

theorem StreamID.le_max (id : StreamID) : id ≤ .max := by
  have hms := id.ms.isLt
  have hseq := id.seq.isLt
  have hmax : StreamID.max.num = 2 ^ 128 - 1 := by decide
  rw [StreamID.le_iff, hmax, StreamID.num]
  omega

theorem StreamID.min_le (id : StreamID) : .min ≤ id := Nat.zero_le _

/-! ### Searches -/

/-- A search stops nowhere, or at the first entry that is not skipped. -/
theorem Found.cases {skips : Entry → Bool} {P : Prop} {Q : Entry → List Entry → Prop} (hf : Found skips L P Q) :
    ((∀ e ∈ L, skips e = true) ∧ P) ∨
      ∃ pre e L', L = pre ++ e :: L' ∧ (∀ x ∈ pre, skips x = true) ∧ skips e = false ∧ Q e L' := by
  induction L with
  | nil => exact .inl ⟨nofun, hf⟩
  | cons e L ih =>
    unfold Found at hf
    cases he : skips e with
    | true =>
      rw [List.dropWhile_cons_of_pos he] at hf
      rcases ih hf with ⟨hall, hP⟩ | ⟨pre, e', L', hL, hpre, he', hQ⟩
      · exact .inl ⟨List.forall_mem_cons.mpr ⟨he, hall⟩, hP⟩
      · exact .inr ⟨e :: pre, e', L', by rw [hL]; rfl, List.forall_mem_cons.mpr ⟨he, hpre⟩, he', hQ⟩
    | false =>
      rw [List.dropWhile_cons_of_neg (by simp [he])] at hf
      exact .inr ⟨[], e, L, rfl, nofun, he, hf⟩

theorem skips_forward (hrev : si.rev = false) (e : Entry) :
    si.skips e = true ↔ (e.deleted = false → e.id < si.start_key) := by
  cases hd : e.deleted with
  | true => simp [StreamIterator.skips, hrev, hd]
  | false => simp [StreamIterator.skips, hrev, hd]

theorem skips_reverse (hrev : si.rev = true) (e : Entry) :
    si.skips e = true ↔ (e.deleted = false → si.end_key < e.id) := by
  cases hd : e.deleted with
  | true => simp [StreamIterator.skips, hrev, hd]
  | false => simp [StreamIterator.skips, hrev, hd]

/-- A lookup of one ID. -/
theorem find_spec (h : Represents s ns) (id : StreamID) :
    let si := streamIteratorStart s (some id) (some id) false
    (∃ e ∈ content ns, e.id = id ∧ ∃ si' L, streamIteratorGetID s si = .ok (si', some (id, e.fields.length)) ∧
      Hit s ns si' e L ∧ SameRange si si') ∨
    ((∀ e ∈ content ns, e.id ≠ id) ∧ ∃ si', streamIteratorGetID s si = .ok (si', none)) := by
  intro si
  have hsorted := h.sorted
  rcases (first_spec h (some id) (some id) false).cases with ⟨hall, si', hget⟩ | ⟨pre, e, L, hread, hpre, he, hQ⟩
  · refine .inr ⟨fun e he => ?_, si', hget⟩
    obtain ⟨hmem, hd⟩ := mem_live.mp he
    exact ((skips_forward rfl e).mp (hall e hmem) hd).ne
  · have hread : ns.flatMap Node.entries = pre ++ e :: L := hread
    obtain ⟨hd, hge⟩ : e.deleted = false ∧ id ≤ e.id := by
      have hno := mt (skips_forward rfl e).mpr (Bool.eq_false_iff.mp he)
      rw [Classical.not_imp, not_lt] at hno
      exact hno
    rw [content, hread, live_append, live, live, List.filter_cons_of_pos (by simp [hd]), List.pairwise_append,
      List.pairwise_cons] at hsorted
    have hmem : e ∈ content ns := mem_live.mpr ⟨by rw [hread]; simp, hd⟩
    by_cases hgt : e.id > id
    · rw [if_pos (by simpa [StreamIterator.beyond, streamIteratorStart] using hgt)] at hQ
      refine .inr ⟨fun x hx heq => ?_, hQ⟩
      obtain ⟨hxm, hxd⟩ := mem_live.mp hx
      rw [hread] at hxm
      rcases List.mem_append.mp hxm with hxp | hxl
      · exact absurd heq ((skips_forward rfl x).mp (hpre x hxp) hxd).ne
      · rcases List.mem_cons.mp hxl with rfl | hxl
        · exact absurd heq hgt.ne'
        · have hlt := hsorted.2.1.1 x (mem_live.mpr ⟨hxl, hxd⟩)
          exact absurd heq (hgt.trans hlt).ne'
    · have heq : e.id = id := le_antisymm (not_lt.mp hgt) hge
      rw [if_neg (by simpa [StreamIterator.beyond, streamIteratorStart] using hgt)] at hQ
      obtain ⟨si', hget, hhit, hrange⟩ := hQ
      rw [heq] at hget
      exact .inl ⟨e, hmem, heq, si', L, hget, hhit, hrange⟩

/-- The last valid ID is that of the last live entry. -/
theorem streamLastValidID_spec (h : Represents s ns) :
    streamLastValidID s = .ok ((content ns).getLast?.map Entry.id) := by
  have hlast : (content ns).getLast? = (reading true ns).find? fun e => !e.deleted := by
    show (live _).getLast? = (ns.flatMap Node.entries).reverse.find? _
    rw [live, List.getLast?_eq_head?_reverse, ← List.filter_reverse, List.head?_filter]
  have hskips : ∀ e, (streamIteratorStart s none none true).skips e = true ↔ e.deleted = true := by
    intro e
    rw [skips_reverse rfl]
    show (e.deleted = false → StreamID.max < e.id) ↔ _
    simp [e.id.le_max.not_gt]
  have hbeyond : ∀ e, (streamIteratorStart s none none true).beyond e = false := by
    intro e
    simp only [StreamIterator.beyond, streamIteratorStart, Bool.not_true, Bool.false_eq_true, if_false,
      Option.getD_none, decide_eq_false_iff_not]
    exact e.id.min_le.not_gt
  have hfirst := first_spec h none none true
  simp only [hbeyond, Bool.false_eq_true, if_false] at hfirst
  rw [hlast, streamLastValidID]
  rcases hfirst.cases with ⟨hall, si', hget⟩ | ⟨pre, e, L, hread, hpre, he, si', hget, -, -⟩
  · rw [hget, List.find?_eq_none.mpr fun e he => by simp [(hskips e).mp (hall e he)]]
    rfl
  · have hd : e.deleted = false := by simpa using mt (hskips e).mpr (Bool.eq_false_iff.mp he)
    rw [hget, hread, List.find?_append, List.find?_eq_none.mpr fun e he => by simp [(hskips e).mp (hpre e he)],
      Option.none_or, List.find?_cons_of_pos (by simp [hd])]
    rfl

/-! ### Ranges -/

/-- The entry is live and in the range of the iterator. -/
def wanted (si : StreamIterator) (e : Entry) : Bool := !e.deleted && (si.start_key ≤ e.id && e.id ≤ si.end_key)

/-- At most `count`, unless that is 0. -/
def limit {α : Type} (count : ℕ) (l : List α) : List α := if count = 0 then l else l.take count

/-- The live entries are in the order of the direction. -/
def Sorted (rev : Bool) (L : List Entry) : Prop :=
  (live L).Pairwise fun e e' => if !rev then e.id < e'.id else e'.id < e.id

theorem SameRange.wanted {si si' : StreamIterator} (h : SameRange si si') : wanted si' = wanted si := by
  funext e
  simp only [Streams.wanted, h.start_key, h.end_key]

theorem wanted_of_skips {e : Entry} (h : si.skips e = true) : wanted si e = false := by
  cases hd : e.deleted with
  | true => simp [wanted, hd]
  | false =>
    cases hrev : si.rev with
    | true =>
      have hlt := (skips_reverse hrev e).mp h hd
      simp [wanted, hd, hlt]
    | false =>
      have hlt := (skips_forward hrev e).mp h hd
      simp [wanted, hd, hlt]

/-- What is beyond the range is followed by nothing in it. -/
theorem wanted_of_beyond {e : Entry} (hd : e.deleted = false) (hb : si.beyond e = true) (hs : Sorted si.rev (e :: L)) :
    ∀ x ∈ e :: L, wanted si x = false := by
  rw [Sorted, live, List.filter_cons_of_pos (by simp [hd]), List.pairwise_cons] at hs
  intro x hx
  cases hxd : x.deleted with
  | true => simp [wanted, hxd]
  | false =>
    have hx : x = e ∨ x ∈ live L := (List.mem_cons.mp hx).imp id fun hx => mem_live.mpr ⟨hx, hxd⟩
    cases hrev : si.rev with
    | true =>
      have hlt : e.id < si.start_key := by simpa [StreamIterator.beyond, hrev] using hb
      have hxlt : x.id < si.start_key := by
        rcases hx with rfl | hx
        · exact hlt
        · have hxe : x.id < e.id := by simpa [hrev] using hs.1 x hx
          exact hxe.trans hlt
      simp [wanted, hxlt]
    | false =>
      have hlt : si.end_key < e.id := by simpa [StreamIterator.beyond, hrev] using hb
      have hxlt : si.end_key < x.id := by
        rcases hx with rfl | hx
        · exact hlt
        · have hxe : e.id < x.id := by simpa [hrev] using hs.1 x hx
          exact hlt.trans hxe
      simp [wanted, hxlt]

theorem wanted_of_hit {e : Entry} (hskip : si.skips e = false) (hb : si.beyond e = false) : wanted si e = true := by
  cases hrev : si.rev with
  | true =>
    have hno := mt (skips_reverse hrev e).mpr (Bool.eq_false_iff.mp hskip)
    rw [Classical.not_imp, not_lt] at hno
    have hge : si.start_key ≤ e.id := by simpa [StreamIterator.beyond, hrev] using hb
    simp [wanted, hno, hge]
  | false =>
    have hno := mt (skips_forward hrev e).mpr (Bool.eq_false_iff.mp hskip)
    rw [Classical.not_imp, not_lt] at hno
    have hge : e.id ≤ si.end_key := by simpa [StreamIterator.beyond, hrev] using hb
    simp [wanted, hno, hge]

/-- The iteration gives what is wanted of the entries left. -/
theorem iterate_spec (h : Represents s ns) (fuel : ℕ) : ∀ (count : ℕ) {si : StreamIterator} {L : List Entry},
    Left s ns si L → Sorted si.rev L → L.length < fuel →
    iterate s count fuel si = .ok (limit count ((L.filter (wanted si)).map fun e => (e.id, e.fields))) := by
  induction fuel with
  | zero =>
    intro count si L hleft hs hfuel
    exact absurd hfuel (Nat.not_lt_zero _)
  | succ fuel ih =>
    intro count si L hleft hs hfuel
    rcases (streamIteratorGetID_spec h hleft).cases with ⟨hall, si', hget⟩ | ⟨pre, e, L', hL, hpre, he, hQ⟩
    · have hnone : L.filter (wanted si) = [] :=
        List.filter_eq_nil_iff.mpr fun e he => by simp [wanted_of_skips (hall e he)]
      rw [hnone, iterate, hget]
      simp [limit, bind, Except.bind]
    · have hprenone : pre.filter (wanted si) = [] :=
        List.filter_eq_nil_iff.mpr fun e he => by simp [wanted_of_skips (hpre e he)]
      have hsort : Sorted si.rev (e :: L') := by
        rw [hL, Sorted, live_append] at hs
        exact (List.pairwise_append.mp hs).2.1
      have hd : e.deleted = false := by
        cases hd : e.deleted with
        | false => rfl
        | true => simp [StreamIterator.skips, hd] at he
      rw [hL, List.filter_append, hprenone, List.nil_append, iterate]
      cases hb : si.beyond e with
      | true =>
        rw [if_pos hb] at hQ
        obtain ⟨si', hget⟩ := hQ
        rw [List.filter_eq_nil_iff.mpr fun x hx => by simp [wanted_of_beyond hd hb hsort x hx], hget]
        simp [limit, bind, Except.bind]
      | false =>
        rw [if_neg (by simp [hb])] at hQ
        obtain ⟨si', hget, hhit, hrange⟩ := hQ
        obtain ⟨si2, hfields, hleft2, hrange2⟩ := hhit.getFields h
        have hrange := hrange.trans hrange2
        have hsort2 : Sorted si2.rev L' := by
          rw [hrange.rev]
          rw [Sorted, live, List.filter_cons_of_pos (by simp [hd])] at hsort
          exact (List.pairwise_cons.mp hsort).2
        have hlen : L'.length < fuel := by
          rw [hL, List.length_append, List.length_cons] at hfuel
          omega
        rw [List.filter_cons_of_pos (wanted_of_hit he hb), hget]
        simp only [bind, Except.bind, countdown_ofNat, hfields]
        by_cases hone : count = 1
        · rw [if_pos hone, hone]
          rfl
        · rw [if_neg hone, ih (count - 1) hleft2 hsort2 hlen, hrange.wanted]
          by_cases hzero : count = 0
          · simp [limit, hzero]
          · obtain ⟨c, rfl⟩ : ∃ c, count = c + 2 := ⟨count - 2, by omega⟩
            simp [limit]

/-- The ID is in the range. -/
def inRange (start stop : Option StreamID) (e : Entry) : Bool :=
  decide (start.getD .min ≤ e.id) && decide (e.id ≤ stop.getD .max)

theorem reading_sorted (h : Represents s ns) (rev : Bool) : Sorted rev (reading rev ns) := by
  have hsorted := h.sorted
  cases rev with
  | false => exact hsorted
  | true =>
    show (live (ns.flatMap Node.entries).reverse).Pairwise _
    rw [live, List.filter_reverse, List.pairwise_reverse]
    exact hsorted

theorem length_reading_le (h : Represents s ns) (rev : Bool) : (reading rev ns).length ≤ s.size := by
  have hlen : (reading rev ns).length = (ns.flatMap Node.entries).length := by
    cases rev with
    | false => rfl
    | true => exact List.length_reverse
  rw [hlen, Stream.size, h.rax, List.map_map]
  clear h hlen
  induction ns with
  | nil => exact Nat.zero_le _
  | cons n ns ih =>
    have hlt := n.entries_lt
    rw [List.flatMap_cons, List.length_append, List.map_cons, List.sum_cons]
    exact Nat.add_le_add hlt.le ih

/-- **What a range gives**: the live entries in it, in the order of the direction, with the fields they were added with. -/
theorem streamRange_spec (h : Represents s ns) (start stop : Option StreamID) (count : ℕ) (rev : Bool) :
    streamRange s start stop count rev =
      .ok (limit count (((if rev then (content ns).reverse else content ns).filter (inRange start stop)).map
        fun e => (e.id, e.fields))) := by
  obtain ⟨pre, L, hread, hskip, hleft⟩ := start_left h start stop rev
  have hsorted := reading_sorted h rev
  have hlen := length_reading_le h rev
  rw [hread] at hsorted hlen
  rw [Sorted, live_append] at hsorted
  rw [List.length_append] at hlen
  have hpre : pre.filter (wanted (streamIteratorStart s start stop rev)) = [] :=
    List.filter_eq_nil_iff.mpr fun e he => by simp [wanted_of_skips (hskip e he)]
  have hall : (if rev then (content ns).reverse else content ns).filter (inRange start stop) =
      (reading rev ns).filter (wanted (streamIteratorStart s start stop rev)) := by
    have hcontent : (if rev then (content ns).reverse else content ns) = live (reading rev ns) := by
      cases rev with
      | false => rfl
      | true => exact (List.filter_reverse ..).symm
    rw [hcontent, live, List.filter_filter]
    congr 1
    funext e
    rw [Bool.and_comm]
    rfl
  rw [streamRange, iterate_spec h _ count hleft (List.pairwise_append.mp hsorted).2.1 (by omega), hall, hread,
    List.filter_append, hpre, List.nil_append]

end RedisZk.Streams
