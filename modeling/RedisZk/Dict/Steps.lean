/-
# What the operations of a dict do to its entries

Rehashing and resizing keep the entries (`Kept`); adding, replacing and removing
change the one of their key. An operation fails only where the tables are not as
long as their sizes say: the proposition `w` fails. A call of `dictExpand` keeps
it if it asks for at most `2^60` buckets.

Key definitions: `Kept`.
Key theorems: `rehashSteps_kept`, `dictExpand_kept`, `dictAddRaw_spec`, `dictGenericDelete_spec`,
`dictFind_spec`.
-/
import RedisZk.Dict.Invariant

namespace RedisZk.Hash

open Stepwise (Within)
open Assoc (flatten_set_perm)

variable {κ ν : Type} {t : DictType κ} {w : Prop} {d d' : Dict κ ν} {key : κ} {idx : ℕ}

/-- The same entries in a dict in order. -/
structure Kept (t : DictType κ) (w : Prop) (d d' : Dict κ ν) : Prop where
  inv : DictInv t w d'
  entries : (entries d').Perm (entries d)

theorem Kept.refl (h : DictInv t w d) : Kept t w d d := ⟨h, .refl _⟩

theorem Kept.trans {d'' : Dict κ ν} (h : Kept t w d d') (h' : Kept t w d' d'') : Kept t w d d'' :=
  ⟨h'.inv, h'.entries.trans h.entries⟩

/-! ### Rehashing -/

theorem skipEmpty_spec : ∀ (l : List (Chain κ ν)) (idx emptyVisits : ℕ),
    Within (fun r => idx ≤ r.1 ∧ (∀ j, idx + j < r.1 → l[j]? = some []) ∧
        (r.2 ≠ none → ∃ e c, l[r.1 - idx]? = some (e :: c))) (fun _ => ∀ c ∈ l, c = []) (skipEmpty l idx emptyVisits)
  | [], _, _ => by
    unfold skipEmpty
    simp
  | [] :: rest, idx, emptyVisits => by
    unfold skipEmpty
    split
    · refine ⟨by omega, fun j hj => ?_, fun h => absurd rfl h⟩
      have h0 : j = 0 := by
        change idx + j < idx + 1 at hj
        omega
      rw [h0]
      rfl
    · refine Within.mono (skipEmpty_spec rest (idx + 1) (emptyVisits - 1)) ?_ ?_
      · intro r ⟨hle, hempty, hfound⟩
        refine ⟨by omega, fun j hj => ?_, fun hr => ?_⟩
        · cases j with
          | zero => rfl
          | succ j =>
            rw [List.getElem?_cons_succ]
            exact hempty j (by omega)
        · obtain ⟨e, c, hc⟩ := hfound hr
          have hsucc : r.1 - idx = (r.1 - (idx + 1)) + 1 := by omega
          rw [hsucc, List.getElem?_cons_succ]
          exact ⟨e, c, hc⟩
      · intro _ hall c hc
        rcases List.mem_cons.mp hc with rfl | hc
        · rfl
        · exact hall c hc
  | (e :: c) :: rest, idx, emptyVisits => by
    unfold skipEmpty
    refine ⟨le_rfl, fun j hj => ?_, fun _ => ⟨e, c, ?_⟩⟩
    · change idx + j < idx at hj
      omega
    · rw [Nat.sub_self]
      rfl

/-- The entries of a chain move to the second table. -/
theorem moveEntries_spec : ∀ (c : Chain κ ν) (d : Dict κ ν), HtInv t w d.ht1 → d.ht1.size ≠ 0 →
    Within (fun d' => ∃ ht, HtInv t w ht ∧ SameShape d.ht1 ht ∧ ht.table.flatten.Perm (c ++ d.ht1.table.flatten) ∧
      d' = { d with ht0 := { d.ht0 with used := d.ht0.used - c.length }, ht1 := ht }) (fun _ => ¬ w)
      (c.foldlM (moveEntry t) d)
  | [], d, h, _ => ⟨d.ht1, h, ⟨rfl, rfl, rfl⟩, .refl _, rfl⟩
  | e :: c, d, h, hs => by
    rw [List.foldlM_cons]
    refine Within.bind (Q := fun d1 => ∃ ht, HtInv t w ht ∧ SameShape d.ht1 ht ∧
      ht.table.flatten.Perm (e :: d.ht1.table.flatten) ∧
      d1 = { d with ht0 := { d.ht0 with used := d.ht0.used - 1 }, ht1 := ht }) ?_ fun d1 hd1 => ?_
    · unfold moveEntry
      exact Within.bind (h.push hs e) fun ht ⟨hi, hsh, hp⟩ => ⟨ht, hi, hsh, hp, rfl⟩
    · obtain ⟨ht, hi, hsh, hp, rfl⟩ := hd1
      refine Within.mono (moveEntries_spec c _ hi (by rw [hsh.size]; exact hs)) ?_ fun _ => id
      rintro d2 ⟨ht2, hi2, hsh2, hp2, rfl⟩
      refine ⟨ht2, hi2, ⟨hsh2.size.trans hsh.size, hsh2.sizemask.trans hsh.sizemask, hsh2.length.trans hsh.length⟩, ?_, ?_⟩
      · exact hp2.trans ((hp.append_left c).trans List.perm_middle)
      · have hsub : d.ht0.used - 1 - c.length = d.ht0.used - (e :: c).length := by
          rw [List.length_cons]
          omega
        rw [← hsub]

/-- A bucket moves to the second table. -/
theorem rehashBucket_kept (h : DictInv t w d) {i : ℕ} (hi : d.rehashidx = some i) {c : Chain κ ν}
    (hc : d.ht0.table[idx]? = some c) (hbelow : ∀ j < idx, d.ht0.table[j]? = some []) :
    Within (fun d' => Kept t w d d' ∧ d'.rehashidx = some (idx + 1)) (fun _ => ¬ w) (rehashBucket t d idx) := by
  obtain ⟨hs0, hs1, -⟩ := h.active i hi
  have hbucket : d.ht0.bucket idx = .ok c := by
    unfold DictHt.bucket
    rw [hc]
  obtain ⟨r, hperm, hset⟩ := flatten_set_perm hc
  unfold rehashBucket
  rw [hbucket]
  refine Within.bind (Q := fun c' => c' = c) (rfl : c = c) fun c' hc' => ?_
  rw [hc']
  refine Within.bind (moveEntries_spec c d h.ht1 hs1) ?_
  rintro d1 ⟨ht, hht, hshape, hp, rfl⟩
  have hlen := hperm.length_eq
  rw [List.length_append] at hlen
  have hused := h.ht0.used
  obtain ⟨hinv0, hsh0⟩ := h.ht0.setBucket (n := d.ht0.used - c.length) (b := []) hc (by simp)
    (by rw [List.length_nil]; omega)
  refine ⟨⟨⟨hinv0, hht, nofun, ?_⟩, ?_⟩, rfl⟩
  · intro k hk
    rw [← Option.some.inj hk]
    refine ⟨hs0, by rw [hshape.size]; exact hs1, fun j hj => ?_⟩
    change (d.ht0.table.set idx [])[j]? = some []
    rw [List.getElem?_set]
    by_cases hij : idx = j
    · rw [if_pos hij, if_pos (List.getElem?_eq_some_iff.mp hc).1]
    · rw [if_neg hij]
      exact hbelow j (by omega)
  · change ((d.ht0.table.set idx []).flatten ++ ht.table.flatten).Perm (d.ht0.table.flatten ++ d.ht1.table.flatten)
    refine ((hset []).append hp).trans ?_
    rw [List.nil_append]
    refine List.Perm.trans ?_ (hperm.symm.append_right _)
    rw [← List.append_assoc]
    exact List.perm_append_comm.append_right _

theorem rehashDone_kept (h : DictInv t w d) : Kept t w d (rehashDone d).1 := by
  unfold rehashDone
  split
  · rename_i h0
    have hnil : d.ht0.table.flatten = [] := by
      rw [← List.length_eq_zero_iff, ← h.ht0.used]
      exact h0
    refine ⟨⟨h.ht1, .empty, fun _ => rfl, nofun⟩, ?_⟩
    change (d.ht1.table.flatten ++ []).Perm (d.ht0.table.flatten ++ d.ht1.table.flatten)
    rw [hnil, List.append_nil]
    exact .refl _
  · exact .refl h

/-- The steps of `dictRehash`: the assertion holds, and the loop over the empty buckets ends
inside the table. -/
theorem rehashSteps_kept : ∀ (n idx emptyVisits : ℕ) (d : Dict κ ν), DictInv t w d → d.rehashidx = some idx →
    Within (fun r => Kept t w d r.1) (fun _ => ¬ w) (rehashSteps t n idx emptyVisits d)
  | 0, _, _, _, h, _ => rehashDone_kept h
  | n + 1, idx, emptyVisits, d, h, hi => by
    obtain ⟨-, -, hempty⟩ := h.active idx hi
    unfold rehashSteps
    split
    · exact rehashDone_kept h
    · rename_i hused
      -- some bucket is not empty, and it is not below `idx`
      have hsome : ∃ j b, idx ≤ j ∧ d.ht0.table[j]? = some b ∧ b ≠ [] := by
        have hne : d.ht0.table.flatten ≠ [] := by
          intro hnil
          rw [h.ht0.used, hnil] at hused
          exact hused rfl
        obtain ⟨e, he⟩ := List.exists_mem_of_ne_nil _ hne
        obtain ⟨j, b, hb, heb⟩ := Assoc.mem_flatten_iff.mp he
        refine ⟨j, b, ?_, hb, List.ne_nil_of_mem heb⟩
        by_contra hlt
        rw [hempty j (by omega)] at hb
        rw [← Option.some.inj hb] at heb
        cases heb
      obtain ⟨j, b, hj, hb, hbne⟩ := hsome
      have hjlt : j < d.ht0.table.length := (List.getElem?_eq_some_iff.mp hb).1
      split
      · rename_i hsize
        intro hw
        rw [h.ht0.whole hw] at hjlt
        omega
      · refine Within.bind (Within.mono (skipEmpty_spec (d.ht0.table.drop idx) idx emptyVisits) (fun _ => id) ?_) ?_
        · intro _ hall _
          refine hbne (hall b ?_)
          rw [List.mem_iff_getElem?]
          refine ⟨j - idx, ?_⟩
          rw [List.getElem?_drop, Nat.add_sub_cancel' hj]
          exact hb
        · rintro ⟨idx', left⟩ ⟨hle, hskip, hfound⟩
          have hbelow : ∀ k < idx', d.ht0.table[k]? = some [] := by
            intro k hk
            by_cases hki : k < idx
            · exact hempty k hki
            · have hk' := hskip (k - idx) (by omega)
              rw [List.getElem?_drop, Nat.add_sub_cancel' (by omega)] at hk'
              exact hk'
          cases left with
          | none =>
            refine ⟨⟨h.ht0, h.ht1, nofun, fun k hk => ?_⟩, .refl _⟩
            rw [← Option.some.inj hk]
            exact ⟨(h.active idx hi).1, (h.active idx hi).2.1, hbelow⟩
          | some emptyVisits' =>
            obtain ⟨e, c, hc⟩ := hfound nofun
            rw [List.getElem?_drop, Nat.add_sub_cancel' hle] at hc
            refine Within.bind (rehashBucket_kept h hi hc hbelow) fun d1 ⟨hk, hi1⟩ => ?_
            exact Within.mono (rehashSteps_kept n (idx' + 1) emptyVisits' d1 hk.inv hi1) (fun _ => hk.trans) fun _ => id

theorem dictRehash_kept (h : DictInv t w d) (n : ℕ) :
    Within (fun r => Kept t w d r.1) (fun _ => ¬ w) (dictRehash t d n) := by
  unfold dictRehash
  split
  · exact .refl h
  · rename_i idx hidx
    exact rehashSteps_kept n idx (n * 10) d h hidx

theorem rehashIfNeeded_kept (h : DictInv t w d) : Within (Kept t w d) (fun _ => ¬ w) (rehashIfNeeded t d) := by
  unfold rehashIfNeeded dictRehashStep
  split
  · split
    · have hr := dictRehash_kept h 1
      cases heq : dictRehash t d 1 with
      | ok r =>
        rw [heq] at hr
        exact hr
      | error a =>
        rw [heq] at hr
        exact hr
    · exact .refl h
  · exact .refl h

/-! ### Resizing -/

theorem nextPowerLoop_spec (size : ℕ) : ∀ fuel k, ∃ k', k ≤ k' ∧ k' ≤ k + fuel ∧
    nextPowerLoop size fuel (2 ^ k) = 2 ^ k' ∧ (size ≤ 2 ^ (k + fuel) → size ≤ 2 ^ k') ∧
    ∀ m, k ≤ m → size ≤ 2 ^ m → k' ≤ m
  | 0, k => ⟨k, le_rfl, le_rfl, rfl, id, fun _ h _ => h⟩
  | fuel + 1, k => by
    unfold nextPowerLoop
    split
    · rename_i hge
      exact ⟨k, le_rfl, by omega, rfl, fun _ => hge, fun _ h _ => h⟩
    · rename_i hlt
      rw [← Nat.pow_succ]
      obtain ⟨k', h1, h2, h3, h4, h5⟩ := nextPowerLoop_spec size fuel (k + 1)
      refine ⟨k', by omega, by omega, h3, fun hs => h4 ?_, fun m hm hs => h5 m ?_ hs⟩
      · rwa [show k + 1 + fuel = k + (fuel + 1) by omega]
      · by_contra hle
        have hmk : m = k := by omega
        rw [hmk] at hs
        exact hlt hs

/-- A power of two, not below the size asked for, and the first one. -/
theorem dictNextPower_spec (size : ℕ) : ∃ k, 2 ≤ k ∧ k ≤ 63 ∧ dictNextPower size = 2 ^ k ∧
    (size < LONG_MAX → size ≤ 2 ^ k) ∧ (size ≤ 2 ^ 60 → k ≤ 60) := by
  unfold dictNextPower
  split
  · rename_i hge
    have hmax : LONG_MAX = 2 ^ 63 - 1 := rfl
    refine ⟨63, by omega, le_rfl, by decide, fun h => ?_, fun h => ?_⟩
    · omega
    · have hp : (2 : ℕ) ^ 60 < 2 ^ 63 - 1 := by decide
      omega
  · rename_i hlt
    obtain ⟨k, h1, h2, h3, h4, h5⟩ := nextPowerLoop_spec size 61 2
    refine ⟨k, h1, h2, h3, fun _ => h4 ?_, fun h => h5 60 (by omega) h⟩
    have hmax : LONG_MAX = 2 ^ 63 - 1 := rfl
    have hp : (2 : ℕ) ^ (2 + 61) = 2 ^ 63 := rfl
    omega

theorem zcalloc_length {k : ℕ} (hk : k ≤ 60) : (zcalloc (2 ^ k) : List (Chain κ ν)).length = 2 ^ k := by
  have hle : 2 ^ k ≤ 2 ^ 60 := Nat.pow_le_pow_right (by omega) hk
  have hlt : 2 ^ k * 8 < 2 ^ 64 := by omega
  rw [zcalloc, List.length_replicate, Nat.mod_eq_of_lt hlt, Nat.mul_div_cancel _ (by omega)]

theorem zcalloc_flatten (n : ℕ) : (zcalloc n : List (Chain κ ν)).flatten = [] := by
  rw [List.flatten_eq_nil_iff]
  intro c hc
  exact List.eq_of_mem_replicate hc

/-- A new table, where the memory for it is not cut short. -/
theorem newTable_inv {size : ℕ} (hfit : w → size ≤ 2 ^ 60) :
    HtInv t w (newTable (dictNextPower size) : DictHt κ ν) := by
  obtain ⟨k, h2, h63, heq, -, hle⟩ := dictNextPower_spec size
  refine ⟨.inr ⟨k, h2, h63, heq, by rw [heq]; rfl⟩, ?_, ?_, fun hw => ?_⟩
  · intro i c hc e he
    rw [List.eq_of_mem_replicate (List.mem_of_getElem? hc)] at he
    cases he
  · change 0 = (zcalloc (dictNextPower size) : List (Chain κ ν)).flatten.length
    rw [zcalloc_flatten]
    rfl
  · change (zcalloc (dictNextPower size) : List (Chain κ ν)).length = dictNextPower size
    rw [heq]
    exact zcalloc_length (hle (hfit hw))

theorem dictExpand_kept (h : DictInv t w d) {size : ℕ} (hfit : w → size ≤ 2 ^ 60) :
    Kept t w d (dictExpand d size).1 ∧
      ((dictExpand d size).2 = true → (dictExpand d size).1.ht0.size ≠ 0) := by
  unfold dictExpand
  split
  · exact ⟨.refl h, by rintro ⟨⟩⟩
  · rename_i hno
    dsimp only
    split
    · exact ⟨.refl h, by rintro ⟨⟩⟩
    · have hidle : d.rehashidx = none := by
        simpa [dictIsRehashing] using fun hr => hno (.inl hr)
      have hht1 := h.idle hidle
      have hpos : dictNextPower size ≠ 0 := by
        obtain ⟨k, -, -, heq, -⟩ := dictNextPower_spec size
        rw [heq]
        exact (Nat.two_pow_pos k).ne'
      split
      · rename_i h0
        refine ⟨⟨⟨newTable_inv hfit, h.ht1, h.idle, fun i hi => ?_⟩, ?_⟩, fun _ => hpos⟩
        · change d.rehashidx = some i at hi
          rw [hidle] at hi
          cases hi
        · have htable : d.ht0.table = [] := by
            rcases h.ht0.shape with ⟨-, ht⟩ | ⟨k, -, -, hsize, -⟩
            · exact ht
            · rw [hsize] at h0
              exact absurd h0 (Nat.two_pow_pos k).ne'
          change ((zcalloc (dictNextPower size)).flatten ++ _).Perm (d.ht0.table.flatten ++ _)
          rw [zcalloc_flatten, htable]
          exact .refl _
      · rename_i h0
        refine ⟨⟨⟨h.ht0, newTable_inv hfit, by rintro ⟨⟩, fun i hi => ?_⟩, ?_⟩, fun _ => h0⟩
        · rw [← Option.some.inj hi]
          exact ⟨h0, hpos, by rintro _ ⟨⟩⟩
        · change (d.ht0.table.flatten ++ (zcalloc (dictNextPower size)).flatten).Perm (d.ht0.table.flatten ++ _)
          rw [zcalloc_flatten, hht1]
          exact .refl _

theorem dictResize_kept (h : DictInv t w d) : Kept t w d (dictResize d).1 := by
  unfold dictResize
  split
  · exact .refl h
  · refine (dictExpand_kept h fun _ => ?_).1
    have hlt := BitVec.toInt_lt (x := BitVec.ofNat 32 d.ht0.used)
    have hinit : DICT_HT_INITIAL_SIZE = 4 := rfl
    split
    · rw [hinit]
      omega
    · omega

/-- Before a key is added, the table has a bucket for it. -/
theorem dictExpandIfNeeded_spec (h : DictInv t w d) (hfit : w → dictSize d < 2 ^ 59) :
    Kept t w d (dictExpandIfNeeded d).1 ∧
      ((dictExpandIfNeeded d).2 = true → (dictExpandIfNeeded d).1.ht0.size ≠ 0) ∧
      (w → (dictExpandIfNeeded d).2 = true) := by
  have hsmall : w → d.ht0.used < 2 ^ 59 := fun hw => lt_of_le_of_lt (Nat.le_add_right _ _) (hfit hw)
  unfold dictExpandIfNeeded
  split
  · rename_i hr
    exact ⟨.refl h, fun _ => (h.rehashing hr).1, fun _ => rfl⟩
  · rename_i hr
    split
    · rename_i h0
      have hfour : w → DICT_HT_INITIAL_SIZE ≤ 2 ^ 60 := fun _ => by decide
      refine ⟨(dictExpand_kept h hfour).1, (dictExpand_kept h hfour).2, fun _ => ?_⟩
      have hused : d.ht0.used = 0 := by
        rcases h.ht0.shape with ⟨-, ht⟩ | ⟨k, -, -, hsize, -⟩
        · rw [h.ht0.used, ht]
          rfl
        · rw [hsize] at h0
          exact absurd h0 (Nat.two_pow_pos k).ne'
      have hnext : dictNextPower DICT_HT_INITIAL_SIZE = 4 := by decide
      have hne : ¬ (4 = d.ht0.size) := by rw [h0]; decide
      rw [dictExpand, if_neg (by simp [hr, hused])]
      dsimp only
      rw [hnext, if_neg hne, if_pos h0]
    · rename_i h0
      split
      · rename_i hgrow
        have hdouble : w → d.ht0.used * 2 ≤ 2 ^ 60 := fun hw => by
          have hs := hsmall hw
          omega
        refine ⟨(dictExpand_kept h hdouble).1, (dictExpand_kept h hdouble).2, fun hw => ?_⟩
        obtain ⟨k, -, -, heq, hge, -⟩ := dictNextPower_spec (d.ht0.used * 2)
        have hlt : d.ht0.used * 2 < LONG_MAX := by
          have hs := hsmall hw
          have hmax : LONG_MAX = 2 ^ 63 - 1 := rfl
          omega
        have hle := hge hlt
        have hused := hgrow.1
        have hne : ¬ (dictNextPower (d.ht0.used * 2) = d.ht0.size) := by
          rw [heq]
          omega
        have hno : ¬ (dictIsRehashing d = true ∨ d.ht0.used > d.ht0.used * 2) := by
          rintro (h' | h')
          · exact hr h'
          · omega
        rw [dictExpand, if_neg hno]
        dsimp only
        rw [if_neg hne, if_neg h0]
      · exact ⟨.refl h, fun _ => h0, fun _ => rfl⟩

/-! ### Looking for a key -/

/-- An entry found. -/
def Points (d : Dict κ ν) (key : κ) (t : DictType κ) (ref : EntryRef) : Prop :=
  ∃ c e, (if ref.second then d.ht1 else d.ht0).table[ref.idx]? = some c ∧ (c)[ref.pos]? = some e ∧
    t.keyCompare key e.1 = true

/-- `_dictKeyIndex` finds the entry of the key, or the place for a new one. -/
theorem dictKeyIndex_spec (h : DictInv t w d) (hfit : w → dictSize d < 2 ^ 59) (key : κ) :
    Within (fun r => Kept t w d r.1 ∧ match r.2 with
      | .failed => ¬ w
      | .existing ref => Points r.1 key t ref ∧ (ref.second = true → dictIsRehashing r.1 = true)
      | .free idx => (∀ e ∈ entries r.1, t.keyCompare key e.1 = false) ∧ r.1.ht0.size ≠ 0 ∧
          idx = idxOf (t.hashFunction key) (if dictIsRehashing r.1 then r.1.ht1 else r.1.ht0).sizemask)
      (fun _ => ¬ w) (dictKeyIndex t d key) := by
  obtain ⟨hk, hsize, hok⟩ := dictExpandIfNeeded_spec h hfit
  unfold dictKeyIndex
  generalize dictExpandIfNeeded d = r at hk hsize hok
  obtain ⟨d1, ok⟩ := r
  dsimp only at hk hsize hok ⊢
  cases ok with
  | false =>
    refine ⟨hk, fun hw => ?_⟩
    cases hok hw
  | true =>
    have hs0 := hsize rfl
    rw [if_neg (by decide)]
    refine Within.bind (hk.inv.ht0.bucket hs0 (t.hashFunction key)) fun c hc => ?_
    have h0 := findKey_spec hk.inv.ht0 hc
    split
    · rename_i pos hpos
      rw [hpos] at h0
      obtain ⟨e, he, hkey⟩ := h0
      exact ⟨hk, ⟨c, e, hc, he, hkey⟩, nofun⟩
    · rename_i hnone
      rw [hnone] at h0
      by_cases hr : dictIsRehashing d1 = true
      · rw [if_pos hr]
        refine Within.bind (hk.inv.ht1.bucket (hk.inv.rehashing hr).2 (t.hashFunction key)) fun c1 hc1 => ?_
        have h1 := findKey_spec hk.inv.ht1 hc1
        split
        · rename_i pos hpos
          rw [hpos] at h1
          obtain ⟨e, he, hkey⟩ := h1
          exact ⟨hk, ⟨c1, e, hc1, he, hkey⟩, fun _ => hr⟩
        · rename_i hnone1
          rw [hnone1] at h1
          refine ⟨hk, fun e he => ?_, hs0, by dsimp only; rw [if_pos hr]⟩
          rcases List.mem_append.mp he with he | he
          · exact h0 e he
          · exact h1 e he
      · rw [if_neg hr]
        refine ⟨hk, fun e he => ?_, hs0, by dsimp only; rw [if_neg hr]⟩
        rw [hk.inv.entries_idle (by simpa using hr)] at he
        exact h0 e he

/-! ### Adding and replacing -/

/-- `dictAddRaw` adds an entry for a new key, or finds the one there is. -/
theorem dictAddRaw_spec (h : DictInv t w d) (hfit : w → dictSize d < 2 ^ 59) (key : κ) (val : ν) :
    Within (fun r => DictInv t w r.1 ∧ match r.2 with
      | .failed => ¬ w
      | .existing ref => (entries r.1).Perm (entries d) ∧ Points r.1 key t ref
      | .added => (∀ e ∈ entries d, t.keyCompare key e.1 = false) ∧ (entries r.1).Perm ((key, val) :: entries d))
      (fun _ => ¬ w) (dictAddRaw t d key val) := by
  unfold dictAddRaw
  refine Within.bind (rehashIfNeeded_kept h) fun d1 hk1 => ?_
  have hfit1 : w → dictSize d1 < 2 ^ 59 := by
    rw [hk1.inv.dictSize, hk1.entries.length_eq, ← h.dictSize]
    exact hfit
  refine Within.bind (dictKeyIndex_spec hk1.inv hfit1 key) fun r hspec => ?_
  obtain ⟨hk2, hr⟩ := hspec
  obtain ⟨d2, index⟩ := r
  have hk := hk1.trans hk2
  cases index with
  | failed => exact ⟨hk.inv, hr⟩
  | existing ref => exact ⟨hk.inv, hk.entries, hr.1⟩
  | free idx =>
    obtain ⟨hno, hs0, hidx⟩ := hr
    have hnew : ∀ e ∈ entries d, t.keyCompare key e.1 = false := fun e he => hno e (hk.entries.symm.mem_iff.mp he)
    dsimp only at hs0 hno hidx ⊢
    split
    · rename_i hre
      obtain ⟨-, hs1⟩ := hk.inv.rehashing hre
      rw [hidx, if_pos hre]
      refine Within.bind (hk.inv.ht1.push hs1 (key, val)) fun ht hpush => ?_
      obtain ⟨hht, hsh, hp⟩ := hpush
      refine ⟨⟨hk.inv.ht0, hht, fun hi => ?_, fun i hi => ?_⟩, hnew, ?_⟩
      · change d2.rehashidx = none at hi
        rw [dictIsRehashing, hi] at hre
        cases hre
      · obtain ⟨h0, h1, h2⟩ := hk.inv.active i hi
        exact ⟨h0, by rw [hsh.size]; exact h1, h2⟩
      · change (d2.ht0.table.flatten ++ ht.table.flatten).Perm _
        exact ((hp.append_left _).trans List.perm_middle).trans (hk.entries.cons _)
    · rename_i hre
      rw [hidx, if_neg hre]
      refine Within.bind (hk.inv.ht0.push hs0 (key, val)) fun ht hpush => ?_
      obtain ⟨hht, hsh, hp⟩ := hpush
      have hidle : d2.rehashidx = none := by simpa [dictIsRehashing] using hre
      refine ⟨⟨hht, hk.inv.ht1, hk.inv.idle, fun i hi => ?_⟩, hnew, ?_⟩
      · change d2.rehashidx = some i at hi
        rw [hidle] at hi
        cases hi
      · change (ht.table.flatten ++ d2.ht1.table.flatten).Perm _
        exact (hp.append_right _).trans (hk.entries.cons _)

theorem dictSetVal_spec (h : DictInv t w d) {ref : EntryRef} (hp : Points d key t ref) (val : ν) :
    DictInv t w (dictSetVal d ref val) ∧ ∃ e r, t.keyCompare key e.1 = true ∧ (entries d).Perm (e :: r) ∧
      (entries (dictSetVal d ref val)).Perm ((e.1, val) :: r) := by
  obtain ⟨c, e, hc, he, hkey⟩ := hp
  unfold dictSetVal
  cases hs : ref.second with
  | true =>
    rw [hs, if_pos rfl] at hc
    obtain ⟨hht, hsh, ⟨r, h1, h2⟩, hempty⟩ := h.ht1.setVal hc he val
    rw [if_pos rfl]
    refine ⟨⟨h.ht0, hht, fun hi => ?_, fun i hi => ?_⟩, e, d.ht0.table.flatten ++ r, hkey, ?_, ?_⟩
    · rw [h.idle hi] at hc
      cases hc
    · obtain ⟨hs0, hs1, hbelow⟩ := h.active i hi
      exact ⟨hs0, by rw [hsh.size]; exact hs1, hbelow⟩
    · exact (h1.append_left _).trans List.perm_middle
    · exact (h2.append_left _).trans List.perm_middle
  | false =>
    rw [hs, if_neg (by decide)] at hc
    obtain ⟨hht, hsh, ⟨r, h1, h2⟩, hempty⟩ := h.ht0.setVal hc he val
    rw [if_neg (by decide)]
    refine ⟨⟨hht, h.ht1, h.idle, fun i hi => ?_⟩, e, r ++ d.ht1.table.flatten, hkey, ?_, ?_⟩
    · obtain ⟨hs0, hs1, hbelow⟩ := h.active i hi
      exact ⟨by rw [hsh.size]; exact hs0, hs1, fun j hj => hempty j (hbelow j hj)⟩
    · exact h1.append_right _
    · exact h2.append_right _

/-! ### Removing and finding -/

theorem dictGenericDelete_spec (h : DictInv t w d) (key : κ) :
    Within (fun r => DictInv t w r.1 ∧ match r.2 with
      | none => (entries r.1).Perm (entries d) ∧ ∀ e ∈ entries d, t.keyCompare key e.1 = false
      | some e => t.keyCompare key e.1 = true ∧ (entries d).Perm (e :: entries r.1))
      (fun _ => ¬ w) (dictGenericDelete t d key) := by
  unfold dictGenericDelete
  split
  · rename_i h0
    have hnil : entries d = [] := h.entries_eq_nil.mpr (by rw [dictSize, h0.1, h0.2])
    refine ⟨h, .refl _, ?_⟩
    rw [hnil]
    simp
  · rename_i h0
    refine Within.bind (rehashIfNeeded_kept h) fun d1 hk => ?_
    have hmem : ∀ {P : κ × ν → Prop}, (∀ e ∈ entries d1, P e) → ∀ e ∈ entries d, P e := fun hall e he =>
      hall e (hk.entries.symm.mem_iff.mp he)
    have hs0 := hk.inv.size_ne_zero fun hnil => by
      have hp := hk.entries
      rw [hnil, List.nil_perm, h.entries_eq_nil, dictSize] at hp
      omega
    refine Within.bind (hk.inv.ht0.unlink hs0 key) fun r hr => ?_
    cases r with
    | some r =>
      obtain ⟨ht, e⟩ := r
      obtain ⟨hht, hsh, hkey, hp, hempty⟩ := hr
      refine ⟨⟨hht, hk.inv.ht1, hk.inv.idle, fun i hi => ?_⟩, hkey, ?_⟩
      · obtain ⟨h0', h1', hbelow⟩ := hk.inv.active i hi
        exact ⟨by rw [hsh.size]; exact h0', h1', fun j hj => hempty j (hbelow j hj)⟩
      · exact hk.entries.symm.trans (hp.append_right d1.ht1.table.flatten)
    | none =>
      dsimp only at hr ⊢
      by_cases hre : dictIsRehashing d1 = true
      · rw [if_pos hre]
        refine Within.bind (hk.inv.ht1.unlink (hk.inv.rehashing hre).2 key) fun r1 hr1 => ?_
        cases r1 with
        | some r1 =>
          obtain ⟨ht, e⟩ := r1
          obtain ⟨hht, hsh, hkey, hp, -⟩ := hr1
          refine ⟨⟨hk.inv.ht0, hht, fun hi => ?_, fun i hi => ?_⟩, hkey, ?_⟩
          · change d1.rehashidx = none at hi
            rw [dictIsRehashing, hi] at hre
            cases hre
          · obtain ⟨h0', h1', hbelow⟩ := hk.inv.active i hi
            exact ⟨h0', by rw [hsh.size]; exact h1', hbelow⟩
          · exact hk.entries.symm.trans ((hp.append_left _).trans List.perm_middle)
        | none =>
          refine ⟨hk.inv, hk.entries, hmem fun e he => ?_⟩
          rcases List.mem_append.mp he with he | he
          · exact hr e he
          · exact hr1 e he
      · rw [if_neg hre]
        refine ⟨hk.inv, hk.entries, hmem fun e he => ?_⟩
        rw [hk.inv.entries_idle (by simpa using hre)] at he
        exact hr e he

theorem dictFind_spec (h : DictInv t w d) (key : κ) :
    Within (fun r => Kept t w d r.1 ∧ match r.2 with
      | none => ∀ e ∈ entries d, t.keyCompare key e.1 = false
      | some e => e ∈ entries d ∧ t.keyCompare key e.1 = true) (fun _ => ¬ w) (dictFind t d key) := by
  unfold dictFind
  split
  · rename_i h0
    have hnil : entries d = [] := h.entries_eq_nil.mpr h0
    refine ⟨.refl h, ?_⟩
    rw [hnil]
    simp
  · rename_i h0
    refine Within.bind (rehashIfNeeded_kept h) fun d1 hk => ?_
    have hmem : ∀ {e}, e ∈ entries d1 ↔ e ∈ entries d := fun {e} => hk.entries.mem_iff
    have hs0 := hk.inv.size_ne_zero fun hnil => by
      have hp := hk.entries
      rw [hnil, List.nil_perm, h.entries_eq_nil] at hp
      exact h0 hp
    refine Within.bind (hk.inv.ht0.find hs0 key) fun r hr => ?_
    cases r with
    | some e => exact ⟨hk, hmem.mp (List.mem_append_left _ hr.1), hr.2⟩
    | none =>
      dsimp only at hr ⊢
      by_cases hre : dictIsRehashing d1 = true
      · rw [if_pos hre]
        refine Within.bind (hk.inv.ht1.find (hk.inv.rehashing hre).2 key) fun r1 hr1 => ?_
        cases r1 with
        | some e => exact ⟨hk, hmem.mp (List.mem_append_right _ hr1.1), hr1.2⟩
        | none =>
          refine ⟨hk, fun e he => ?_⟩
          rcases List.mem_append.mp (hmem.mpr he) with he | he
          · exact hr e he
          · exact hr1 e he
      · rw [if_neg hre]
        refine ⟨hk, fun e he => ?_⟩
        rw [← hmem, hk.inv.entries_idle (by simpa using hre)] at he
        exact hr e he

end RedisZk.Hash
