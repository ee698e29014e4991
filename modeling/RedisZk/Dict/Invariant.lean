/-
# The invariant of a dict, table by table

A table is empty, or its size is a power of two of which the mask keeps the low
bits; every entry is in the bucket of its hash; `used` counts the entries. Each
operation on one table is described by what it does to the list of all its
entries, up to their order. Whether the tables are as long as their sizes say is
the proposition `w` throughout: nothing goes wrong where it holds.

Key definitions: `HtInv`, `DictInv`, `entries`.
Key theorems: `HtInv.bucket`, `HtInv.push`, `HtInv.unlink`, `HtInv.find`, `HtInv.setVal`.
-/
import Mathlib
import RedisZk.Dict.Table
import RedisZk.Lib.Assoc
import RedisZk.Lib.Run

namespace RedisZk.Hash

open Stepwise (Within)
open Assoc (SameKey mem_flatten_iff flatten_set_perm)

variable {κ ν : Type} {t : DictType κ} {w : Prop} {ht ht' : DictHt κ ν} {d d' : Dict κ ν} {key : κ} {c : Chain κ ν} {i : ℕ}

/-- The comparison of keys, as an equivalence. -/
def DictType.sameKey (t : DictType κ) : SameKey κ where
  same := t.keyCompare
  refl := t.refl
  symm := t.symm _ _
  trans := t.trans _ _ _

/-! ### Masks -/

theorem idxOf_mod (x : BitVec 64) {k : ℕ} (hk : k ≤ 63) : idxOf x (BitVec.ofNat 64 (2 ^ k - 1)) = x.toNat % 2 ^ k := by
  have hlt : 2 ^ k - 1 < 2 ^ 64 := by
    have hle : 2 ^ k ≤ 2 ^ 63 := Nat.pow_le_pow_right (by omega) hk
    omega
  rw [idxOf, BitVec.toNat_and, BitVec.toNat_ofNat, Nat.mod_eq_of_lt hlt]
  exact Nat.and_two_pow_sub_one_eq_mod _ _

/-! ### One table -/

/-- A table in order. -/
structure HtInv (t : DictType κ) (w : Prop) (ht : DictHt κ ν) : Prop where
  shape : (ht.size = 0 ∧ ht.table = []) ∨
    ∃ k, 2 ≤ k ∧ k ≤ 63 ∧ ht.size = 2 ^ k ∧ ht.sizemask = BitVec.ofNat 64 (2 ^ k - 1)
  placed : ∀ (i : ℕ) c, ht.table[i]? = some c → ∀ e ∈ c, idxOf (t.hashFunction e.1) ht.sizemask = i
  used : ht.used = ht.table.flatten.length
  whole : w → ht.table.length = ht.size

/-- The size and the mask are the same, and what was empty still is. -/
structure SameShape (ht ht' : DictHt κ ν) : Prop where
  size : ht'.size = ht.size
  sizemask : ht'.sizemask = ht.sizemask
  length : ht'.table.length = ht.table.length

theorem HtInv.empty : HtInv t w ({} : DictHt κ ν) where
  shape := .inl ⟨rfl, rfl⟩
  placed := by simp
  used := rfl
  whole _ := rfl

/-- The index of a hash is inside the table. -/
theorem HtInv.idx_lt (h : HtInv t w ht) (hs : ht.size ≠ 0) (x : BitVec 64) : idxOf x ht.sizemask < ht.size := by
  rcases h.shape with ⟨h0, -⟩ | ⟨k, -, hk, hsize, hmask⟩
  · exact absurd h0 hs
  · rw [hmask, idxOf_mod x hk, hsize]
    exact Nat.mod_lt _ (Nat.two_pow_pos k)

theorem HtInv.bucket (h : HtInv t w ht) (hs : ht.size ≠ 0) (x : BitVec 64) :
    Within (fun c => ht.table[idxOf x ht.sizemask]? = some c) (fun _ => ¬ w) (ht.bucket (idxOf x ht.sizemask)) := by
  unfold DictHt.bucket
  split
  · rename_i hnone
    intro hw
    have hlt := h.idx_lt hs x
    rw [← h.whole hw] at hlt
    rw [List.getElem?_eq_getElem hlt] at hnone
    cases hnone
  · rename_i c hc
    exact hc

/-- One bucket is replaced. -/
theorem HtInv.setBucket (h : HtInv t w ht) (hc : ht.table[i]? = some c) {b : Chain κ ν} {n : ℕ}
    (hplaced : ∀ e ∈ b, idxOf (t.hashFunction e.1) ht.sizemask = i) (hn : n + c.length = ht.used + b.length) :
    HtInv t w { ht.setBucket i b with used := n } ∧ SameShape ht { ht.setBucket i b with used := n } := by
  obtain ⟨r, hperm, hset⟩ := flatten_set_perm hc
  refine ⟨⟨?_, ?_, ?_, ?_⟩, rfl, rfl, List.length_set⟩
  · rcases h.shape with ⟨h0, htable⟩ | hk
    · rw [htable] at hc
      cases hc
    · exact .inr hk
  · intro j c1 hc1 e he
    have hb' : (ht.table.set i b)[j]? = some c1 := hc1
    rw [List.getElem?_set] at hb'
    split at hb'
    · rename_i hij
      split at hb'
      · rw [← hij]
        rw [← Option.some.inj hb'] at he
        exact hplaced e he
      · cases hb'
    · exact h.placed j c1 hb' e he
  · have h1 := (hset b).length_eq
    have h2 := hperm.length_eq
    rw [List.length_append] at h1 h2
    change n = (ht.table.set i b).flatten.length
    have hu := h.used
    omega
  · intro hw
    change (ht.table.set i b).length = ht.size
    rw [List.length_set]
    exact h.whole hw

/-- The entries of a key are in the bucket of its hash. -/
theorem HtInv.mem_chain (h : HtInv t w ht) (hc : ht.table[idxOf (t.hashFunction key) ht.sizemask]? = some c) {e : κ × ν}
    (he : e ∈ ht.table.flatten) (hk : t.keyCompare key e.1 = true) : e ∈ c := by
  obtain ⟨j, b, hb, heb⟩ := mem_flatten_iff.mp he
  have hj := h.placed j b hb e heb
  rw [← t.hash_eq _ _ hk] at hj
  rw [hj, hb] at hc
  rw [← Option.some.inj hc]
  exact heb

/-- An entry is put on top of its bucket. -/
theorem HtInv.push (h : HtInv t w ht) (hs : ht.size ≠ 0) (e : κ × ν) :
    Within (fun ht' => HtInv t w ht' ∧ SameShape ht ht' ∧ ht'.table.flatten.Perm (e :: ht.table.flatten)) (fun _ => ¬ w)
      (ht.push (idxOf (t.hashFunction e.1) ht.sizemask) e) := by
  unfold DictHt.push
  refine Within.bind (h.bucket hs (t.hashFunction e.1)) fun c hc => ?_
  have hplaced : ∀ e' ∈ e :: c, idxOf (t.hashFunction e'.1) ht.sizemask = idxOf (t.hashFunction e.1) ht.sizemask := by
    intro e' he'
    rcases List.mem_cons.mp he' with rfl | he'
    · rfl
    · exact h.placed _ c hc e' he'
  obtain ⟨hinv, hshape⟩ := h.setBucket (n := ht.used + 1) hc hplaced (by rw [List.length_cons]; omega)
  obtain ⟨r, hperm, hset⟩ := flatten_set_perm hc
  exact ⟨hinv, hshape, (hset (e :: c)).trans (hperm.symm.cons e)⟩

theorem find?_perm {α : Type*} {p : α → Bool} {a : α} : ∀ {l : List α}, l.find? p = some a → l.Perm (a :: l.eraseP p)
  | [], h => by cases h
  | b :: l, h => by
    by_cases hb : p b = true
    · rw [List.find?_cons_of_pos hb] at h
      rw [List.eraseP_cons_of_pos hb, Option.some.inj h]
    · rw [List.find?_cons_of_neg hb] at h
      rw [List.eraseP_cons_of_neg hb]
      exact ((find?_perm h).cons b).trans (.swap _ _ _)

/-- What a table has for a key. -/
theorem HtInv.find (h : HtInv t w ht) (hs : ht.size ≠ 0) (key : κ) :
    Within (fun r => match r with
      | none => ∀ e ∈ ht.table.flatten, t.keyCompare key e.1 = false
      | some e => e ∈ ht.table.flatten ∧ t.keyCompare key e.1 = true) (fun _ => ¬ w) (ht.find t key) := by
  unfold DictHt.find DictHt.chainOf
  refine Within.bind (h.bucket hs (t.hashFunction key)) fun c hc => ?_
  change match c.find? fun e => t.keyCompare key e.1 with
    | none => _
    | some e => _
  split
  · rename_i hnone
    intro e he
    rw [Bool.eq_false_iff]
    intro hk
    exact List.find?_eq_none.mp hnone e (h.mem_chain hc he hk) hk
  · rename_i e hfind
    exact ⟨mem_flatten_iff.mpr ⟨_, c, hc, List.mem_of_find?_eq_some hfind⟩, List.find?_some (p := fun e : κ × ν => t.keyCompare key e.1) hfind⟩

/-- The first entry of a key is unlinked. -/
theorem HtInv.unlink (h : HtInv t w ht) (hs : ht.size ≠ 0) (key : κ) :
    Within (fun r => match r with
      | none => ∀ e ∈ ht.table.flatten, t.keyCompare key e.1 = false
      | some (ht', e) => HtInv t w ht' ∧ SameShape ht ht' ∧ t.keyCompare key e.1 = true ∧
          ht.table.flatten.Perm (e :: ht'.table.flatten) ∧
          ∀ j : ℕ, ht.table[j]? = some [] → ht'.table[j]? = some []) (fun _ => ¬ w) (ht.unlink t key) := by
  unfold DictHt.unlink DictHt.chainOf
  refine Within.bind (h.bucket hs (t.hashFunction key)) fun c hc => ?_
  cases hfind : c.find? fun e => t.keyCompare key e.1 with
  | none =>
    change ∀ e ∈ ht.table.flatten, t.keyCompare key e.1 = false
    intro e he
    rw [Bool.eq_false_iff]
    intro hk
    exact List.find?_eq_none.mp hfind e (h.mem_chain hc he hk) hk
  | some e =>
    have hp := find?_perm hfind
    have hlen := hp.length_eq
    obtain ⟨r, hperm, hset⟩ := flatten_set_perm hc
    have hu := h.used
    have hpl := hperm.length_eq
    rw [List.length_cons] at hlen
    rw [List.length_append] at hpl
    obtain ⟨hinv, hshape⟩ := h.setBucket (n := ht.used - 1) (b := c.eraseP fun e => t.keyCompare key e.1) hc
      (fun e' he' => h.placed _ c hc e' (List.mem_of_mem_eraseP he')) (by omega)
    refine ⟨hinv, hshape, List.find?_some (p := fun e : κ × ν => t.keyCompare key e.1) hfind, ?_, ?_⟩
    · exact hperm.trans ((hp.append_right r).trans ((hset _).symm.cons e))
    · intro j hj
      change (ht.table.set _ _)[j]? = some []
      rw [List.getElem?_set]
      split
      · rename_i hij
        rw [← hij, hc] at hj
        rw [Option.some.inj hj] at hfind
        cases hfind
      · exact hj

/-- The place of a key in a chain. -/
theorem findKey_spec (h : HtInv t w ht) (hc : ht.table[idxOf (t.hashFunction key) ht.sizemask]? = some c) :
    match findKey t key c with
    | none => ∀ e ∈ ht.table.flatten, t.keyCompare key e.1 = false
    | some pos => ∃ e, (c)[pos]? = some e ∧ t.keyCompare key e.1 = true := by
  split
  · rename_i hnone
    intro e he
    rw [Bool.eq_false_iff]
    intro hk
    have hno := List.findIdx?_eq_none_iff.mp hnone e (h.mem_chain hc he hk)
    rw [hk] at hno
    cases hno
  · rename_i pos hpos
    obtain ⟨hlt, hk, -⟩ := List.findIdx?_eq_some_iff_getElem.mp hpos
    exact ⟨(c)[pos], List.getElem?_eq_getElem hlt, hk⟩

theorem modify_at {α : Type*} {l : List α} {j : ℕ} {a : α} (h : l[j]? = some a) (f : α → α) :
    l.modify j f = l.set j (f a) := by
  obtain ⟨hlt, ha⟩ := List.getElem?_eq_some_iff.mp h
  rw [List.modify_eq_take_cons_drop hlt, List.set_eq_take_append_cons_drop, if_pos hlt, ha]

/-- The value of one entry is changed. -/
theorem HtInv.setVal (h : HtInv t w ht) {ref : EntryRef} {e : κ × ν} (hc : ht.table[ref.idx]? = some c)
    (he : (c)[ref.pos]? = some e) (val : ν) :
    HtInv t w (ht.setVal ref val) ∧ SameShape ht (ht.setVal ref val) ∧
      (∃ r, ht.table.flatten.Perm (e :: r) ∧ (ht.setVal ref val).table.flatten.Perm ((e.1, val) :: r)) ∧
      ∀ j : ℕ, ht.table[j]? = some [] → (ht.setVal ref val).table[j]? = some [] := by
  obtain ⟨hlt, hce⟩ := List.getElem?_eq_some_iff.mp hc
  obtain ⟨hpos, hpe⟩ := List.getElem?_eq_some_iff.mp he
  have heq : ht.setVal ref val = { ht.setBucket ref.idx (c.set ref.pos (e.1, val)) with used := ht.used } := by
    unfold DictHt.setVal DictHt.setBucket
    rw [modify_at hc, modify_at he]
  have hplaced : ∀ e' ∈ c.set ref.pos (e.1, val), idxOf (t.hashFunction e'.1) ht.sizemask = ref.idx := by
    intro e' he'
    rcases List.mem_or_eq_of_mem_set he' with hin | rfl
    · exact h.placed _ c hc e' hin
    · exact h.placed _ c hc e (List.mem_of_getElem? he)
  obtain ⟨hinv, hshape⟩ := h.setBucket (n := ht.used) hc hplaced (by rw [List.length_set])
  rw [heq]
  refine ⟨hinv, hshape, ?_, fun j hj => ?_⟩
  · obtain ⟨r, hperm, hset⟩ := flatten_set_perm hc
    have hsplit : ∀ x, (c.set ref.pos x).Perm (x :: (c.take ref.pos ++ c.drop (ref.pos + 1))) := by
      intro x
      rw [List.set_eq_take_append_cons_drop, if_pos hpos]
      exact List.perm_middle
    have hself : c.set ref.pos e = c := by
      rw [← hpe]
      exact List.set_getElem_self hpos
    refine ⟨c.take ref.pos ++ c.drop (ref.pos + 1) ++ r, ?_, ?_⟩
    · have hs := hsplit e
      rw [hself] at hs
      exact hperm.trans (hs.append_right r)
    · exact (hset _).trans ((hsplit _).append_right r)
  · change (ht.table.set _ _)[j]? = some []
    rw [List.getElem?_set]
    split
    · rename_i hij
      rw [← hij, hc] at hj
      rw [Option.some.inj hj] at he
      cases he
    · exact hj

/-! ### The dict -/

/-- All entries of both tables. -/
def entries (d : Dict κ ν) : List (κ × ν) := d.ht0.table.flatten ++ d.ht1.table.flatten

/-- A dict in order: there is a second table exactly while rehashing, and then the buckets
of the first one below `rehashidx` are empty. -/
structure DictInv (t : DictType κ) (w : Prop) (d : Dict κ ν) : Prop where
  ht0 : HtInv t w d.ht0
  ht1 : HtInv t w d.ht1
  idle : d.rehashidx = none → d.ht1 = {}
  active : ∀ i, d.rehashidx = some i → d.ht0.size ≠ 0 ∧ d.ht1.size ≠ 0 ∧ ∀ j < i, d.ht0.table[j]? = some []

theorem DictInv.empty : DictInv t w ({} : Dict κ ν) := ⟨.empty, .empty, fun _ => rfl, nofun⟩

theorem DictInv.dictSize (h : DictInv t w d) : dictSize d = (entries d).length := by
  rw [Hash.dictSize, entries, List.length_append, h.ht0.used, h.ht1.used]

theorem DictInv.rehashing (h : DictInv t w d) (hr : dictIsRehashing d = true) : d.ht0.size ≠ 0 ∧ d.ht1.size ≠ 0 := by
  obtain ⟨i, hi⟩ := Option.isSome_iff_exists.mp hr
  exact ⟨(h.active i hi).1, (h.active i hi).2.1⟩

theorem DictInv.entries_idle (h : DictInv t w d) (hr : dictIsRehashing d = false) : entries d = d.ht0.table.flatten := by
  have hidle := h.idle (by simpa [dictIsRehashing] using hr)
  rw [entries, hidle]
  exact List.append_nil _

/-- A dict with entries has a first table. -/
theorem DictInv.size_ne_zero (h : DictInv t w d) (hne : entries d ≠ []) : d.ht0.size ≠ 0 := by
  intro hz
  have htable : d.ht0.table = [] := by
    rcases h.ht0.shape with ⟨-, ht⟩ | ⟨k, -, -, hsize, -⟩
    · exact ht
    · rw [hsize] at hz
      exact absurd hz (Nat.two_pow_pos k).ne'
  cases hi : d.rehashidx with
  | none =>
    rw [entries, htable, h.idle hi] at hne
    exact hne rfl
  | some i => exact (h.active i hi).1 hz

theorem DictInv.entries_eq_nil (h : DictInv t w d) : entries d = [] ↔ Hash.dictSize d = 0 := by
  rw [h.dictSize, List.length_eq_zero_iff]

end RedisZk.Hash
