/-
# One ownership relation, stored three times

Every slot has at most one owner; an owner keeps a bitmap of its slots and
their number. `Consistent` says that the three agree, and binding or releasing
one slot keeps it.

Key definitions: `Consistent`.
Key theorems: `Consistent.bind`, `Consistent.release`, `Consistent.insert`, `Consistent.erase`.
-/
import Mathlib

namespace Ownership

variable {S N : Type*} [Fintype S]

/-- The number of set bits. -/
def popcount (bits : S → Bool) : ℕ := (Finset.univ.filter fun s => bits s = true).card

theorem popcount_set [DecidableEq S] {bits : S → Bool} {s : S} (h : bits s = false) :
    popcount (Function.update bits s true) = popcount bits + 1 := by
  have hset : (Finset.univ.filter fun t => Function.update bits s true t = true) =
      insert s (Finset.univ.filter fun t => bits t = true) := by
    ext t
    by_cases ht : t = s <;> simp [ht]
  rw [popcount, hset, Finset.card_insert_of_notMem (by simp [h]), popcount]

theorem popcount_clear [DecidableEq S] {bits : S → Bool} {s : S} (h : bits s = true) :
    popcount (Function.update bits s false) = popcount bits - 1 := by
  have hset : (Finset.univ.filter fun t => Function.update bits s false t = true) =
      (Finset.univ.filter fun t => bits t = true).erase s := by
    ext t
    by_cases ht : t = s <;> simp [ht]
  rw [popcount, hset, Finset.card_erase_of_mem (by simp [h]), popcount]

theorem popcount_pos {bits : S → Bool} {s : S} (h : bits s = true) : 0 < popcount bits :=
  Finset.card_pos.mpr ⟨s, by simp [h]⟩

/-- The table of owners, the bitmap of each node and its counter say the same. -/
structure Consistent (nodes : List N) (owner : S → Option N) (bits : N → S → Bool) (count : N → ℕ) : Prop where
  owner_mem : ∀ s n, owner s = some n → n ∈ nodes
  bit_iff : ∀ n ∈ nodes, ∀ s, bits n s = true ↔ owner s = some n
  count_eq : ∀ n ∈ nodes, count n = popcount (bits n)

variable {nodes nodes' : List N} {owner owner' : S → Option N} {bits bits' : N → S → Bool}
  {count count' : N → ℕ}

theorem Consistent.congr (h : Consistent nodes owner bits count) (hn : ∀ n, n ∈ nodes' ↔ n ∈ nodes)
    (ho : owner' = owner) (hb : ∀ n ∈ nodes, bits' n = bits n) (hc : ∀ n ∈ nodes, count' n = count n) :
    Consistent nodes' owner' bits' count' where
  owner_mem := by
    intro s n hs
    rw [hn]
    exact h.owner_mem s n (ho ▸ hs)
  bit_iff := by
    intro n hm s
    rw [hn] at hm
    rw [hb n hm, ho]
    exact h.bit_iff n hm s
  count_eq := by
    intro n hm
    rw [hn] at hm
    rw [hb n hm, hc n hm]
    exact h.count_eq n hm

/-- A slot without owner goes to `n`. -/
theorem Consistent.bind [DecidableEq S] (h : Consistent nodes owner bits count) {s : S} {n : N} (hn : n ∈ nodes)
    (hs : owner s = none) (hb : bits' n = Function.update (bits n) s true) (hc : count' n = count n + 1)
    (hb' : ∀ m, m ≠ n → bits' m = bits m) (hc' : ∀ m, m ≠ n → count' m = count m) :
    Consistent nodes (Function.update owner s (some n)) bits' count' where
  owner_mem := by
    intro t m ht
    by_cases e : t = s
    · rw [e, Function.update_self] at ht
      rw [← Option.some.inj ht]
      exact hn
    · rw [Function.update_of_ne e] at ht
      exact h.owner_mem t m ht
  bit_iff := by
    intro m hm t
    have hold := h.bit_iff m hm t
    by_cases em : m = n
    · subst em
      rw [hb]
      by_cases e : t = s
      · simp [e]
      · rw [Function.update_of_ne e, Function.update_of_ne e]
        exact hold
    · rw [hb' m em]
      by_cases e : t = s
      · subst e
        rw [hold, hs, Function.update_self]
        simp [Ne.symm em]
      · rw [Function.update_of_ne e]
        exact hold
  count_eq := by
    intro m hm
    by_cases em : m = n
    · subst em
      have hclear : bits m s = false := by
        rw [← Bool.not_eq_true, h.bit_iff m hm s, hs]
        simp
      rw [hc, hb, popcount_set hclear, h.count_eq m hm]
    · rw [hb' m em, hc' m em]
      exact h.count_eq m hm

/-- The owner `n` of a slot loses it. -/
theorem Consistent.release [DecidableEq S] (h : Consistent nodes owner bits count) {s : S} {n : N} (hs : owner s = some n)
    (hb : bits' n = Function.update (bits n) s false) (hc : count' n = count n - 1)
    (hb' : ∀ m, m ≠ n → bits' m = bits m) (hc' : ∀ m, m ≠ n → count' m = count m) :
    Consistent nodes (Function.update owner s none) bits' count' where
  owner_mem := by
    intro t m ht
    by_cases e : t = s
    · rw [e, Function.update_self] at ht
      exact absurd ht (by simp)
    · rw [Function.update_of_ne e] at ht
      exact h.owner_mem t m ht
  bit_iff := by
    intro m hm t
    have hold := h.bit_iff m hm t
    by_cases em : m = n
    · subst em
      rw [hb]
      by_cases e : t = s
      · simp [e]
      · rw [Function.update_of_ne e, Function.update_of_ne e]
        exact hold
    · rw [hb' m em]
      by_cases e : t = s
      · subst e
        rw [hold, hs, Function.update_self]
        simp [Ne.symm em]
      · rw [Function.update_of_ne e]
        exact hold
  count_eq := by
    intro m hm
    by_cases em : m = n
    · subst em
      have hset : bits m s = true := (h.bit_iff m hm s).mpr hs
      rw [hc, hb, popcount_clear hset, h.count_eq m hm]
    · rw [hb' m em, hc' m em]
      exact h.count_eq m hm

/-- A node enters that owns nothing. -/
theorem Consistent.insert (h : Consistent nodes owner bits count) {n : N} (hn : n ∉ nodes)
    (hb : bits n = fun _ => false) (hc : count n = 0) : Consistent (nodes ++ [n]) owner bits count where
  owner_mem := fun s m hs => List.mem_append_left _ (h.owner_mem s m hs)
  bit_iff := by
    intro m hm s
    rcases List.mem_append.mp hm with hm | hm
    · exact h.bit_iff m hm s
    · rw [List.mem_singleton.mp hm, hb]
      constructor
      · intro hf
        exact absurd hf (by simp)
      · intro hs
        exact absurd (h.owner_mem s n hs) hn
  count_eq := by
    intro m hm
    rcases List.mem_append.mp hm with hm | hm
    · exact h.count_eq m hm
    · rw [List.mem_singleton.mp hm, hb, hc]
      simp [popcount]

/-- A node leaves that owns nothing. -/
theorem Consistent.erase [DecidableEq N] (h : Consistent nodes owner bits count) {n : N}
    (hnone : ∀ s, owner s ≠ some n) : Consistent (nodes.erase n) owner bits count where
  owner_mem := by
    intro s m hs
    refine (List.mem_erase_of_ne ?_).mpr (h.owner_mem s m hs)
    rintro rfl
    exact hnone s hs
  bit_iff := fun m hm s => h.bit_iff m (List.mem_of_mem_erase hm) s
  count_eq := fun m hm => h.count_eq m (List.mem_of_mem_erase hm)

end Ownership
