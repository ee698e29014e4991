/-
# Objects with exact counts

Objects at addresses, each with the number of references to it. The references are a list of
addresses; an object is there as long as the list has its address, and its count is how often.
Taking a reference, giving one up and making an object keep it so, and what is referred to keeps its value.

Key definitions: `incr`, `decr`, `value`, `Exact`.
Key theorems: `incr_spec`, `decr_spec`, `alloc_spec`.
-/
import Mathlib
import RedisZk.Lib.Counted

namespace Referenced

variable {ν : Type*} {heap : ℕ → Option (Counted ν)} {next a b : ℕ} {refs refs' : List ℕ} {v : ν}

/-- One more reference; none if the object is not there. -/
def incr (heap : ℕ → Option (Counted ν)) (a : ℕ) : Option (ℕ → Option (Counted ν)) :=
  (heap a).map fun o => Function.update heap a (some ⟨o.val, o.refcount + 1⟩)

/-- One reference less: with the last one the object goes. -/
def decr (heap : ℕ → Option (Counted ν)) (a : ℕ) : Option (ℕ → Option (Counted ν)) :=
  (heap a).map fun o => Function.update heap a (if o.refcount = 1 then none else some ⟨o.val, o.refcount - 1⟩)

def value (heap : ℕ → Option (Counted ν)) (a : ℕ) : Option ν := (heap a).map Counted.val

/-- What is referred to is there, with its count, and addresses from `next` on are free. -/
structure Exact (heap : ℕ → Option (Counted ν)) (next : ℕ) (refs : List ℕ) : Prop where
  count : ∀ a, (heap a).map Counted.refcount = if a ∈ refs then some (refs.count a) else none
  bound : ∀ a ∈ refs, a < next

theorem Exact.perm (h : Exact heap next refs) (hp : refs.Perm refs') : Exact heap next refs' := by
  refine ⟨fun a => ?_, fun a ha => h.bound a (hp.mem_iff.mpr ha)⟩
  rw [h.count a, hp.count_eq a]
  exact if_congr hp.mem_iff rfl rfl

theorem Exact.live (h : Exact heap next refs) (ha : a ∈ refs) : ∃ o, heap a = some o ∧ o.refcount = refs.count a := by
  have hcount := h.count a
  rw [if_pos ha] at hcount
  exact Option.map_eq_some_iff.mp hcount

theorem Exact.value_isSome (h : Exact heap next refs) (ha : a ∈ refs) : ∃ v, value heap a = some v := by
  obtain ⟨o, ho, -⟩ := h.live ha
  exact ⟨o.val, by rw [value, ho, Option.map_some]⟩

/-- **A reference is taken.** -/
theorem incr_spec (h : Exact heap next refs) (ha : a ∈ refs) :
    ∃ heap', incr heap a = some heap' ∧ Exact heap' next (a :: refs) ∧ ∀ b, value heap' b = value heap b := by
  obtain ⟨o, ho, hcount⟩ := h.live ha
  refine ⟨_, by rw [incr, ho, Option.map_some], ⟨fun b => ?_, fun b hb => ?_⟩, fun b => ?_⟩
  · by_cases hb : b = a
    · subst hb
      rw [Function.update_self, Option.map_some, if_pos List.mem_cons_self, List.count_cons_self, hcount]
    · rw [Function.update_of_ne hb, h.count b, List.count_cons_of_ne (Ne.symm hb)]
      exact if_congr (by rw [List.mem_cons, or_iff_right hb]) rfl rfl
  · rcases List.mem_cons.mp hb with rfl | hb
    · exact h.bound b ha
    · exact h.bound b hb
  · unfold value
    by_cases hb : b = a
    · rw [hb, Function.update_self, ho, Option.map_some, Option.map_some]
    · rw [Function.update_of_ne hb]

/-- **A reference is given up**, and what is still referred to is as it was. -/
theorem decr_spec (h : Exact heap next (a :: refs)) :
    ∃ heap', decr heap a = some heap' ∧ Exact heap' next refs ∧ ∀ b ∈ refs, value heap' b = value heap b := by
  obtain ⟨o, ho, hcount⟩ := h.live List.mem_cons_self
  rw [List.count_cons_self] at hcount
  have hlast : o.refcount = 1 ↔ a ∉ refs := by
    rw [hcount, ← List.count_eq_zero]
    omega
  refine ⟨_, by rw [decr, ho, Option.map_some], ⟨fun b => ?_, fun b hb => h.bound b (List.mem_cons_of_mem a hb)⟩, fun b hb => ?_⟩
  · by_cases hb : b = a
    · subst hb
      rw [Function.update_self]
      by_cases hin : b ∈ refs
      · rw [if_neg fun hone => hlast.mp hone hin, if_pos hin, Option.map_some]
        dsimp only
        rw [hcount, Nat.add_sub_cancel]
      · rw [if_pos (hlast.mpr hin), if_neg hin, Option.map_none]
    · have hold := h.count b
      rw [List.count_cons_of_ne (Ne.symm hb)] at hold
      rw [Function.update_of_ne hb, hold]
      exact if_congr (by rw [List.mem_cons, or_iff_right hb]) rfl rfl
  · unfold value
    by_cases hba : b = a
    · subst hba
      rw [Function.update_self, ho, if_neg fun hone => hlast.mp hone hb, Option.map_some, Option.map_some]
    · rw [Function.update_of_ne hba]

/-- **An object is made**, with one reference. -/
theorem alloc_spec (h : Exact heap next refs) (v : ν) :
    Exact (Function.update heap next (some ⟨v, 1⟩)) (next + 1) (next :: refs) ∧
      value (Function.update heap next (some ⟨v, 1⟩)) next = some v ∧
      ∀ b ∈ refs, value (Function.update heap next (some ⟨v, 1⟩)) b = value heap b := by
  have hnew : next ∉ refs := fun hin => Nat.lt_irrefl next (h.bound next hin)
  refine ⟨⟨fun b => ?_, fun b hb => ?_⟩, ?_, fun b hb => ?_⟩
  · by_cases hb : b = next
    · subst hb
      rw [Function.update_self, Option.map_some, if_pos List.mem_cons_self, List.count_cons_self, List.count_eq_zero_of_not_mem hnew]
    · rw [Function.update_of_ne hb, h.count b, List.count_cons_of_ne (Ne.symm hb)]
      exact if_congr (by rw [List.mem_cons, or_iff_right hb]) rfl rfl
  · rcases List.mem_cons.mp hb with rfl | hb
    · exact Nat.lt_succ_self b
    · exact Nat.lt_succ_of_lt (h.bound b hb)
  · rw [value, Function.update_self, Option.map_some]
  · have hne : b ≠ next := fun heq => hnew (heq ▸ hb)
    rw [value, Function.update_of_ne hne, value]

end Referenced
