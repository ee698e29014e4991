/-
# A finite map listed in some order

The pairs of a map in any order, each key once. A change of the map is a change of one
place of the list, and two lists of one map have the same pairs.

Key definitions: `Lists`.
Key theorems: `Lists.insert`, `Lists.replace`, `Lists.erase`, `Lists.perm`.
-/
import Mathlib

namespace Listing

variable {κ ν : Type*}

/-- The list has the pairs of the map. -/
structure Lists (m : κ → Option ν) (l : List (κ × ν)) : Prop where
  nodup : (l.map Prod.fst).Nodup
  mem : ∀ k v, (k, v) ∈ l ↔ m k = some v

namespace Lists

variable {m : κ → Option ν} {l l' a b : List (κ × ν)} {k : κ} {v w : ν}

theorem nil : Lists (fun _ => none : κ → Option ν) [] := ⟨List.nodup_nil, fun _ _ => by simp⟩

theorem eq_none (h : Lists m l) (hk : ∀ p ∈ l, p.1 ≠ k) : m k = none := by
  cases hm : m k with
  | none => rfl
  | some v => exact absurd rfl (hk (k, v) ((h.mem k v).mpr hm))

theorem ne_of_none (h : Lists m l) (hk : m k = none) : ∀ p ∈ l, p.1 ≠ k := by
  intro p hp heq
  rw [← heq, (h.mem p.1 p.2).mp hp] at hk
  cases hk

theorem get (h : Lists m (a ++ (k, v) :: b)) : m k = some v := (h.mem k v).mp (List.mem_append_right a List.mem_cons_self)

/-- The other pairs have other keys. -/
theorem others (h : Lists m (a ++ (k, v) :: b)) : ∀ p ∈ a ++ b, p.1 ≠ k := by
  have hnodup := h.nodup
  rw [List.map_append, List.map_cons, List.nodup_append] at hnodup
  obtain ⟨-, hb, hdisj⟩ := hnodup
  intro p hp heq
  rcases List.mem_append.mp hp with hp | hp
  · exact hdisj p.1 (List.mem_map_of_mem hp) k List.mem_cons_self heq
  · refine (List.nodup_cons.mp hb).1 ?_
    rw [← heq]
    exact List.mem_map.mpr ⟨p, hp, rfl⟩

section Changes

variable [DecidableEq κ]

theorem insert (h : Lists m l) (hk : m k = none) (v : ν) : Lists (Function.update m k (some v)) (l ++ [(k, v)]) := by
  have hne := h.ne_of_none hk
  constructor
  · rw [List.map_append, List.map_singleton, List.nodup_append]
    refine ⟨h.nodup, List.nodup_singleton k, fun x hx y hy heq => ?_⟩
    obtain ⟨p, hp, rfl⟩ := List.mem_map.mp hx
    exact hne p hp (heq.trans (List.mem_singleton.mp hy))
  · intro x y
    rw [List.mem_append, List.mem_singleton]
    by_cases hx : x = k
    · subst hx
      rw [Function.update_self, Option.some.injEq]
      constructor
      · intro hor
        rcases hor with hin | heq
        · exact absurd rfl (hne _ hin)
        · exact (Prod.mk.inj heq).2.symm
      · rintro rfl
        exact Or.inr rfl
    · rw [Function.update_of_ne hx, ← h.mem]
      constructor
      · intro hor
        rcases hor with hin | heq
        · exact hin
        · exact absurd (Prod.mk.inj heq).1 hx
      · exact Or.inl

theorem replace (h : Lists m (a ++ (k, w) :: b)) (v : ν) : Lists (Function.update m k (some v)) (a ++ (k, v) :: b) := by
  have hothers := h.others
  constructor
  · have hnodup := h.nodup
    rw [List.map_append, List.map_cons] at hnodup ⊢
    exact hnodup
  · intro x y
    by_cases hx : x = k
    · subst hx
      rw [Function.update_self, Option.some.injEq]
      constructor
      · intro hin
        rcases List.mem_append.mp hin with hin | hin
        · exact absurd rfl (hothers _ (List.mem_append_left b hin))
        · rcases List.mem_cons.mp hin with heq | hin
          · exact (Prod.mk.inj heq).2.symm
          · exact absurd rfl (hothers _ (List.mem_append_right a hin))
      · rintro rfl
        exact List.mem_append_right a List.mem_cons_self
    · rw [Function.update_of_ne hx, ← h.mem, List.mem_append, List.mem_append, List.mem_cons, List.mem_cons]
      have hold : (x, y) ≠ (k, w) := fun heq => hx (Prod.mk.inj heq).1
      have hnew : (x, y) ≠ (k, v) := fun heq => hx (Prod.mk.inj heq).1
      simp only [hold, hnew, false_or]

theorem erase (h : Lists m (a ++ (k, w) :: b)) : Lists (Function.update m k none) (a ++ b) := by
  have hothers := h.others
  constructor
  · have hnodup := h.nodup
    rw [List.map_append, List.map_cons, List.nodup_append] at hnodup
    obtain ⟨ha, hb, hdisj⟩ := hnodup
    rw [List.map_append, List.nodup_append]
    exact ⟨ha, (List.nodup_cons.mp hb).2, fun x hx y hy => hdisj x hx y (List.mem_cons_of_mem k hy)⟩
  · intro x y
    by_cases hx : x = k
    · subst hx
      rw [Function.update_self]
      exact ⟨fun hin => absurd rfl (hothers _ hin), fun heq => by cases heq⟩
    · rw [Function.update_of_ne hx, ← h.mem, List.mem_append, List.mem_append, List.mem_cons]
      have hold : (x, y) ≠ (k, w) := fun heq => hx (Prod.mk.inj heq).1
      simp only [hold, false_or]

end Changes

/-- Two lists of one map. -/
theorem perm (h : Lists m l) (h' : Lists m l') : l.Perm l' :=
  (List.perm_ext_iff_of_nodup h.nodup.of_map h'.nodup.of_map).mpr fun p => (h.mem p.1 p.2).trans (h'.mem p.1 p.2).symm

theorem eq_nil_iff (h : Lists m l) : l = [] ↔ m = fun _ => none := by
  constructor
  · rintro rfl
    funext k
    exact h.eq_none fun p hp => absurd hp List.not_mem_nil
  · intro hm
    cases l with
    | nil => rfl
    | cons p l =>
      have hp := (h.mem p.1 p.2).mp List.mem_cons_self
      rw [hm] at hp
      cases hp

end Lists

end Listing
