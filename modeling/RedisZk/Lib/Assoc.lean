/-
# Lists of bindings, and the finite map they hold

A finite map whose keys are compared by an equivalence, and lists of bindings
in any order: a list holds a map when no two of its keys are the same and it
binds what the map binds. Adding a binding for a new key, removing one and
changing its value are the operations of the map; the order of the list never
matters (`Holds.perm`), so a container of bindings refines the map as soon as
what it holds is known up to permutation.

Key definitions: `SameKey`, `Holds`, `insert`, `erase`.
Key theorems: `Holds.perm`, `Holds.cons`, `Holds.tail`, `Holds.update`, `flatten_set_perm`.
-/
import Mathlib

namespace Assoc

/-- An equivalence of keys that can be computed. -/
structure SameKey (κ : Type*) where
  same : κ → κ → Bool
  refl : ∀ a, same a a = true
  symm : ∀ {a b}, same a b = true → same b a = true
  trans : ∀ {a b c}, same a b = true → same b c = true → same a c = true

variable {κ ν : Type*} (E : SameKey κ)

/-- Which key is the same as `b` does not tell `a` from a key the same as it. -/
theorem SameKey.congr {a b c : κ} (h : E.same a b = true) : E.same a c = E.same b c := by
  rw [Bool.eq_iff_iff]
  exact ⟨E.trans (E.symm h), E.trans h⟩

theorem SameKey.comm (a b : κ) : E.same a b = E.same b a := by
  rw [Bool.eq_iff_iff]
  exact ⟨E.symm, E.symm⟩

/-! ### Maps -/

def insert (m : κ → Option ν) (k : κ) (v : ν) : κ → Option ν := fun k' => if E.same k' k then some v else m k'

def erase (m : κ → Option ν) (k : κ) : κ → Option ν := fun k' => if E.same k' k then none else m k'

theorem insert_congr {m : κ → Option ν} {k k' : κ} (h : E.same k k' = true) (v : ν) :
    insert E m k v = insert E m k' v := by
  funext a
  have hsame : E.same a k = E.same a k' := by
    rw [E.comm a k, E.comm a k', E.congr h]
  simp only [insert, hsame]

theorem erase_congr {m : κ → Option ν} {k k' : κ} (h : E.same k k' = true) : erase E m k = erase E m k' := by
  funext a
  have hsame : E.same a k = E.same a k' := by
    rw [E.comm a k, E.comm a k', E.congr h]
  simp only [erase, hsame]

/-! ### Lists that hold a map -/

/-- The list binds what `m` binds, and every key once. -/
structure Holds (l : List (κ × ν)) (m : κ → Option ν) : Prop where
  distinct : l.Pairwise fun a b => E.same a.1 b.1 = false
  binds : ∀ k v, m k = some v ↔ ∃ e ∈ l, E.same k e.1 = true ∧ e.2 = v

variable {E} {l l' : List (κ × ν)} {m : κ → Option ν} {k : κ} {v : ν} {e : κ × ν}

theorem Holds.nil : Holds E ([] : List (κ × ν)) fun _ => none where
  distinct := .nil
  binds := by simp

/-- The order of the list does not matter. -/
theorem Holds.perm (h : Holds E l m) (hp : l.Perm l') : Holds E l' m where
  distinct := by
    refine (hp.pairwise_iff fun {x y} hxy => ?_).mp h.distinct
    rw [E.comm]
    exact hxy
  binds k v := by
    rw [h.binds]
    simp only [hp.mem_iff]

theorem Holds.eq_some (h : Holds E l m) (he : e ∈ l) (hk : E.same k e.1 = true) : m k = some e.2 :=
  (h.binds k e.2).mpr ⟨e, he, hk, rfl⟩

theorem Holds.eq_none (h : Holds E l m) (hno : ∀ e ∈ l, E.same k e.1 = false) : m k = none := by
  rw [Option.eq_none_iff_forall_ne_some]
  intro v hv
  obtain ⟨e, he, hk, -⟩ := (h.binds k v).mp hv
  rw [hno e he] at hk
  cases hk

/-- A binding for a new key. -/
theorem Holds.cons (h : Holds E l m) (hno : ∀ e ∈ l, E.same k e.1 = false) : Holds E ((k, v) :: l) (insert E m k v) where
  distinct := List.pairwise_cons.mpr ⟨fun e he => hno e he, h.distinct⟩
  binds a w := by
    have hmem : (∃ e ∈ (k, v) :: l, E.same a e.1 = true ∧ e.2 = w) ↔
        (E.same a k = true ∧ v = w) ∨ ∃ e ∈ l, E.same a e.1 = true ∧ e.2 = w := by
      simp only [List.mem_cons, exists_eq_or_imp]
    rw [hmem, insert]
    by_cases ha : E.same a k = true
    · rw [if_pos ha, Option.some.injEq]
      constructor
      · intro hw
        exact .inl ⟨ha, hw⟩
      · rintro (⟨-, hw⟩ | ⟨e, he, hae, -⟩)
        · exact hw
        · have hke := E.trans (E.symm ha) hae
          rw [hno e he] at hke
          cases hke
    · rw [if_neg ha, h.binds]
      simp [ha]

/-- One binding removed. -/
theorem Holds.tail (h : Holds E (e :: l) m) : Holds E l (erase E m e.1) where
  distinct := (List.pairwise_cons.mp h.distinct).2
  binds a w := by
    have hne := (List.pairwise_cons.mp h.distinct).1
    rw [erase]
    by_cases ha : E.same a e.1 = true
    · rw [if_pos ha]
      refine ⟨nofun, fun ⟨b, hb, hab, _⟩ => ?_⟩
      have heb := E.trans (E.symm ha) hab
      rw [hne b hb] at heb
      cases heb
    · rw [if_neg ha, h.binds]
      simp [ha]

theorem Holds.not_mem_tail (h : Holds E (e :: l) m) : ∀ e' ∈ l, E.same e.1 e'.1 = false :=
  (List.pairwise_cons.mp h.distinct).1

theorem insert_erase (m : κ → Option ν) (k : κ) (v : ν) : insert E (erase E m k) k v = insert E m k v := by
  funext a
  simp only [insert, erase]
  split
  · rfl
  · rfl

/-- One binding changed. -/
theorem Holds.update (h : Holds E (e :: l) m) (v : ν) : Holds E ((e.1, v) :: l) (insert E m e.1 v) := by
  have ht := h.tail.cons (v := v) h.not_mem_tail
  rwa [insert_erase] at ht

/-! ### Lists in buckets -/

variable {α : Type*} {b : List (List α)} {i : ℕ} {c : List α}

/-- One bucket beside the others. -/
theorem flatten_set_perm (h : b[i]? = some c) :
    ∃ r, b.flatten.Perm (c ++ r) ∧ ∀ c', (b.set i c').flatten.Perm (c' ++ r) := by
  obtain ⟨hi, hc⟩ := List.getElem?_eq_some_iff.mp h
  have hset : ∀ c', (b.set i c').flatten.Perm (c' ++ (b.take i ++ b.drop (i + 1)).flatten) := by
    intro c'
    rw [List.set_eq_take_append_cons_drop, if_pos hi, List.flatten_append, List.flatten_append, List.flatten_cons]
    exact List.perm_append_comm_assoc _ _ _
  refine ⟨_, ?_, hset⟩
  have hsame : b.set i c = b := by
    rw [← hc]
    exact List.set_getElem_self hi
  have hself := hset c
  rwa [hsame] at hself

theorem mem_flatten_iff {x : α} : x ∈ b.flatten ↔ ∃ (i : ℕ) (c : List α), b[i]? = some c ∧ x ∈ c := by
  rw [List.mem_flatten]
  constructor
  · rintro ⟨c, hc, hx⟩
    obtain ⟨i, hi⟩ := List.getElem?_of_mem hc
    exact ⟨i, c, hi, hx⟩
  · rintro ⟨i, c, hi, hx⟩
    exact ⟨c, List.mem_of_getElem? hi, hx⟩

end Assoc
