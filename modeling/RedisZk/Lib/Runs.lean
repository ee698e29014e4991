/-
# Lists in runs

A list is given by runs, each a value and how many times it stands there. A run may be cut in
three to give one place another value, and two runs of one value are one.

Key definitions: `expand`.
Key theorems: `getElem_expand`, `expand_set`, `expand_merge`.
-/
import Mathlib

namespace Runs

variable {α : Type*}

/-- The list that the runs stand for. -/
def expand (runs : List (α × ℕ)) : List α := runs.flatMap fun r => List.replicate r.2 r.1

@[simp] theorem expand_nil : expand ([] : List (α × ℕ)) = [] := rfl

@[simp] theorem expand_cons (r : α × ℕ) (runs : List (α × ℕ)) :
    expand (r :: runs) = List.replicate r.2 r.1 ++ expand runs := List.flatMap_cons

@[simp] theorem expand_append (runs runs' : List (α × ℕ)) : expand (runs ++ runs') = expand runs ++ expand runs' :=
  List.flatMap_append

/-- How long the list is. -/
theorem length_expand (runs : List (α × ℕ)) : (expand runs).length = (runs.map Prod.snd).sum := by
  induction runs with
  | nil => rfl
  | cons r runs ih => rw [expand_cons, List.length_append, List.length_replicate, ih, List.map_cons, List.sum_cons]

/-- A place in a run has its value. -/
theorem getElem_expand {pre post : List (α × ℕ)} {x : α} {a n i : ℕ} (hi : i = (expand pre).length + a) (ha : a < n) :
    (expand (pre ++ (x, n) :: post))[i]? = some x := by
  rw [expand_append, expand_cons, List.getElem?_append_right (by omega),
    List.getElem?_append_left (by rw [List.length_replicate]; omega), List.getElem?_replicate, if_pos (by omega)]

/-- A run is cut at the place that gets another value. -/
theorem expand_set {pre post : List (α × ℕ)} {x : α} (y : α) {a b n i : ℕ} (hi : i = (expand pre).length + a)
    (hn : n = a + 1 + b) :
    expand (pre ++ (x, a) :: (y, 1) :: (x, b) :: post) = (expand (pre ++ (x, n) :: post)).set i y := by
  have hrun : List.replicate n x = List.replicate a x ++ x :: List.replicate b x := by
    rw [hn, Nat.add_assoc, List.replicate_add, Nat.add_comm 1 b, List.replicate_succ]
  simp only [expand_append, expand_cons]
  rw [hrun, List.set_append_right _ _ (by omega), hi, Nat.add_sub_cancel_left, List.append_assoc,
    List.set_append_right _ _ (Nat.le_of_eq List.length_replicate), List.length_replicate, Nat.sub_self, List.cons_append,
    List.set_cons_zero]
  rfl

/-- Two runs of one value are one. -/
theorem expand_merge (pre post : List (α × ℕ)) (x : α) (m n : ℕ) :
    expand (pre ++ (x, m) :: (x, n) :: post) = expand (pre ++ (x, m + n) :: post) := by
  simp only [expand_append, expand_cons]
  rw [List.replicate_add, List.append_assoc]

end Runs
