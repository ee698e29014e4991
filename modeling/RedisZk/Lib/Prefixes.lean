/-
# Words with a common prefix in a sorted list

In the order of a dictionary the words that begin with `p` stand together, from the place
where `p` itself would stand. A scan from there that stops at the first other word finds
them all.

Key theorems: `le_of_starts`, `prefix_of_between`, `scan_starts`.
-/
import Mathlib

namespace Prefixes

variable {α : Type*} [LinearOrder α] {p x y : List α}

theorem cons_le_cons_iff {a b : α} {l m : List α} : a :: l ≤ b :: m ↔ a < b ∨ a = b ∧ l ≤ m := by
  rw [← not_lt, List.cons_lt_cons_iff]
  constructor
  · intro h
    rcases lt_trichotomy a b with hlt | heq | hgt
    · exact Or.inl hlt
    · exact Or.inr ⟨heq, not_lt.mp fun hlt => h (Or.inr ⟨heq.symm, hlt⟩)⟩
    · exact absurd (Or.inl hgt) h
  · rintro (hlt | ⟨rfl, hle⟩) (hgt | ⟨heq, hgt⟩)
    · exact lt_asymm hlt hgt
    · exact hlt.ne heq.symm
    · exact lt_irrefl a hgt
    · exact absurd hgt (not_lt.mpr hle)

theorem nil_le (l : List α) : [] ≤ l := not_lt.mp fun h => nomatch h

theorem not_cons_le_nil {a : α} {l : List α} : ¬a :: l ≤ [] := fun h => absurd List.Lex.nil (not_lt.mpr h)

/-- A word stands behind its prefixes. -/
theorem le_of_starts : ∀ {p x : List α}, p <+: x → p ≤ x
  | [], x, _ => nil_le x
  | _ :: p, x, h => by
    obtain ⟨t, rfl⟩ := h
    exact cons_le_cons_iff.mpr (Or.inr ⟨rfl, le_of_starts (List.prefix_append p t)⟩)

/-- **What stands between a word and a longer one begins with it.** -/
theorem prefix_of_between : ∀ {p x y : List α}, p ≤ x → x ≤ y → p <+: y → p <+: x
  | [], x, _, _, _, _ => List.nil_prefix
  | a :: p, [], _, h, _, _ => absurd h not_cons_le_nil
  | a :: p, b :: x, y, h, h', hy => by
    obtain ⟨t, rfl⟩ := hy
    rw [cons_le_cons_iff] at h
    rw [List.cons_append, cons_le_cons_iff] at h'
    rcases h with hab | ⟨rfl, hle⟩
    · rcases h' with hba | ⟨rfl, -⟩
      · exact absurd hab (lt_asymm hba)
      · exact absurd hab (lt_irrefl b)
    · rcases h' with hba | ⟨-, hle'⟩
      · exact absurd hba (lt_irrefl a)
      · exact List.cons_prefix_cons.mpr ⟨rfl, prefix_of_between hle hle' (List.prefix_append p t)⟩

section Scan

variable [DecidableEq α] {l : List (List α)}

/-- The words from a place on, as long as they begin with `p`. -/
theorem takeWhile_starts (h : l.Pairwise (· ≤ ·)) (hl : ∀ x ∈ l, p ≤ x) :
    (l.takeWhile fun x => decide (p <+: x)) = l.filter fun x => decide (p <+: x) := by
  induction l with
  | nil => rfl
  | cons x l ih =>
    obtain ⟨hx, htail⟩ := List.pairwise_cons.mp h
    by_cases hp : p <+: x
    · rw [List.takeWhile_cons, List.filter_cons, if_pos (decide_eq_true hp), if_pos (decide_eq_true hp),
        ih htail fun y hy => hl y (List.mem_cons_of_mem x hy)]
    · -- No word behind this one begins with `p`, as it would stand before this one.
      have hnone : ∀ y ∈ l, ¬decide (p <+: y) = true := fun y hy hpy =>
        hp (prefix_of_between (hl x List.mem_cons_self) (hx y hy) (of_decide_eq_true hpy))
      rw [List.takeWhile_cons, List.filter_cons, if_neg (by simpa using hp), if_neg (by simpa using hp),
        List.filter_eq_nil_iff.mpr hnone]

theorem filter_dropWhile (l : List (List α)) :
    ((l.dropWhile fun x => decide (x < p)).filter fun x => decide (p <+: x)) = l.filter fun x => decide (p <+: x) := by
  induction l with
  | nil => rfl
  | cons x l ih =>
    rw [List.dropWhile_cons]
    split
    · rename_i hlt
      have hp : ¬p <+: x := fun hp => absurd (le_of_starts hp) (not_le.mpr (of_decide_eq_true hlt))
      rw [ih, List.filter_cons, if_neg (by simpa using hp)]
    · rfl

theorem le_of_mem_dropWhile (h : l.Pairwise (· ≤ ·)) : ∀ x ∈ l.dropWhile fun x => decide (x < p), p ≤ x := by
  induction l with
  | nil => exact fun x hx => nomatch hx
  | cons y l ih =>
    obtain ⟨hy, htail⟩ := List.pairwise_cons.mp h
    rw [List.dropWhile_cons]
    split
    · exact ih htail
    · rename_i hle
      have hpy : p ≤ y := not_lt.mp (by simpa using hle)
      intro x hx
      rcases List.mem_cons.mp hx with rfl | hx
      · exact hpy
      · exact hpy.trans (hy x hx)

/-- **A scan from `p` finds the words that begin with it, and all of them.** -/
theorem scan_starts (h : l.Pairwise (· ≤ ·)) :
    ((l.dropWhile fun x => decide (x < p)).takeWhile fun x => decide (p <+: x)) = l.filter fun x => decide (p <+: x) := by
  rw [takeWhile_starts (h.sublist (List.dropWhile_sublist _)) (le_of_mem_dropWhile h), filter_dropWhile]

end Scan

end Prefixes
