/-
# The language of a glob

A glob is a sequence of pieces: a star, for any sequence of symbols, or one symbol of a set. A
sequence of symbols belongs to a glob if it is a concatenation of what its pieces take.

Key definitions: `Piece`, `lang`.
Key theorems: `mem_lang_one`, `mem_lang_star`, `lang_star_star`, `nil_mem_lang`.
-/
import Mathlib

namespace Globs

variable {α : Type*}

inductive Piece (α : Type*)
  | star
  | one (A : Set α)

def Piece.lang : Piece α → Language α
  | star => ⊤
  | one A => {s | ∃ x ∈ A, s = [x]}

def lang (ps : List (Piece α)) : Language α := (ps.map Piece.lang).prod

@[simp] theorem lang_nil : lang ([] : List (Piece α)) = 1 := rfl

theorem lang_cons (p : Piece α) (ps : List (Piece α)) : lang (p :: ps) = p.lang * lang ps := by
  rw [lang, List.map_cons, List.prod_cons, lang]

variable {ps : List (Piece α)}

theorem mem_lang_one {A : Set α} {s : List α} :
    s ∈ lang (.one A :: ps) ↔ ∃ x v, s = x :: v ∧ x ∈ A ∧ v ∈ lang ps := by
  rw [lang_cons, Language.mem_mul]
  constructor
  · rintro ⟨u, ⟨x, hx, rfl⟩, v, hv, rfl⟩
    exact ⟨x, v, rfl, hx, hv⟩
  · rintro ⟨x, v, rfl, hx, hv⟩
    exact ⟨[x], ⟨x, hx, rfl⟩, v, hv, rfl⟩

theorem cons_mem_lang_one {A : Set α} {x : α} {v : List α} :
    x :: v ∈ lang (.one A :: ps) ↔ x ∈ A ∧ v ∈ lang ps := by
  rw [mem_lang_one]
  constructor
  · rintro ⟨y, w, heq, hy, hw⟩
    cases heq
    exact ⟨hy, hw⟩
  · rintro ⟨hx, hv⟩
    exact ⟨x, v, rfl, hx, hv⟩

theorem mem_lang_star {s : List α} : s ∈ lang (.star :: ps) ↔ ∃ v, v <:+ s ∧ v ∈ lang ps := by
  rw [lang_cons, Language.mem_mul]
  constructor
  · rintro ⟨u, -, v, hv, rfl⟩
    exact ⟨v, List.suffix_append u v, hv⟩
  · rintro ⟨v, ⟨u, rfl⟩, hv⟩
    exact ⟨u, trivial, v, hv, rfl⟩

/-- Two stars are one. -/
theorem lang_star_star (ps : List (Piece α)) : lang (.star :: .star :: ps) = lang (.star :: ps) := by
  ext s
  rw [mem_lang_star, mem_lang_star]
  constructor
  · rintro ⟨v, hv, hmem⟩
    obtain ⟨w, hw, hmem⟩ := mem_lang_star.mp hmem
    exact ⟨w, hw.trans hv, hmem⟩
  · rintro ⟨v, hv, hmem⟩
    exact ⟨v, hv, mem_lang_star.mpr ⟨v, List.suffix_rfl, hmem⟩⟩

/-- Only stars take nothing. -/
theorem nil_mem_lang : [] ∈ lang ps ↔ ∀ p ∈ ps, p = .star := by
  induction ps with
  | nil => simp [Language.mem_one]
  | cons p ps ih =>
    rw [List.forall_mem_cons, ← ih]
    cases p with
    | star =>
      rw [mem_lang_star]
      constructor
      · rintro ⟨v, hv, hmem⟩
        rw [List.suffix_nil.mp hv] at hmem
        exact ⟨rfl, hmem⟩
      · rintro ⟨-, hmem⟩
        exact ⟨[], List.suffix_rfl, hmem⟩
    | one A =>
      rw [mem_lang_one]
      constructor
      · rintro ⟨x, v, heq, -⟩
        cases heq
      · rintro ⟨heq, -⟩
        cases heq

end Globs
