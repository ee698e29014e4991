/-
# Links over a row of towers

A row of towers, each with a height, and links that skip the lower ones: at level
`i` a link goes to the next tower higher than `i`, and spans the towers up to it,
or up to the end of the row. What a link is depends on the towers after it only,
so a row is cut where something is put in or taken out: links from towers that see
a higher one before the cut do not change, and from the one that does not
(`Foot`), the link goes over the rest of the first part into the second.

Key definitions: `nextTower`, `span`, `Foot`, `stem`.
Key theorems: `nextTower_append_low`, `nextTower_append_high`, `span_append_low`, `span_append_high`, `Foot.split`,
`Foot.eq_stem`.
-/
import Mathlib

namespace Towers

variable {α : Type*} (h : α → ℕ) {i : ℕ} {a b c p q : List α} {x : α}

/-- The next tower higher than `i`. -/
def nextTower (i : ℕ) (l : List α) : Option α := l.find? fun x => decide (i < h x)

/-- How many towers a link of level `i` spans. -/
def span (i : ℕ) : List α → ℕ
  | [] => 0
  | x :: l => if i < h x then 1 else span i l + 1

@[simp] theorem nextTower_nil : nextTower h i [] = none := rfl

@[simp] theorem span_nil : span h i [] = 0 := rfl

theorem nextTower_cons_high (hx : i < h x) : nextTower h i (x :: c) = some x := by
  simp [nextTower, hx]

theorem span_cons_high (hx : i < h x) : span h i (x :: c) = 1 := if_pos hx

variable {h}

/-! ### Cuts -/

theorem nextTower_append_low (hb : ∀ y ∈ b, h y ≤ i) : nextTower h i (b ++ c) = nextTower h i c := by
  induction b with
  | nil => rfl
  | cons y b ih =>
    have hy := hb y List.mem_cons_self
    rw [List.cons_append, nextTower, List.find?_cons_of_neg (by simp; omega)]
    exact ih fun z hz => hb z (List.mem_cons_of_mem _ hz)

theorem span_append_low (hb : ∀ y ∈ b, h y ≤ i) : span h i (b ++ c) = b.length + span h i c := by
  induction b with
  | nil => simp
  | cons y b ih =>
    have hy := hb y List.mem_cons_self
    rw [List.cons_append, span, if_neg (by omega), ih fun z hz => hb z (List.mem_cons_of_mem _ hz), List.length_cons]
    omega

theorem nextTower_append_high (hb : ∃ y ∈ b, i < h y) : nextTower h i (b ++ c) = nextTower h i b := by
  rw [nextTower, List.find?_append, nextTower]
  obtain ⟨y, hy, hi⟩ := hb
  have hsome : (b.find? fun x => decide (i < h x)).isSome = true := List.find?_isSome.mpr ⟨y, hy, decide_eq_true hi⟩
  obtain ⟨z, hz⟩ := Option.isSome_iff_exists.mp hsome
  rw [hz]
  rfl

theorem span_append_high (hb : ∃ y ∈ b, i < h y) : span h i (b ++ c) = span h i b := by
  induction b with
  | nil =>
    obtain ⟨y, hy, -⟩ := hb
    cases hy
  | cons x b ih =>
    rw [List.cons_append, span, span]
    split
    · rfl
    · rename_i hx
      rw [ih]
      obtain ⟨y, hy, hi⟩ := hb
      rcases List.mem_cons.mp hy with rfl | hy
      · exact absurd hi hx
      · exact ⟨y, hy, hi⟩

theorem nextTower_eq_none : nextTower h i b = none ↔ ∀ y ∈ b, h y ≤ i := by
  simp [nextTower]

/-- Where a link goes, and what it spans. -/
theorem nextTower_eq_some (hx : nextTower h i q = some x) :
    ∃ b c, q = b ++ x :: c ∧ (∀ y ∈ b, h y ≤ i) ∧ i < h x ∧ span h i q = b.length + 1 := by
  obtain ⟨hi, b, c, rfl, hb⟩ := List.find?_eq_some_iff_append.mp hx
  have hlow : ∀ y ∈ b, h y ≤ i := by
    intro y hy
    simpa using hb y hy
  have hix : i < h x := of_decide_eq_true hi
  refine ⟨b, c, rfl, hlow, hix, ?_⟩
  rw [span_append_low hlow, span_cons_high h hix]

/-- Over a tower higher than `i`, from its foot. -/
theorem nextTower_over (hb : ∀ y ∈ b, h y ≤ i) (hx : i < h x) : nextTower h i (b ++ x :: c) = some x := by
  rw [nextTower_append_low hb, nextTower_cons_high h hx]

theorem span_over (hb : ∀ y ∈ b, h y ≤ i) (hx : i < h x) : span h i (b ++ x :: c) = b.length + 1 := by
  rw [span_append_low hb, span_cons_high h hx]

theorem nextTower_past (hb : ∀ y ∈ b, h y ≤ i) (hx : h x ≤ i) : nextTower h i (b ++ x :: c) = nextTower h i (b ++ c) := by
  rw [nextTower_append_low hb, nextTower_append_low hb, nextTower, List.find?_cons_of_neg (by simp; omega), nextTower]

theorem span_past (hb : ∀ y ∈ b, h y ≤ i) (hx : h x ≤ i) : span h i (b ++ x :: c) = span h i (b ++ c) + 1 := by
  rw [span_append_low hb, span_append_low hb, span, if_neg (by omega)]
  omega

/-- A place in a row with `x` in it is before `x` or after. -/
theorem split_around (hpq : a ++ x :: c = p ++ q) :
    (∃ d, a = p ++ d ∧ q = d ++ x :: c) ∨ ∃ e, p = a ++ x :: e ∧ c = e ++ q := by
  rcases List.append_eq_append_iff.mp hpq with ⟨e, rfl, hq⟩ | ⟨d, rfl, hq⟩
  · cases e with
    | nil => exact .inl ⟨[], by simp, by simpa using hq.symm⟩
    | cons y e =>
      obtain ⟨rfl, rfl⟩ := List.cons.inj hq
      exact .inr ⟨e, rfl, rfl⟩
  · exact .inl ⟨d, rfl, hq⟩

/-! ### The foot of a cut -/

/-- The last tower of the row so far is higher than `i`, or there is none. -/
def Reaches (h : α → ℕ) (i : ℕ) (a : List α) : Prop := ∀ x ∈ a.getLast?, i < h x

theorem Reaches.nil : Reaches h i [] := by
  intro x hx
  cases hx

theorem reaches_concat : Reaches h i (a ++ [x]) ↔ i < h x := by
  simp [Reaches]

/-- The towers before a cut are `a`, the last of which a link of level `i` starts from, and
`b`, which that link goes over. -/
structure Foot (h : α → ℕ) (i : ℕ) (p a b : List α) : Prop where
  eq : p = a ++ b
  reaches : Reaches h i a
  low : ∀ y ∈ b, h y ≤ i

/-- Another tower before the cut is the foot, or sees a higher one before the cut. -/
theorem Foot.split {c d : List α} (hf : Foot h i p a b) (hp : p = c ++ d) (hc : Reaches h i c) :
    (c = a ∧ d = b) ∨ ∃ y ∈ d, i < h y := by
  rw [hf.eq] at hp
  rcases List.append_eq_append_iff.mp hp with ⟨e, rfl, hd⟩ | ⟨e, rfl, rfl⟩
  · -- `c` reaches into `b`
    rcases List.eq_nil_or_concat e with rfl | ⟨e', y, rfl⟩
    · left
      simpa using hd.symm
    · have hy := hc y (by simp)
      have hlow := hf.low y (by simp [hd])
      omega
  · rcases List.eq_nil_or_concat e with rfl | ⟨e', y, rfl⟩
    · left
      simp
    · exact .inr ⟨y, by simp, hf.reaches y (by simp)⟩

variable (h)

/-- The towers up to the foot of a cut. -/
def stem (i : ℕ) (p : List α) : List α := p.rdropWhile fun x => decide (h x ≤ i)

/-- The towers after it. -/
def brim (i : ℕ) (p : List α) : List α := p.rtakeWhile fun x => decide (h x ≤ i)

theorem foot (i : ℕ) (p : List α) : Foot h i p (stem h i p) (brim h i p) where
  eq := List.rdropWhile_append_rtakeWhile.symm
  reaches := by
    intro x hx
    have hne : stem h i p ≠ [] := by
      intro hnil
      rw [hnil] at hx
      cases hx
    have hlast := List.rdropWhile_last_not _ _ hne
    rw [List.getLast?_eq_some_getLast hne] at hx
    rw [← Option.some.inj hx]
    exact Nat.lt_of_not_le fun hle => hlast (decide_eq_true hle)
  low := fun y hy => of_decide_eq_true (List.mem_rtakeWhile_imp (p := fun x => decide (h x ≤ i)) hy)

variable {h}

/-- There is one foot. -/
theorem Foot.eq_stem (hf : Foot h i p a b) : a = stem h i p ∧ b = brim h i p := by
  have hs := foot h i p
  rcases hs.split hf.eq hf.reaches with hab | ⟨y, hy, hi⟩
  · exact hab
  · have hlow := hf.low y hy
    omega

theorem stem_append_brim (i : ℕ) (p : List α) : stem h i p ++ brim h i p = p := (foot h i p).eq.symm

theorem stem_cut (h : α → ℕ) (i : ℕ) (p q : List α) : p ++ q = stem h i p ++ (brim h i p ++ q) := by
  rw [← List.append_assoc, stem_append_brim]

/-- Where all towers are low, a link starts before the row. -/
theorem stem_eq_nil (hp : ∀ y ∈ p, h y ≤ i) : stem h i p = [] ∧ brim h i p = p := by
  obtain ⟨h1, h2⟩ := Foot.eq_stem ⟨(List.nil_append p).symm, .nil, hp⟩
  exact ⟨h1.symm, h2.symm⟩

theorem Reaches.mono {j : ℕ} (hr : Reaches h i a) (hj : j ≤ i) : Reaches h j a := fun x hx => Nat.lt_of_le_of_lt hj (hr x hx)

end Towers
