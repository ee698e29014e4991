/-
# Machines that are fed in pieces

A machine takes steps that its state determines, until it is stuck for want of input; it is
fed by appending input to its state. If a step that is possible stays possible, and does the
same, when more input is there, then it does not matter in which pieces the input comes:
what is reached on a part of it, fed with the rest, is reached on the whole.

Key definitions: `Reaches`, `Lasting`.
Key theorems: `Reaches.unique`, `Reaches.linear`, `Reaches.fed`.
-/
import Mathlib

namespace Incremental

variable {σ α : Type*} {step : σ → Option σ} {feed : List α → σ → σ} {Safe : σ → Prop}

/-- A number of steps. -/
def Reaches (step : σ → Option σ) : σ → σ → Prop := Relation.ReflTransGen fun s s' => step s = some s'

theorem Reaches.refl (s : σ) : Reaches step s s := Relation.ReflTransGen.refl

theorem Reaches.single {s s' : σ} (h : step s = some s') : Reaches step s s' := Relation.ReflTransGen.single h

theorem Reaches.trans {s s' s'' : σ} (h : Reaches step s s') (h' : Reaches step s' s'') : Reaches step s s'' :=
  Relation.ReflTransGen.trans h h'

theorem Reaches.head {s s' s'' : σ} (h : step s = some s') (h' : Reaches step s' s'') : Reaches step s s'' :=
  Relation.ReflTransGen.head h h'

theorem Reaches.eq_of_stuck {s s' : σ} (h : Reaches step s s') (hs : step s = none) : s' = s := by
  rcases Relation.ReflTransGen.cases_head h with h | ⟨s1, h1, -⟩
  · exact h.symm
  · rw [hs] at h1
    cases h1

/-- The states reached from one state are on one line. -/
theorem Reaches.linear {s a b : σ} (ha : Reaches step s a) (hb : Reaches step s b) :
    Reaches step a b ∨ Reaches step b a := by
  induction ha using Relation.ReflTransGen.head_induction_on with
  | refl => exact .inl hb
  | head h _ ih =>
    rcases Relation.ReflTransGen.cases_head hb with rfl | ⟨s1, h1, hb1⟩
    · exact .inr (.head h ‹_›)
    · rw [h] at h1
      cases h1
      exact ih hb1

/-- A machine gets stuck in one state only. -/
theorem Reaches.unique {s a b : σ} (ha : Reaches step s a) (hb : Reaches step s b) (hsa : step a = none)
    (hsb : step b = none) : a = b := by
  rcases ha.linear hb with h | h
  · exact (h.eq_of_stuck hsa).symm
  · exact h.eq_of_stuck hsb

/-- What steps keep holds of what is reached. -/
theorem Reaches.keeps {P : σ → Prop} (hP : ∀ s s', step s = some s' → P s → P s') {s s' : σ}
    (h : Reaches step s s') (hs : P s) : P s' := by
  induction h with
  | refl => exact hs
  | tail _ h ih => exact hP _ _ h ih

/-- More input keeps a step that is possible, in the safe states. -/
def Lasting (step : σ → Option σ) (feed : List α → σ → σ) (Safe : σ → Prop) : Prop :=
  ∀ s s' v, step s = some s' → Safe (feed v s) → step (feed v s) = some (feed v s')

/-- What is reached without more input is reached with it. -/
theorem Reaches.fed (hl : Lasting step feed Safe) {s s' : σ} (h : Reaches step s s') (v : List α)
    (hsafe : ∀ c, Reaches step (feed v s) c → Safe c) : Reaches step (feed v s) (feed v s') := by
  induction h with
  | refl => exact .refl _
  | tail _ h ih => exact ih.trans (.single (hl _ _ v h (hsafe _ ih)))

end Incremental
