/-
# Cells in two indices

Cells that have an owner each are found by key in a main index, and in the list that
their owner keeps. `Owned` says that the indices agree: a cell of the main index is in
the list of its owner, under the same key, and a list holds nothing else. A new cell, a
cell that changes hands, one that is dropped, and a new owner or one that leaves with an
empty list keep it.

Key definitions: `Owned`, `holder`.
Key theorems: `Owned.only`, `Owned.add`, `Owned.move`, `Owned.drop`, `Owned.enroll`, `Owned.dismiss`.
-/
import Mathlib

namespace SharedIndex

open Function

variable {K N O : Type*}

/-- `main` finds a cell by key, `cell` the owner of a cell, if there is such a cell and it has one, and
`list` what an owner lists. -/
structure Owned (main : K → Option N) (cell : N → Option (Option O)) (list : O → Option (K → Option N)) : Prop where
  owner : ∀ {k n}, main k = some n → ∃ o l, cell n = some (some o) ∧ list o = some l ∧ l k = some n
  listed : ∀ {o l k n}, list o = some l → l k = some n → main k = some n ∧ cell n = some (some o)
  distinct : ∀ {k k' n}, main k = some n → main k' = some n → k = k'

variable {main : K → Option N} {cell : N → Option (Option O)} {list : O → Option (K → Option N)}

theorem Owned.empty (list : O → Option (K → Option N)) (h : ∀ o l, list o = some l → ∀ k, l k = none)
    (cell : N → Option (Option O)) : Owned (fun _ => none) cell list where
  owner h := by cases h
  listed ho hk := by
    rw [h _ _ ho] at hk
    cases hk
  distinct h := by cases h

/-- The owner of the cell found under a key. -/
def holder (main : K → Option N) (cell : N → Option (Option O)) (k : K) : Option O := (main k).bind fun n => (cell n).join

/-- A key is in no list but that of the owner of its cell. -/
theorem Owned.only (h : Owned main cell list) {o o' : O} {l l' : K → Option N} {k : K} {n n' : N} (ho : list o = some l)
    (hk : l k = some n) (ho' : list o' = some l') (hk' : l' k = some n') : o = o' := by
  obtain ⟨hm, hc⟩ := h.listed ho hk
  obtain ⟨hm', hc'⟩ := h.listed ho' hk'
  rw [hm, Option.some.injEq] at hm'
  subst hm'
  rw [hc, Option.some.injEq, Option.some.injEq] at hc'
  exact hc'

/-- A new owner, with nothing yet. -/
theorem Owned.enroll [DecidableEq O] (h : Owned main cell list) {o : O} (ho : list o = none) :
    Owned main cell (update list o (some fun _ => none)) where
  owner := by
    intro k n hm
    obtain ⟨o', l, hc, hl, hlk⟩ := h.owner hm
    have hoo : o' ≠ o := by
      rintro rfl
      rw [ho] at hl
      cases hl
    exact ⟨o', l, hc, by rw [update_of_ne hoo, hl], hlk⟩
  listed := by
    intro o' l k n hl hlk
    by_cases hoo : o' = o
    · rw [hoo, update_self, Option.some.injEq] at hl
      subst hl
      cases hlk
    · rw [update_of_ne hoo] at hl
      exact h.listed hl hlk
  distinct := h.distinct

/-- An owner with nothing leaves. -/
theorem Owned.dismiss [DecidableEq O] (h : Owned main cell list) {o : O} {l : K → Option N} (ho : list o = some l)
    (hl : ∀ k, l k = none) : Owned main cell (update list o none) where
  owner := by
    intro k n hm
    obtain ⟨o', l', hc, hl', hlk⟩ := h.owner hm
    have hoo : o' ≠ o := by
      rintro rfl
      rw [ho, Option.some.injEq] at hl'
      rw [← hl', hl] at hlk
      cases hlk
    exact ⟨o', l', hc, by rw [update_of_ne hoo, hl'], hlk⟩
  listed := by
    intro o' l' k n hl' hlk
    by_cases hoo : o' = o
    · rw [hoo, update_self] at hl'
      cases hl'
    · rw [update_of_ne hoo] at hl'
      exact h.listed hl' hlk
  distinct := h.distinct

/-! ### New cells, moves and drops -/

variable [DecidableEq N]

variable [DecidableEq K]

theorem holder_insert {k : K} {n : N} (hn : ∀ k', k' ≠ k → main k' ≠ some n) (o : O) :
    holder (update main k (some n)) (update cell n (some (some o))) = update (holder main cell) k (some o) := by
  funext k'
  by_cases hkk : k' = k
  · rw [hkk, update_self, holder, update_self, Option.bind_some, update_self]
    rfl
  · rw [update_of_ne hkk, holder, update_of_ne hkk, holder]
    cases hm : main k' with
    | none => rfl
    | some n' =>
      have hnn : n' ≠ n := fun e => hn k' hkk (e ▸ hm)
      simp only [Option.bind_some, update_of_ne hnn]

theorem Owned.holder_drop (h : Owned main cell list) {k : K} {n : N} (hk : main k = some n) :
    holder (update main k none) (update cell n none) = update (holder main cell) k none := by
  funext k'
  by_cases hkk : k' = k
  · rw [hkk, update_self, holder, update_self, Option.bind_none]
  · rw [update_of_ne hkk, holder, update_of_ne hkk, holder]
    cases hm : main k' with
    | none => rfl
    | some n' =>
      have hnn : n' ≠ n := fun e => hkk (h.distinct hm (e ▸ hk))
      simp only [Option.bind_some, update_of_ne hnn]

variable [DecidableEq O]

/-- A new cell for a new key. -/
theorem Owned.add (h : Owned main cell list) {k : K} {n : N} {o : O} {l : K → Option N} (hk : main k = none)
    (hn : ∀ k', main k' ≠ some n) (ho : list o = some l) :
    Owned (update main k (some n)) (update cell n (some (some o))) (update list o (some (update l k (some n)))) where
  owner := by
    intro k' n' hm
    by_cases hkk : k' = k
    · subst hkk
      rw [update_self, Option.some.injEq] at hm
      subst hm
      exact ⟨o, _, update_self .., update_self .., update_self ..⟩
    · rw [update_of_ne hkk] at hm
      obtain ⟨o', l', hc, hl, hlk⟩ := h.owner hm
      have hnn : n' ≠ n := fun e => hn k' (e ▸ hm)
      by_cases hoo : o' = o
      · subst hoo
        rw [ho, Option.some.injEq] at hl
        subst hl
        exact ⟨o', _, by rw [update_of_ne hnn, hc], update_self .., by rw [update_of_ne hkk, hlk]⟩
      · exact ⟨o', l', by rw [update_of_ne hnn, hc], by rw [update_of_ne hoo, hl], hlk⟩
  listed := by
    intro o' l' k' n' hl hlk
    have hold : ∀ {l₀}, list o' = some l₀ → l₀ k' = some n' →
        update main k (some n) k' = some n' ∧ update cell n (some (some o)) n' = some (some o') := by
      intro l₀ hl₀ hlk₀
      obtain ⟨hm, hc⟩ := h.listed hl₀ hlk₀
      have hkk : k' ≠ k := by
        rintro rfl
        rw [hk] at hm
        cases hm
      have hnn : n' ≠ n := fun e => hn k' (e ▸ hm)
      exact ⟨by rw [update_of_ne hkk, hm], by rw [update_of_ne hnn, hc]⟩
    by_cases hoo : o' = o
    · subst hoo
      rw [update_self, Option.some.injEq] at hl
      subst hl
      by_cases hkk : k' = k
      · subst hkk
        rw [update_self, Option.some.injEq] at hlk
        subst hlk
        exact ⟨update_self .., update_self ..⟩
      · rw [update_of_ne hkk] at hlk
        exact hold ho hlk
    · rw [update_of_ne hoo] at hl
      exact hold hl hlk
  distinct := by
    intro k₁ k₂ n' h₁ h₂
    by_cases h1 : k₁ = k
    · by_cases h2 : k₂ = k
      · rw [h1, h2]
      · rw [h1, update_self] at h₁
        rw [update_of_ne h2, ← h₁] at h₂
        exact absurd h₂ (hn k₂)
    · by_cases h2 : k₂ = k
      · rw [h2, update_self] at h₂
        rw [update_of_ne h1, ← h₂] at h₁
        exact absurd h₁ (hn k₁)
      · rw [update_of_ne h1] at h₁
        rw [update_of_ne h2] at h₂
        exact h.distinct h₁ h₂

/-- A key is dropped, with its cell. -/
theorem Owned.drop (h : Owned main cell list) {k : K} {n : N} {o : O} {l : K → Option N} (hk : main k = some n)
    (ho : list o = some l) (hl : l k = some n) :
    Owned (update main k none) (update cell n none) (update list o (some (update l k none))) where
  owner := by
    intro k' n' hm
    by_cases hkk : k' = k
    · rw [hkk, update_self] at hm
      cases hm
    · rw [update_of_ne hkk] at hm
      have hnn : n' ≠ n := fun e => hkk (h.distinct hm (e ▸ hk))
      obtain ⟨o', l', hc, hl', hlk⟩ := h.owner hm
      by_cases hoo : o' = o
      · subst hoo
        rw [ho, Option.some.injEq] at hl'
        subst hl'
        exact ⟨o', _, by rw [update_of_ne hnn, hc], update_self .., by rw [update_of_ne hkk, hlk]⟩
      · exact ⟨o', l', by rw [update_of_ne hnn, hc], by rw [update_of_ne hoo, hl'], hlk⟩
  listed := by
    intro o' l' k' n' hl' hlk
    have hold : ∀ {l₀}, list o' = some l₀ → l₀ k' = some n' → k' ≠ k →
        update main k none k' = some n' ∧ update cell n none n' = some (some o') := by
      intro l₀ hl₀ hlk₀ hkk
      obtain ⟨hm, hc⟩ := h.listed hl₀ hlk₀
      have hnn : n' ≠ n := fun e => hkk (h.distinct hm (e ▸ hk))
      exact ⟨by rw [update_of_ne hkk, hm], by rw [update_of_ne hnn, hc]⟩
    by_cases hoo : o' = o
    · subst hoo
      rw [update_self, Option.some.injEq] at hl'
      subst hl'
      by_cases hkk : k' = k
      · rw [hkk, update_self] at hlk
        cases hlk
      · rw [update_of_ne hkk] at hlk
        exact hold ho hlk hkk
    · rw [update_of_ne hoo] at hl'
      refine hold hl' hlk ?_
      rintro rfl
      exact hoo (h.only hl' hlk ho hl)
  distinct := by
    intro k₁ k₂ n' h₁ h₂
    have hne : ∀ {k'}, update main k none k' = some n' → k' ≠ k := by
      rintro k' hm rfl
      rw [update_self] at hm
      cases hm
    have h1 := hne h₁
    have h2 := hne h₂
    rw [update_of_ne h1] at h₁
    rw [update_of_ne h2] at h₂
    exact h.distinct h₁ h₂

/-- A cell goes from the owner `o` to `o'`, which may be the same. -/
theorem Owned.move (h : Owned main cell list) {k : K} {n : N} {o o' : O} {l l' : K → Option N} (hk : main k = some n)
    (ho : list o = some l) (hl : l k = some n) (ho' : update list o (some (update l k none)) o' = some l') :
    Owned main (update cell n (some (some o')))
      (update (update list o (some (update l k none))) o' (some (update l' k (some n)))) := by
  have hdrop := h.drop hk ho hl
  have hfree : ∀ k', update main k none k' ≠ some n := by
    intro k' hm
    by_cases hkk : k' = k
    · rw [hkk, update_self] at hm
      cases hm
    · rw [update_of_ne hkk] at hm
      exact hkk (h.distinct hm hk)
  have hadd := hdrop.add (update_self ..) hfree ho'
  rwa [update_idem, update_idem, show update main k (some n) = main by rw [← hk, update_eq_self]] at hadd

end SharedIndex
