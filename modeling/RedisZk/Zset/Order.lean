/-
# The order of a sorted set

Pairs of a score and an element are ordered by the score, and where the scores are
the same by the bytes of the elements, as `sdscmp` compares them. A condition that
holds of a pair when it holds of a later one cuts a row in this order in two.

Key definitions: `key`, `Sorted`.
Key theorems: `sdscmp_eq_lt`, `sdscmp_eq_eq`, `before_eq`, `Sorted.cut`.
-/
import Mathlib
import RedisZk.Zset.Shape

namespace RedisZk.Zset

variable {σ : Type}

/-! ### Strings -/

theorem memcmp_spec (s1 s2 : Sds) : match memcmp s1 s2 with
    | .lt => s1 < s2
    | .gt => s2 < s1
    | .eq => ∃ r, (s2 = s1 ++ r ∨ s1 = s2 ++ r) := by
  induction s1 generalizing s2 with
  | nil => exact ⟨s2, .inl rfl⟩
  | cons a s1 ih =>
    cases s2 with
    | nil => exact ⟨a :: s1, .inr rfl⟩
    | cons b s2 =>
      have hrec := ih s2
      unfold memcmp
      by_cases hab : a < b
      · rw [if_pos hab]
        exact List.cons_lt_cons_iff.mpr (.inl hab)
      · rw [if_neg hab]
        by_cases hba : b < a
        · rw [if_pos hba]
          exact List.cons_lt_cons_iff.mpr (.inl hba)
        · rw [if_neg hba]
          have heq : a = b := le_antisymm (not_lt.mp hba) (not_lt.mp hab)
          rw [heq]
          split at hrec
          · exact List.cons_lt_cons_iff.mpr (.inr ⟨rfl, hrec⟩)
          · exact List.cons_lt_cons_iff.mpr (.inr ⟨rfl, hrec⟩)
          · obtain ⟨r, hr | hr⟩ := hrec
            · exact ⟨r, .inl (by rw [hr, List.cons_append])⟩
            · exact ⟨r, .inr (by rw [hr, List.cons_append])⟩

theorem lt_append_cons (s : Sds) (a : Fin 256) (r : Sds) : s < s ++ a :: r := by
  induction s with
  | nil => exact List.nil_lt_cons ..
  | cons b s ih => exact List.cons_lt_cons_iff.mpr (.inr ⟨rfl, ih⟩)

/-- `sdscmp` is the comparison of the order of strings by bytes. -/
theorem sdscmp_spec (s1 s2 : Sds) : match sdscmp s1 s2 with
    | .lt => s1 < s2
    | .gt => s2 < s1
    | .eq => s1 = s2 := by
  have h := memcmp_spec s1 s2
  unfold sdscmp
  cases hm : memcmp s1 s2 with
  | lt =>
    rw [hm] at h
    exact h
  | gt =>
    rw [hm] at h
    exact h
  | eq =>
    rw [hm] at h
    obtain ⟨r, rfl | rfl⟩ := h
    · cases r with
      | nil => simp
      | cons a r =>
        rw [if_neg (by simp), if_pos (by simp)]
        exact lt_append_cons s1 a r
    · cases r with
      | nil => simp
      | cons a r =>
        rw [if_pos (by simp)]
        exact lt_append_cons s2 a r

theorem sdscmp_eq_lt {s1 s2 : Sds} : sdscmp s1 s2 = .lt ↔ s1 < s2 := by
  have h := sdscmp_spec s1 s2
  cases hm : sdscmp s1 s2 with
  | lt =>
    rw [hm] at h
    exact ⟨fun _ => h, fun _ => rfl⟩
  | gt =>
    rw [hm] at h
    exact ⟨nofun, fun hlt => absurd (hlt.trans h) (lt_irrefl _)⟩
  | eq =>
    rw [hm] at h
    exact ⟨nofun, fun hlt => absurd h hlt.ne⟩

theorem sdscmp_eq_eq {s1 s2 : Sds} : sdscmp s1 s2 = .eq ↔ s1 = s2 := by
  have h := sdscmp_spec s1 s2
  cases hm : sdscmp s1 s2 with
  | lt =>
    rw [hm] at h
    exact ⟨nofun, fun heq => absurd heq h.ne⟩
  | gt =>
    rw [hm] at h
    exact ⟨nofun, fun heq => absurd heq.symm h.ne⟩
  | eq =>
    rw [hm] at h
    exact ⟨fun _ => h, fun _ => rfl⟩

/-! ### Pairs -/

/-- The place of a pair in the order. -/
def key (score : σ) (ele : Sds) : σ ×ₗ Sds := toLex (score, ele)

def Item.key (it : Item σ) : σ ×ₗ Sds := Zset.key it.score it.ele

theorem key_inj {s s' : σ} {e e' : Sds} : key s e = key s' e' ↔ s = s' ∧ e = e' := by
  rw [key, key, toLex_inj, Prod.mk.injEq]

variable [LinearOrder σ] {l pre post : List (Item σ)}

theorem key_lt_iff {s s' : σ} {e e' : Sds} : key s e < key s' e' ↔ s < s' ∨ s = s' ∧ e < e' :=
  Prod.Lex.toLex_lt_toLex

/-- The condition of the walk to a pair. -/
theorem before_eq {n : ZslNode σ} (score : σ) (ele : Sds) : n.before score ele = decide (key n.score n.ele < key score ele) := by
  rw [Bool.eq_iff_iff, ZslNode.before, decide_eq_true_iff, key_lt_iff]
  simp [sdscmp_eq_lt]

/-- A row is in the order of its pairs, each of which it has once. -/
def Sorted (l : List (Item σ)) : Prop := l.Pairwise fun a b => a.key < b.key

theorem Sorted.nil : Sorted ([] : List (Item σ)) := List.Pairwise.nil

/-- A condition that is passed down in the order cuts the row where it is last met. -/
theorem Sorted.cut (h : Sorted (pre ++ post)) {A : Item σ → Prop}
    (hA : ∀ a ∈ pre ++ post, ∀ b ∈ pre ++ post, a.key < b.key → A b → A a)
    (hlast : ∀ e it, pre = e ++ [it] → A it) (hhead : ∀ it r, post = it :: r → ¬ A it) :
    (∀ it ∈ pre, A it) ∧ ∀ it ∈ post, ¬ A it := by
  constructor
  · intro it hit
    rcases List.eq_nil_or_concat pre with rfl | ⟨e, y, rfl⟩
    · cases hit
    · rw [List.concat_eq_append] at hit h hA
      have hy : A y := hlast e y (List.concat_eq_append ..)
      rcases List.mem_append.mp hit with hie | hie
      · have hlt : it.key < y.key := (List.pairwise_append.mp (List.pairwise_append.mp h).1).2.2 it hie y (by simp)
        exact hA it (by simp [hie]) y (by simp) hlt hy
      · rw [List.mem_singleton.mp hie]
        exact hy
  · intro it hit
    cases post with
    | nil => cases hit
    | cons y r =>
      have hy := hhead y r rfl
      rcases List.mem_cons.mp hit with rfl | hir
      · exact hy
      · have hlt : y.key < it.key := (List.pairwise_cons.mp (List.pairwise_append.mp h).2.1).1 it hir
        exact fun hAit => hy (hA y (by simp) it (by simp [hir]) hlt hAit)

theorem Sorted.insert (h : Sorted (pre ++ post)) {x : Item σ} (hpre : ∀ it ∈ pre, it.key < x.key)
    (hpost : ∀ it ∈ post, x.key < it.key) : Sorted (pre ++ x :: post) := by
  obtain ⟨h1, h2, h3⟩ := List.pairwise_append.mp h
  refine List.pairwise_append.mpr ⟨h1, List.pairwise_cons.mpr ⟨hpost, h2⟩, fun a ha b hb => ?_⟩
  rcases List.mem_cons.mp hb with rfl | hb
  · exact hpre a ha
  · exact h3 a ha b hb

theorem Sorted.remove {m : List (Item σ)} (h : Sorted (pre ++ m ++ post)) : Sorted (pre ++ post) := by
  refine List.Pairwise.sublist ?_ h
  exact List.Sublist.append (List.sublist_append_left ..) (List.Sublist.refl _)

end RedisZk.Zset
