/-
# The first and the last element of an interval

A row, and an interval of it between two conditions: one that is met from some place
on (`Rising`) and one that is met up to some place (`Falling`). The first element
that meets the former is the first of the interval, if it meets the latter; if not,
the interval is empty. So it is with the last, the other way.

Key definitions: `lastIdx`, `Rising`, `Falling`.
Key theorems: `first_between`, `last_between`.
-/
import Mathlib

namespace Interval

variable {α : Type*} {a b l : List α} {x : α} {P G L : α → Bool}

/-- The place of the last element that meets a condition. -/
def lastIdx (P : α → Bool) : List α → Option ℕ
  | [] => none
  | x :: l =>
    match lastIdx P l with
    | some i => some (i + 1)
    | none => if P x then some 0 else none

theorem lastIdx_none (h : ∀ y ∈ l, P y = false) : lastIdx P l = none := by
  induction l with
  | nil => rfl
  | cons x l ih => simp [lastIdx, ih fun y hy => h y (by simp [hy]), h x (by simp)]

theorem lastIdx_at (hb : ∀ y ∈ b, P y = false) (hx : P x = true) : lastIdx P (a ++ x :: b) = some a.length := by
  induction a with
  | nil => simp [lastIdx, lastIdx_none hb, hx]
  | cons y a ih => simp [lastIdx, ih]

theorem findIdx?_none (h : ∀ y ∈ l, P y = false) : l.findIdx? P = none := List.findIdx?_eq_none_iff.mpr h

theorem findIdx?_at (ha : ∀ y ∈ a, P y = false) (hx : P x = true) : (a ++ x :: b).findIdx? P = some a.length := by
  rw [List.findIdx?_append, findIdx?_none ha, List.findIdx?_cons, hx]
  simp

/-- Met from some place on. -/
def Rising (G : α → Bool) (l : List α) : Prop := l.Pairwise fun a b => G a = true → G b = true

/-- Met up to some place. -/
def Falling (L : α → Bool) (l : List α) : Prop := l.Pairwise fun a b => L b = true → L a = true

theorem first_between (hL : Falling L (a ++ x :: b)) (ha : ∀ y ∈ a, G y = false) (hx : G x = true) :
    (a ++ x :: b).findIdx? (fun y => G y && L y) = if L x then some a.length else none := by
  have hbefore : ∀ y ∈ a, (G y && L y) = false := fun y hy => by rw [ha y hy, Bool.false_and]
  split
  · rename_i hLx
    exact findIdx?_at hbefore (by rw [hx, hLx, Bool.and_self])
  · rename_i hLx
    refine findIdx?_none fun y hy => ?_
    rcases List.mem_append.mp hy with hy | hy
    · exact hbefore y hy
    · rcases List.mem_cons.mp hy with rfl | hy
      · rw [Bool.eq_false_iff.mpr hLx, Bool.and_false]
      · have hle := (List.pairwise_cons.mp (List.pairwise_append.mp hL).2.1).1 y hy
        rw [show L y = false from Bool.eq_false_iff.mpr fun hy => hLx (hle hy), Bool.and_false]

theorem last_between (hG : Rising G (a ++ x :: b)) (hb : ∀ y ∈ b, L y = false) (hx : L x = true) :
    lastIdx (fun y => G y && L y) (a ++ x :: b) = if G x then some a.length else none := by
  have hbehind : ∀ y ∈ b, (G y && L y) = false := fun y hy => by rw [hb y hy, Bool.and_false]
  split
  · rename_i hGx
    exact lastIdx_at hbehind (by rw [hx, hGx, Bool.and_self])
  · rename_i hGx
    refine lastIdx_none fun y hy => ?_
    rcases List.mem_append.mp hy with hy | hy
    · have hle := (List.pairwise_append.mp hG).2.2 y hy x (by simp)
      rw [show G y = false from Bool.eq_false_iff.mpr fun hy => hGx (hle hy), Bool.false_and]
    · rcases List.mem_cons.mp hy with rfl | hy
      · rw [Bool.eq_false_iff.mpr hGx, Bool.false_and]
      · exact hbehind y hy

/-- If the last element of a row is not met by a rising condition, none is. -/
theorem Rising.none_of_last (hG : Rising G (a ++ [x])) (hx : G x = false) : ∀ y ∈ a ++ [x], G y = false := by
  intro y hy
  rcases List.mem_append.mp hy with hy | hy
  · have hle := (List.pairwise_append.mp hG).2.2 y hy x (by simp)
    exact Bool.eq_false_iff.mpr fun hy => by rw [hle hy] at hx; cases hx
  · rw [List.mem_singleton.mp hy]
    exact hx

theorem Falling.none_of_first (hL : Falling L (x :: b)) (hx : L x = false) : ∀ y ∈ x :: b, L y = false := by
  intro y hy
  rcases List.mem_cons.mp hy with rfl | hy
  · exact hx
  · have hle := (List.pairwise_cons.mp hL).1 y hy
    exact Bool.eq_false_iff.mpr fun hy => by rw [hle hy] at hx; cases hx

end Interval
