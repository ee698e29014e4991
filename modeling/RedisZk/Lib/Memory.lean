/-
# A block of memory as a list

Writing to a place and moving overlapping bytes, where none stands for an access outside of the
block. Of a block that is a concatenation the parts before and behind the place are kept. A block of
cells of `w` symbols is the codes of the elements of a list, one behind the other.

Key definitions: `put`, `memmove`, `cells`.
Key theorems: `put_split`, `put_put`, `memmove_end`, `widen`, `carry`, `drop_cells`.
-/
import Mathlib

namespace Memory

variable {α : Type*}

/-- `s` is written to `p`. -/
def put (m : List α) (p : ℕ) (s : List α) : Option (List α) :=
  if p + s.length ≤ m.length then some (m.take p ++ (s ++ m.drop (p + s.length))) else none

def memmove (m : List α) (dst src n : ℕ) : Option (List α) :=
  if src + n ≤ m.length then put m dst ((m.drop src).take n) else none

theorem put_of_le {m s : List α} {p : ℕ} (h : p + s.length ≤ m.length) : ∃ m', put m p s = some m' ∧ m'.length = m.length := by
  refine ⟨m.take p ++ (s ++ m.drop (p + s.length)), if_pos h, ?_⟩
  simp only [List.length_append, List.length_take, List.length_drop]
  omega

theorem put_split {m a old b s : List α} {p : ℕ} (hm : m = a ++ (old ++ b)) (hp : p = a.length)
    (hs : s.length = old.length) : put m p s = some (a ++ (s ++ b)) := by
  subst hm hp
  have hdrop : (a ++ (old ++ b)).drop (a.length + s.length) = b := by
    rw [← List.drop_drop, List.drop_left, hs, List.drop_left]
  rw [put, if_pos (by simp only [List.length_append]; omega), List.take_left, hdrop]

/-- Two writes one behind the other are one. -/
theorem put_put {m a old b s t : List α} {p : ℕ} (hm : m = a ++ (old ++ b)) (hp : p = a.length)
    (hs : (s ++ t).length = old.length) :
    (put m p s).bind (fun m => put m (p + s.length) t) = some (a ++ (s ++ t ++ b)) := by
  rw [List.length_append] at hs
  have hold : old = old.take s.length ++ old.drop s.length := (List.take_append_drop _ _).symm
  have h1 : put m p s = some (a ++ (s ++ (old.drop s.length ++ b))) := by
    have hsplit : m = a ++ (old.take s.length ++ (old.drop s.length ++ b)) := by
      rw [hm, ← List.append_assoc (old.take _), ← hold]
    exact put_split hsplit hp (by rw [List.length_take]; omega)
  rw [h1, Option.bind_some]
  have h2 : put (a ++ (s ++ (old.drop s.length ++ b))) (p + s.length) t = some (a ++ s ++ (t ++ b)) := by
    have hsplit : a ++ (s ++ (old.drop s.length ++ b)) = a ++ s ++ (old.drop s.length ++ b) := by rw [List.append_assoc]
    refine put_split hsplit (by rw [hp, List.length_append]) ?_
    rw [List.length_drop]
    omega
  rw [h2]
  simp only [List.append_assoc]

/-- What is moved ends `g` behind where it ended; what is behind that stays. -/
theorem memmove_end {m k s g c : List α} {dst src n : ℕ} (hm : m = k ++ (s ++ (g ++ c))) (hsrc : src = k.length)
    (hn : n = s.length) (hdst : dst = k.length + g.length) : memmove m dst src n = some (m.take dst ++ (s ++ c)) := by
  have hmoved : (m.drop src).take n = s := by rw [hm, hsrc, hn, List.drop_left, List.take_left]
  have hlen : m.length = k.length + (s.length + (g.length + c.length)) := by
    rw [hm]
    simp only [List.length_append]
  have hdrop : m.drop (dst + s.length) = c := by
    have hsplit : m = (k ++ s ++ g) ++ c := by
      rw [hm]
      simp only [List.append_assoc]
    have hat : dst + s.length = (k ++ s ++ g).length := by
      simp only [List.length_append]
      omega
    rw [hsplit, hat, List.drop_left]
  rw [memmove, if_pos (by omega), hmoved, put, if_pos (by omega), hdrop]

/-- What is behind `o` makes room for `w` in the place of `o`. -/
theorem widen {m a o s g c w : List α} {p dst src n : ℕ} (hm : m = a ++ (o ++ (s ++ (g ++ c)))) (hp : p = a.length)
    (hw : w.length = o.length + g.length) (hdst : dst = a.length + w.length) (hsrc : src = a.length + o.length)
    (hn : n = s.length) : (memmove m dst src n).bind (fun m => put m p w) = some (a ++ (w ++ (s ++ c))) := by
  have hmove : memmove m dst src n = some (m.take dst ++ (s ++ c)) :=
    memmove_end (k := a ++ o) (g := g) (by rw [hm]; simp only [List.append_assoc]) (by rw [List.length_append, hsrc]) hn
      (by rw [List.length_append]; omega)
  have hlen : dst ≤ m.length := by
    rw [hm]
    simp only [List.length_append]
    omega
  have htake : m.take dst = a ++ (m.drop a.length).take w.length := by
    rw [hdst, List.take_add, hm, List.take_left]
  rw [hmove, Option.bind_some]
  have hsplit : m.take dst ++ (s ++ c) = a ++ ((m.drop a.length).take w.length ++ (s ++ c)) := by
    rw [htake, List.append_assoc]
  refine put_split hsplit hp ?_
  rw [List.length_take, List.length_drop]
  omega

/-- What is at the end of `k` is moved with `s`, and `w` is put in its place. -/
theorem carry {m k s g c w : List α} {dst src n : ℕ} (hm : m = k ++ (s ++ (g ++ c))) (hw : w.length ≤ k.length)
    (hsrc : src = k.length - w.length) (hn : n = w.length + s.length) (hdst : dst + w.length = k.length + g.length) :
    (memmove m dst src n).bind (fun m => put m dst w) = some (m.take dst ++ (w ++ (s ++ c))) := by
  have hk : k = k.take (k.length - w.length) ++ k.drop (k.length - w.length) := (List.take_append_drop _ _).symm
  have hlen : (k.drop (k.length - w.length)).length = w.length := by
    rw [List.length_drop]
    omega
  have hmove : memmove m dst src n = some (m.take dst ++ (k.drop (k.length - w.length) ++ s ++ c)) := by
    refine memmove_end (k := k.take (k.length - w.length)) (g := g) ?_ ?_ ?_ ?_
    · rw [hm, List.append_assoc, ← List.append_assoc (k.take _), ← hk]
    · rw [hsrc, List.length_take, Nat.min_eq_left (by omega)]
    · rw [hn, List.length_append, hlen]
    · rw [List.length_take, Nat.min_eq_left (by omega)]
      omega
  have hdst' : dst ≤ m.length := by
    rw [hm]
    simp only [List.length_append]
    omega
  rw [hmove, Option.bind_some]
  have hsplit : m.take dst ++ (k.drop (k.length - w.length) ++ s ++ c) =
      m.take dst ++ (k.drop (k.length - w.length) ++ (s ++ c)) := by rw [List.append_assoc]
  refine put_split hsplit ?_ hlen.symm
  rw [List.length_take, Nat.min_eq_left hdst']

/-- What is moved to the front leaves of the rest what is behind it. -/
theorem memmove_front {m a j s b : List α} {dst src n : ℕ} (hm : m = a ++ (j ++ (s ++ b))) (hdst : dst = a.length)
    (hsrc : src = a.length + j.length) (hn : n = s.length) :
    memmove m dst src n = some (a ++ (s ++ (j ++ (s ++ b)).drop s.length)) := by
  have hmoved : (m.drop src).take n = s := by rw [hm, hsrc, ← List.drop_drop, List.drop_left, List.drop_left, hn, List.take_left]
  have hlen : m.length = a.length + (j.length + (s.length + b.length)) := by rw [hm]; simp only [List.length_append]
  rw [memmove, if_pos (by omega), hmoved, put, if_pos (by omega), hdst, hm, List.take_left, ← List.drop_drop, List.drop_left]

/-! ### Cells of one size -/

variable {β : Type*} (code : α → List β) {w : ℕ}

def cells (l : List α) : List β := l.flatMap code

@[simp] theorem cells_nil : cells code [] = [] := rfl

@[simp] theorem cells_cons (x : α) (l : List α) : cells code (x :: l) = code x ++ cells code l := List.flatMap_cons

theorem cells_append (l m : List α) : cells code (l ++ m) = cells code l ++ cells code m := List.flatMap_append

variable {code}

theorem length_cells (hw : ∀ x, (code x).length = w) (l : List α) : (cells code l).length = l.length * w := by
  induction l with
  | nil => rw [cells_nil, List.length_nil, List.length_nil, Nat.zero_mul]
  | cons x l ih => rw [cells_cons, List.length_append, ih, hw, List.length_cons, Nat.succ_mul, Nat.add_comm]

theorem drop_cells (hw : ∀ x, (code x).length = w) (l : List α) (s : List β) :
    (cells code l ++ s).drop (l.length * w) = s := by
  rw [← length_cells hw l, List.drop_left]

end Memory
