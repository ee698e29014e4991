/-
# The best of what was offered, in order

A list in increasing order of a score that has room for `n` things. What is offered goes to its
place, and if that is too much, the least thing goes. The best thing that is
still wanted is found from the end.

Key definitions: `insert`, `offer`, `pick`.
Key theorems: `sorted_offer`, `offer_of_lt`, `pick_best`.
-/
import Mathlib

namespace Ranked

variable {ε κ : Type*} [LinearOrder κ] {score : ε → κ} {l : List ε} {x : ε} {n : ℕ}

def Sorted (score : ε → κ) (l : List ε) : Prop := l.Pairwise fun a b => score a ≤ score b

/-- Behind everything that is less. -/
def insert (score : ε → κ) (l : List ε) (x : ε) : List ε :=
  (l.takeWhile fun a => decide (score a < score x)) ++ x :: l.dropWhile fun a => decide (score a < score x)

/-- What is left of a list of `n` things at most. -/
def offer (score : ε → κ) (n : ℕ) (l : List ε) (x : ε) : List ε :=
  if n < (insert score l x).length then (insert score l x).tail else insert score l x

theorem insert_perm (l : List ε) (x : ε) : (insert score l x).Perm (x :: l) := by
  refine List.perm_middle.trans (List.Perm.cons x ?_)
  rw [List.takeWhile_append_dropWhile]

theorem length_insert (l : List ε) (x : ε) : (insert score l x).length = l.length + 1 := (insert_perm l x).length_eq

theorem sorted_insert (h : Sorted score l) (x : ε) : Sorted score (insert score l x) := by
  induction l with
  | nil => exact List.pairwise_singleton _ _
  | cons a l ih =>
    obtain ⟨ha, hl⟩ := List.pairwise_cons.mp h
    unfold insert
    rw [List.takeWhile_cons, List.dropWhile_cons]
    by_cases hlt : score a < score x
    · rw [if_pos (decide_eq_true hlt), if_pos (decide_eq_true hlt), List.cons_append]
      refine List.pairwise_cons.mpr ⟨fun b hb => ?_, ih hl⟩
      rcases List.mem_cons.mp ((insert_perm l x).mem_iff.mp hb) with rfl | hb
      · exact hlt.le
      · exact ha b hb
    · rw [if_neg (by simpa using hlt), if_neg (by simpa using hlt)]
      refine List.pairwise_cons.mpr ⟨fun b hb => ?_, h⟩
      rcases List.mem_cons.mp hb with rfl | hb
      · exact not_lt.mp hlt
      · exact (not_lt.mp hlt).trans (ha b hb)

/-- **The order is kept.** -/
theorem sorted_offer (h : Sorted score l) (n : ℕ) (x : ε) : Sorted score (offer score n l x) := by
  unfold offer
  split
  · exact (sorted_insert h x).sublist (List.tail_sublist _)
  · exact sorted_insert h x

/-- With room left the thing is taken. -/
theorem offer_of_lt (h : l.length < n) (x : ε) : offer score n l x = insert score l x := by
  unfold offer
  rw [length_insert, if_neg (by omega)]

/-- **What is given up is no better than anything that is kept.** -/
theorem offer_keeps_best (h : Sorted score l) (n : ℕ) (x : ε) :
    ∃ lost : List ε, (lost ++ offer score n l x).Perm (x :: l) ∧ (l.length < n → lost = []) ∧
      ∀ a ∈ lost, ∀ b ∈ offer score n l x, score a ≤ score b := by
  have hsorted := sorted_insert h x
  have hperm : (insert score l x).Perm (x :: l) := insert_perm l x
  have hlen : (insert score l x).length = l.length + 1 := length_insert l x
  unfold offer
  split
  · rename_i hmore
    rw [hlen] at hmore
    cases hins : insert score l x with
    | nil => rw [hins] at hlen; cases hlen
    | cons a kept =>
      rw [hins] at hsorted hperm hlen
      refine ⟨[a], hperm, fun hlt => by omega, fun b hb => ?_⟩
      rw [List.mem_singleton.mp hb]
      exact (List.pairwise_cons.mp hsorted).1
  · exact ⟨[], hperm, fun _ => rfl, nofun⟩

/-- Only a full list refuses, and only what is no better than anything in it. -/
theorem offer_refused (h : Sorted score l) (hx : x ∉ offer score n l x) : n ≤ l.length ∧ ∀ b ∈ l, score x ≤ score b := by
  obtain ⟨lost, hperm, hroom, hbest⟩ := offer_keeps_best h n x
  have hlost : x ∈ lost := (List.mem_append.mp (hperm.mem_iff.mpr List.mem_cons_self)).resolve_right hx
  have hfull : n ≤ l.length := by
    by_contra hlt
    rw [hroom (by omega)] at hlost
    cases hlost
  refine ⟨hfull, fun b hb => ?_⟩
  have hlen := hperm.length_eq
  rw [List.length_append, List.length_cons] at hlen
  have hone : lost.length ≤ 1 := by
    have hoffer : l.length ≤ (offer score n l x).length := by
      unfold offer
      split
      · rw [List.length_tail, length_insert]
        omega
      · rw [length_insert]
        omega
    omega
  rcases List.mem_append.mp (hperm.mem_iff.mpr (List.mem_cons_of_mem x hb)) with hb | hb
  · obtain ⟨y, rfl⟩ := List.length_eq_one_iff.mp (Nat.le_antisymm hone (List.length_pos_of_mem hlost))
    rw [List.mem_singleton.mp hb, List.mem_singleton.mp hlost]
  · exact hbest x hlost b hb

/-- The last thing that is wanted, and what is before it. -/
def pick (wanted : ε → Bool) (l : List ε) : List ε × Option ε :=
  match l.reverse.dropWhile fun a => !wanted a with
  | [] => ([], none)
  | a :: rest => (rest.reverse, some a)

theorem pick_snoc (wanted : ε → Bool) (l : List ε) (a : ε) :
    pick wanted (l ++ [a]) = if wanted a then (l, some a) else pick wanted l := by
  unfold pick
  rw [List.reverse_append, List.reverse_singleton, List.singleton_append, List.dropWhile_cons]
  cases h : wanted a with
  | true =>
    rw [if_neg (by decide), if_pos rfl]
    dsimp only
    rw [List.reverse_reverse]
  | false =>
    rw [if_neg Bool.false_ne_true]
    rfl

/-- **What is picked is the best of what is wanted**, and what is left is before it. -/
theorem pick_best (wanted : ε → Bool) (h : Sorted score l) :
    (pick wanted l).1 <+: l ∧ (∀ a, (pick wanted l).2 = some a → a ∈ l ∧ wanted a = true ∧ ∀ b ∈ l, wanted b = true → score b ≤ score a) ∧
      ((pick wanted l).2 = none → ∀ b ∈ l, wanted b = false) := by
  induction l using List.reverseRecOn with
  | nil => exact ⟨List.nil_prefix, nofun, fun _ b hb => nomatch hb⟩
  | append_singleton l a ih =>
    obtain ⟨hl, -, hlast⟩ := List.pairwise_append.mp h
    rw [pick_snoc]
    split
    · rename_i ha
      refine ⟨List.prefix_append l [a], ?_, nofun⟩
      rintro _ ⟨⟩
      refine ⟨List.mem_append_right l (List.mem_singleton_self a), ha, fun b hb _ => ?_⟩
      rcases List.mem_append.mp hb with hb | hb
      · exact hlast b hb a (List.mem_singleton_self a)
      · rw [List.mem_singleton.mp hb]
    · rename_i ha
      obtain ⟨hpre, hsome, hnone⟩ := ih hl
      have hsplit : ∀ b ∈ l ++ [a], b ∈ l ∨ b = a := by
        intro b hb
        rcases List.mem_append.mp hb with hb | hb
        · exact Or.inl hb
        · exact Or.inr (List.mem_singleton.mp hb)
      refine ⟨hpre.trans (List.prefix_append l [a]), fun v hv => ?_, fun hv b hb => ?_⟩
      · obtain ⟨hmem, hwanted, hbest⟩ := hsome v hv
        refine ⟨List.mem_append_left _ hmem, hwanted, fun b hb hb' => ?_⟩
        rcases hsplit b hb with hb | rfl
        · exact hbest b hb hb'
        · exact absurd hb' ha
      · rcases hsplit b hb with hb | rfl
        · exact hnone hv b hb
        · simpa using ha

end Ranked
