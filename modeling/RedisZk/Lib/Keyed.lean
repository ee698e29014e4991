/-
# Lists of things with a key

A table as the list of what it holds, each thing with a key of its own. What a lookup finds
after an addition, a removal or a change of a thing that keeps its key.

Key definitions: `find`, `erase`, `update`.
Key theorems: `find_eq_some_iff`, `find_snoc`, `find_erase`, `find_map`, `find_update`.
-/
import Mathlib

namespace Keyed

variable {ε κ : Type*} {f : ε → κ} {l : List ε} {k k' : κ} {e : ε}

/-- Things with one key are the same. -/
theorem eq_of_key (h : (l.map f).Nodup) {e e' : ε} (he : e ∈ l) (he' : e' ∈ l) (hk : f e = f e') : e = e' :=
  List.inj_on_of_nodup_map h he he' hk

theorem map_keys (g : ε → ε) (hg : ∀ e, f (g e) = f e) (l : List ε) : (l.map g).map f = l.map f := by
  rw [List.map_map]
  exact List.map_congr_left fun e _ => hg e

variable [DecidableEq κ]

def find (f : ε → κ) (l : List ε) (k : κ) : Option ε := l.find? fun e => decide (f e = k)

def erase (f : ε → κ) (l : List ε) (k : κ) : List ε := l.filter fun e => decide (f e ≠ k)

theorem of_find (h : find f l k = some e) : e ∈ l ∧ f e = k := by
  have hkey : decide (f e = k) = true := List.find?_some (p := fun e => decide (f e = k)) h
  exact ⟨List.mem_of_find?_eq_some h, of_decide_eq_true hkey⟩

theorem find_eq_none_iff : find f l k = none ↔ ∀ e ∈ l, f e ≠ k := by
  rw [find, List.find?_eq_none]
  simp only [decide_eq_true_eq, ne_eq]

theorem find_eq_some_iff (h : (l.map f).Nodup) : find f l k = some e ↔ e ∈ l ∧ f e = k := by
  refine ⟨of_find, fun ⟨he, hk⟩ => ?_⟩
  cases hfind : find f l k with
  | none => exact absurd hk (find_eq_none_iff.mp hfind e he)
  | some e' =>
    obtain ⟨he', hk'⟩ := of_find hfind
    rw [eq_of_key h he' he (hk'.trans hk.symm)]

/-- A lookup goes by the keys of what is there. -/
theorem find_congr {f' : ε → κ} (h : ∀ e ∈ l, f e = f' e) (k : κ) : find f l k = find f' l k := by
  rw [find, find, ← List.head?_filter, ← List.head?_filter]
  refine congrArg List.head? (List.filter_congr fun e he => ?_)
  rw [h e he]

theorem find_snoc (l : List ε) (e : ε) (k : κ) : find f (l ++ [e]) k = (find f l k).or (if f e = k then some e else none) := by
  rw [find, List.find?_append, ← find]
  by_cases h : f e = k
  · rw [if_pos h, List.find?_singleton, if_pos (decide_eq_true h)]
  · rw [if_neg h, List.find?_singleton, if_neg (by simpa using h)]

theorem find_erase (l : List ε) (k k' : κ) : find f (erase f l k) k' = if k' = k then none else find f l k' := by
  rw [find, erase, List.find?_filter]
  by_cases h : k' = k
  · rw [if_pos h, List.find?_eq_none]
    intro e _
    simp [h]
  · rw [if_neg h, find]
    congr 1
    funext e
    by_cases hk : f e = k'
    · simp [hk, h]
    · simp [hk]

/-- A change that leaves the keys is a change of what is found. -/
theorem find_map (g : ε → ε) (hg : ∀ e, f (g e) = f e) (l : List ε) (k : κ) : find f (l.map g) k = (find f l k).map g := by
  rw [find, List.find?_map, find]
  congr 2
  funext e
  rw [Function.comp, hg]

theorem nodup_snoc (h : (l.map f).Nodup) (hnone : find f l (f e) = none) : ((l ++ [e]).map f).Nodup := by
  rw [List.map_append, List.nodup_append]
  refine ⟨h, List.nodup_singleton _, fun a ha b hb => ?_⟩
  obtain ⟨x, hx, rfl⟩ := List.mem_map.mp ha
  rw [List.mem_singleton.mp hb]
  exact find_eq_none_iff.mp hnone x hx

theorem nodup_erase (h : (l.map f).Nodup) (k : κ) : ((erase f l k).map f).Nodup :=
  h.sublist (List.filter_sublist.map f)

/-- The things with the key are changed. -/
def update (f : ε → κ) (l : List ε) (k : κ) (g : ε → ε) : List ε := l.map fun e => if f e = k then g e else e

theorem update_keys (g : ε → ε) (hg : ∀ e, f (g e) = f e) (l : List ε) (k : κ) : (update f l k g).map f = l.map f := by
  refine map_keys _ (fun e => ?_) l
  split
  · exact hg e
  · rfl

theorem find_update (g : ε → ε) (hg : ∀ e, f (g e) = f e) (l : List ε) (k k' : κ) :
    find f (update f l k g) k' = if k' = k then (find f l k).map g else find f l k' := by
  have hkeep : ∀ e, f (if f e = k then g e else e) = f e := by
    intro e
    split
    · exact hg e
    · rfl
  rw [update, find_map _ hkeep]
  cases hfind : find f l k' with
  | none =>
    split
    · rename_i hk
      rw [← hk, hfind]
      rfl
    · rfl
  | some e =>
    obtain ⟨-, hkey⟩ := of_find hfind
    rw [Option.map_some, hkey]
    split
    · rename_i hk
      rw [← hk, hfind, Option.map_some]
    · rfl

/-- A thing that is found, and the others. -/
theorem perm_of_find (h : (l.map f).Nodup) (hfind : find f l k = some e) : l.Perm (e :: erase f l k) := by
  induction l with
  | nil => cases hfind
  | cons x l ih =>
    obtain ⟨hnot, hnodup⟩ := List.nodup_cons.mp (show (f x :: l.map f).Nodup from h)
    by_cases hx : f x = k
    · have hxe : x = e := by
        rw [find, List.find?_cons, decide_eq_true hx] at hfind
        exact Option.some.inj hfind
      have hkeep : erase f l k = l := by
        refine List.filter_eq_self.mpr fun y hy => decide_eq_true fun hk => hnot ?_
        rw [hx, ← hk]
        exact List.mem_map_of_mem hy
      rw [erase, List.filter_cons_of_neg (by simpa using hx), ← erase, hkeep, hxe]
    · rw [find, List.find?_cons, decide_eq_false hx] at hfind
      rw [erase, List.filter_cons_of_pos (by simpa using hx)]
      exact ((ih hnodup hfind).cons x).trans (List.Perm.swap e x _)

/-- The things after a change of one of them. -/
theorem update_perm (h : (l.map f).Nodup) (hfind : find f l k = some e) (g : ε → ε) : (update f l k g).Perm (g e :: erase f l k) := by
  obtain ⟨-, hkey⟩ := of_find hfind
  refine ((perm_of_find h hfind).map _).trans ?_
  rw [List.map_cons, if_pos hkey]
  refine List.Perm.cons _ (List.Perm.of_eq ?_)
  calc (erase f l k).map (fun e => if f e = k then g e else e) = (erase f l k).map id :=
        List.map_congr_left fun y hy => if_neg (of_decide_eq_true (List.mem_filter.mp hy).2)
    _ = erase f l k := List.map_id _

end Keyed
