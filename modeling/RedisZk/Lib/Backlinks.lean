/-
# Parents and lists of children

Nodes that each have at most one parent, and keep a list of their children:
the same relation stored twice. `Mutual` says that both agree; a change of
parent updates the child, its old parent and its new one, and keeps it.

Key definitions: `Mutual`.
Key theorems: `Mutual.setParent`, `Mutual.remove`, `Mutual.insert`, `Mutual.congr`.
-/
import Mathlib

namespace Backlinks

variable {N : Type*}

/-- Parent pointers and lists of children say the same, name every child once,
and never point out of the list of nodes. -/
structure Mutual (nodes : List N) (children : N → List N) (parent : N → Option N) : Prop where
  parent_mem : ∀ n ∈ nodes, ∀ m, parent n = some m → m ∈ nodes
  mem_children : ∀ m ∈ nodes, ∀ n, n ∈ children m ↔ n ∈ nodes ∧ parent n = some m
  nodup : ∀ m ∈ nodes, (children m).Nodup

variable {nodes nodes' : List N} {children children' : N → List N} {parent parent' : N → Option N}

theorem Mutual.congr (h : Mutual nodes children parent) (hn : ∀ n, n ∈ nodes' ↔ n ∈ nodes)
    (hc : ∀ n ∈ nodes, children' n = children n) (hp : ∀ n ∈ nodes, parent' n = parent n) :
    Mutual nodes' children' parent' where
  parent_mem := by
    intro n hm m hpar
    rw [hn] at hm ⊢
    exact h.parent_mem n hm m (by rw [← hp n hm, hpar])
  mem_children := by
    intro m hm n
    rw [hn] at hm ⊢
    rw [hc m hm, h.mem_children m hm n]
    refine and_congr_right fun hmem => ?_
    rw [hp n hmem]
  nodup := by
    intro m hm
    rw [hn] at hm
    rw [hc m hm]
    exact h.nodup m hm

/-- A node enters without parent and children. -/
theorem Mutual.insert (h : Mutual nodes children parent) {n : N} (hn : n ∉ nodes)
    (hc : children n = []) (hp : parent n = none) : Mutual (nodes ++ [n]) children parent where
  parent_mem := by
    intro q hq m hpar
    rcases List.mem_append.mp hq with hq | hq
    · exact List.mem_append_left _ (h.parent_mem q hq m hpar)
    · rw [List.mem_singleton.mp hq, hp] at hpar
      exact absurd hpar (by simp)
  mem_children := by
    intro m hm q
    rcases List.mem_append.mp hm with hm | hm
    · rw [h.mem_children m hm q, List.mem_append, List.mem_singleton]
      constructor
      · rintro ⟨hq, hpar⟩
        exact ⟨.inl hq, hpar⟩
      · rintro ⟨hq | rfl, hpar⟩
        · exact ⟨hq, hpar⟩
        · rw [hp] at hpar
          exact absurd hpar (by simp)
    · rw [List.mem_singleton.mp hm, hc]
      constructor
      · intro hq
        exact absurd hq (by simp)
      · rintro ⟨hq, hpar⟩
        rcases List.mem_append.mp hq with hq | hq
        · exact absurd (h.parent_mem q hq n hpar) hn
        · rw [List.mem_singleton.mp hq, hp] at hpar
          exact absurd hpar (by simp)
  nodup := by
    intro m hm
    rcases List.mem_append.mp hm with hm | hm
    · exact h.nodup m hm
    · rw [List.mem_singleton.mp hm, hc]
      exact List.nodup_nil

variable [DecidableEq N]

/-- The node `n` changes its parent to `o`: it leaves the list of the old parent and
enters that of the new one. -/
theorem Mutual.setParent (h : Mutual nodes children parent) {n : N} {o : Option N} (hn : n ∈ nodes)
    (ho : ∀ m, o = some m → m ∈ nodes)
    (hc : ∀ m ∈ nodes, children' m =
      (if parent n = some m then (children m).erase n else children m) ++ (if o = some m then [n] else []))
    (hp : ∀ q ∈ nodes, parent' q = if q = n then o else parent q) : Mutual nodes children' parent' where
  parent_mem := by
    intro q hq m hpar
    rw [hp q hq] at hpar
    split at hpar
    · exact ho m hpar
    · exact h.parent_mem q hq m hpar
  mem_children := by
    intro m hm q
    have hleft : q ∈ (if parent n = some m then (children m).erase n else children m) ↔
        q ∈ nodes ∧ q ≠ n ∧ parent q = some m := by
      split
      · rw [(h.nodup m hm).mem_erase_iff, h.mem_children m hm q]
        tauto
      · rename_i hne
        rw [h.mem_children m hm q]
        constructor
        · rintro ⟨hq, hpar⟩
          exact ⟨hq, fun e => hne (e ▸ hpar), hpar⟩
        · rintro ⟨hq, -, hpar⟩
          exact ⟨hq, hpar⟩
    have hright : q ∈ (if o = some m then [n] else []) ↔ q = n ∧ o = some m := by
      split <;> simp_all
    rw [hc m hm, List.mem_append, hleft, hright]
    constructor
    · rintro (⟨hq, hne, hpar⟩ | ⟨rfl, ho'⟩)
      · exact ⟨hq, by rw [hp q hq, if_neg hne, hpar]⟩
      · exact ⟨hn, by rw [hp q hn, if_pos rfl, ho']⟩
    · rintro ⟨hq, hpar⟩
      rw [hp q hq] at hpar
      split at hpar
      · rename_i e
        exact .inr ⟨e, hpar⟩
      · rename_i hne
        exact .inl ⟨hq, hne, hpar⟩
  nodup := by
    intro m hm
    rw [hc m hm]
    have hnd := h.nodup m hm
    by_cases hpar : parent n = some m
    · rw [if_pos hpar]
      by_cases ho' : o = some m
      · rw [if_pos ho', List.nodup_append]
        refine ⟨hnd.erase n, List.nodup_singleton n, ?_⟩
        intro a ha b hb
        rw [List.mem_singleton.mp hb]
        exact (hnd.mem_erase_iff.mp ha).1
      · rw [if_neg ho', List.append_nil]
        exact hnd.erase n
    · rw [if_neg hpar]
      by_cases ho' : o = some m
      · rw [if_pos ho', List.nodup_append]
        refine ⟨hnd, List.nodup_singleton n, ?_⟩
        intro a ha b hb e
        rw [List.mem_singleton.mp hb] at e
        rw [e] at ha
        exact hpar ((h.mem_children m hm n).mp ha).2
      · rw [if_neg ho', List.append_nil]
        exact hnd

/-- The node `n` leaves: its children become orphans, its parent forgets it. -/
theorem Mutual.remove (h : Mutual nodes children parent) {n : N} (hnd : nodes.Nodup)
    (hc : ∀ m ∈ nodes, m ≠ n →
      children' m = if parent n = some m then (children m).erase n else children m)
    (hp : ∀ q ∈ nodes, q ≠ n → parent' q = if parent q = some n then none else parent q) :
    Mutual (nodes.erase n) children' parent' where
  parent_mem := by
    intro q hq m hpar
    obtain ⟨hne, hq⟩ := hnd.mem_erase_iff.mp hq
    rw [hp q hq hne] at hpar
    split at hpar
    · exact absurd hpar (by simp)
    · rename_i hnot
      refine hnd.mem_erase_iff.mpr ⟨?_, h.parent_mem q hq m hpar⟩
      rintro rfl
      exact hnot hpar
  mem_children := by
    intro m hm q
    obtain ⟨hmne, hm⟩ := hnd.mem_erase_iff.mp hm
    have hleft : q ∈ children' m ↔ q ∈ nodes ∧ q ≠ n ∧ parent q = some m := by
      rw [hc m hm hmne]
      split
      · rw [(h.nodup m hm).mem_erase_iff, h.mem_children m hm q]
        tauto
      · rename_i hne
        rw [h.mem_children m hm q]
        constructor
        · rintro ⟨hq, hpar⟩
          exact ⟨hq, fun e => hne (e ▸ hpar), hpar⟩
        · rintro ⟨hq, -, hpar⟩
          exact ⟨hq, hpar⟩
    rw [hleft, hnd.mem_erase_iff]
    constructor
    · rintro ⟨hq, hne, hpar⟩
      refine ⟨⟨hne, hq⟩, ?_⟩
      rw [hp q hq hne, if_neg, hpar]
      rw [hpar]
      intro e
      exact hmne (Option.some.inj e)
    · rintro ⟨⟨hne, hq⟩, hpar⟩
      rw [hp q hq hne] at hpar
      split at hpar
      · exact absurd hpar (by simp)
      · exact ⟨hq, hne, hpar⟩
  nodup := by
    intro m hm
    obtain ⟨hmne, hm⟩ := hnd.mem_erase_iff.mp hm
    rw [hc m hm hmne]
    split
    · exact (h.nodup m hm).erase n
    · exact h.nodup m hm

end Backlinks
