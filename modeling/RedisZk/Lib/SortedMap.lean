/-
# Finite maps sorted by their keys

A finite map as the list of its bindings in increasing order of the keys, the
order its iterators visit them in. What a lookup finds after an insertion or a
removal is what it finds in the mathematical map (`find_insert`, `find_erase`), an
insertion behind the last key extends the list (`entries_insert_last`), and around a binding
the map changes there only (`entries_insert_split`, `entries_erase_split`).

Key definitions: `SortedMap`, `find`, `insert`, `erase`, `next?`, `prev?`, `seekGe?`, `seekLe?`.
Key theorems: `find_insert`, `find_erase`, `find_eq_some_iff`, `entries_insert_last`, `entries_insert_split`,
`entries_erase_split`, `next?_split`, `prev?_split`, `seekLe?_split`.
-/
import Mathlib

/-- Bindings in increasing order of the keys. -/
structure SortedMap (κ ν : Type*) [LinearOrder κ] where
  entries : List (κ × ν)
  sorted : entries.Pairwise fun a b => a.1 < b.1

namespace SortedMap

variable {κ ν : Type*} [LinearOrder κ]

@[ext]
theorem ext {m m' : SortedMap κ ν} (h : m.entries = m'.entries) : m = m' := by
  cases m
  cases m'
  cases h
  rfl

/-! ### Lookup -/

def empty : SortedMap κ ν := ⟨[], .nil⟩

def find (m : SortedMap κ ν) (k : κ) : Option ν := (m.entries.find? fun e => decide (e.1 = k)).map Prod.snd

/-- The first binding. -/
def first? (m : SortedMap κ ν) : Option (κ × ν) := m.entries.head?

/-- The last binding. -/
def last? (m : SortedMap κ ν) : Option (κ × ν) := m.entries.getLast?

/-- The first binding at `k` or after. -/
def seekGe? (m : SortedMap κ ν) (k : κ) : Option (κ × ν) := m.entries.find? fun e => decide (k ≤ e.1)

/-- The last binding at `k` or before. -/
def seekLe? (m : SortedMap κ ν) (k : κ) : Option (κ × ν) := m.entries.reverse.find? fun e => decide (e.1 ≤ k)

/-- The first binding after `k`. -/
def next? (m : SortedMap κ ν) (k : κ) : Option (κ × ν) := m.entries.find? fun e => decide (k < e.1)

/-- The last binding before `k`. -/
def prev? (m : SortedMap κ ν) (k : κ) : Option (κ × ν) := m.entries.reverse.find? fun e => decide (e.1 < k)

/-- Two bindings of one key are the same. -/
theorem eq_of_key {m : SortedMap κ ν} {a b : κ × ν} (ha : a ∈ m.entries) (hb : b ∈ m.entries) (hk : a.1 = b.1) :
    a = b := by
  obtain ⟨p, q, hpq⟩ := List.append_of_mem ha
  have hs := m.sorted
  rw [hpq] at hb hs
  obtain ⟨hp, hq, hbetween⟩ := List.pairwise_append.mp hs
  have hafter := (List.pairwise_cons.mp hq).1
  rcases List.mem_append.mp hb with h | h
  · exact absurd hk (hbetween b h a (List.mem_cons_self)).ne'
  · rcases List.mem_cons.mp h with h | h
    · exact h.symm
    · exact absurd hk (hafter b h).ne

theorem find_eq_some_iff {m : SortedMap κ ν} {v : ν} : m.find k = some v ↔ (k, v) ∈ m.entries := by
  constructor
  · intro h
    obtain ⟨e, he, hv⟩ := Option.map_eq_some_iff.mp h
    have hk : e.1 = k := by simpa using List.find?_some he
    have hmem := List.mem_of_find?_eq_some he
    rw [← hk, ← hv]
    exact hmem
  · intro h
    have hsome : (m.entries.find? fun e => decide (e.1 = k)).isSome := by
      rw [List.find?_isSome]
      exact ⟨_, h, by simp⟩
    obtain ⟨e, he⟩ := Option.isSome_iff_exists.mp hsome
    have hk : e.1 = k := by simpa using List.find?_some he
    have heq := eq_of_key (List.mem_of_find?_eq_some he) h hk
    rw [find, he, heq]
    rfl

theorem find_eq_none_iff {m : SortedMap κ ν} : m.find k = none ↔ ∀ e ∈ m.entries, e.1 ≠ k := by
  simp only [find, Option.map_eq_none_iff, List.find?_eq_none, decide_eq_true_eq, ne_eq]

/-! ### Insertion -/

def insertList (k : κ) (v : ν) : List (κ × ν) → List (κ × ν)
  | [] => [(k, v)]
  | e :: l => if k < e.1 then (k, v) :: e :: l else if k = e.1 then (k, v) :: l else e :: insertList k v l

theorem mem_insertList {v : ν} : ∀ {l : List (κ × ν)} {e : κ × ν}, l.Pairwise (fun a b => a.1 < b.1) →
    (e ∈ insertList k v l ↔ e = (k, v) ∨ (e ∈ l ∧ e.1 ≠ k))
  | [], e, _ => by simp [insertList]
  | a :: l, e, hs => by
    obtain ⟨ha, hl⟩ := List.pairwise_cons.mp hs
    have ih := mem_insertList (k := k) (v := v) (e := e) hl
    unfold insertList
    split
    · next hlt =>
      have hne : ∀ b ∈ a :: l, b.1 ≠ k := by
        intro b hb
        rcases List.mem_cons.mp hb with rfl | hb
        · exact hlt.ne'
        · exact (hlt.trans (ha b hb)).ne'
      rw [List.mem_cons]
      constructor
      · rintro (h | h)
        · exact .inl h
        · exact .inr ⟨h, hne e h⟩
      · rintro (h | ⟨h, -⟩)
        · exact .inl h
        · exact .inr h
    · split
      · next heq =>
        have hne : ∀ b ∈ l, b.1 ≠ k := fun b hb => heq ▸ (ha b hb).ne'
        rw [List.mem_cons, List.mem_cons]
        constructor
        · rintro (h | h)
          · exact .inl h
          · exact .inr ⟨.inr h, hne e h⟩
        · rintro (h | ⟨h | h, hk⟩)
          · exact .inl h
          · exact absurd (h ▸ heq.symm) hk
          · exact .inr h
      · next hne =>
        rw [List.mem_cons, ih, List.mem_cons]
        constructor
        · rintro (h | h | ⟨h, hk⟩)
          · exact .inr ⟨.inl h, h ▸ Ne.symm hne⟩
          · exact .inl h
          · exact .inr ⟨.inr h, hk⟩
        · rintro (h | ⟨h | h, hk⟩)
          · exact .inr (.inl h)
          · exact .inl h
          · exact .inr (.inr ⟨h, hk⟩)

theorem insertList_sorted {v : ν} : ∀ {l : List (κ × ν)}, l.Pairwise (fun a b => a.1 < b.1) →
    (insertList k v l).Pairwise fun a b => a.1 < b.1
  | [], _ => by simp [insertList]
  | a :: l, hs => by
    obtain ⟨ha, hl⟩ := List.pairwise_cons.mp hs
    unfold insertList
    split
    · next hlt =>
      refine List.pairwise_cons.mpr ⟨fun b hb => ?_, hs⟩
      rcases List.mem_cons.mp hb with rfl | hb
      · exact hlt
      · exact hlt.trans (ha b hb)
    · split
      · next heq =>
        refine List.pairwise_cons.mpr ⟨fun b hb => ?_, hl⟩
        rw [heq]
        exact ha b hb
      · next hnlt hne =>
        refine List.pairwise_cons.mpr ⟨fun b hb => ?_, insertList_sorted hl⟩
        rcases (mem_insertList hl).mp hb with rfl | ⟨hb, -⟩
        · exact lt_of_le_of_ne (not_lt.mp hnlt) (Ne.symm hne)
        · exact ha b hb

/-- Adds a binding, or changes the one of the key. -/
def insert (m : SortedMap κ ν) (k : κ) (v : ν) : SortedMap κ ν := ⟨insertList k v m.entries, insertList_sorted m.sorted⟩

theorem mem_insert {m : SortedMap κ ν} {v : ν} {e : κ × ν} :
    e ∈ (m.insert k v).entries ↔ e = (k, v) ∨ (e ∈ m.entries ∧ e.1 ≠ k) :=
  mem_insertList m.sorted

theorem find_insert (m : SortedMap κ ν) (k : κ) (v : ν) (k' : κ) :
    (m.insert k v).find k' = if k' = k then some v else m.find k' := by
  ext w
  rw [find_eq_some_iff, mem_insert]
  split
  · next h => simp [h, eq_comm]
  · next h => simp [h, find_eq_some_iff]

theorem find_insert_eq_update [DecidableEq κ] (m : SortedMap κ ν) (k : κ) (v : ν) :
    (m.insert k v).find = Function.update m.find k (some v) := by
  funext k'
  by_cases h : k' = k
  · simp [find_insert, h]
  · simp [find_insert, h]

@[simp]
theorem find_insert_self (m : SortedMap κ ν) (k : κ) (v : ν) : (m.insert k v).find k = some v := by
  rw [find_insert, if_pos rfl]

theorem find_insert_of_ne (m : SortedMap κ ν) {k k' : κ} (v : ν) (h : k' ≠ k) : (m.insert k v).find k' = m.find k' := by
  rw [find_insert, if_neg h]

/-! ### Removal -/

def erase (m : SortedMap κ ν) (k : κ) : SortedMap κ ν :=
  ⟨m.entries.filter fun e => decide (e.1 ≠ k), m.sorted.sublist List.filter_sublist⟩

theorem mem_erase {m : SortedMap κ ν} {e : κ × ν} : e ∈ (m.erase k).entries ↔ e ∈ m.entries ∧ e.1 ≠ k := by
  simp [erase]

theorem find_erase (m : SortedMap κ ν) (k k' : κ) : (m.erase k).find k' = if k' = k then none else m.find k' := by
  ext w
  rw [find_eq_some_iff, mem_erase]
  split
  · next h => simp [h]
  · next h => simp [h, find_eq_some_iff]

theorem find_erase_eq_update [DecidableEq κ] (m : SortedMap κ ν) (k : κ) :
    (m.erase k).find = Function.update m.find k none := by
  funext k'
  by_cases h : k' = k
  · simp [find_erase, h]
  · simp [find_erase, h]

/-! ### Around a binding -/

section Split

variable {m : SortedMap κ ν} {a b : List (κ × ν)} {k : κ} {v w : ν}

/-- What is before a binding has smaller keys, what is behind it larger ones. -/
theorem split_lt (h : m.entries = a ++ (k, v) :: b) : (∀ e ∈ a, e.1 < k) ∧ ∀ e ∈ b, k < e.1 := by
  have hs := m.sorted
  rw [h] at hs
  obtain ⟨-, hcons, hab⟩ := List.pairwise_append.mp hs
  exact ⟨fun e he => hab e he (k, v) List.mem_cons_self, (List.pairwise_cons.mp hcons).1⟩

theorem insertList_last : ∀ {l : List (κ × ν)}, (∀ e ∈ l, e.1 < k) → insertList k v l = l ++ [(k, v)]
  | [], _ => rfl
  | e :: l, h => by
    have he := h e List.mem_cons_self
    rw [insertList, if_neg he.not_gt, if_neg he.ne', insertList_last fun x hx => h x (List.mem_cons_of_mem _ hx)]
    rfl

theorem entries_insert_last (h : ∀ e ∈ m.entries, e.1 < k) : (m.insert k v).entries = m.entries ++ [(k, v)] :=
  insertList_last h

theorem insertList_split : ∀ {a : List (κ × ν)}, (∀ e ∈ a, e.1 < k) →
    insertList k v (a ++ (k, w) :: b) = a ++ (k, v) :: b
  | [], _ => by rw [List.nil_append, insertList, if_neg (lt_irrefl k), if_pos rfl, List.nil_append]
  | e :: a, h => by
    have he := h e List.mem_cons_self
    rw [List.cons_append, insertList, if_neg he.not_gt, if_neg he.ne',
      insertList_split fun x hx => h x (List.mem_cons_of_mem _ hx), List.cons_append]

theorem entries_insert_split (h : m.entries = a ++ (k, w) :: b) : (m.insert k v).entries = a ++ (k, v) :: b := by
  show insertList k v m.entries = _
  rw [h]
  exact insertList_split (split_lt h).1

/-- What is there already is not changed by its insertion. -/
theorem insert_of_find (h : m.find k = some v) : m.insert k v = m := by
  obtain ⟨a, b, hab⟩ := List.append_of_mem (find_eq_some_iff.mp h)
  exact ext ((entries_insert_split hab).trans hab.symm)

theorem entries_erase_split (h : m.entries = a ++ (k, v) :: b) : (m.erase k).entries = a ++ b := by
  obtain ⟨ha, hb⟩ := split_lt h
  have hfa : a.filter (fun e => decide (e.1 ≠ k)) = a :=
    List.filter_eq_self.mpr fun e he => decide_eq_true (ha e he).ne
  have hfb : b.filter (fun e => decide (e.1 ≠ k)) = b :=
    List.filter_eq_self.mpr fun e he => decide_eq_true (hb e he).ne'
  show m.entries.filter _ = _
  rw [h, List.filter_append, List.filter_cons_of_neg (by simp), hfa, hfb]

theorem find?_behind {p : κ × ν → Bool} (h : m.entries = a ++ (k, v) :: b) (ha : ∀ e ∈ a, p e = false)
    (hk : p (k, v) = false) (hb : ∀ e ∈ b, p e = true) : m.entries.find? p = b.head? := by
  rw [h, List.find?_append, List.find?_eq_none.mpr fun e he => by simp [ha e he], Option.none_or,
    List.find?_cons_of_neg (by simp [hk])]
  cases b with
  | nil => rfl
  | cons e b => rw [List.find?_cons_of_pos (hb e List.mem_cons_self), List.head?_cons]

theorem next?_split (h : m.entries = a ++ (k, v) :: b) : m.next? k = b.head? := by
  obtain ⟨ha, hb⟩ := split_lt h
  exact find?_behind h (fun e he => decide_eq_false (ha e he).not_gt) (decide_eq_false (lt_irrefl k))
    fun e he => decide_eq_true (hb e he)

theorem prev?_split (h : m.entries = a ++ (k, v) :: b) : m.prev? k = a.getLast? := by
  obtain ⟨ha, hb⟩ := split_lt h
  rw [prev?, h, List.reverse_append, List.reverse_cons, List.append_assoc, List.find?_append,
    List.find?_eq_none.mpr fun e he => by simpa using (hb e (List.mem_reverse.mp he)).le, Option.none_or,
    List.singleton_append, List.find?_cons_of_neg (by simp), List.getLast?_eq_head?_reverse]
  cases hr : a.reverse with
  | nil => rfl
  | cons e l =>
    have he : e ∈ a := List.mem_reverse.mp (hr ▸ List.mem_cons_self)
    rw [List.find?_cons_of_pos (by simpa using ha e he), List.head?_cons]

/-- At `k` or before stands the last binding of a part of the list, whose keys are the ones up to `k`. -/
theorem seekLe?_split (m : SortedMap κ ν) (k : κ) :
    ∃ a b, m.entries = a ++ b ∧ m.seekLe? k = a.getLast? ∧ (∀ e ∈ a, e.1 ≤ k) ∧ ∀ e ∈ b, k < e.1 := by
  obtain ⟨entries, hs⟩ := m
  show ∃ a b, entries = a ++ b ∧ entries.reverse.find? _ = a.getLast? ∧ _
  induction entries using List.reverseRecOn with
  | nil => exact ⟨[], [], rfl, rfl, by simp, by simp⟩
  | append_singleton l e ih =>
    obtain ⟨hl, -, hle⟩ := List.pairwise_append.mp hs
    have hle : ∀ x ∈ l, x.1 < e.1 := fun x hx => hle x hx e List.mem_cons_self
    rw [List.reverse_append, List.reverse_singleton, List.singleton_append]
    by_cases he : e.1 ≤ k
    · refine ⟨l ++ [e], [], by simp, ?_, ?_, by simp⟩
      · rw [List.find?_cons_of_pos (by simpa using he), List.getLast?_concat]
      · intro x hx
        rcases List.mem_append.mp hx with hx | hx
        · exact (hle x hx).le.trans he
        · rwa [List.mem_singleton.mp hx]
    · obtain ⟨a, b, hab, hfind, ha, hb⟩ := ih hl
      refine ⟨a, b ++ [e], by rw [hab, List.append_assoc], ?_, ha, ?_⟩
      · rw [List.find?_cons_of_neg (by simpa using he), hfind]
      · intro x hx
        rcases List.mem_append.mp hx with hx | hx
        · exact hb x hx
        · rw [List.mem_singleton.mp hx]
          exact not_le.mp he

end Split
end SortedMap
