/-
# Counted objects under keys

Objects at addresses, each with a count of the references to it, and keys that refer to them.
A count may be more than the number of keys, never less, so an object whose count is one is
the value of one key at most. Objects with one fixed count are shared for ever.

Key definitions: `Store`, `Store.release`, `Store.Sound`, `Store.Ready`, `Store.value`.
Key theorems: `Store.sound_point`, `Store.sound_release`, `Store.value_release`, `Store.sole`.
-/
import Mathlib

/-- An object, and its count. -/
structure Counted (ν : Type*) where
  val : ν
  refcount : ℕ

structure Store (α κ ν : Type*) where
  heap : α → Option (Counted ν)
  dict : κ → Option α

namespace Store

variable {α κ ν : Type*} {fixed : ℕ} {s : Store α κ ν} {k k' : κ} {a b : α} {o : Counted ν}

/-- What a key holds. -/
def value (s : Store α κ ν) (k : κ) : Option ν := (s.dict k).bind fun a => (s.heap a).map Counted.val

/-- The keys refer to objects, and none of them without being counted. -/
structure Sound (fixed : ℕ) (s : Store α κ ν) : Prop where
  found : ∀ {k a}, s.dict k = some a → ∃ o, s.heap a = some o
  counted : ∀ {a o}, s.heap a = some o → o.refcount ≠ fixed → ∀ ks : Finset κ, (∀ k ∈ ks, s.dict k = some a) → ks.card ≤ o.refcount

/-- The object may be given to a key: it is shared, or its count has a reference that is no key's. -/
def Ready (fixed : ℕ) (s : Store α κ ν) (a : α) : Prop :=
  ∃ o, s.heap a = some o ∧ (o.refcount = fixed ∨ 1 ≤ o.refcount ∧ ∀ k, s.dict k ≠ some a)

/-- One reference to the object is no key's. -/
def Spare (fixed : ℕ) (s : Store α κ ν) (a : α) : Prop :=
  ∀ o, s.heap a = some o → o.refcount = fixed ∨ ∀ ks : Finset κ, (∀ k ∈ ks, s.dict k = some a) → ks.card + 1 ≤ o.refcount

theorem value_of (hk : s.dict k = some a) (ha : s.heap a = some o) : s.value k = some o.val := by
  rw [value, hk, Option.bind_some, ha, Option.map_some]

theorem of_value {v : ν} (hk : s.dict k = some a) (hv : s.value k = some v) : ∃ o, s.heap a = some o ∧ o.val = v := by
  rw [value, hk, Option.bind_some] at hv
  exact Option.map_eq_some_iff.mp hv

theorem value_none (hk : s.dict k = none) : s.value k = none := by rw [value, hk, Option.bind_none]

/-- **An object with a count of one is the value of one key at most.** -/
theorem sole (h : s.Sound fixed) (hfixed : fixed ≠ 1) (ha : s.heap a = some o) (hone : o.refcount = 1) (hk : s.dict k = some a)
    (hk' : s.dict k' = some a) : k' = k := by
  classical
  by_contra hne
  have hle := h.counted ha (by rw [hone]; exact hfixed.symm) {k', k} (by
    intro x hx
    rcases Finset.mem_insert.mp hx with rfl | hx
    · exact hk'
    · rw [Finset.mem_singleton.mp hx]
      exact hk)
  rw [Finset.card_pair hne, hone] at hle
  omega

/-- An object that is shared is spare, whatever refers to it. -/
theorem spare_of_fixed (ha : s.heap a = some o) (hfixed : o.refcount = fixed) : s.Spare fixed a := by
  intro o' ha'
  obtain rfl : o = o' := Option.some.inj (ha.symm.trans ha')
  exact Or.inl hfixed

/-- No key refers to a free address. -/
theorem dict_ne_of_free (h : s.Sound fixed) (hfree : s.heap a = none) (k : κ) : s.dict k ≠ some a := by
  intro hk
  obtain ⟨o, ha⟩ := h.found hk
  rw [hfree] at ha
  cases ha

/-! ### Another address for a key -/

section Keys

variable [DecidableEq κ]

/-- The key refers to the object, or to none. -/
def point (s : Store α κ ν) (k : κ) (b : Option α) : Store α κ ν := { s with dict := Function.update s.dict k b }

@[simp] theorem heap_point (s : Store α κ ν) (k : κ) (b : Option α) : (s.point k b).heap = s.heap := rfl

@[simp] theorem dict_point_self (s : Store α κ ν) (k : κ) (b : Option α) : (s.point k b).dict k = b := Function.update_self _ _ _

theorem dict_point_ne (s : Store α κ ν) (b : Option α) (h : k' ≠ k) : (s.point k b).dict k' = s.dict k' :=
  Function.update_of_ne h _ _

theorem value_point_ne (s : Store α κ ν) (b : Option α) (h : k' ≠ k) : (s.point k b).value k' = s.value k' := by
  rw [value, value, dict_point_ne s b h, heap_point]

/-- The keys that are left at an address which the key does not get were there before. -/
theorem dict_of_point {b : Option α} (hb : b ≠ some a) (h : (s.point k b).dict k' = some a) : k' ≠ k ∧ s.dict k' = some a := by
  by_cases hk : k' = k
  · subst hk
    rw [dict_point_self] at h
    exact absurd h hb
  · rw [dict_point_ne s b hk] at h
    exact ⟨hk, h⟩

theorem sound_point (h : s.Sound fixed) {b : Option α} (hb : ∀ a, b = some a → s.Ready fixed a) : (s.point k b).Sound fixed := by
  constructor
  · intro k' a hk'
    by_cases hk : k' = k
    · subst hk
      rw [dict_point_self] at hk'
      obtain ⟨o, ha, -⟩ := hb a hk'
      exact ⟨o, ha⟩
    · rw [dict_point_ne s b hk] at hk'
      exact h.found hk'
  · intro a o ha hne ks hks
    by_cases hba : b = some a
    · -- Only the key itself can be at an address that is new to the keys.
      obtain ⟨o', ha', hready⟩ := hb a hba
      obtain rfl : o' = o := Option.some.inj (ha'.symm.trans ha)
      rcases hready with hfixed | ⟨hpos, hnone⟩
      · exact absurd hfixed hne
      · have hsub : ks ⊆ {k} := by
          intro x hx
          by_contra hxk
          have hxk' : x ≠ k := fun heq => hxk (Finset.mem_singleton.mpr heq)
          have hdict := hks x hx
          rw [dict_point_ne s b hxk'] at hdict
          exact hnone x hdict
        have hcard := Finset.card_le_card hsub
        rw [Finset.card_singleton] at hcard
        omega
    · exact h.counted ha hne ks fun x hx => (dict_of_point hba (hks x hx)).2

/-- The reference that a key gave up is spare. -/
theorem spare_point (h : s.Sound fixed) (hk : s.dict k = some a) {b : Option α} (hb : b ≠ some a) : (s.point k b).Spare fixed a := by
  intro o ha
  refine or_iff_not_imp_left.mpr fun hne ks hks => ?_
  have hnotin : k ∉ ks := fun hin => (dict_of_point hb (hks k hin)).1 rfl
  have hle := h.counted ha hne (insert k ks) (by
    intro x hx
    rcases Finset.mem_insert.mp hx with rfl | hx
    · exact hk
    · exact (dict_of_point hb (hks x hx)).2)
  rw [Finset.card_insert_of_notMem hnotin] at hle
  exact hle

end Keys

/-! ### The objects -/

section Objects

variable [DecidableEq α]

/-- One reference less; the last one frees the object. -/
def release (fixed : ℕ) (s : Store α κ ν) (a : α) : Store α κ ν :=
  match s.heap a with
  | none => s
  | some o =>
    if o.refcount = 1 then { s with heap := Function.update s.heap a none }
    else if o.refcount = fixed then s
    else { s with heap := Function.update s.heap a (some { o with refcount := o.refcount - 1 }) }

/-- A new object with one reference. -/
def alloc (s : Store α κ ν) (a : α) (v : ν) : Store α κ ν := { s with heap := Function.update s.heap a (some ⟨v, 1⟩) }

/-- The object gets another value in place. -/
def assign (s : Store α κ ν) (a : α) (v : ν) : Store α κ ν :=
  { s with heap := Function.update s.heap a ((s.heap a).map fun o => { o with val := v }) }

@[simp] theorem dict_release (s : Store α κ ν) (a : α) : (s.release fixed a).dict = s.dict := by
  unfold release
  split
  · rfl
  · split
    · rfl
    · split
      · rfl
      · rfl

theorem heap_release_ne (s : Store α κ ν) (h : b ≠ a) : (s.release fixed a).heap b = s.heap b := by
  unfold release
  split
  · rfl
  · split
    · exact Function.update_of_ne h _ _
    · split
      · rfl
      · exact Function.update_of_ne h _ _

/-- What is left after a release, and with which value. -/
theorem heap_release (s : Store α κ ν) (h : (s.release fixed a).heap b = some o) : ∃ o', s.heap b = some o' ∧ o'.val = o.val := by
  by_cases hba : b = a
  · subst hba
    unfold release at h
    split at h
    · exact ⟨o, h, rfl⟩
    · rename_i o' ho'
      split at h
      · cases (Function.update_self _ _ _).symm.trans h
      · split at h
        · exact ⟨o, h, rfl⟩
        · cases (Function.update_self _ _ _).symm.trans h
          exact ⟨o', ho', rfl⟩
  · rw [heap_release_ne s hba] at h
    exact ⟨o, h, rfl⟩

/-- Shared objects stay. -/
theorem heap_release_fixed (hfixed : fixed ≠ 1) (hb : s.heap b = some o) (hcount : o.refcount = fixed) :
    (s.release fixed a).heap b = some o := by
  by_cases hba : b = a
  · subst hba
    unfold release
    rw [hb]
    dsimp only
    rw [if_neg (by rw [hcount]; exact hfixed), if_pos hcount]
    exact hb
  · rw [heap_release_ne s hba]
    exact hb

/-- **A release of a spare reference takes no object from a key.** -/
theorem found_release (h : s.Sound fixed) (hfixed : fixed ≠ 1) (hspare : s.Spare fixed a) (hk : s.dict k = some b) :
    ∃ o o', s.heap b = some o ∧ (s.release fixed a).heap b = some o' ∧ o'.val = o.val := by
  obtain ⟨o, hb⟩ := h.found hk
  by_cases hba : b = a
  · subst hba
    rcases hspare o hb with hcount | hspare
    · exact ⟨o, o, hb, heap_release_fixed hfixed hb hcount, rfl⟩
    · have hle := hspare {k} (by
        intro x hx
        rw [Finset.mem_singleton.mp hx]
        exact hk)
      rw [Finset.card_singleton] at hle
      unfold release
      rw [hb]
      dsimp only
      rw [if_neg (by omega)]
      split
      · exact ⟨o, o, rfl, hb, rfl⟩
      · exact ⟨o, _, rfl, Function.update_self _ _ _, rfl⟩
  · exact ⟨o, o, hb, by rw [heap_release_ne s hba]; exact hb, rfl⟩

theorem sound_release (h : s.Sound fixed) (hfixed : fixed ≠ 1) (hspare : s.Spare fixed a) : (s.release fixed a).Sound fixed := by
  constructor
  · intro k b hk
    rw [dict_release] at hk
    obtain ⟨o, o', -, hb, -⟩ := found_release h hfixed hspare hk
    exact ⟨o', hb⟩
  · intro b o hb hne ks hks
    rw [dict_release] at hks
    by_cases hba : b = a
    · subst hba
      unfold release at hb
      split at hb
      · exact h.counted hb hne ks hks
      · rename_i o' ho'
        split at hb
        · cases (Function.update_self _ _ _).symm.trans hb
        · rename_i hone
          split at hb
          · exact h.counted hb hne ks hks
          · rename_i hcount
            cases (Function.update_self _ _ _).symm.trans hb
            have hle := (hspare o' ho').resolve_left hcount ks hks
            show ks.card ≤ o'.refcount - 1
            omega
    · rw [heap_release_ne s hba] at hb
      exact h.counted hb hne ks hks

theorem value_release (h : s.Sound fixed) (hfixed : fixed ≠ 1) (hspare : s.Spare fixed a) : (s.release fixed a).value k = s.value k := by
  cases hk : s.dict k with
  | none =>
    rw [value_none hk]
    exact value_none (by rw [dict_release]; exact hk)
  | some b =>
    obtain ⟨o, o', hb, hb', hval⟩ := found_release h hfixed hspare hk
    rw [value_of hk hb, value_of (by rw [dict_release]; exact hk) hb', hval]

@[simp] theorem heap_alloc_self (s : Store α κ ν) (a : α) (v : ν) : (s.alloc a v).heap a = some ⟨v, 1⟩ := Function.update_self _ _ _

theorem heap_alloc_ne (s : Store α κ ν) (v : ν) (h : b ≠ a) : (s.alloc a v).heap b = s.heap b := Function.update_of_ne h _ _

theorem sound_alloc (h : s.Sound fixed) (hfree : s.heap a = none) (v : ν) : (s.alloc a v).Sound fixed := by
  have hne : ∀ {k b}, s.dict k = some b → b ≠ a := by
    rintro k b hk rfl
    exact dict_ne_of_free h hfree k hk
  constructor
  · intro k b hk
    obtain ⟨o, hb⟩ := h.found hk
    exact ⟨o, by rw [heap_alloc_ne s v (hne hk)]; exact hb⟩
  · intro b o hb hcount ks hks
    by_cases hba : b = a
    · have hempty : ks = ∅ := Finset.eq_empty_of_forall_notMem fun k hk => hne (hks k hk) hba
      rw [hempty, Finset.card_empty]
      exact Nat.zero_le _
    · rw [heap_alloc_ne s v hba] at hb
      exact h.counted hb hcount ks hks

theorem value_alloc (h : s.Sound fixed) (hfree : s.heap a = none) (v : ν) (k : κ) : (s.alloc a v).value k = s.value k := by
  cases hk : s.dict k with
  | none => rw [value_none hk, value_none (s := s.alloc a v) hk]
  | some b =>
    obtain ⟨o, hb⟩ := h.found hk
    have hba : b ≠ a := by
      rintro rfl
      exact dict_ne_of_free h hfree k hk
    rw [value_of hk hb]
    exact value_of hk (by rw [heap_alloc_ne s v hba]; exact hb)

theorem ready_alloc (h : s.Sound fixed) (hfree : s.heap a = none) (v : ν) : (s.alloc a v).Ready fixed a :=
  ⟨_, heap_alloc_self s a v, Or.inr ⟨le_refl 1, fun k => (dict_ne_of_free h hfree k : s.dict k ≠ some a)⟩⟩

@[simp] theorem dict_assign (s : Store α κ ν) (a : α) (v : ν) : (s.assign a v).dict = s.dict := rfl

theorem heap_assign_self (ha : s.heap a = some o) (v : ν) : (s.assign a v).heap a = some { o with val := v } := by
  rw [assign]
  dsimp only
  rw [Function.update_self, ha, Option.map_some]

theorem heap_assign_ne (s : Store α κ ν) (v : ν) (h : b ≠ a) : (s.assign a v).heap b = s.heap b := Function.update_of_ne h _ _

theorem sound_assign (h : s.Sound fixed) (ha : s.heap a = some o) (v : ν) : (s.assign a v).Sound fixed := by
  constructor
  · intro k b hk
    by_cases hba : b = a
    · subst hba
      exact ⟨_, heap_assign_self ha v⟩
    · rw [heap_assign_ne s v hba]
      exact h.found hk
  · intro b o' hb hcount ks hks
    by_cases hba : b = a
    · subst hba
      rw [heap_assign_self ha v] at hb
      cases hb
      exact h.counted ha hcount ks hks
    · rw [heap_assign_ne s v hba] at hb
      exact h.counted hb hcount ks hks

theorem value_assign_self (hk : s.dict k = some a) (ha : s.heap a = some o) (v : ν) : (s.assign a v).value k = some v :=
  value_of (o := { o with val := v }) hk (heap_assign_self ha v)

/-- Only the keys of the object see its new value. -/
theorem value_assign_ne (v : ν) (hk : s.dict k ≠ some a) : (s.assign a v).value k = s.value k := by
  rw [value, value, dict_assign]
  cases hd : s.dict k with
  | none => rfl
  | some b =>
    have hba : b ≠ a := by
      rintro rfl
      exact hk hd
    rw [Option.bind_some, Option.bind_some, heap_assign_ne s v hba]

end Objects

end Store
