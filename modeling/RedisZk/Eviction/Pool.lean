/-
# The eviction pool

The pool of candidates of evict.c: 16 entries in increasing order of their scores, the empty ones
at the end. A name is kept in the buffer of its entry, or in memory of its own if it is
longer than 255 bytes, and the buffers move with the entries. An offer keeps the strings of the
entries apart and puts the name at its place in the list of candidates.

The score of a sample is a parameter, and so are the samples and which keys still exist.

Key definitions: `evictionPoolInsert`, `evictionPoolPopulate`, `scanPool`, `Inv`, `view`.
Key theorems: `store_spec`, `insert_spec`.
-/
import RedisZk.Lib.Ranked
import RedisZk.Networking.Reply

namespace RedisZk.Eviction

open Streams (Sds)

/-! ### The functions -/

def EVPOOL_SIZE : ℕ := 16

def EVPOOL_CACHED_SDS_SIZE : ℕ := 255

/-- `evictionPoolEntry`, with the addresses of its strings. -/
structure Entry where
  idle : ℕ
  key : Option ℕ
  cached : ℕ
  dbid : ℤ

/-- The pool, the strings in memory, and where the next one is put. -/
structure State where
  pool : List Entry
  heap : ℕ → Option Sds
  next : ℕ

def evictionPoolAlloc : State where
  pool := (List.range EVPOOL_SIZE).map fun j => ⟨0, none, j, 0⟩
  heap := fun a => if a < EVPOOL_SIZE then some [] else none
  next := EVPOOL_SIZE

/-- `n` entries from `src` are copied to `dst`. -/
def memmove (pool : List Entry) (dst src n : ℕ) : List Entry := pool.take dst ++ ((pool.drop src).take n ++ pool.drop (dst + n))

/-- NULL may be freed; none if the string was freed before. -/
def sdsfree (heap : ℕ → Option Sds) : Option ℕ → Option (ℕ → Option Sds)
  | none => some heap
  | some a => if (heap a).isNone then none else some (Function.update heap a none)

/-- The key of an entry is freed unless it is in the buffer. -/
def freeKey (heap : ℕ → Option Sds) (e : Entry) : Option (ℕ → Option Sds) :=
  if e.key ≠ some e.cached then sdsfree heap e.key else some heap

/-- The first empty entry, or the first with a score that is not smaller. -/
def findBucket (idle : ℕ) : List Entry → ℕ
  | [] => 0
  | e :: pool => if e.key.isSome ∧ e.idle < idle then findBucket idle pool + 1 else 0

/-- The end of an insertion: the name is put in the buffer if it fits. None for a write to freed memory, or behind
the pool. -/
def store (s : State) (k : ℕ) (key : Sds) (idle : ℕ) (dbid : ℤ) : Option State :=
  match s.pool[k]? with
  | none => none
  | some e =>
    if key.length > EVPOOL_CACHED_SDS_SIZE then
      some ⟨s.pool.set k ⟨idle, some s.next, e.cached, dbid⟩, Function.update s.heap s.next (some key), s.next + 1⟩
    else if (s.heap e.cached).isNone then none
    else some ⟨s.pool.set k ⟨idle, some e.cached, e.cached, dbid⟩, Function.update s.heap e.cached (some key), s.next⟩

def setCached (pool : List Entry) (k cached : ℕ) : List Entry := pool.modify k fun e => { e with cached := cached }

/-- One round of the loop of `evictionPoolPopulate`. -/
def evictionPoolInsert (s : State) (key : Sds) (idle : ℕ) (dbid : ℤ) : Option State :=
  let k := findBucket idle s.pool
  match s.pool[EVPOOL_SIZE - 1]?, s.pool[0]? with
  | some last, some first =>
    if k = 0 ∧ last.key.isSome then some s
    else if k < EVPOOL_SIZE ∧ (s.pool[k]?.bind Entry.key).isNone then store s k key idle dbid
    else if last.key.isNone then
      store { s with pool := setCached (memmove s.pool (k + 1) k (EVPOOL_SIZE - k - 1)) k last.cached } k key idle dbid
    else
      (freeKey s.heap first).bind fun heap =>
        store { s with pool := setCached (memmove s.pool 0 1 (k - 1)) (k - 1) first.cached, heap := heap } (k - 1) key idle dbid
  | _, _ => none

/-- The samples of a database with their scores. -/
def evictionPoolPopulate (s : State) (dbid : ℤ) : List (Sds × ℕ) → Option State
  | [] => some s
  | (key, idle) :: samples => (evictionPoolInsert s key idle dbid).bind fun s => evictionPoolPopulate s dbid samples

/-- A candidate. -/
structure Item where
  idle : ℕ
  name : Sds
  dbid : ℤ

/-- The loop of `freeMemoryIfNeeded` that goes backward from entry `k`: the first key that exists is picked. None for
a key that was freed. -/
def scanPool (there : ℤ → Sds → Bool) : ℕ → State → Option (State × Option Item)
  | 0, s => some (s, none)
  | k + 1, s =>
    match s.pool[k]? with
    | none => none
    | some e =>
      match e.key with
      | none => scanPool there k s
      | some a =>
        match s.heap a with
        | none => none
        | some name =>
          (freeKey s.heap e).bind fun heap =>
            let s := { s with pool := s.pool.set k { e with key := none, idle := 0 }, heap := heap }
            if there e.dbid name then some (s, some ⟨e.idle, name, e.dbid⟩) else scanPool there k s

/-! ### What the pool holds -/

def item (heap : ℕ → Option Sds) (e : Entry) : Option Item := e.key.bind fun a => (heap a).map fun name => ⟨e.idle, name, e.dbid⟩

/-- The candidates in order. -/
def view (s : State) : List Item := s.pool.filterMap (item s.heap)

/-- The strings of an entry: its buffer, and its own copy of a key. -/
def owned (e : Entry) : List ℕ :=
  match e.key with
  | none => [e.cached]
  | some a => if a = e.cached then [e.cached] else [e.cached, a]

/-- The strings of the entries and one more are in memory, each its own. -/
structure Apart (heap : ℕ → Option Sds) (next : ℕ) (strings : List ℕ) : Prop where
  nodup : strings.Nodup
  live : ∀ a ∈ strings, (heap a).isSome = true
  fresh : ∀ a, next ≤ a → heap a = none

structure Inv (s : State) : Prop where
  length : s.pool.length = EVPOOL_SIZE
  split : ∃ full empty, s.pool = full ++ empty ∧ (∀ e ∈ full, e.key.isSome = true) ∧ ∀ e ∈ empty, e.key = none
  apart : Apart s.heap s.next (s.pool.flatMap owned)

/-! ### Strings apart -/

variable {n : ℕ} {heap : ℕ → Option Sds} {next : ℕ} {strings : List ℕ} {e : Entry} {a : ℕ} {name : Sds}

theorem Apart.perm {strings' : List ℕ} (h : Apart heap next strings) (hp : strings.Perm strings') : Apart heap next strings' :=
  ⟨(hp.nodup_iff).mp h.nodup, fun a ha => h.live a (hp.mem_iff.mpr ha), h.fresh⟩

theorem Apart.lt (h : Apart heap next strings) (ha : a ∈ strings) : a < next := by
  by_contra hge
  have hlive := h.live a ha
  rw [h.fresh a (not_lt.mp hge)] at hlive
  cases hlive

/-- A string that is there is written. -/
theorem Apart.write (h : Apart heap next strings) (ha : a ∈ strings) (name : Sds) : Apart (Function.update heap a (some name)) next strings := by
  refine ⟨h.nodup, fun b hb => ?_, fun b hb => ?_⟩
  · by_cases hab : b = a
    · rw [hab, Function.update_self]
      rfl
    · rw [Function.update_of_ne hab]
      exact h.live b hb
  · have hlt := h.lt ha
    rw [Function.update_of_ne (by omega)]
    exact h.fresh b hb

/-- A new string is its own. -/
theorem Apart.alloc (h : Apart heap next strings) (name : Sds) : Apart (Function.update heap next (some name)) (next + 1) (next :: strings) := by
  refine ⟨List.nodup_cons.mpr ⟨fun hin => Nat.lt_irrefl _ (h.lt hin), h.nodup⟩, fun b hb => ?_, fun b hb => ?_⟩
  · by_cases hnext : b = next
    · rw [hnext, Function.update_self]
      rfl
    · rw [Function.update_of_ne hnext]
      exact h.live b ((List.mem_cons.mp hb).resolve_left hnext)
  · rw [Function.update_of_ne (by omega)]
    exact h.fresh b (by omega)

/-- A string is freed, and no other. -/
theorem Apart.free (h : Apart heap next (a :: strings)) : Apart (Function.update heap a none) next strings := by
  obtain ⟨hnot, hnodup⟩ := List.nodup_cons.mp h.nodup
  refine ⟨hnodup, fun b hb => ?_, fun b hb => ?_⟩
  · have hne : b ≠ a := fun heq => hnot (heq ▸ hb)
    rw [Function.update_of_ne hne]
    exact h.live b (List.mem_cons_of_mem a hb)
  · have hlt := h.lt List.mem_cons_self
    rw [Function.update_of_ne (by omega)]
    exact h.fresh b hb

theorem isNone_of_live {α : Type*} {x : Option α} (h : x.isSome = true) : ¬x.isNone = true := by
  rw [Option.isNone_iff_eq_none]
  rintro rfl
  cases h

theorem mem_owned (h : e.key = some a) : a ∈ owned e := by
  rw [owned, h]
  dsimp only
  split
  · rename_i heq
    rw [heq]
    exact List.mem_cons_self
  · exact List.mem_cons_of_mem _ List.mem_cons_self

/-- What is done to another string leaves a candidate as it is. -/
theorem item_update (h : a ∉ owned e) (x : Option Sds) : item (Function.update heap a x) e = item heap e := by
  unfold item
  cases hkey : e.key with
  | none => rfl
  | some b =>
    have hne : b ≠ a := by
      rintro rfl
      exact h (mem_owned hkey)
    rw [Option.bind_some, Option.bind_some, Function.update_of_ne hne]

theorem items_update {l : List Entry} (h : a ∉ l.flatMap owned) (x : Option Sds) :
    l.filterMap (item (Function.update heap a x)) = l.filterMap (item heap) :=
  List.filterMap_congr fun _ he => item_update (fun hin => h (List.mem_flatMap.mpr ⟨_, he, hin⟩)) x

/-- The key of an entry is given up, with its own copy if it has one. -/
theorem freeKey_spec {l : List Entry} (h : Apart heap next (owned e ++ l.flatMap owned)) :
    ∃ heap', freeKey heap e = some heap' ∧ Apart heap' next (e.cached :: l.flatMap owned) ∧ ∀ x ∈ l, item heap' x = item heap x := by
  unfold freeKey
  cases hkey : e.key with
  | none =>
    rw [owned, hkey] at h
    exact ⟨heap, if_pos nofun, h, fun _ _ => rfl⟩
  | some a =>
    rw [owned, hkey] at h
    dsimp only at h
    by_cases hown : a = e.cached
    · rw [if_pos hown] at h
      rw [if_neg (not_not.mpr (congrArg some hown))]
      exact ⟨heap, rfl, h, fun _ _ => rfl⟩
    · rw [if_neg hown] at h
      have hperm : ([e.cached, a] ++ l.flatMap owned).Perm (a :: e.cached :: l.flatMap owned) := List.Perm.swap a e.cached _
      have h' := h.perm hperm
      obtain ⟨hnot, -⟩ := List.nodup_cons.mp h'.nodup
      have hlive := h'.live a List.mem_cons_self
      rw [if_pos fun heq => hown (Option.some.inj heq), sdsfree, if_neg (isNone_of_live hlive)]
      exact ⟨_, rfl, h'.free, fun x hx => item_update (fun hin => hnot (List.mem_cons_of_mem _ (List.mem_flatMap.mpr ⟨x, hx, hin⟩))) none⟩

/-! ### An offer -/

theorem getElem?_middle (l : List Entry) (e : Entry) (l' : List Entry) : (l ++ e :: l')[l.length]? = some e := by
  rw [List.getElem?_append_right (le_refl _), Nat.sub_self, List.getElem?_cons_zero]

theorem set_middle (l : List Entry) (e x : Entry) (l' : List Entry) : (l ++ e :: l').set l.length x = l ++ x :: l' := by
  rw [List.set_append_right _ _ (le_refl _), Nat.sub_self, List.set_cons_zero]

/-- **The name is stored in full**, in the buffer or in a copy, and no other name changes. -/
theorem store_spec {pool : List Entry} {l l' : List Entry} (hpool : pool = l ++ e :: l')
    (h : Apart heap next (e.cached :: (l ++ l').flatMap owned)) (key : Sds) (idle : ℕ) (dbid : ℤ) :
    ∃ s' e', store ⟨pool, heap, next⟩ l.length key idle dbid = some s' ∧ s'.pool = l ++ e' :: l' ∧ e'.key.isSome = true ∧
      Apart s'.heap s'.next (s'.pool.flatMap owned) ∧
      view s' = l.filterMap (item heap) ++ ⟨idle, key, dbid⟩ :: l'.filterMap (item heap) := by
  subst hpool
  obtain ⟨hnot, -⟩ := List.nodup_cons.mp h.nodup
  rw [List.flatMap_append] at hnot
  have hperm : ∀ x : Entry, (owned x ++ (l ++ l').flatMap owned).Perm ((l ++ x :: l').flatMap owned) := by
    intro x
    rw [List.flatMap_append, List.flatMap_append, List.flatMap_cons, ← List.append_assoc, ← List.append_assoc]
    exact List.perm_append_comm.append_right _
  unfold store
  dsimp only
  rw [getElem?_middle]
  dsimp only
  rw [set_middle, set_middle]
  by_cases hlong : key.length > EVPOOL_CACHED_SDS_SIZE
  · have halloc := h.alloc key
    have hnew : next ∉ (l ++ l').flatMap owned := fun hin => Nat.lt_irrefl next (h.lt (List.mem_cons_of_mem _ hin))
    rw [List.flatMap_append] at hnew
    have hne : next ≠ e.cached := (h.lt List.mem_cons_self).ne'
    have hown : owned ⟨idle, some next, e.cached, dbid⟩ = [e.cached, next] := if_neg hne
    rw [if_pos hlong]
    refine ⟨_, _, rfl, rfl, rfl, ?_, ?_⟩
    · refine halloc.perm (List.Perm.trans ?_ (hperm _))
      rw [hown]
      exact List.Perm.swap e.cached next _
    · show (l ++ _ :: l').filterMap _ = _
      rw [List.filterMap_append, List.filterMap_cons, items_update fun hin => hnew (List.mem_append_left _ hin),
        items_update fun hin => hnew (List.mem_append_right _ hin)]
      have hitem : item (Function.update heap next (some key)) ⟨idle, some next, e.cached, dbid⟩ = some ⟨idle, key, dbid⟩ := by
        rw [item, Option.bind_some, Function.update_self, Option.map_some]
      rw [hitem]
  · have hlive := h.live e.cached List.mem_cons_self
    have hown : owned ⟨idle, some e.cached, e.cached, dbid⟩ = [e.cached] := if_pos rfl
    rw [if_neg hlong, if_neg (isNone_of_live hlive)]
    refine ⟨_, _, rfl, rfl, rfl, ?_, ?_⟩
    · refine (h.write List.mem_cons_self key).perm (List.Perm.trans ?_ (hperm _))
      rw [hown]
      exact List.Perm.refl _
    · show (l ++ _ :: l').filterMap _ = _
      rw [List.filterMap_append, List.filterMap_cons, items_update fun hin => hnot (List.mem_append_left _ hin),
        items_update fun hin => hnot (List.mem_append_right _ hin)]
      have hitem : item (Function.update heap e.cached (some key)) ⟨idle, some e.cached, e.cached, dbid⟩ = some ⟨idle, key, dbid⟩ := by
        rw [item, Option.bind_some, Function.update_self, Option.map_some]
      rw [hitem]

theorem findBucket_spec (idle : ℕ) {empty : List Entry} (hempty : ∀ e ∈ empty, e.key = none) : ∀ {full : List Entry},
    (∀ e ∈ full, e.key.isSome = true) → findBucket idle (full ++ empty) = (full.takeWhile fun e => decide (e.idle < idle)).length
  | [], _ => by
    cases empty with
    | nil => rfl
    | cons e empty =>
      have hkey := hempty e List.mem_cons_self
      exact if_neg fun hand => by rw [hkey] at hand; exact Bool.false_ne_true hand.1
  | e :: full, hfull => by
    rw [List.cons_append, findBucket, List.takeWhile_cons]
    have hkey := hfull e List.mem_cons_self
    by_cases hlt : e.idle < idle
    · rw [if_pos ⟨hkey, hlt⟩, if_pos (decide_eq_true hlt), findBucket_spec idle hempty fun x hx => hfull x (List.mem_cons_of_mem e hx)]
      rfl
    · rw [if_neg fun hand => hlt hand.2, if_neg (by simpa using hlt)]
      rfl

/-- An entry with a key that is there is a candidate with its score. -/
theorem item_full (h : Apart heap next strings) (hin : ∀ a ∈ owned e, a ∈ strings) (hkey : e.key.isSome = true) :
    ∃ x : Item, item heap e = some x ∧ x.idle = e.idle := by
  obtain ⟨a, ha⟩ := Option.isSome_iff_exists.mp hkey
  obtain ⟨name, hname⟩ := Option.isSome_iff_exists.mp (h.live a (hin a (mem_owned ha)))
  exact ⟨⟨e.idle, name, e.dbid⟩, by rw [item, ha, Option.bind_some, hname, Option.map_some], rfl⟩

theorem items_empty {empty : List Entry} (hempty : ∀ e ∈ empty, e.key = none) : empty.filterMap (item heap) = [] := by
  rw [List.filterMap_eq_nil_iff]
  intro e he
  rw [item, hempty e he, Option.bind_none]

/-- The place of a score among the candidates is its place among the entries. -/
theorem items_split (idle : ℕ) : ∀ {full : List Entry}, (∀ e ∈ full, ∃ x : Item, item heap e = some x ∧ x.idle = e.idle) →
    (full.filterMap (item heap)).length = full.length ∧
    (full.filterMap (item heap)).takeWhile (fun x => decide (x.idle < idle)) =
      (full.takeWhile fun e => decide (e.idle < idle)).filterMap (item heap) ∧
    (full.filterMap (item heap)).dropWhile (fun x => decide (x.idle < idle)) =
      (full.dropWhile fun e => decide (e.idle < idle)).filterMap (item heap)
  | [], _ => ⟨rfl, rfl, rfl⟩
  | e :: full, h => by
    obtain ⟨x, hx, hidle⟩ := h e List.mem_cons_self
    obtain ⟨ihl, iht, ihd⟩ := items_split idle fun y hy => h y (List.mem_cons_of_mem e hy)
    rw [List.filterMap_cons, hx]
    dsimp only
    rw [List.length_cons, List.length_cons, ihl, List.takeWhile_cons, List.takeWhile_cons, List.dropWhile_cons, List.dropWhile_cons, hidle]
    refine ⟨rfl, ?_, ?_⟩
    · split
      · rw [List.filterMap_cons, hx, iht]
      · rfl
    · split
      · exact ihd
      · rw [List.filterMap_cons, hx]

/-! ### Moving the entries -/

theorem memmove_right (l : List Entry) (e : Entry) (l' : List Entry) (z : Entry) (hlen : (l ++ e :: (l' ++ [z])).length = n) :
    memmove (l ++ e :: (l' ++ [z])) (l.length + 1) l.length (n - l.length - 1) = l ++ e :: (e :: l') := by
  have hn : n - l.length - 1 = (e :: l').length := by
    rw [← hlen]
    simp only [List.length_append, List.length_cons, List.length_nil]
    omega
  have htake : (l ++ e :: (l' ++ [z])).take (l.length + 1) = l ++ [e] := by
    rw [List.take_append, List.take_of_length_le (Nat.le_succ _), Nat.add_sub_cancel_left]
    rfl
  have hdrop : (l ++ e :: (l' ++ [z])).drop (l.length + 1 + (e :: l').length) = [] := by
    rw [List.drop_eq_nil_iff]
    simp only [List.length_append, List.length_cons, List.length_nil]
    omega
  rw [memmove, hn, htake, hdrop, List.drop_left, List.append_nil, ← List.cons_append, List.take_left, List.append_assoc]
  rfl

theorem memmove_left (a0 : Entry) (l l' : List Entry) : ∃ e, memmove (a0 :: (l ++ l')) 0 1 l.length = l ++ e :: l' := by
  obtain ⟨e, he⟩ : ∃ e, (a0 :: (l ++ l')).drop l.length = e :: l' := by
    have hlen : ((a0 :: l).length) = l.length + 1 := rfl
    cases hl : (a0 :: l).getLast? with
    | none => exact absurd (List.getLast?_eq_none_iff.mp hl) (List.cons_ne_nil _ _)
    | some e =>
      refine ⟨e, ?_⟩
      obtain ⟨i, hi⟩ := List.getLast?_eq_some_iff.mp hl
      have hilen : i.length = l.length := by
        have := congrArg List.length hi
        rw [List.length_append, List.length_cons, List.length_singleton] at this
        omega
      rw [← List.cons_append, hi, List.append_assoc, ← hilen, List.drop_left]
      rfl
  refine ⟨e, ?_⟩
  rw [memmove, List.take_zero, List.nil_append, Nat.zero_add, he, List.drop_succ_cons, List.drop_zero, List.take_left]

theorem setCached_middle (l : List Entry) (e : Entry) (l' : List Entry) (cached : ℕ) :
    setCached (l ++ e :: l') l.length cached = l ++ { e with cached := cached } :: l' := by
  rw [setCached, List.modify_eq_set_getElem?, getElem?_middle]
  exact set_middle _ _ _ _

variable {s : State} {full empty : List Entry}

theorem last_entry (l : List Entry) (z : Entry) (hlen : (l ++ [z]).length = n) : (l ++ [z])[n - 1]? = some z := by
  rw [← hlen, List.length_append, List.length_singleton, Nat.add_sub_cancel]
  exact getElem?_middle l z []

/-- The candidates of a pool are those of its entries with a key. -/
theorem view_split (h : Inv s) (hpool : s.pool = full ++ empty) (hfull : ∀ e ∈ full, e.key.isSome = true)
    (hempty : ∀ e ∈ empty, e.key = none) (idle : ℕ) :
    view s = full.filterMap (item s.heap) ∧ (view s).length = full.length ∧
    (view s).takeWhile (fun x => decide (x.idle < idle)) = (full.takeWhile fun e => decide (e.idle < idle)).filterMap (item s.heap) ∧
    (view s).dropWhile (fun x => decide (x.idle < idle)) = (full.dropWhile fun e => decide (e.idle < idle)).filterMap (item s.heap) := by
  have hview : view s = full.filterMap (item s.heap) := by
    rw [view, hpool, List.filterMap_append, items_empty hempty, List.append_nil]
  have hitems : ∀ e ∈ full, ∃ x : Item, item s.heap e = some x ∧ x.idle = e.idle := by
    intro e he
    refine item_full h.apart (fun a ha => List.mem_flatMap.mpr ⟨e, ?_, ha⟩) (hfull e he)
    rw [hpool]
    exact List.mem_append_left empty he
  rw [hview]
  exact ⟨rfl, items_split idle hitems⟩

/-- The strings of the entries but one, with the buffer of that one. -/
theorem apart_middle {l l' : List Entry} (h : Apart heap next ((l ++ e :: l').flatMap owned)) :
    Apart heap next (owned e ++ (l ++ l').flatMap owned) := by
  refine h.perm ?_
  rw [List.flatMap_append, List.flatMap_append, List.flatMap_cons, ← List.append_assoc, ← List.append_assoc]
  exact List.perm_append_comm.append_right _

theorem owned_empty (h : e.key = none) : owned e = [e.cached] := by rw [owned, h]

/-- What an entry with a key and the other entries make of a pool. -/
theorem inv_of {s' : State} {l l' : List Entry} {e' : Entry} (hlen : (l ++ e' :: l').length = EVPOOL_SIZE) (hpool : s'.pool = l ++ e' :: l')
    (hapart : Apart s'.heap s'.next (s'.pool.flatMap owned)) (hl : ∀ x ∈ l, x.key.isSome = true) (he : e'.key.isSome = true)
    {b : List Entry} (hl' : l' = b ++ empty) (hb : ∀ x ∈ b, x.key.isSome = true) (hempty : ∀ x ∈ empty, x.key = none) : Inv s' := by
  refine ⟨by rw [hpool]; exact hlen, ⟨l ++ e' :: b, empty, ?_, fun x hx => ?_, hempty⟩, hapart⟩
  · rw [hpool, hl', List.append_assoc]
    rfl
  · rcases List.mem_append.mp hx with hx | hx
    · exact hl x hx
    · rcases List.mem_cons.mp hx with rfl | hx
      · exact he
      · exact hb x hx

/-- The strings of a list of entries that are all in memory make each entry with a key a candidate. -/
theorem items_full {l : List Entry} (h : Apart heap next (l.flatMap owned)) (hl : ∀ e ∈ l, e.key.isSome = true) :
    ∀ e ∈ l, ∃ x : Item, item heap e = some x ∧ x.idle = e.idle := fun e he =>
  item_full h (fun _ ha => List.mem_flatMap.mpr ⟨e, he, ha⟩) (hl e he)

variable {a b : List Entry} {key : Sds} {idle : ℕ} {dbid : ℤ}

/-- A full pool refuses what is not better than its first entry. -/
theorem insert_refused (hsize : b.length = EVPOOL_SIZE) (hb : ∀ e ∈ b, e.key.isSome = true) (hbucket : findBucket idle b = 0) :
    evictionPoolInsert ⟨b, heap, next⟩ key idle dbid = some ⟨b, heap, next⟩ := by
  obtain ⟨last, hlast⟩ : ∃ last : Entry, b[EVPOOL_SIZE - 1]? = some last := ⟨_, List.getElem?_eq_getElem (by rw [hsize]; decide)⟩
  obtain ⟨first, hfirst⟩ : ∃ first : Entry, b[0]? = some first := ⟨_, List.getElem?_eq_getElem (by rw [hsize]; decide)⟩
  unfold evictionPoolInsert
  dsimp only
  rw [hlast, hfirst, hbucket]
  exact if_pos ⟨rfl, hb last (List.mem_of_getElem? hlast)⟩

/-- A full pool gives up its first entry, whose buffer goes to the new one. -/
theorem insert_left {a0 : Entry} (hsize : (a0 :: (a ++ b)).length = EVPOOL_SIZE) (hfull : ∀ e ∈ a0 :: (a ++ b), e.key.isSome = true)
    (hbucket : findBucket idle (a0 :: (a ++ b)) = a.length + 1) (hapart : Apart heap next ((a0 :: (a ++ b)).flatMap owned)) :
    ∃ s', evictionPoolInsert ⟨a0 :: (a ++ b), heap, next⟩ key idle dbid = some s' ∧ Inv s' ∧
      view s' = a.filterMap (item heap) ++ ⟨idle, key, dbid⟩ :: b.filterMap (item heap) := by
  rw [List.flatMap_cons] at hapart
  obtain ⟨heap', hfree, hapart', hitems⟩ := freeKey_spec hapart
  obtain ⟨stale, hmove⟩ := memmove_left a0 a b
  obtain ⟨s', e', hstore, hpool', hkey', hown, hview'⟩ :=
    store_spec (e := { stale with cached := a0.cached }) rfl hapart' key idle dbid
  obtain ⟨last, hlast⟩ : ∃ last : Entry, (a0 :: (a ++ b))[EVPOOL_SIZE - 1]? = some last :=
    ⟨_, List.getElem?_eq_getElem (by rw [hsize]; decide)⟩
  have hkey := hfull last (List.mem_of_getElem? hlast)
  have htaken : ¬((a.length + 1 < EVPOOL_SIZE) ∧ ((a0 :: (a ++ b))[a.length + 1]?.bind Entry.key).isNone = true) := by
    rintro ⟨hlt, hnone⟩
    have hin : (a0 :: (a ++ b))[a.length + 1]? ≠ none := by
      rw [ne_eq, List.getElem?_eq_none_iff, hsize]
      omega
    obtain ⟨e, he⟩ := Option.ne_none_iff_exists'.mp hin
    rw [he, Option.bind_some] at hnone
    exact isNone_of_live (hfull e (List.mem_of_getElem? he)) hnone
  refine ⟨s', ?_, ?_, ?_⟩
  · unfold evictionPoolInsert
    dsimp only
    rw [hlast, List.getElem?_cons_zero, hbucket]
    dsimp only
    rw [if_neg (fun hand => Nat.succ_ne_zero _ hand.1), if_neg htaken, if_neg (isNone_of_live hkey), hfree, Option.bind_some,
      Nat.add_sub_cancel, hmove, setCached_middle]
    exact hstore
  · refine inv_of ?_ hpool' hown (fun x hx => hfull x (List.mem_cons_of_mem a0 (List.mem_append_left b hx))) hkey'
      (List.append_nil b).symm (fun x hx => hfull x (List.mem_cons_of_mem a0 (List.mem_append_right a hx))) nofun
    rw [← hsize]
    simp only [List.length_append, List.length_cons]
    omega
  · rw [hview', List.filterMap_congr fun x hx => hitems x (List.mem_append_left b hx),
      List.filterMap_congr fun x hx => hitems x (List.mem_append_right a hx)]

/-- Behind the last entry there is an empty one to use. -/
theorem insert_end {z : Entry} (hsize : (a ++ z :: empty).length = EVPOOL_SIZE) (ha : ∀ e ∈ a, e.key.isSome = true)
    (hempty : ∀ e ∈ z :: empty, e.key = none) (hbucket : findBucket idle (a ++ z :: empty) = a.length)
    (hapart : Apart heap next ((a ++ z :: empty).flatMap owned)) :
    ∃ s', evictionPoolInsert ⟨a ++ z :: empty, heap, next⟩ key idle dbid = some s' ∧ Inv s' ∧
      view s' = a.filterMap (item heap) ++ [⟨idle, key, dbid⟩] := by
  have hz := hempty z List.mem_cons_self
  have hempty' : ∀ e ∈ empty, e.key = none := fun e he => hempty e (List.mem_cons_of_mem z he)
  have hapart' := apart_middle hapart
  rw [owned_empty hz] at hapart'
  obtain ⟨s', e', hstore, hpool', hkey', hown, hview'⟩ := store_spec rfl hapart' key idle dbid
  obtain ⟨last, hlast⟩ : ∃ last : Entry, (a ++ z :: empty)[EVPOOL_SIZE - 1]? = some last :=
    ⟨_, List.getElem?_eq_getElem (by rw [hsize]; decide)⟩
  obtain ⟨first, hfirst⟩ : ∃ first : Entry, (a ++ z :: empty)[0]? = some first := ⟨_, List.getElem?_eq_getElem (by rw [hsize]; decide)⟩
  have hlen : (a ++ e' :: empty).length = EVPOOL_SIZE := by
    rw [← hsize]
    simp only [List.length_append, List.length_cons]
  have hroom : a.length < EVPOOL_SIZE := by
    rw [← hsize]
    simp only [List.length_append, List.length_cons]
    omega
  have hnone : last.key = none := by
    rw [← hsize] at hlast
    rw [show (a ++ z :: empty).length - 1 = a.length + empty.length by simp only [List.length_append, List.length_cons]; omega,
      List.getElem?_append_right (Nat.le_add_right _ _), Nat.add_sub_cancel_left] at hlast
    exact hempty last (List.mem_of_getElem? hlast)
  refine ⟨s', ?_, inv_of hlen hpool' hown ha hkey' (List.nil_append empty).symm nofun hempty', ?_⟩
  · unfold evictionPoolInsert
    dsimp only
    rw [hlast, hfirst, hbucket]
    dsimp only
    rw [if_neg (fun hand => Bool.false_ne_true (by rw [← hand.2, hnone]; rfl)), if_pos ⟨hroom, by rw [getElem?_middle, Option.bind_some, hz]; rfl⟩]
    exact hstore
  · rw [hview', items_empty hempty']

/-- With room at the end the entries behind the new one move, and the last buffer goes to it. -/
theorem insert_right {b0 z : Entry} {init : List Entry} (hsize : (a ++ b0 :: (b ++ init ++ [z])).length = EVPOOL_SIZE)
    (ha : ∀ e ∈ a, e.key.isSome = true) (hb : ∀ e ∈ b0 :: b, e.key.isSome = true) (hempty : ∀ e ∈ init ++ [z], e.key = none)
    (hbucket : findBucket idle (a ++ b0 :: (b ++ init ++ [z])) = a.length)
    (hapart : Apart heap next ((a ++ b0 :: (b ++ init ++ [z])).flatMap owned)) :
    ∃ s', evictionPoolInsert ⟨a ++ b0 :: (b ++ init ++ [z]), heap, next⟩ key idle dbid = some s' ∧ Inv s' ∧
      view s' = a.filterMap (item heap) ++ ⟨idle, key, dbid⟩ :: (b0 :: b).filterMap (item heap) := by
  have hz := hempty z (List.mem_append_right init (List.mem_singleton_self z))
  have hinit : ∀ e ∈ init, e.key = none := fun e he => hempty e (List.mem_append_left _ he)
  have hb0 := hb b0 List.mem_cons_self
  have hshape : a ++ b0 :: (b ++ init ++ [z]) = (a ++ b0 :: (b ++ init)) ++ z :: [] := by
    rw [List.append_assoc a]
    rfl
  have hapart' : Apart heap next (z.cached :: (a ++ (b0 :: (b ++ init))).flatMap owned) := by
    rw [hshape] at hapart
    have hmiddle := apart_middle hapart
    rw [owned_empty hz, List.append_nil] at hmiddle
    exact hmiddle
  obtain ⟨s', e', hstore, hpool', hkey', hown, hview'⟩ := store_spec (e := { b0 with cached := z.cached }) rfl hapart' key idle dbid
  have hlast : (a ++ b0 :: (b ++ init ++ [z]))[EVPOOL_SIZE - 1]? = some z := by
    rw [hshape] at hsize ⊢
    exact last_entry _ z hsize
  obtain ⟨first, hfirst⟩ : ∃ first : Entry, (a ++ b0 :: (b ++ init ++ [z]))[0]? = some first :=
    ⟨_, List.getElem?_eq_getElem (by rw [hsize]; decide)⟩
  have htaken : ¬(a.length < EVPOOL_SIZE ∧ ((a ++ b0 :: (b ++ init ++ [z]))[a.length]?.bind Entry.key).isNone = true) := by
    rw [getElem?_middle, Option.bind_some]
    exact fun hand => isNone_of_live hb0 hand.2
  refine ⟨s', ?_, ?_, ?_⟩
  · unfold evictionPoolInsert
    dsimp only
    rw [hlast, hfirst, hbucket]
    dsimp only
    rw [if_neg (fun hand => Bool.false_ne_true (by rw [← hand.2, hz]; rfl)), if_neg htaken, if_pos (by rw [hz]; rfl),
      memmove_right a b0 (b ++ init) z hsize, setCached_middle]
    exact hstore
  · refine inv_of (b := b0 :: b) ?_ hpool' hown ha hkey' rfl hb hinit
    rw [← hsize]
    simp only [List.length_append, List.length_cons, List.length_nil]
  · rw [hview', ← List.cons_append, List.filterMap_append, items_empty hinit, List.append_nil]

/-- **An offer goes to its place among the candidates**, or the least of them goes. -/
theorem insert_spec (h : Inv s) (key : Sds) (idle : ℕ) (dbid : ℤ) :
    ∃ s', evictionPoolInsert s key idle dbid = some s' ∧ Inv s' ∧ view s' = Ranked.offer Item.idle EVPOOL_SIZE (view s) ⟨idle, key, dbid⟩ := by
  obtain ⟨full, empty, hpool, hfull, hempty⟩ := h.split
  obtain ⟨hview, hlen, htake, hdrop⟩ := view_split h hpool hfull hempty idle
  have hsplit : full = (full.takeWhile fun e => decide (e.idle < idle)) ++ full.dropWhile fun e => decide (e.idle < idle) :=
    List.takeWhile_append_dropWhile.symm
  have hbucket := findBucket_spec idle hempty hfull
  have hinsert : Ranked.insert Item.idle (view s) ⟨idle, key, dbid⟩ = (full.takeWhile fun e => decide (e.idle < idle)).filterMap (item s.heap) ++
      ⟨idle, key, dbid⟩ :: (full.dropWhile fun e => decide (e.idle < idle)).filterMap (item s.heap) := by
    rw [Ranked.insert, htake, hdrop]
  have hsize := h.length
  have hapart := h.apart
  have hs : s = ⟨full ++ empty, s.heap, s.next⟩ := by rw [← hpool]
  rw [hpool] at hsize hapart
  generalize full.takeWhile (fun e => decide (e.idle < idle)) = a at hsplit hbucket hinsert
  generalize full.dropWhile (fun e => decide (e.idle < idle)) = b at hsplit hinsert
  subst hsplit
  have ha : ∀ e ∈ a, e.key.isSome = true := fun e he => hfull e (List.mem_append_left b he)
  have hb : ∀ e ∈ b, e.key.isSome = true := fun e he => hfull e (List.mem_append_right a he)
  rcases List.eq_nil_or_concat empty with rfl | ⟨init, z, rfl⟩
  · -- The pool is full.
    rw [List.append_nil] at hbucket hsize hapart hs
    have hoffer : Ranked.offer Item.idle EVPOOL_SIZE (view s) ⟨idle, key, dbid⟩ =
        (a.filterMap (item s.heap) ++ ⟨idle, key, dbid⟩ :: b.filterMap (item s.heap)).tail := by
      rw [Ranked.offer, Ranked.length_insert, hlen, hsize, if_pos (Nat.lt_succ_self _), hinsert]
    cases a with
    | nil =>
      refine ⟨s, ?_, h, ?_⟩
      · rw [hs]
        exact insert_refused hsize hb hbucket
      · rw [hoffer, hview]
        rfl
    | cons a0 a1 =>
      obtain ⟨x, hx, -⟩ := items_full hapart hfull a0 List.mem_cons_self
      rw [hoffer, List.filterMap_cons, hx, hs]
      exact insert_left hsize hfull hbucket hapart
  · have hroom : (a ++ b).length < EVPOOL_SIZE := by
      rw [← hsize]
      simp only [List.length_append, List.length_concat]
      omega
    rw [Ranked.offer_of_lt (by rw [hlen]; exact hroom), hinsert, hs]
    cases b with
    | nil =>
      rw [List.append_nil] at hbucket hsize hapart ⊢
      obtain ⟨z', empty, hz⟩ : ∃ (z' : Entry) (empty : List Entry), init ++ [z] = z' :: empty := by
        cases init with
        | nil => exact ⟨z, [], rfl⟩
        | cons i init => exact ⟨i, init ++ [z], rfl⟩
      rw [List.concat_eq_append, hz] at hbucket hsize hapart hempty ⊢
      exact insert_end hsize ha hempty hbucket hapart
    | cons b0 b1 =>
      have hshape : a ++ b0 :: b1 ++ (init ++ [z]) = a ++ b0 :: (b1 ++ init ++ [z]) := by
        rw [List.append_assoc a, List.append_assoc b1]
        rfl
      rw [List.concat_eq_append] at hbucket hsize hapart hempty ⊢
      rw [hshape] at hbucket hsize hapart ⊢
      exact insert_right hsize ha hb hempty hbucket hapart

end RedisZk.Eviction
