/-
# Two tables with one key string

A database keeps its keys in `dict` and the times of some of them in `expires`, where an
entry refers to the string that `dict` owns. The functions of db.c on the two tables, with
the strings in memory: a lookup in a table reads the strings of its entries, which must
not have been freed. If times follow their keys (`Follows`), each function keeps it so and does
to the keys, values and times what it should.

A dict is the list of its entries in some order. That a lookup reads the strings of all entries, not of one
bucket, only makes it fail more often.

Key definitions: `Db`, `Server`, `dbAdd`, `setExpire`, `getExpire`, `dbSyncDelete`, `Follows`, `view`.
Key theorems: `dbAdd_spec`, `dbOverwrite_spec`, `setExpire_spec`, `removeExpire_spec`, `getExpire_spec`, `dbDelete_spec`.
-/
import RedisZk.Lib.Keyed
import RedisZk.Networking.Reply

namespace RedisZk.Expires

open Streams (Sds)

/-! ### The functions -/

/-- A key string: where it is, and its bytes. -/
structure Str where
  addr : ℕ
  text : Sds
deriving DecidableEq

structure Db (σ : Type) where
  dict : List (Str × σ)
  expires : List (Str × ℤ)

/-- The databases, the strings that were not freed, and where the next one is put. -/
structure Server (σ : Type) where
  dbnum : ℕ
  db : ℕ → Db σ
  live : ℕ → Bool
  next : ℕ

/-- The ways in which a function does not end well. -/
inductive Stop
  | assertion
  /-- A string is read after it was freed. -/
  | dangling
deriving DecidableEq

variable {σ β : Type}

def keyText (de : Str × β) : Sds := de.1.text

def dictFind (live : ℕ → Bool) (dict : List (Str × β)) (key : Sds) : Except Stop (Option (Str × β)) :=
  if dict.all fun de => live de.1.addr then .ok (Keyed.find keyText dict key) else .error .dangling

/-- The table without the entry, which is returned. -/
def dictUnlink (live : ℕ → Bool) (dict : List (Str × β)) (key : Sds) : Except Stop (List (Str × β) × Option (Str × β)) :=
  (dictFind live dict key).map fun de => (Keyed.erase keyText dict key, de)

def setDb (s : Server σ) (j : ℕ) (db : Db σ) : Server σ := { s with db := Function.update s.db j db }

/-- `sdsdup` of the key. -/
def sdsdup (s : Server σ) (key : Sds) : Server σ × Str :=
  ({ s with live := Function.update s.live s.next true, next := s.next + 1 }, ⟨s.next, key⟩)

def sdsfree (s : Server σ) (key : Str) : Server σ := { s with live := Function.update s.live key.addr false }

def dbAdd (s : Server σ) (j : ℕ) (key : Sds) (val : σ) : Except Stop (Server σ) :=
  (dictFind s.live (s.db j).dict key).bind fun de =>
    match de with
    | some _ => .error .assertion
    | none =>
      let (s, copy) := sdsdup s key
      .ok (setDb s j { s.db j with dict := (s.db j).dict ++ [(copy, val)] })

def dbOverwrite (s : Server σ) (j : ℕ) (key : Sds) (val : σ) : Except Stop (Server σ) :=
  (dictFind s.live (s.db j).dict key).bind fun de =>
    match de with
    | none => .error .assertion
    | some _ => .ok (setDb s j { s.db j with dict := (s.db j).dict.map fun de => if keyText de = key then (de.1, val) else de })

/-- `dictAddOrFind` with the string of the entry in `dict`, and the time. -/
def setExpire (s : Server σ) (j : ℕ) (key : Sds) (when : ℤ) : Except Stop (Server σ) :=
  (dictFind s.live (s.db j).dict key).bind fun kde =>
    match kde with
    | none => .error .assertion
    | some kde =>
      (dictFind s.live (s.db j).expires kde.1.text).map fun de =>
        match de with
        | some _ => setDb s j { s.db j with expires := (s.db j).expires.map fun de => if keyText de = kde.1.text then (de.1, when) else de }
        | none => setDb s j { s.db j with expires := (s.db j).expires ++ [(kde.1, when)] }

/-- The server, and whether there was a time. -/
def removeExpire (s : Server σ) (j : ℕ) (key : Sds) : Except Stop (Server σ × Bool) :=
  (dictFind s.live (s.db j).dict key).bind fun kde =>
    match kde with
    | none => .error .assertion
    | some _ => (dictUnlink s.live (s.db j).expires key).map fun r => (setDb s j { s.db j with expires := r.1 }, r.2.isSome)

def getExpire (s : Server σ) (j : ℕ) (key : Sds) : Except Stop ℤ :=
  if (s.db j).expires.length = 0 then .ok (-1)
  else
    (dictFind s.live (s.db j).expires key).bind fun de =>
      match de with
      | none => .ok (-1)
      | some de => (dictFind s.live (s.db j).dict key).bind fun kde => if kde.isSome then .ok de.2 else .error .assertion

/-- The table of times first, if it is not empty. -/
def deleteExpire (s : Server σ) (j : ℕ) (key : Sds) : Except Stop (Server σ) :=
  if (s.db j).expires.length > 0 then (dictUnlink s.live (s.db j).expires key).map fun r => setDb s j { s.db j with expires := r.1 }
  else .ok s

/-- The server, and whether the key was there. The entry is freed with its string. -/
def dbSyncDelete (s : Server σ) (j : ℕ) (key : Sds) : Except Stop (Server σ × Bool) :=
  (deleteExpire s j key).bind fun s =>
    (dictUnlink s.live (s.db j).dict key).map fun r =>
      match r.2 with
      | some de => (sdsfree (setDb s j { s.db j with dict := r.1 }) de.1, true)
      | none => (s, false)

/-- A large value is left to another thread, not the string of the key. -/
def dbAsyncDelete (s : Server σ) (j : ℕ) (key : Sds) : Except Stop (Server σ × Bool) :=
  (deleteExpire s j key).bind fun s =>
    (dictUnlink s.live (s.db j).dict key).bind fun r =>
      match r.2 with
      | some de =>
        let s := setDb s j { s.db j with dict := r.1 }
        .ok (sdsfree s de.1, true)
      | none => .ok (s, false)

def dbDelete (lazy : Bool) (s : Server σ) (j : ℕ) (key : Sds) : Except Stop (Server σ × Bool) :=
  if lazy then dbAsyncDelete s j key else dbSyncDelete s j key

/-- The tables are emptied and their strings freed, by another thread if `async`. -/
def emptyTables (s : Server σ) (dbs : List ℕ) : Server σ :=
  { s with
    db := fun j => if j ∈ dbs then ⟨[], []⟩ else s.db j
    live := fun a => s.live a && !dbs.any fun j => (s.db j).dict.any fun de => decide (de.1.addr = a) }

/-- The server, and the number of keys that were removed, or -1. -/
def emptyDb (s : Server σ) (dbnum : ℤ) : Server σ × ℤ :=
  if dbnum < -1 ∨ dbnum ≥ s.dbnum then (s, -1)
  else
    let dbs := if dbnum = -1 then List.range s.dbnum else [dbnum.toNat]
    (emptyTables s dbs, (dbs.map fun j => (s.db j).dict.length).sum)

/-- The server, and whether the numbers are in range. -/
def dbSwapDatabases (s : Server σ) (id1 id2 : ℤ) : Server σ × Bool :=
  if id1 < 0 ∨ id1 ≥ s.dbnum ∨ id2 < 0 ∨ id2 ≥ s.dbnum then (s, false)
  else if id1 = id2 then (s, true)
  else ({ s with db := fun j => s.db (Equiv.swap id1.toNat id2.toNat j) }, true)

/-! ### Times follow their keys -/

/-- The strings that a dict owns. -/
def strings (s : Server σ) (j : ℕ) : List Str := (s.db j).dict.map Prod.fst

/-- Every string of a dict is its own and not freed, every key is once in a table, and the
strings of `expires` are those of `dict`. -/
structure Follows (s : Server σ) : Prop where
  live : ∀ {j k}, k ∈ strings s j → s.live k.addr = true
  old : ∀ {a}, s.next ≤ a → s.live a = false
  apart : ∀ {j j' k k'}, k ∈ strings s j → k' ∈ strings s j' → k.addr = k'.addr → j = j' ∧ k = k'
  nodup : ∀ j, ((s.db j).dict.map keyText).Nodup
  nodup_expires : ∀ j, ((s.db j).expires.map keyText).Nodup
  follows : ∀ {j e}, e ∈ (s.db j).expires → e.1 ∈ strings s j

/-- The keys of all databases with their values, and their times if they have one. -/
abbrev Keyspace (σ : Type) := ℕ → Sds → Option (σ × Option ℤ)

def timeOf (db : Db σ) (key : Sds) : Option ℤ := (Keyed.find keyText db.expires key).map Prod.snd

def entryOf (db : Db σ) (key : Sds) : Option (σ × Option ℤ) :=
  (Keyed.find keyText db.dict key).map fun de => (de.2, timeOf db key)

def view (s : Server σ) : Keyspace σ := fun j => entryOf (s.db j)

def put (m : Keyspace σ) (j : ℕ) (key : Sds) (x : Option (σ × Option ℤ)) : Keyspace σ :=
  Function.update m j (Function.update (m j) key x)

/-! ### Lookups -/

variable {s : Server σ} {j : ℕ} {key : Sds}

theorem mem_strings {e : Str × σ} (h : e ∈ (s.db j).dict) : e.1 ∈ strings s j := List.mem_map.mpr ⟨e, h, rfl⟩

/-- No lookup reads a freed string. -/
theorem find_dict (h : Follows s) (j : ℕ) (key : Sds) :
    dictFind s.live (s.db j).dict key = .ok (Keyed.find keyText (s.db j).dict key) :=
  if_pos (List.all_eq_true.mpr fun _ he => h.live (mem_strings he))

theorem find_expires (h : Follows s) (j : ℕ) (key : Sds) :
    dictFind s.live (s.db j).expires key = .ok (Keyed.find keyText (s.db j).expires key) :=
  if_pos (List.all_eq_true.mpr fun _ he => h.live (h.follows he))

theorem view_eq_none_iff : view s j key = none ↔ Keyed.find keyText (s.db j).dict key = none := by
  rw [view, entryOf, Option.map_eq_none_iff]

/-- Without a key there is no time. -/
theorem timeOf_none (h : Follows s) (hnone : Keyed.find keyText (s.db j).dict key = none) : timeOf (s.db j) key = none := by
  rw [timeOf, Option.map_eq_none_iff, Keyed.find_eq_none_iff]
  intro e he heq
  obtain ⟨de, hde, hkey⟩ := List.mem_map.mp (h.follows he)
  refine Keyed.find_eq_none_iff.mp hnone de hde ?_
  rw [keyText, hkey]
  exact heq

theorem view_some (hsome : view s j key ≠ none) : ∃ de, Keyed.find keyText (s.db j).dict key = some de ∧ de ∈ (s.db j).dict ∧
    de.1.text = key ∧ view s j key = some (de.2, timeOf (s.db j) key) := by
  obtain ⟨de, hde⟩ := Option.ne_none_iff_exists'.mp fun hnone => hsome (view_eq_none_iff.mpr hnone)
  obtain ⟨hmem, hkey⟩ := Keyed.of_find hde
  exact ⟨de, hde, hmem, hkey, by rw [view, entryOf, hde, Option.map_some]⟩

theorem time_view (h : Follows s) (j : ℕ) (key : Sds) : (view s j key).bind Prod.snd = timeOf (s.db j) key := by
  cases hfind : Keyed.find keyText (s.db j).dict key with
  | none => rw [view_eq_none_iff.mpr hfind, timeOf_none h hfind, Option.bind_none]
  | some de => rw [view, entryOf, hfind, Option.map_some, Option.bind_some]

/-- **`getExpire` finds the time**, and its assertion holds. -/
theorem getExpire_spec (h : Follows s) (j : ℕ) (key : Sds) : getExpire s j key = .ok (((view s j key).bind Prod.snd).getD (-1)) := by
  rw [time_view h, getExpire, find_expires h, find_dict h]
  split
  · rename_i hlen
    rw [timeOf, List.eq_nil_of_length_eq_zero hlen]
    rfl
  · cases hexp : Keyed.find keyText (s.db j).expires key with
    | none =>
      rw [timeOf, hexp]
      rfl
    | some e =>
      obtain ⟨he, hkey⟩ := Keyed.of_find hexp
      obtain ⟨de, hde, hstr⟩ := List.mem_map.mp (h.follows he)
      have hfound : (Keyed.find keyText (s.db j).dict key).isSome = true := by
        rw [Option.isSome_iff_ne_none]
        intro hnone
        refine Keyed.find_eq_none_iff.mp hnone de hde ?_
        rw [keyText, hstr]
        exact hkey
      rw [timeOf, hexp]
      exact if_pos hfound

/-! ### One database changes -/

@[simp] theorem db_setDb (s : Server σ) (j : ℕ) (db : Db σ) : (setDb s j db).db j = db := Function.update_self _ _ _

theorem db_setDb_ne (s : Server σ) {j j' : ℕ} (db : Db σ) (h : j' ≠ j) : (setDb s j db).db j' = s.db j' := Function.update_of_ne h _ _

theorem view_setDb {db : Db σ} {x : Option (σ × Option ℤ)} (h : entryOf db = Function.update (entryOf (s.db j)) key x) :
    view (setDb s j db) = put (view s) j key x := by
  funext j'
  by_cases hj : j' = j
  · subst hj
    rw [put, Function.update_self, view, db_setDb, h, view]
  · rw [put, Function.update_of_ne hj, view, db_setDb_ne s db hj, view]

/-- The strings stay, and the times are at some of them. -/
theorem follows_setDb (h : Follows s) {db : Db σ} (hdict : db.dict.map Prod.fst = strings s j)
    (hnodup : (db.expires.map keyText).Nodup) (hexpires : ∀ e ∈ db.expires, e.1 ∈ strings s j) : Follows (setDb s j db) := by
  have hstrings : ∀ j', strings (setDb s j db) j' = strings s j' := by
    intro j'
    by_cases hj : j' = j
    · subst hj
      rw [strings, db_setDb, hdict]
    · rw [strings, db_setDb_ne s db hj, strings]
  constructor
  · intro j' k hk
    rw [hstrings] at hk
    exact h.live hk
  · exact h.old
  · intro j1 j2 k k' hk hk'
    rw [hstrings] at hk hk'
    exact h.apart hk hk'
  · intro j'
    have htexts : ∀ l : List (Str × σ), l.map keyText = (l.map Prod.fst).map Str.text := fun l => (List.map_map).symm
    rw [htexts, ← strings, hstrings, strings, ← htexts]
    exact h.nodup j'
  · intro j'
    by_cases hj : j' = j
    · subst hj
      rw [db_setDb]
      exact hnodup
    · rw [db_setDb_ne s db hj]
      exact h.nodup_expires j'
  · intro j' e he
    rw [hstrings]
    by_cases hj : j' = j
    · subst hj
      rw [db_setDb] at he
      exact hexpires e he
    · rw [db_setDb_ne s db hj] at he
      exact h.follows he

/-- Another time of a key that is there. -/
theorem entryOf_time {db db' : Db σ} {de : Str × σ} {t : Option ℤ} (hdict : db'.dict = db.dict) (hfind : Keyed.find keyText db.dict key = some de)
    (htime : timeOf db' = Function.update (timeOf db) key t) : entryOf db' = Function.update (entryOf db) key (some (de.2, t)) := by
  funext key'
  rw [entryOf, hdict, htime]
  by_cases hkey : key' = key
  · subst hkey
    rw [hfind, Function.update_self, Function.update_self, Option.map_some]
  · rw [Function.update_of_ne hkey, Function.update_of_ne hkey, entryOf]

theorem dbOverwrite_spec (h : Follows s) (hsome : view s j key ≠ none) (val : σ) :
    ∃ s', dbOverwrite s j key val = .ok s' ∧ Follows s' ∧ s'.dbnum = s.dbnum ∧
      view s' = put (view s) j key (some (val, (view s j key).bind Prod.snd)) := by
  obtain ⟨de, hfind, -, -, hview⟩ := view_some hsome
  have hkeys : ∀ e : Str × σ, keyText (if keyText e = key then (e.1, val) else e) = keyText e := by
    intro e
    split
    · rfl
    · rfl
  rw [dbOverwrite, find_dict h, hfind]
  refine ⟨_, rfl, follows_setDb h ?_ (h.nodup_expires j) fun e he => h.follows he, rfl, view_setDb ?_⟩
  · rw [strings, List.map_map]
    refine List.map_congr_left fun e _ => ?_
    dsimp only [Function.comp]
    split
    · rfl
    · rfl
  · funext key'
    rw [entryOf, Keyed.find_map _ hkeys]
    by_cases hkey : key' = key
    · subst hkey
      rw [Function.update_self, hfind, hview, Option.map_some, Option.map_some, if_pos (Keyed.of_find hfind).2]
      rfl
    · rw [Function.update_of_ne hkey, entryOf]
      cases hother : Keyed.find keyText (s.db j).dict key' with
      | none => rfl
      | some e =>
        have hne : keyText e ≠ key := fun heq => hkey ((Keyed.of_find hother).2.symm.trans heq)
        rw [Option.map_some, Option.map_some, if_neg hne, Option.map_some]
        rfl

/-- **The time refers to the string of the key**, whether there was one or not. -/
theorem setExpire_spec (h : Follows s) {v : σ} {t : Option ℤ} (hview : view s j key = some (v, t)) (when : ℤ) :
    ∃ s', setExpire s j key when = .ok s' ∧ Follows s' ∧ s'.dbnum = s.dbnum ∧ view s' = put (view s) j key (some (v, some when)) := by
  obtain ⟨de, hfind, hmem, hkey, hview'⟩ := view_some (s := s) (by rw [hview]; exact Option.some_ne_none _)
  obtain rfl : de.2 = v := congrArg Prod.fst (Option.some.inj (hview'.symm.trans hview))
  have htexts : ∀ e : Str × ℤ, keyText (if keyText e = key then (e.1, when) else e) = keyText e := by
    intro e
    split
    · rfl
    · rfl
  rw [setExpire, find_dict h, hfind]
  dsimp only [Except.bind]
  rw [find_expires h, hkey]
  cases hexp : Keyed.find keyText (s.db j).expires key with
  | some e0 =>
    refine ⟨_, rfl, follows_setDb h rfl ?_ ?_, rfl, view_setDb (entryOf_time rfl hfind ?_)⟩
    · rw [Keyed.map_keys _ htexts]
      exact h.nodup_expires j
    · intro e he
      obtain ⟨e', he', rfl⟩ := List.mem_map.mp he
      have hsame : (if keyText e' = key then (e'.1, when) else e').1 = e'.1 := by
        split
        · rfl
        · rfl
      rw [hsame]
      exact h.follows he'
    · funext key'
      rw [timeOf, Keyed.find_map _ htexts]
      by_cases hkey' : key' = key
      · subst hkey'
        rw [hexp, Option.map_some, Option.map_some, Function.update_self, if_pos (Keyed.of_find hexp).2]
      · rw [Function.update_of_ne hkey', timeOf]
        cases hother : Keyed.find keyText (s.db j).expires key' with
        | none => rfl
        | some e =>
          have hne : keyText e ≠ key := fun heq => hkey' ((Keyed.of_find hother).2.symm.trans heq)
          rw [Option.map_some, if_neg hne]
  | none =>
    have htext : keyText (de.1, when) = key := hkey
    refine ⟨_, rfl, follows_setDb h rfl ?_ ?_, rfl, view_setDb (entryOf_time rfl hfind ?_)⟩
    · refine Keyed.nodup_snoc (h.nodup_expires j) ?_
      rw [htext]
      exact hexp
    · intro e he
      rcases List.mem_append.mp he with he | he
      · exact h.follows he
      · rw [List.mem_singleton.mp he]
        exact mem_strings hmem
    · funext key'
      rw [timeOf, Keyed.find_snoc, htext]
      by_cases hkey' : key' = key
      · subst hkey'
        rw [hexp, Option.none_or, if_pos rfl, Function.update_self]
        rfl
      · rw [if_neg (Ne.symm hkey'), Option.or_none, Function.update_of_ne hkey', timeOf]

/-- What `dictUnlink` does to the times. -/
theorem timeOf_erase (db : Db σ) (key : Sds) :
    timeOf { db with expires := Keyed.erase keyText db.expires key } = Function.update (timeOf db) key none := by
  funext key'
  rw [timeOf, Keyed.find_erase]
  by_cases hkey : key' = key
  · rw [if_pos hkey, hkey, Function.update_self, Option.map_none]
  · rw [if_neg hkey, Function.update_of_ne hkey, timeOf]

theorem follows_erase (h : Follows s) (j : ℕ) (key : Sds) :
    Follows (setDb s j { s.db j with expires := Keyed.erase keyText (s.db j).expires key }) :=
  follows_setDb h rfl (Keyed.nodup_erase (h.nodup_expires j) key) fun _ he => h.follows (List.mem_of_mem_filter he)

theorem removeExpire_spec (h : Follows s) {v : σ} {t : Option ℤ} (hview : view s j key = some (v, t)) :
    ∃ s' removed, removeExpire s j key = .ok (s', removed) ∧ Follows s' ∧ s'.dbnum = s.dbnum ∧
      view s' = put (view s) j key (some (v, none)) := by
  obtain ⟨de, hfind, -, -, hview'⟩ := view_some (s := s) (by rw [hview]; exact Option.some_ne_none _)
  obtain rfl : de.2 = v := congrArg Prod.fst (Option.some.inj (hview'.symm.trans hview))
  rw [removeExpire, find_dict h, hfind]
  dsimp only [Except.bind]
  rw [dictUnlink, find_expires h]
  exact ⟨_, _, rfl, follows_erase h j key, rfl, view_setDb (entryOf_time rfl hfind (timeOf_erase _ key))⟩

/-! ### Keys come and go -/

/-- **A new key has a string of its own and no time.** -/
theorem dbAdd_spec (h : Follows s) (hnone : view s j key = none) (val : σ) :
    ∃ s', dbAdd s j key val = .ok s' ∧ Follows s' ∧ s'.dbnum = s.dbnum ∧ view s' = put (view s) j key (some (val, none)) := by
  have hfind := view_eq_none_iff.mp hnone
  have hfresh : ∀ {j' k}, k ∈ strings s j' → k.addr ≠ s.next := by
    intro j' k hk heq
    have hlive := h.live hk
    rw [heq, h.old (le_refl _)] at hlive
    cases hlive
  rw [dbAdd, find_dict h, hfind]
  refine ⟨_, rfl, ?_, rfl, ?_⟩
  · have hstrings : ∀ {j' k}, k ∈ strings (setDb (sdsdup s key).1 j { s.db j with dict := (s.db j).dict ++ [((sdsdup s key).2, val)] }) j' →
        k ∈ strings s j' ∨ j' = j ∧ k = ⟨s.next, key⟩ := by
      intro j' k hk
      by_cases hj : j' = j
      · subst hj
        rw [strings, db_setDb, List.map_append] at hk
        rcases List.mem_append.mp hk with hk | hk
        · exact Or.inl hk
        · exact Or.inr ⟨rfl, List.mem_singleton.mp hk⟩
      · rw [strings, db_setDb_ne _ _ hj] at hk
        exact Or.inl hk
    constructor
    · intro j' k hk
      rcases hstrings hk with hk | ⟨-, rfl⟩
      · exact (Function.update_of_ne (hfresh hk) _ _).trans (h.live hk)
      · exact Function.update_self _ _ _
    · intro a ha
      have hne : a ≠ s.next := by
        rintro rfl
        exact Nat.not_succ_le_self _ ha
      exact (Function.update_of_ne hne _ _).trans (h.old (Nat.le_of_succ_le ha))
    · intro j1 j2 k k' hk hk' heq
      rcases hstrings hk with hold | ⟨rfl, rfl⟩
      · rcases hstrings hk' with hold' | ⟨rfl, rfl⟩
        · exact h.apart hold hold' heq
        · exact absurd heq (hfresh hold)
      · rcases hstrings hk' with hold' | ⟨rfl, rfl⟩
        · exact absurd heq.symm (hfresh hold')
        · exact ⟨rfl, rfl⟩
    · intro j'
      by_cases hj : j' = j
      · subst hj
        rw [db_setDb]
        exact Keyed.nodup_snoc (h.nodup j') hfind
      · rw [db_setDb_ne _ _ hj]
        exact h.nodup j'
    · intro j'
      by_cases hj : j' = j
      · subst hj
        rw [db_setDb]
        exact h.nodup_expires j'
      · rw [db_setDb_ne _ _ hj]
        exact h.nodup_expires j'
    · intro j' e he
      by_cases hj : j' = j
      · subst hj
        rw [db_setDb] at he
        rw [strings, db_setDb, List.map_append]
        exact List.mem_append_left _ (h.follows he)
      · rw [db_setDb_ne _ _ hj] at he
        rw [strings, db_setDb_ne _ _ hj]
        exact h.follows he
  · have hview : view (sdsdup s key).1 = view s := rfl
    rw [← hview]
    refine view_setDb ?_
    funext key'
    have htext : keyText ((⟨s.next, key⟩ : Str), val) = key := rfl
    rw [entryOf, Keyed.find_snoc, htext]
    dsimp only
    by_cases hkey : key' = key
    · subst hkey
      rw [hfind, Option.none_or, if_pos rfl, Function.update_self]
      exact congrArg (fun t => some (val, t)) (timeOf_none h hfind)
    · rw [if_neg (Ne.symm hkey), Option.or_none, Function.update_of_ne hkey]
      rfl

/-- The time goes first, and nothing else. -/
theorem deleteExpire_spec (h : Follows s) (j : ℕ) (key : Sds) :
    ∃ s', deleteExpire s j key = .ok s' ∧ Follows s' ∧ s'.dbnum = s.dbnum ∧ (s'.db j).dict = (s.db j).dict ∧
      timeOf (s'.db j) = Function.update (timeOf (s.db j)) key none ∧ ∀ j', j' ≠ j → s'.db j' = s.db j' := by
  unfold deleteExpire
  split
  · rw [dictUnlink, find_expires h]
    refine ⟨_, rfl, follows_erase h j key, rfl, ?_, ?_, fun j' hj => db_setDb_ne s _ hj⟩
    · rw [db_setDb]
    · rw [db_setDb]
      exact timeOf_erase _ key
  · rename_i hlen
    have hnil := List.eq_nil_of_length_eq_zero (Nat.eq_zero_of_not_pos hlen)
    refine ⟨s, rfl, h, rfl, rfl, ?_, fun _ _ => rfl⟩
    funext key'
    by_cases hkey : key' = key
    · rw [hkey, Function.update_self, timeOf, hnil]
      rfl
    · rw [Function.update_of_ne hkey]

/-- The server without an entry, whose string is freed. -/
def unlinked (s : Server σ) (j : ℕ) (key : Sds) (str : Str) : Server σ :=
  sdsfree (setDb s j { s.db j with dict := Keyed.erase keyText (s.db j).dict key }) str

theorem db_unlinked {str : Str} : (unlinked s j key str).db j = { s.db j with dict := Keyed.erase keyText (s.db j).dict key } :=
  db_setDb _ _ _

theorem db_unlinked_ne (key : Sds) (str : Str) {j' : ℕ} (hj : j' ≠ j) : (unlinked s j key str).db j' = s.db j' := db_setDb_ne _ _ hj

/-- **A string may be freed once no time refers to it.** -/
theorem follows_free (h : Follows s) {de : Str × σ} (hfind : Keyed.find keyText (s.db j).dict key = some de)
    (htime : timeOf (s.db j) key = none) :
    Follows (unlinked s j key de.1) := by
  obtain ⟨hmem, hkey⟩ := Keyed.of_find hfind
  have hnone : ∀ e ∈ (s.db j).expires, keyText e ≠ key := by
    rw [timeOf, Option.map_eq_none_iff] at htime
    exact Keyed.find_eq_none_iff.mp htime
  have hstrings : ∀ {j' k}, k ∈ strings (unlinked s j key de.1) j' ↔
      k ∈ strings s j' ∧ (j' = j → k.text ≠ key) := by
    intro j' k
    by_cases hj : j' = j
    · subst hj
      rw [strings, db_unlinked, List.mem_map, strings, List.mem_map]
      constructor
      · rintro ⟨e, he, rfl⟩
        obtain ⟨he, hne⟩ := List.mem_filter.mp he
        exact ⟨⟨e, he, rfl⟩, fun _ => of_decide_eq_true hne⟩
      · rintro ⟨⟨e, he, rfl⟩, hne⟩
        exact ⟨e, List.mem_filter.mpr ⟨he, decide_eq_true (hne rfl)⟩, rfl⟩
    · rw [strings, db_unlinked_ne _ _ hj]
      exact ⟨fun hk => ⟨hk, fun heq => absurd heq hj⟩, fun hk => hk.1⟩
  constructor
  · intro j' k hk
    obtain ⟨hold, hne⟩ := hstrings.mp hk
    -- A string at the same place would be the freed one.
    have haddr : k.addr ≠ de.1.addr := by
      intro heq
      obtain ⟨hj, rfl⟩ := h.apart hold (mem_strings hmem) heq
      exact hne hj hkey
    exact (Function.update_of_ne haddr _ _).trans (h.live hold)
  · intro a ha
    have hfalse := h.old ha
    by_cases hk : a = de.1.addr
    · subst hk
      exact Function.update_self _ _ _
    · exact (Function.update_of_ne hk _ _).trans hfalse
  · exact fun hk hk' => h.apart (hstrings.mp hk).1 (hstrings.mp hk').1
  · intro j'
    by_cases hj : j' = j
    · subst hj
      rw [db_unlinked]
      exact Keyed.nodup_erase (h.nodup j') key
    · rw [db_unlinked_ne _ _ hj]
      exact h.nodup j'
  · intro j'
    by_cases hj : j' = j
    · subst hj
      rw [db_unlinked]
      exact h.nodup_expires j'
    · rw [db_unlinked_ne _ _ hj]
      exact h.nodup_expires j'
  · intro j' e he
    refine hstrings.mpr ?_
    by_cases hj : j' = j
    · subst hj
      rw [db_unlinked] at he
      exact ⟨h.follows he, fun _ => hnone e he⟩
    · rw [db_unlinked_ne _ _ hj] at he
      exact ⟨h.follows he, fun heq => absurd heq hj⟩

theorem dbAsyncDelete_eq (s : Server σ) (j : ℕ) (key : Sds) : dbAsyncDelete s j key = dbSyncDelete s j key := by
  unfold dbAsyncDelete dbSyncDelete
  congr 1
  funext s1
  cases dictUnlink s1.live (s1.db j).dict key with
  | error e => rfl
  | ok r =>
    show (match r.2 with | some de => _ | none => _) = Except.ok (match r.2 with | some de => _ | none => _)
    cases r.2 with
    | none => rfl
    | some de => rfl

/-- **A deleted key leaves both tables**, the times first. -/
theorem dbSyncDelete_spec (h : Follows s) (j : ℕ) (key : Sds) :
    ∃ s' deleted, dbSyncDelete s j key = .ok (s', deleted) ∧ Follows s' ∧ s'.dbnum = s.dbnum ∧ view s' = put (view s) j key none := by
  obtain ⟨s1, hexpire, h1, hdbnum, hdict, htime, hothers⟩ := deleteExpire_spec h j key
  have hview : ∀ {db : Db σ}, db.expires = (s1.db j).expires → db.dict = Keyed.erase keyText (s.db j).dict key →
      entryOf db = Function.update (entryOf (s.db j)) key none := by
    intro db hexp hd
    have ht : timeOf db = Function.update (timeOf (s.db j)) key none := by
      rw [← htime]
      funext key'
      rw [timeOf, hexp, timeOf]
    funext key'
    rw [entryOf, hd, Keyed.find_erase, ht]
    by_cases hkey : key' = key
    · rw [if_pos hkey, hkey, Option.map_none, Function.update_self]
    · rw [if_neg hkey, Function.update_of_ne hkey, Function.update_of_ne hkey, entryOf]
  have hput : ∀ {s' : Server σ}, (∀ j', j' ≠ j → s'.db j' = s1.db j') → entryOf (s'.db j) = Function.update (entryOf (s.db j)) key none →
      view s' = put (view s) j key none := by
    intro s' hne heq
    funext j'
    by_cases hj : j' = j
    · subst hj
      rw [put, Function.update_self, view, heq, view]
    · rw [put, Function.update_of_ne hj, view, hne j' hj, hothers j' hj, view]
  rw [dbSyncDelete, hexpire]
  dsimp only [Except.bind]
  rw [dictUnlink, find_dict h1]
  cases hfind : Keyed.find keyText (s1.db j).dict key with
  | none =>
    refine ⟨s1, false, rfl, h1, hdbnum, hput (fun _ _ => rfl) (hview rfl ?_)⟩
    rw [hdict] at hfind ⊢
    exact (List.filter_eq_self.mpr fun e he => decide_eq_true (Keyed.find_eq_none_iff.mp hfind e he)).symm
  | some de =>
    refine ⟨unlinked s1 j key de.1, true, rfl, follows_free h1 hfind ?_, hdbnum, hput (fun j' hj => db_unlinked_ne _ _ hj) ?_⟩
    · rw [htime, Function.update_self]
    · rw [db_unlinked]
      exact hview rfl (by rw [hdict])

theorem dbDelete_spec (lazy : Bool) (h : Follows s) (j : ℕ) (key : Sds) :
    ∃ s' deleted, dbDelete lazy s j key = .ok (s', deleted) ∧ Follows s' ∧ s'.dbnum = s.dbnum ∧ view s' = put (view s) j key none := by
  have hdelete := dbSyncDelete_spec h j key
  rw [dbDelete]
  cases lazy with
  | false => exact hdelete
  | true =>
    rw [if_pos rfl, dbAsyncDelete_eq]
    exact hdelete

/-! ### Whole databases -/

/-- Nothing is left of the databases that are emptied. -/
theorem emptyTables_spec (h : Follows s) (dbs : List ℕ) :
    Follows (emptyTables s dbs) ∧ view (emptyTables s dbs) = fun j => if j ∈ dbs then fun _ => none else view s j := by
  have hdb : ∀ j, (emptyTables s dbs).db j = if j ∈ dbs then ⟨[], []⟩ else s.db j := fun _ => rfl
  have hstrings : ∀ {j k}, k ∈ strings (emptyTables s dbs) j → j ∉ dbs ∧ k ∈ strings s j := by
    intro j k hk
    rw [strings, hdb] at hk
    split at hk
    · cases hk
    · rename_i hj
      exact ⟨hj, hk⟩
  refine ⟨⟨?_, ?_, fun hk hk' => h.apart (hstrings hk).2 (hstrings hk').2, fun j => ?_, fun j => ?_, ?_⟩, ?_⟩
  · intro j k hk
    obtain ⟨hj, hk⟩ := hstrings hk
    have hnot : (dbs.any fun j => (s.db j).dict.any fun de => decide (de.1.addr = k.addr)) = false := by
      rw [List.any_eq_false]
      intro j' hj' hany
      obtain ⟨de, hde, heq⟩ := List.any_eq_true.mp hany
      obtain ⟨rfl, -⟩ := h.apart (mem_strings hde) hk (of_decide_eq_true heq)
      exact hj hj'
    show (s.live k.addr && !dbs.any fun j => (s.db j).dict.any fun de => decide (de.1.addr = k.addr)) = true
    rw [h.live hk, hnot]
    rfl
  · intro a ha
    show (s.live a && !dbs.any fun j => (s.db j).dict.any fun de => decide (de.1.addr = a)) = false
    rw [h.old ha, Bool.false_and]
  · rw [hdb]
    split
    · exact List.nodup_nil
    · exact h.nodup j
  · rw [hdb]
    split
    · exact List.nodup_nil
    · exact h.nodup_expires j
  · intro j e he
    rw [hdb] at he
    rw [strings, hdb]
    split at he
    · cases he
    · rename_i hj
      rw [if_neg hj]
      exact h.follows he
  · funext j
    rw [view, hdb]
    split
    · rfl
    · rfl

/-- Two databases that change places take their times along. -/
theorem follows_permuted (h : Follows s) (p : Equiv.Perm ℕ) : Follows { s with db := fun j => s.db (p j) } where
  live := fun {j _} hk => @Follows.live σ s h (p j) _ hk
  old := h.old
  apart := by
    intro j j' k k' hk hk' heq
    obtain ⟨hj, hsame⟩ := @Follows.apart σ s h (p j) (p j') k k' hk hk' heq
    exact ⟨p.injective hj, hsame⟩
  nodup := fun j => h.nodup (p j)
  nodup_expires := fun j => h.nodup_expires (p j)
  follows := fun {j _} he => @Follows.follows σ s h (p j) _ he

end RedisZk.Expires
