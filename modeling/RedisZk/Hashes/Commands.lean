/-
# Commands on a hash

HSET, HSETNX, HDEL, HINCRBY and the commands that read, on the value of one key. A command
that writes creates the hash if there is no key, and HDEL removes the key with the last
field. Whatever the encoding and the thresholds, a command does to the map of the key
what it should and its reply is the one of the map.

An argument of a command is a string of its own, never a number in its place.

Key definitions: `exec`, `hincrbyCommand`, `KeyHolds`, `after`, `Answers`.
Key theorems: `incr_overflows_iff`, `exec_spec`.
-/
import RedisZk.Hashes.Types
import RedisZk.Util.Numbers

namespace RedisZk.Hashes

open Listing (Lists)
open Streams (Sds ll2string IsInt64)
open Util (string2ll LLONG_MIN LLONG_MAX)
open Ziplist (Value)

/-! ### Counting -/

/-- The test before an increment, which INCR has too. -/
def incrOverflows (oldvalue incr : ℤ) : Bool :=
  (incr < 0 && oldvalue < 0 && incr < LLONG_MIN - oldvalue) || (incr > 0 && oldvalue > 0 && incr > LLONG_MAX - oldvalue)

theorem incr_overflows_iff {oldvalue incr : ℤ} (hold : IsInt64 oldvalue) (hincr : IsInt64 incr) :
    incrOverflows oldvalue incr = true ↔ ¬IsInt64 (oldvalue + incr) := by
  obtain ⟨h1, h2⟩ := hold
  obtain ⟨h3, h4⟩ := hincr
  unfold incrOverflows IsInt64 LLONG_MIN LLONG_MAX
  simp only [Bool.or_eq_true, Bool.and_eq_true, decide_eq_true_eq]
  omega

/-! ### Replies -/

inductive Reply
  | int (n : ℤ)
  | bulk (s : Sds)
  | null
  /-- An array of fields and values with the length that is announced. -/
  | pairs (length : ℕ) (l : List (Sds × Sds))
  | err (text : String)

/-- The value of a key. -/
inductive Object
  | hash (o : Hash)
  /-- An object of another type. -/
  | other

def wrongtypeerr : String := "-WRONGTYPE Operation against a key holding the wrong kind of value"

def integerErr : String := "value is not an integer or out of range"

def hashIntegerErr : String := "hash value is not an integer"

def overflowErr : String := "increment or decrement would overflow"

def argsErr : String := "wrong number of arguments for HMSET"

/-! ### The commands -/

/-- What a command that writes works on; none for a key of another type. -/
def hashTypeLookupWriteOrCreate : Option Object → Option Hash
  | none => some createHashObject
  | some (.hash o) => some o
  | some .other => none

/-- The pairs of HSET: the hash, and how many fields were created. -/
def hsetLoop (config : Config) : Hash → List Sds → Option (Hash × ℕ)
  | o, field :: value :: args => do
    let (o, update) ← hashTypeSet config o field value
    let (o, created) ← hsetLoop config o args
    some (o, created + if update then 0 else 1)
  | o, _ => some (o, 0)

def hsetCommand (config : Config) (key : Option Object) (args : List Sds) : Option (Reply × Option Object) :=
  if args.length % 2 = 1 then some (.err argsErr, key)
  else
    match hashTypeLookupWriteOrCreate key with
    | none => some (.err wrongtypeerr, key)
    | some o => do
      let o ← hashTypeTryConversion config o args
      let (o, created) ← hsetLoop config o args
      some (.int created, some (.hash o))

def hsetnxCommand (config : Config) (key : Option Object) (field value : Sds) : Option (Reply × Option Object) :=
  match hashTypeLookupWriteOrCreate key with
  | none => some (.err wrongtypeerr, key)
  | some o => do
    let o ← hashTypeTryConversion config o [field, value]
    if hashTypeExists o field then some (.int 0, some (.hash o))
    else do
      let (o, _) ← hashTypeSet config o field value
      some (.int 1, some (.hash o))

/-- The number of a value, 0 if there is none; none if it is not a number. -/
def hashInteger : Option Value → Option ℤ
  | some (.str vstr) => string2ll vstr
  | some (.int value) => some value
  | none => some 0

def hincrbyCommand (config : Config) (key : Option Object) (field increment : Sds) : Option (Reply × Option Object) :=
  match string2ll increment with
  | none => some (.err integerErr, key)
  | some incr =>
    match hashTypeLookupWriteOrCreate key with
    | none => some (.err wrongtypeerr, key)
    | some o =>
      match hashInteger (hashTypeGetValue o field) with
      | none => some (.err hashIntegerErr, some (.hash o))
      | some value =>
        if incrOverflows value incr then some (.err overflowErr, some (.hash o))
        else do
          let (o, _) ← hashTypeSet config o field (ll2string (value + incr))
          some (.int (value + incr), some (.hash o))

/-- The fields of HDEL: what is left of the key, and how many were deleted. -/
def hdelLoop : Hash → List Sds → Option Object × ℕ
  | o, [] => (some (.hash o), 0)
  | o, field :: fields =>
    match hashTypeDelete o field with
    | (o, true) =>
      if hashTypeLength o = 0 then (none, 1)
      else
        let (key, deleted) := hdelLoop o fields
        (key, deleted + 1)
    | (o, false) => hdelLoop o fields

def hdelCommand (key : Option Object) (fields : List Sds) : Reply × Option Object :=
  match key with
  | none => (.int 0, none)
  | some .other => (.err wrongtypeerr, key)
  | some (.hash o) =>
    let (key, deleted) := hdelLoop o fields
    (.int deleted, key)

def hgetCommand (key : Option Object) (field : Sds) : Reply :=
  match key with
  | none => .null
  | some .other => .err wrongtypeerr
  | some (.hash o) =>
    match hashTypeGetValue o field with
    | none => .null
    | some value => .bulk value.text

/-- The pairs of a hash in the order of its iterator. -/
def hashPairs : Hash → Option (List (Sds × Sds))
  | .ziplist zl => (hashTypePairs zl).map texts
  | .ht dict => some dict

/-- None for the assertion that the announced length is that of the array. -/
def hgetallCommand (key : Option Object) : Option Reply :=
  match key with
  | none => some (.pairs 0 [])
  | some .other => some (.err wrongtypeerr)
  | some (.hash o) => do
    let l ← hashPairs o
    if 2 * l.length = hashTypeLength o * 2 then some (.pairs (hashTypeLength o * 2) l) else none

def hexistsCommand (key : Option Object) (field : Sds) : Reply :=
  match key with
  | none => .int 0
  | some .other => .err wrongtypeerr
  | some (.hash o) => .int (if hashTypeExists o field then 1 else 0)

def hlenCommand (key : Option Object) : Reply :=
  match key with
  | none => .int 0
  | some .other => .err wrongtypeerr
  | some (.hash o) => .int (hashTypeLength o)

/-- Of HSET there is a pair at least, and of HDEL a field, as the command table says. -/
inductive Command
  | hset (field value : Sds) (more : List Sds)
  | hsetnx (field value : Sds)
  | hdel (field : Sds) (more : List Sds)
  | hincrby (field increment : Sds)
  | hget (field : Sds)
  | hgetall
  | hexists (field : Sds)
  | hlen

/-- The reply, and the value of the key afterwards; none for an assertion or a panic. -/
def exec (config : Config) (key : Option Object) : Command → Option (Reply × Option Object)
  | .hset field value more => hsetCommand config key (field :: value :: more)
  | .hsetnx field value => hsetnxCommand config key field value
  | .hdel field more => some (hdelCommand key (field :: more))
  | .hincrby field increment => hincrbyCommand config key field increment
  | .hget field => some (hgetCommand key field, key)
  | .hgetall => (hgetallCommand key).map fun reply => (reply, key)
  | .hexists field => some (hexistsCommand key field, key)
  | .hlen => some (hlenCommand key, key)

/-! ### What they are for -/

/-- The fields and values of a key. -/
abbrev Map := Sds → Option Sds

/-- A key is there exactly if its map has a field. -/
def KeyHolds (key : Option Object) (m : Map) : Prop :=
  match key with
  | none => m = fun _ => none
  | some (.hash o) => Holds o m ∧ m ≠ fun _ => none
  | some .other => False

/-- The map after the pairs of HSET. -/
def setPairs : Map → List Sds → Map
  | m, field :: value :: args => setPairs (Function.update m field (some value)) args
  | m, _ => m

/-- How many of the pairs create a field. -/
def created : Map → List Sds → ℕ
  | m, field :: value :: args => created (Function.update m field (some value)) args + if (m field).isSome then 0 else 1
  | _, _ => 0

def deletedMap (m : Map) (fields : List Sds) : Map := fields.foldl (fun m field => Function.update m field none) m

def deletedCount : Map → List Sds → ℕ
  | _, [] => 0
  | m, field :: fields => deletedCount (Function.update m field none) fields + if (m field).isSome then 1 else 0

/-- The number of a field, 0 if there is none. -/
def integerOf (m : Map) (field : Sds) : Option ℤ :=
  match m field with
  | none => some 0
  | some s => string2ll s

/-- The sum that HINCRBY stores, or its error. -/
def sumOf (m : Map) (field increment : Sds) : Except String ℤ :=
  match string2ll increment with
  | none => .error integerErr
  | some incr =>
    match integerOf m field with
    | none => .error hashIntegerErr
    | some value => if -2 ^ 63 ≤ value + incr ∧ value + incr < 2 ^ 63 then .ok (value + incr) else .error overflowErr

/-- The map after a command. -/
def after (m : Map) : Command → Map
  | .hset field value more => if more.length % 2 = 1 then m else setPairs m (field :: value :: more)
  | .hsetnx field value => if (m field).isSome then m else Function.update m field (some value)
  | .hdel field more => deletedMap m (field :: more)
  | .hincrby field increment =>
    match sumOf m field increment with
    | .ok sum => Function.update m field (some (ll2string sum))
    | .error _ => m
  | _ => m

/-- The replies of a command to a map: one, but for the order of HGETALL. -/
def Answers (m : Map) (reply : Reply) : Command → Prop
  | .hset field value more => reply = if more.length % 2 = 1 then .err argsErr else .int (created m (field :: value :: more))
  | .hsetnx field _ => reply = .int (if (m field).isSome then 0 else 1)
  | .hdel field more => reply = .int (deletedCount m (field :: more))
  | .hincrby field increment => reply = match sumOf m field increment with
    | .ok sum => .int sum
    | .error err => .err err
  | .hget field => reply = match m field with
    | none => .null
    | some value => .bulk value
  | .hgetall => ∃ l, Lists m l ∧ reply = .pairs (2 * l.length) l
  | .hexists field => reply = .int (if (m field).isSome then 1 else 0)
  | .hlen => ∃ l, Lists m l ∧ reply = .int l.length

variable {config : Config} {key : Option Object} {m : Map} {o : Hash}

theorem update_ne_empty (m : Map) (field value : Sds) : Function.update m field (some value) ≠ fun _ => none := by
  intro h
  have hat := congrFun h field
  rw [Function.update_self] at hat
  cases hat

/-- A hash without fields is one of the empty map. -/
theorem length_eq_zero (h : Holds o m) : hashTypeLength o = 0 ↔ m = fun _ => none := by
  obtain ⟨l, hl⟩ := exists_lists h
  rw [hashTypeLength_spec h hl, List.length_eq_zero_iff, hl.eq_nil_iff]

theorem lookup_spec (h : KeyHolds key m) : ∃ o, hashTypeLookupWriteOrCreate key = some o ∧ Holds o m := by
  cases key with
  | none =>
    obtain rfl : m = fun _ => none := h
    exact ⟨_, rfl, holds_empty⟩
  | some o =>
    cases o with
    | hash o => exact ⟨o, rfl, h.1⟩
    | other => exact absurd h id

/-! ### Writing -/

theorem hsetLoop_spec (config : Config) : ∀ (args : List Sds) {o : Hash} {m : Map}, Holds o m →
    ∃ o', hsetLoop config o args = some (o', created m args) ∧ Holds o' (setPairs m args)
  | [], o, m, h => ⟨o, rfl, h⟩
  | [_], o, m, h => ⟨o, rfl, h⟩
  | field :: value :: args, o, m, h => by
    obtain ⟨o1, hset, h1⟩ := hashTypeSet_spec config h field value
    obtain ⟨o2, hloop, h2⟩ := hsetLoop_spec config args h1
    refine ⟨o2, ?_, h2⟩
    rw [hsetLoop, hset, some_bind]
    dsimp only
    rw [hloop, some_bind]
    rfl

theorem setPairs_ne_empty : ∀ (args : List Sds) {m : Map}, (m ≠ fun _ => none) → setPairs m args ≠ fun _ => none
  | [], _, h => h
  | [_], _, h => h
  | field :: value :: args, m, _ => setPairs_ne_empty args (update_ne_empty m field value)

theorem hsetCommand_spec (h : KeyHolds key m) (field value : Sds) (more : List Sds) :
    ∃ reply key', hsetCommand config key (field :: value :: more) = some (reply, key') ∧
      KeyHolds key' (after m (.hset field value more)) ∧ Answers m reply (.hset field value more) := by
  have hlen : (field :: value :: more).length % 2 = more.length % 2 := by
    rw [List.length_cons, List.length_cons]
    omega
  unfold hsetCommand after Answers
  dsimp only
  rw [hlen]
  by_cases hodd : more.length % 2 = 1
  · rw [if_pos hodd, if_pos hodd, if_pos hodd]
    exact ⟨_, _, rfl, h, rfl⟩
  · obtain ⟨o, hlookup, ho⟩ := lookup_spec h
    obtain ⟨o1, htry, h1⟩ := hashTypeTryConversion_spec config ho (field :: value :: more)
    obtain ⟨o2, hloop, h2⟩ := hsetLoop_spec config (field :: value :: more) h1
    rw [if_neg hodd, if_neg hodd, if_neg hodd, hlookup]
    dsimp only
    rw [htry, some_bind, hloop]
    exact ⟨_, _, rfl, ⟨h2, setPairs_ne_empty more (update_ne_empty m field value)⟩, rfl⟩

theorem hsetnxCommand_spec (h : KeyHolds key m) (field value : Sds) :
    ∃ reply key', hsetnxCommand config key field value = some (reply, key') ∧
      KeyHolds key' (after m (.hsetnx field value)) ∧ Answers m reply (.hsetnx field value) := by
  obtain ⟨o, hlookup, ho⟩ := lookup_spec h
  obtain ⟨o1, htry, h1⟩ := hashTypeTryConversion_spec config ho [field, value]
  unfold hsetnxCommand after Answers
  dsimp only
  rw [hlookup]
  dsimp only
  rw [htry, some_bind, hashTypeExists_spec h1]
  by_cases hin : (m field).isSome = true
  · rw [if_pos hin, if_pos hin, if_pos hin]
    refine ⟨_, _, rfl, ⟨h1, ?_⟩, rfl⟩
    rintro rfl
    exact Bool.false_ne_true hin
  · obtain ⟨o2, hset, h2⟩ := hashTypeSet_spec config h1 field value
    rw [if_neg hin, if_neg hin, if_neg hin, hset]
    exact ⟨_, _, rfl, ⟨h2, update_ne_empty m field value⟩, rfl⟩

/-! ### Deleting -/

theorem deletedMap_empty (fields : List Sds) : deletedMap (fun _ => none) fields = fun _ => none := by
  induction fields with
  | nil => rfl
  | cons field fields ih =>
    have hsame : Function.update (fun _ => none : Map) field none = fun _ => none := Function.update_eq_self field _
    rw [deletedMap, List.foldl_cons, hsame]
    exact ih

theorem deletedCount_empty (fields : List Sds) : deletedCount (fun _ => none) fields = 0 := by
  induction fields with
  | nil => rfl
  | cons field fields ih =>
    have hsame : Function.update (fun _ => none : Map) field none = fun _ => none := Function.update_eq_self field _
    rw [deletedCount, hsame, ih]
    rfl

/-- **The key goes with the last field**, and the fields that follow are not there either. -/
theorem hdelLoop_spec : ∀ (fields : List Sds) {o : Hash} {m : Map}, Holds o m → (m ≠ fun _ => none) →
    ∃ key', hdelLoop o fields = (key', deletedCount m fields) ∧ KeyHolds key' (deletedMap m fields) := by
  intro fields
  induction fields with
  | nil => exact fun h hne => ⟨_, rfl, h, hne⟩
  | cons field fields ih =>
    intro o m h hne
    obtain ⟨o', hdel, h'⟩ := hashTypeDelete_spec h field
    have hmap : deletedMap m (field :: fields) = deletedMap (Function.update m field none) fields := rfl
    rw [hdelLoop, hdel, hmap, deletedCount]
    cases hin : (m field).isSome with
    | true =>
      dsimp only
      by_cases hzero : hashTypeLength o' = 0
      · rw [if_pos hzero, (length_eq_zero h').mp hzero, deletedMap_empty, deletedCount_empty]
        exact ⟨none, rfl, rfl⟩
      · obtain ⟨key', hloop, hkey⟩ := ih h' fun heq => hzero ((length_eq_zero h').mpr heq)
        rw [if_neg hzero, hloop]
        exact ⟨key', rfl, hkey⟩
    | false =>
      have hnone : m field = none := by
        rw [← Option.not_isSome_iff_eq_none, hin]
        exact Bool.false_ne_true
      have hsame : Function.update m field none = m := by rw [← hnone, Function.update_eq_self]
      rw [hsame] at h' ⊢
      exact ih h' hne

theorem hdelCommand_spec (h : KeyHolds key m) (field : Sds) (more : List Sds) :
    KeyHolds (hdelCommand key (field :: more)).2 (after m (.hdel field more)) ∧
      Answers m (hdelCommand key (field :: more)).1 (.hdel field more) := by
  cases key with
  | none =>
    obtain rfl : m = fun _ => none := h
    exact ⟨deletedMap_empty _, by rw [Answers, deletedCount_empty]; rfl⟩
  | some o =>
    cases o with
    | other => exact absurd h id
    | hash o =>
      obtain ⟨key', hloop, hkey⟩ := hdelLoop_spec (field :: more) h.1 h.2
      rw [hdelCommand, hloop]
      exact ⟨hkey, rfl⟩

/-! ### Counting in a hash -/

/-- The number of a field, as an entry or as a text. -/
theorem hashInteger_spec (h : Holds o m) (field : Sds) : hashInteger (hashTypeGetValue o field) = integerOf m field := by
  have hvalue := hashTypeGetValue_spec h field
  unfold integerOf
  rw [← hvalue]
  cases hget : hashTypeGetValue o field with
  | none => rfl
  | some e =>
    cases e with
    | str s => rfl
    | int v =>
      have hv : IsInt64 v := hashTypeGetValue_proper h hget v rfl
      show some v = string2ll (ll2string v)
      rw [Util.string2ll_eq, Streams.lpStringToInt64_ll2string hv]

theorem isInt64_string2ll {s : Sds} {v : ℤ} (h : string2ll s = some v) : IsInt64 v := by
  rw [Util.string2ll_eq] at h
  exact Streams.isInt64_lpStringToInt64 h

theorem isInt64_integerOf {field : Sds} {v : ℤ} (h : integerOf m field = some v) : IsInt64 v := by
  unfold integerOf at h
  split at h
  · cases h
    exact ⟨by decide, by decide⟩
  · exact isInt64_string2ll h

/-- **An increment stores the sum, or nothing changes.** A hash that was just created has no number
that could overflow. -/
theorem hincrbyCommand_spec (h : KeyHolds key m) (field increment : Sds) :
    ∃ reply key', hincrbyCommand config key field increment = some (reply, key') ∧
      KeyHolds key' (after m (.hincrby field increment)) ∧ Answers m reply (.hincrby field increment) := by
  unfold hincrbyCommand after Answers sumOf
  dsimp only
  cases hincr : string2ll increment with
  | none => exact ⟨_, _, rfl, h, rfl⟩
  | some incr =>
    obtain ⟨o, hlookup, ho⟩ := lookup_spec h
    have hincr64 := isInt64_string2ll hincr
    dsimp only
    rw [hlookup]
    dsimp only
    rw [hashInteger_spec ho]
    -- The key is as it was unless a hash was created for it.
    have hkept : (m ≠ fun _ => none) → KeyHolds (some (.hash o)) m := fun hne => ⟨ho, hne⟩
    cases hvalue : integerOf m field with
    | none =>
      refine ⟨_, _, rfl, hkept ?_, rfl⟩
      rintro rfl
      cases hvalue
    | some value =>
      have hvalue64 := isInt64_integerOf hvalue
      have hiff := incr_overflows_iff hvalue64 hincr64
      dsimp only
      by_cases hover : incrOverflows value incr = true
      · have hout : ¬(-2 ^ 63 ≤ value + incr ∧ value + incr < 2 ^ 63) := hiff.mp hover
        rw [if_pos hover, if_neg hout]
        refine ⟨_, _, rfl, hkept ?_, rfl⟩
        rintro rfl
        obtain rfl : 0 = value := Option.some.inj hvalue
        rw [Int.zero_add] at hout
        exact hout hincr64
      · have hin : -2 ^ 63 ≤ value + incr ∧ value + incr < 2 ^ 63 := Decidable.not_not.mp fun hn => hover (hiff.mpr hn)
        obtain ⟨o1, hset, h1⟩ := hashTypeSet_spec config ho field (ll2string (value + incr))
        rw [if_neg hover, if_pos hin, hset]
        exact ⟨_, _, rfl, ⟨h1, update_ne_empty m field _⟩, rfl⟩

/-! ### Reading -/

theorem hgetCommand_spec (h : KeyHolds key m) (field : Sds) : Answers m (hgetCommand key field) (.hget field) := by
  cases key with
  | none =>
    obtain rfl : m = fun _ => none := h
    rfl
  | some o =>
    cases o with
    | other => exact absurd h id
    | hash o =>
      have hvalue := hashTypeGetValue_spec h.1 field
      unfold Answers
      dsimp only
      rw [hgetCommand, ← hvalue]
      cases hashTypeGetValue o field with
      | none => rfl
      | some e => rfl

/-- The pairs that the iterator visits are those of the map. -/
theorem hashPairs_spec (h : Holds o m) : ∃ l, hashPairs o = some l ∧ Lists m l := by
  cases o with
  | ziplist zl =>
    obtain ⟨ps, rfl, -, hlists⟩ := h
    exact ⟨texts ps, by rw [hashPairs, hashTypePairs_flat]; rfl, hlists⟩
  | ht dict => exact ⟨dict, rfl, h⟩

theorem hgetallCommand_spec (h : KeyHolds key m) : ∃ reply, hgetallCommand key = some reply ∧ Answers m reply .hgetall := by
  cases key with
  | none =>
    obtain rfl : m = fun _ => none := h
    exact ⟨_, rfl, [], Lists.nil, rfl⟩
  | some o =>
    cases o with
    | other => exact absurd h id
    | hash o =>
      obtain ⟨l, hpairs, hl⟩ := hashPairs_spec h.1
      have hlen := hashTypeLength_spec h.1 hl
      refine ⟨.pairs (2 * l.length) l, ?_, l, hl, rfl⟩
      rw [hgetallCommand, hpairs, some_bind, hlen, if_pos (Nat.mul_comm _ _), Nat.mul_comm]

theorem hexistsCommand_spec (h : KeyHolds key m) (field : Sds) : Answers m (hexistsCommand key field) (.hexists field) := by
  cases key with
  | none =>
    obtain rfl : m = fun _ => none := h
    rfl
  | some o =>
    cases o with
    | other => exact absurd h id
    | hash o =>
      unfold Answers
      dsimp only
      rw [hexistsCommand, hashTypeExists_spec h.1]

theorem hlenCommand_spec (h : KeyHolds key m) : Answers m (hlenCommand key) .hlen := by
  cases key with
  | none =>
    obtain rfl : m = fun _ => none := h
    exact ⟨[], Lists.nil, rfl⟩
  | some o =>
    cases o with
    | other => exact absurd h id
    | hash o =>
      obtain ⟨l, hl⟩ := exists_lists h.1
      exact ⟨l, hl, by rw [hlenCommand, hashTypeLength_spec h.1 hl]⟩

/-- **The spec of a command**, in any encoding and with any thresholds. -/
theorem exec_spec (config : Config) (h : KeyHolds key m) (c : Command) :
    ∃ reply key', exec config key c = some (reply, key') ∧ KeyHolds key' (after m c) ∧ Answers m reply c := by
  cases c with
  | hset field value more => exact hsetCommand_spec h field value more
  | hsetnx field value => exact hsetnxCommand_spec h field value
  | hdel field more => exact ⟨_, _, rfl, hdelCommand_spec h field more⟩
  | hincrby field increment => exact hincrbyCommand_spec h field increment
  | hget field => exact ⟨_, _, rfl, h, hgetCommand_spec h field⟩
  | hgetall =>
    obtain ⟨reply, hrun, hreply⟩ := hgetallCommand_spec h
    exact ⟨reply, key, by rw [exec, hrun]; rfl, h, hreply⟩
  | hexists field => exact ⟨_, _, rfl, h, hexistsCommand_spec h field⟩
  | hlen => exact ⟨_, _, rfl, h, hlenCommand_spec h⟩

end RedisZk.Hashes
