/-
# Counters

INCR, DECR, INCRBY, DECRBY and HINCRBY over the objects of a keyspace. The number is written
in place if its object is one key's alone, and replaced by a shared integer or a new object
otherwise. The sum is stored and replied, or an error is replied and nothing changes, but for
DECRBY with an operand that has no negation.

Key definitions: `incrDecrCommand`, `hincrbyCommand`, `exec`, `wanted`, `ExactOrUntouched`.
Key theorems: `incrDecrCommand_spec`, `hincrbyCommand_spec`, `counters_exact`.
-/
import RedisZk.Counters.Objects

namespace RedisZk.Counters

open Streams (Sds ll2string IsInt64)
open Hashes (Hash KeyHolds incrOverflows wrongtypeerr integerErr overflowErr)
open Util (string2ll LLONG_MIN LLONG_MAX)
open Networking (sds)

variable {σ : Type}

/-! ### The commands -/

inductive Reply
  /-- An integer, from its text. -/
  | colon (text : Sds)
  | err (text : String)

/-- The text of a string object. -/
def Val.text : Val σ → Option Sds
  | .sds s => some s
  | .int v => some (ll2string v)
  | _ => none

/-- `checkType` for a string. -/
def otherType : Option (Val σ) → Bool
  | none => false
  | some (.sds _) => false
  | some (.int _) => false
  | some _ => true

/-- 0 for a key that is not there; none if the string is not a number. -/
def getLongLongFromObject : Option (Val σ) → Option ℤ
  | none => some 0
  | some (.sds s) => string2ll s
  | some (.int v) => some v
  | some _ => none

/-- Whether the number can be written in place. -/
def inPlace (o : Robj σ) (value : ℤ) : Bool :=
  match o.val with
  | .int _ => o.refcount = 1 && (value < 0 || OBJ_SHARED_INTEGERS ≤ value) && LLONG_MIN ≤ value && value ≤ LLONG_MAX
  | _ => false

/-- The object that has the number, and the keyspace with it. -/
def storeInteger (server : Server) (ks : Keyspace σ) (key : Key) (value : ℤ) : Option (Addr × Robj σ) → Option (Addr × Keyspace σ)
  | some (a, o) =>
    if inPlace o value then some (a, setPtr ks a (.int value))
    else
      let (ks, new) := createStringObjectFromLongLongForValue server ks value
      (dbOverwrite ks key new).map fun ks => (new, ks)
  | none =>
    let (ks, new) := createStringObjectFromLongLongForValue server ks value
    (dbAdd ks key new).map fun ks => (new, ks)

/-- The reply is the text of the object that was stored. -/
def incrDecrCommand (server : Server) (ks : Keyspace σ) (key : Key) (incr : ℤ) : Option (Reply × Keyspace σ) :=
  let ks := expireIfNeeded server ks key
  let o := lookupKey ks key
  let val := o.map fun p => p.2.val
  if otherType val then some (.err wrongtypeerr, ks)
  else
    match getLongLongFromObject val with
    | none => some (.err integerErr, ks)
    | some oldvalue =>
      if incrOverflows oldvalue incr then some (.err overflowErr, ks)
      else do
        let (new, ks) ← storeInteger server ks key (oldvalue + incr) o
        let text ← (ks.store.heap new).bind fun o => o.val.text
        some (.colon text, ks)

/-- The negation of a `long long`, as the machine has it. -/
def neg64 (v : ℤ) : ℤ := (-v).bmod (2 ^ 64)

def incrbyCommand (server : Server) (ks : Keyspace σ) (key : Key) (operand : Sds) : Option (Reply × Keyspace σ) :=
  match string2ll operand with
  | none => some (.err integerErr, ks)
  | some incr => incrDecrCommand server ks key incr

def decrbyCommand (server : Server) (ks : Keyspace σ) (key : Key) (operand : Sds) : Option (Reply × Keyspace σ) :=
  match string2ll operand with
  | none => some (.err integerErr, ks)
  | some incr => incrDecrCommand server ks key (neg64 incr)

def toObject : Val σ → Hashes.Object
  | .hash o => .hash o
  | _ => .other

/-- The key with the hash that a command leaves. -/
def storeHash (ks : Keyspace σ) (key : Key) : Option (Addr × Robj σ) → Option Hashes.Object → Option (Keyspace σ)
  | none, some (.hash o) =>
    let (ks, new) := createObject ks (.hash o)
    dbAdd ks key new
  | some (a, _), some (.hash o) => some (setPtr ks a (.hash o))
  | _, _ => some ks

def hashReply : Hashes.Reply → Option Reply
  | .int n => some (.colon (ll2string n))
  | .err text => some (.err text)
  | _ => none

/-- The operand is read before the key is looked up. -/
def hincrbyCommand (config : Hashes.Config) (server : Server) (ks : Keyspace σ) (key : Key) (field operand : Sds) :
    Option (Reply × Keyspace σ) :=
  match string2ll operand with
  | none => some (.err integerErr, ks)
  | some _ => do
    let ks := expireIfNeeded server ks key
    let o := lookupKey ks key
    let (reply, object) ← Hashes.hincrbyCommand config (o.map fun p => toObject p.2.val) field operand
    let ks ← storeHash ks key o object
    let reply ← hashReply reply
    some (reply, ks)

inductive Command
  | incr (key : Key)
  | decr (key : Key)
  | incrby (key : Key) (operand : Sds)
  | decrby (key : Key) (operand : Sds)
  | hincrby (key : Key) (field operand : Sds)

/-- The reply and the keyspace afterwards; none for an assertion. -/
def exec (config : Hashes.Config) (server : Server) (ks : Keyspace σ) : Command → Option (Reply × Keyspace σ)
  | .incr key => incrDecrCommand server ks key 1
  | .decr key => incrDecrCommand server ks key (-1)
  | .incrby key operand => incrbyCommand server ks key operand
  | .decrby key operand => decrbyCommand server ks key operand
  | .hincrby key field operand => hincrbyCommand config server ks key field operand

/-! ### What they are for -/

/-- The number of a field of an object: 0 if there is none yet. -/
def fieldInteger (object : Option Hashes.Object) (field : Sds) : Option ℤ :=
  match object with
  | none => some 0
  | some (.hash o) => Hashes.hashInteger (Hashes.hashTypeGetValue o field)
  | some .other => none

namespace Command

def key : Command → Key
  | incr key => key
  | decr key => key
  | incrby key _ => key
  | decrby key _ => key
  | hincrby key _ _ => key

/-- What is to be added, as an integer; none if the operand is no `long long`. -/
def amount : Command → Option ℤ
  | incr _ => some 1
  | decr _ => some (-1)
  | incrby _ operand => string2ll operand
  | decrby _ operand => (string2ll operand).map Neg.neg
  | hincrby _ _ operand => string2ll operand

/-- The number where the command counts: 0 if there is none yet, none if there is something else. -/
def integerIn (val : Option (Val σ)) : Command → Option ℤ
  | hincrby _ field _ => fieldInteger (val.map toObject) field
  | _ => getLongLongFromObject val

/-- The number is where the command counts, and the other fields of a hash are as they were. -/
def StoredIn (before after : Option (Val σ)) (n : ℤ) : Command → Prop
  | hincrby _ field _ => ∃ m o, KeyHolds (before.map toObject) m ∧ after = some (.hash o) ∧
      KeyHolds (some (.hash o)) (Function.update m field (some (ll2string n)))
  | _ => after.bind Val.text = some (ll2string n)

end Command

/-- What a command finds under its key. -/
def found (server : Server) (ks : Keyspace σ) (key : Key) : Option (Val σ) := (expireIfNeeded server ks key).store.value key

/-- The sum, of any size. -/
def wanted (server : Server) (ks : Keyspace σ) (c : Command) : Option ℤ := do
  let amount ← c.amount
  let old ← c.integerIn (found server ks c.key)
  some (old + amount)

/-- The sum is replied and stored, the key keeps its time, and no other key changes. -/
structure Exact (server : Server) (ks : Keyspace σ) (c : Command) (n : ℤ) (reply : Reply) (ks' : Keyspace σ) : Prop where
  reply : reply = .colon (ll2string n)
  stored : c.StoredIn (found server ks c.key) (ks'.store.value c.key) n
  expires : ks'.expires c.key = (expireIfNeeded server ks c.key).expires c.key
  others : Others ks ks' c.key

/-- The reply is an error, and every key is as it was. -/
structure Untouched (ks : Keyspace σ) (reply : Reply) (ks' : Keyspace σ) : Prop where
  reply : ∃ text, reply = .err text
  value : ∀ key, ks'.store.value key = ks.store.value key
  expires : ∀ key, ks'.expires key = ks.expires key

/-- The sum if it is a `long long`, and nothing otherwise. -/
def ExactOrUntouched (server : Server) (ks : Keyspace σ) (c : Command) (reply : Reply) (ks' : Keyspace σ) : Prop :=
  (∀ n, wanted server ks c = some n → IsInt64 n → Exact server ks c n reply ks') ∧
    ((∀ n, wanted server ks c = some n → ¬IsInt64 n) → Untouched ks reply ks')

/-- DECRBY of a number with an operand that has no negation. -/
def NegatesMin (server : Server) (ks : Keyspace σ) (c : Command) : Prop :=
  ∃ key operand old, c = .decrby key operand ∧ string2ll operand = some LLONG_MIN ∧ c.integerIn (found server ks key) = some old

variable {ks : Keyspace σ} {key : Key} {server : Server}

theorem wanted_eq {c : Command} {amount : ℤ} (h : c.amount = some amount) :
    wanted server ks c = (c.integerIn (found server ks c.key)).map fun old => old + amount := by
  unfold wanted
  rw [h, some_bind]
  cases c.integerIn (found server ks c.key) with
  | none => rfl
  | some old => rfl

theorem wanted_none {c : Command} (h : c.amount = none) : wanted server ks c = none := by
  unfold wanted
  rw [h]
  rfl

/-! ### Storing a number -/

theorem lookupKey_value (ks : Keyspace σ) (key : Key) : (lookupKey ks key).map (fun p => p.2.val) = ks.store.value key := by
  unfold lookupKey Store.value
  cases ks.store.dict key with
  | none => rfl
  | some a =>
    rw [some_bind, Option.bind_some]
    cases ks.store.heap a with
    | none => rfl
    | some o => rfl

theorem lookupKey_cases (h : ks.Valid) (key : Key) : (lookupKey ks key = none ∧ ks.store.dict key = none) ∨
    ∃ a o, lookupKey ks key = some (a, o) ∧ ks.store.dict key = some a ∧ ks.store.heap a = some o := by
  unfold lookupKey
  cases hkey : ks.store.dict key with
  | none => exact Or.inl ⟨rfl, rfl⟩
  | some a =>
    obtain ⟨o, ho⟩ := h.sound.found hkey
    rw [some_bind, ho]
    exact Or.inr ⟨a, o, rfl, rfl, ho⟩

theorem proper_int {n : ℤ} (hn : IsInt64 n) : Proper (.int n : Val σ) := by
  refine ⟨fun m hm => ?_, nofun⟩
  cases hm
  exact hn

/-- **A number is stored in one of three ways**, each with its value under the key only. -/
theorem storeInteger_spec (server : Server) (h : ks.Valid) (key : Key) {n : ℤ} (hn : IsInt64 n) :
    ∃ new ks' o, storeInteger server ks key n (lookupKey ks key) = some (new, ks') ∧ ks'.Valid ∧ ks'.store.heap new = some o ∧
      o.val = .int n ∧ ks'.store.value key = some (.int n) ∧ Others ks ks' key ∧ ks'.expires = ks.expires := by
  obtain ⟨ks1, new, hcreate, h1, hhold, hvalue, hdict, hexpires⟩ := createStringObject_spec server h hn true
  have hothers1 : Others ks ks1 key := ⟨fun k _ => hvalue k, fun k _ => congrFun hexpires k⟩
  rcases lookupKey_cases h key with ⟨hlookup, hkey⟩ | ⟨a, o, hlookup, hkey, ho⟩
  · obtain ⟨ks', hadd, h', hnew, hval, hothers, hexpires'⟩ := dbAdd_spec h1 (by rw [hdict]; exact hkey) hhold
    obtain ⟨o, ho, hoval⟩ := Store.of_value hnew hval
    refine ⟨new, ks', o, ?_, h', ho, hoval, hval, hothers1.trans hothers, hexpires'.trans hexpires⟩
    rw [hlookup, storeInteger, createStringObjectFromLongLongForValue, hcreate]
    dsimp only
    rw [hadd]
    rfl
  · rw [hlookup, storeInteger]
    by_cases hplace : inPlace o n = true
    · rw [if_pos hplace]
      have hone : o.refcount = 1 := by
        unfold inPlace at hplace
        split at hplace
        · rw [Bool.and_eq_true, Bool.and_eq_true, Bool.and_eq_true, decide_eq_true_eq] at hplace
          exact hplace.1.1.1
        · cases hplace
      have hshared : ∀ i < OBJ_SHARED_INTEGERS, a ≠ .sharedInteger i := by
        rintro i hi rfl
        obtain rfl : _ = o := Option.some.inj ((h.shared i hi).symm.trans ho)
        exact absurd hone fixed_ne_one
      obtain ⟨h', hself, hval, hothers, hexpires'⟩ := setPtr_spec h (proper_int hn) hkey ho
        (fun k hk => Store.sole h.sound fixed_ne_one ho hone hkey hk) hshared
      exact ⟨a, _, _, rfl, h', hself, rfl, hval, hothers, hexpires'⟩
    · obtain ⟨ks', hover, h', hnew, hval, hothers, hexpires'⟩ := dbOverwrite_spec h1 (by rw [hdict]; exact hkey) hhold
      obtain ⟨o, ho, hoval⟩ := Store.of_value hnew hval
      refine ⟨new, ks', o, ?_, h', ho, hoval, hval, hothers1.trans hothers, hexpires'.trans hexpires⟩
      rw [if_neg hplace, createStringObjectFromLongLongForValue, hcreate]
      dsimp only
      rw [hover]
      rfl

/-! ### Strings -/

/-- The sum of a number and what is stored is stored and replied. -/
structure Done (server : Server) (ks : Keyspace σ) (key : Key) (n : ℤ) (reply : Reply) (ks' : Keyspace σ) : Prop where
  reply : reply = .colon (ll2string n)
  stored : (ks'.store.value key).bind Val.text = some (ll2string n)
  expires : ks'.expires key = (expireIfNeeded server ks key).expires key
  others : Others ks ks' key

theorem isInt64_getLongLongFromObject (h : ks.Valid) {v : ℤ} (hv : getLongLongFromObject (ks.store.value key) = some v) : IsInt64 v := by
  cases hval : ks.store.value key with
  | none =>
    rw [hval] at hv
    cases hv
    exact ⟨by decide, by decide⟩
  | some val =>
    rw [hval] at hv
    cases val with
    | sds s => exact Hashes.isInt64_string2ll hv
    | int n =>
      cases hv
      unfold Store.value at hval
      obtain ⟨a, -, hval⟩ := Option.bind_eq_some_iff.mp hval
      obtain ⟨o, ho, hoval⟩ := Option.map_eq_some_iff.mp hval
      exact h.longs ho hoval
    | hash o => cases hv
    | other x => cases hv

theorem otherType_none {val : Option (Val σ)} (h : otherType val = true) : getLongLongFromObject val = none := by
  cases val with
  | none => cases h
  | some v =>
    cases v with
    | sds s => cases h
    | int n => cases h
    | hash o => rfl
    | other x => rfl

/-- A command that finds something finds the keyspace as it is. -/
theorem unchanged_of_found (h : ks.Valid) (hfound : found server ks key ≠ none) : expireIfNeeded server ks key = ks := by
  obtain ⟨-, -, heq | ⟨hdict, -⟩⟩ := expireIfNeeded_spec server h key
  · exact heq
  · exact absurd (Store.value_none hdict) hfound

theorem untouched_err (ks : Keyspace σ) (text : String) : Untouched ks (.err text) ks := ⟨⟨text, rfl⟩, fun _ => rfl, fun _ => rfl⟩

/-- **An integer is added, or nothing changes.** With a key that is not there nothing can overflow, so
an error changes no key that has expired either. -/
theorem incrDecrCommand_spec (server : Server) (h : ks.Valid) (key : Key) {incr : ℤ} (hincr : IsInt64 incr) :
    ∃ reply ks', incrDecrCommand server ks key incr = some (reply, ks') ∧ ks'.Valid ∧
      ((∃ old, getLongLongFromObject (found server ks key) = some old ∧ IsInt64 (old + incr) ∧ Done server ks key (old + incr) reply ks') ∨
        (∀ old, getLongLongFromObject (found server ks key) = some old → ¬IsInt64 (old + incr)) ∧ Untouched ks reply ks') := by
  obtain ⟨h1, hothers1, -⟩ := expireIfNeeded_spec server h key
  -- An error means that something was found, and then no key has expired.
  have hrefuse : ∀ text, found server ks key ≠ none → Untouched ks (.err text) (expireIfNeeded server ks key) := by
    intro text hfound
    rw [unchanged_of_found h hfound]
    exact untouched_err ks text
  unfold incrDecrCommand
  dsimp only
  rw [lookupKey_value, show (expireIfNeeded server ks key).store.value key = found server ks key from rfl]
  by_cases hother : otherType (found server ks key) = true
  · rw [if_pos hother]
    refine ⟨_, _, rfl, h1, Or.inr ⟨fun old hold => ?_, hrefuse _ ?_⟩⟩
    · rw [otherType_none hother] at hold
      cases hold
    · intro hnone
      rw [hnone] at hother
      cases hother
  · rw [if_neg hother]
    cases hold : getLongLongFromObject (found server ks key) with
    | none =>
      refine ⟨_, _, rfl, h1, Or.inr ⟨nofun, hrefuse _ ?_⟩⟩
      intro hnone
      rw [hnone] at hold
      cases hold
    | some old =>
      have hold64 : IsInt64 old := isInt64_getLongLongFromObject h1 hold
      have hiff := Hashes.incr_overflows_iff hold64 hincr
      dsimp only
      by_cases hover : incrOverflows old incr = true
      · rw [if_pos hover]
        refine ⟨_, _, rfl, h1, Or.inr ⟨fun old' hold' => ?_, hrefuse _ ?_⟩⟩
        · cases hold'
          exact hiff.mp hover
        · intro hnone
          rw [hnone] at hold
          cases hold
          exact hiff.mp hover (by rw [Int.zero_add]; exact hincr)
      · have hsum : IsInt64 (old + incr) := not_not.mp fun hn => hover (hiff.mpr hn)
        obtain ⟨new, ks', o, hstore, h', ho, hval, hvalue, hothers, hexpires⟩ := storeInteger_spec server h1 key hsum
        rw [if_neg hover, hstore, some_bind]
        dsimp only
        rw [ho, Option.bind_some, hval]
        refine ⟨_, _, rfl, h', Or.inl ⟨old, rfl, hsum, rfl, ?_, congrFun hexpires key, hothers1.trans hothers⟩⟩
        rw [hvalue]
        rfl

/-! ### Hashes -/

/-- The key is made with its first field, and an error leaves the object as it was. -/
theorem hincrby_cases (config : Hashes.Config) {object : Option Hashes.Object} (hgood : object = some .other ∨ ∃ m, KeyHolds object m)
    (field : Sds) {operand : Sds} {incr : ℤ} (hoperand : string2ll operand = some incr) :
    ∃ reply object', Hashes.hincrbyCommand config object field operand = some (reply, object') ∧
      ((∃ m o old, KeyHolds object m ∧ fieldInteger object field = some old ∧ IsInt64 (old + incr) ∧ reply = .int (old + incr) ∧
          object' = some (.hash o) ∧ KeyHolds (some (.hash o)) (Function.update m field (some (ll2string (old + incr))))) ∨
        (∀ old, fieldInteger object field = some old → ¬IsInt64 (old + incr)) ∧ object ≠ none ∧ object' = object ∧
          ∃ text, reply = .err text) := by
  have hincr := Hashes.isInt64_string2ll hoperand
  unfold Hashes.hincrbyCommand
  rw [hoperand]
  dsimp only
  rcases hgood with rfl | ⟨m, hm⟩
  · exact ⟨_, _, rfl, Or.inr ⟨nofun, nofun, rfl, _, rfl⟩⟩
  · obtain ⟨o, hlookup, ho⟩ := Hashes.lookup_spec hm
    -- What the command works on is the object itself, or a hash for no object.
    have hwork : object = none ∧ m = (fun _ => none) ∨ object = some (.hash o) := by
      cases object with
      | none => exact Or.inl ⟨rfl, hm⟩
      | some object =>
        cases object with
        | hash o' =>
          cases hlookup
          exact Or.inr rfl
        | other => cases hlookup
    have hfield : fieldInteger object field = Hashes.hashInteger (Hashes.hashTypeGetValue o field) := by
      rcases hwork with ⟨rfl, rfl⟩ | rfl
      · rw [Hashes.hashInteger_spec ho]
        rfl
      · rfl
    rw [hlookup]
    dsimp only
    cases hvalue : Hashes.hashInteger (Hashes.hashTypeGetValue o field) with
    | none =>
      have hobject : object = some (.hash o) := by
        rcases hwork with ⟨rfl, -⟩ | hobject
        · rw [hvalue] at hfield
          cases hfield
        · exact hobject
      rw [hobject] at hfield ⊢
      refine ⟨_, _, rfl, Or.inr ⟨fun old hold => ?_, nofun, rfl, _, rfl⟩⟩
      rw [hfield, hvalue] at hold
      cases hold
    | some value =>
      rw [hvalue] at hfield
      have hvalue64 : IsInt64 value := by
        rw [Hashes.hashInteger_spec ho] at hvalue
        exact Hashes.isInt64_integerOf hvalue
      have hiff := Hashes.incr_overflows_iff hvalue64 hincr
      dsimp only
      by_cases hover : incrOverflows value incr = true
      · have hobject : object = some (.hash o) := by
          rcases hwork with ⟨rfl, -⟩ | hobject
          · cases hfield
            exact absurd (by rw [Int.zero_add]; exact hincr) (hiff.mp hover)
          · exact hobject
        rw [if_pos hover]
        rw [hobject] at hfield ⊢
        refine ⟨_, _, rfl, Or.inr ⟨fun old hold => ?_, nofun, rfl, _, rfl⟩⟩
        rw [hfield] at hold
        cases hold
        exact hiff.mp hover
      · have hsum : IsInt64 (value + incr) := not_not.mp fun hn => hover (hiff.mpr hn)
        obtain ⟨o1, hset, h1⟩ := Hashes.hashTypeSet_spec config ho field (ll2string (value + incr))
        rw [if_neg hover, hset]
        exact ⟨_, _, rfl, Or.inl ⟨m, o1, value, hm, hfield, hsum, rfl, rfl, h1, Hashes.update_ne_empty m field _⟩⟩

theorem proper_hash {o : Hash} {m : Hashes.Map} (h : KeyHolds (some (.hash o)) m) : Proper (.hash o : Val σ) := by
  refine ⟨nofun, fun hash heq => ?_⟩
  cases heq
  exact ⟨m, h⟩

/-- The hash is stored under its key only. -/
theorem storeHash_spec (h : ks.Valid) (key : Key) {old : Hashes.Map} {o : Hash} {m : Hashes.Map} (hold : KeyHolds ((ks.store.value key).map toObject) old)
    (ho : KeyHolds (some (.hash o)) m) :
    ∃ ks', storeHash ks key (lookupKey ks key) (some (.hash o)) = some ks' ∧ ks'.Valid ∧ ks'.store.value key = some (.hash o) ∧
      Others ks ks' key ∧ ks'.expires = ks.expires := by
  rcases lookupKey_cases h key with ⟨hlookup, hkey⟩ | ⟨a, obj, hlookup, hkey, hobj⟩
  · obtain ⟨h1, hhold, hvalue, hdict, hexpires⟩ := createObject_spec h (proper_hash ho)
    obtain ⟨ks', hadd, h', -, hval, hothers, hexpires'⟩ := dbAdd_spec h1 (by rw [hdict]; exact hkey) hhold
    refine ⟨ks', ?_, h', hval, Others.trans ⟨fun k _ => hvalue k, fun k _ => congrFun hexpires k⟩ hothers, hexpires'.trans hexpires⟩
    rw [hlookup]
    exact hadd
  · rw [Store.value_of hkey hobj] at hold
    obtain ⟨hash, hhash⟩ : ∃ hash, obj.val = .hash hash := by
      cases hval : obj.val with
      | hash hash => exact ⟨hash, rfl⟩
      | sds s => rw [hval] at hold; exact absurd hold id
      | int n => rw [hval] at hold; exact absurd hold id
      | other x => rw [hval] at hold; exact absurd hold id
    have hshared : ∀ i < OBJ_SHARED_INTEGERS, a ≠ .sharedInteger i := by
      rintro i hi rfl
      obtain rfl : _ = obj := Option.some.inj ((h.shared i hi).symm.trans hobj)
      cases hhash
    obtain ⟨h', -, hval, hothers, hexpires⟩ := setPtr_spec h (proper_hash ho) hkey hobj (fun k hk => h.alone hobj hhash hkey hk) hshared
    exact ⟨_, by rw [hlookup, storeHash], h', hval, hothers, hexpires⟩

/-- A hash that is stored again is no change. -/
theorem storeHash_same (h : ks.Valid) (key : Key) (hkey : ks.store.value key ≠ none) :
    ∃ ks', storeHash ks key (lookupKey ks key) ((ks.store.value key).map toObject) = some ks' ∧ ks'.Valid ∧
      (∀ k, ks'.store.value k = ks.store.value k) ∧ ks'.expires = ks.expires := by
  rcases lookupKey_cases h key with ⟨-, hdict⟩ | ⟨a, obj, hlookup, hdict, hobj⟩
  · exact absurd (Store.value_none hdict) hkey
  · have hvalue := Store.value_of hdict hobj
    cases hval : obj.val with
    | hash hash =>
      rw [hval] at hvalue
      obtain ⟨m, hm⟩ := h.hashes hobj hval
      have hbefore : KeyHolds ((ks.store.value key).map toObject) m := by
        rw [hvalue]
        exact hm
      obtain ⟨ks', hstore, h', hself, hothers, hexpires⟩ := storeHash_spec h key hbefore hm
      refine ⟨ks', by rw [hvalue]; exact hstore, h', fun k => ?_, hexpires⟩
      by_cases hk : k = key
      · rw [hk, hself, hvalue]
      · exact hothers.value k hk
    | sds s => exact ⟨ks, by rw [hlookup, hvalue, hval]; rfl, h, fun _ => rfl, rfl⟩
    | int n => exact ⟨ks, by rw [hlookup, hvalue, hval]; rfl, h, fun _ => rfl, rfl⟩
    | other x => exact ⟨ks, by rw [hlookup, hvalue, hval]; rfl, h, fun _ => rfl, rfl⟩

/-- What is found is a hash with its map, or an object of another type. -/
theorem found_good (h : ks.Valid) (key : Key) : (ks.store.value key).map toObject = some .other ∨ ∃ m, KeyHolds ((ks.store.value key).map toObject) m := by
  cases hdict : ks.store.dict key with
  | none => exact Or.inr ⟨fun _ => none, by rw [Store.value_none hdict]; rfl⟩
  | some a =>
    obtain ⟨o, ho⟩ := h.sound.found hdict
    rw [Store.value_of hdict ho]
    cases hval : o.val with
    | hash hash => exact Or.inr (h.hashes ho hval)
    | sds s => exact Or.inl rfl
    | int n => exact Or.inl rfl
    | other x => exact Or.inl rfl

theorem hincrbyCommand_spec (config : Hashes.Config) (server : Server) (h : ks.Valid) (key : Key) (field operand : Sds) :
    ∃ reply ks', hincrbyCommand config server ks key field operand = some (reply, ks') ∧ ks'.Valid ∧
      ExactOrUntouched server ks (.hincrby key field operand) reply ks' := by
  obtain ⟨h1, hothers1, -⟩ := expireIfNeeded_spec server h key
  unfold hincrbyCommand
  cases hoperand : string2ll operand with
  | none =>
    refine ⟨_, _, rfl, h, fun n hn => ?_, fun _ => untouched_err ks _⟩
    rw [wanted_none (show (Command.hincrby key field operand).amount = none from hoperand)] at hn
    cases hn
  | some incr =>
    have hwanted : wanted server ks (.hincrby key field operand) =
        (fieldInteger ((found server ks key).map toObject) field).map fun old => old + incr := wanted_eq hoperand
    have hobject : (lookupKey (expireIfNeeded server ks key) key).map (fun p => toObject p.2.val) = (found server ks key).map toObject := by
      rw [found, ← lookupKey_value, Option.map_map]
      rfl
    obtain ⟨reply, object', hexec, hcases⟩ := hincrby_cases config (found_good h1 key) field hoperand
    dsimp only
    rw [hobject, show found server ks key = (expireIfNeeded server ks key).store.value key from rfl, hexec, some_bind]
    dsimp only
    rcases hcases with ⟨m, o, old, hm, hold, hsum, rfl, rfl, ho⟩ | ⟨hnone, hne, rfl, text, rfl⟩
    · obtain ⟨ks', hstore, h', hself, hothers, hexpires⟩ := storeHash_spec h1 key hm ho
      have hn : wanted server ks (.hincrby key field operand) = some (old + incr) := by
        rw [hwanted, show fieldInteger ((found server ks key).map toObject) field = some old from hold]
        rfl
      rw [hstore]
      refine ⟨_, _, rfl, h', fun n hn' => ?_, fun hall => absurd hsum (hall _ hn)⟩
      intro _
      obtain rfl : old + incr = n := Option.some.inj (hn.symm.trans hn')
      exact ⟨rfl, ⟨m, o, hm, hself, ho⟩, congrFun hexpires key, hothers1.trans hothers⟩
    · have hfound : found server ks key ≠ none := by
        intro heq
        exact hne (by rw [show (expireIfNeeded server ks key).store.value key = none from heq]; rfl)
      obtain ⟨ks', hstore, h', hvalue, hexpires⟩ := storeHash_same h1 key hfound
      have heq := unchanged_of_found h hfound
      rw [hstore]
      refine ⟨_, _, rfl, h', fun n hn hn64 => ?_, fun _ => ⟨⟨text, rfl⟩, fun k => ?_, fun k => ?_⟩⟩
      · rw [hwanted] at hn
        obtain ⟨old, hold, rfl⟩ := Option.map_eq_some_iff.mp hn
        exact absurd hn64 (hnone old hold)
      · rw [hvalue, heq]
      · rw [hexpires, heq]

/-! ### Counters are exact -/

/-- A command on strings that adds its amount. -/
theorem exact_of_done {c : Command} {reply : Reply} {ks' : Keyspace σ} {incr : ℤ} (hamount : c.amount = some incr)
    (hinteger : ∀ val : Option (Val σ), c.integerIn val = getLongLongFromObject val)
    (hstored : ∀ before after : Option (Val σ), ∀ n, after.bind Val.text = some (ll2string n) → c.StoredIn before after n)
    (h : (∃ old, getLongLongFromObject (found server ks c.key) = some old ∧ IsInt64 (old + incr) ∧ Done server ks c.key (old + incr) reply ks') ∨
      (∀ old, getLongLongFromObject (found server ks c.key) = some old → ¬IsInt64 (old + incr)) ∧ Untouched ks reply ks') :
    ExactOrUntouched server ks c reply ks' := by
  have hwanted : wanted server ks c = (getLongLongFromObject (found server ks c.key)).map fun old => old + incr := by
    rw [wanted_eq hamount, hinteger]
  rcases h with ⟨old, hold, hsum, hdone⟩ | ⟨hnone, huntouched⟩
  · have hn : wanted server ks c = some (old + incr) := by
      rw [hwanted, hold]
      rfl
    refine ⟨fun n hn' _ => ?_, fun hall => absurd hsum (hall _ hn)⟩
    obtain rfl : old + incr = n := Option.some.inj (hn.symm.trans hn')
    exact ⟨hdone.reply, hstored _ _ _ hdone.stored, hdone.expires, hdone.others⟩
  · refine ⟨fun n hn hn64 => ?_, fun _ => huntouched⟩
    rw [hwanted] at hn
    obtain ⟨old, hold, rfl⟩ := Option.map_eq_some_iff.mp hn
    exact absurd hn64 (hnone old hold)

theorem neg64_eq {v : ℤ} (hv : IsInt64 v) (hne : v ≠ LLONG_MIN) : neg64 v = -v := by
  obtain ⟨h1, h2⟩ := hv
  unfold LLONG_MIN at hne
  unfold neg64
  rw [Int.bmod_eq_of_le] <;> omega

theorem neg64_min : neg64 LLONG_MIN = LLONG_MIN := by decide

theorem isInt64_min : IsInt64 LLONG_MIN := ⟨by decide, by decide⟩

theorem wanted_decrby {operand : Sds} {incr : ℤ} (hoperand : string2ll operand = some incr) :
    wanted server ks (.decrby key operand) = (getLongLongFromObject (found server ks key)).map fun old => old + -incr := by
  have hamount : (Command.decrby key operand).amount = some (-incr) := by
    show (string2ll operand).map Neg.neg = some (-incr)
    rw [hoperand]
    rfl
  exact wanted_eq hamount

/-- An error is not the reply of a sum, and a sum is not the reply of an error. -/
theorem not_exactOrUntouched {reply : Reply} {ks' : Keyspace σ} {operand : Sds} {old : ℤ} (hoperand : string2ll operand = some LLONG_MIN)
    (hold : getLongLongFromObject (found server ks key) = some old) (hold64 : IsInt64 old)
    (h : (∃ old, getLongLongFromObject (found server ks key) = some old ∧ IsInt64 (old + LLONG_MIN) ∧
        Done server ks key (old + LLONG_MIN) reply ks') ∨
      (∀ old, getLongLongFromObject (found server ks key) = some old → ¬IsInt64 (old + LLONG_MIN)) ∧ Untouched ks reply ks') :
    ¬ExactOrUntouched server ks (.decrby key operand) reply ks' := by
  have hwanted : wanted server ks (.decrby key operand) = some (old + -LLONG_MIN) := by
    rw [wanted_decrby hoperand, hold]
    rfl
  obtain ⟨h1, h2⟩ := hold64
  rintro ⟨hexact, huntouched⟩
  rcases h with ⟨old', hold', hsum, hdone⟩ | ⟨hnone, hun⟩
  · obtain rfl : old = old' := Option.some.inj (hold.symm.trans hold')
    -- The sum is stored with the wrong sign of the operand, where the difference is too large.
    obtain ⟨text, htext⟩ := (huntouched fun n hn hn64 => by
      obtain rfl : old + -LLONG_MIN = n := Option.some.inj (hwanted.symm.trans hn)
      obtain ⟨h3, h4⟩ := hn64
      obtain ⟨h5, h6⟩ := hsum
      unfold LLONG_MIN at h4 h5
      omega).reply
    rw [hdone.reply] at htext
    cases htext
  · have hout := hnone old hold
    obtain ⟨text, htext⟩ := hun.reply
    have hreply := (hexact _ hwanted (by
      unfold IsInt64 LLONG_MIN at hout ⊢
      omega)).reply
    rw [htext] at hreply
    cases hreply

/-- DECRBY adds the negation of its operand if it has one. -/
theorem decrbyCommand_spec (server : Server) (h : ks.Valid) (key : Key) (operand : Sds) :
    ∃ reply ks', decrbyCommand server ks key operand = some (reply, ks') ∧ ks'.Valid ∧
      (ExactOrUntouched server ks (.decrby key operand) reply ks' ↔ ¬NegatesMin server ks (.decrby key operand)) := by
  have hmin_of : NegatesMin server ks (.decrby key operand) →
      string2ll operand = some LLONG_MIN ∧ ∃ old, getLongLongFromObject (found server ks key) = some old := by
    rintro ⟨_, _, old, heq, hmin, hold⟩
    cases heq
    exact ⟨hmin, old, hold⟩
  unfold decrbyCommand
  cases hoperand : string2ll operand with
  | none =>
    have hamount : (Command.decrby key operand).amount = none := by
      show (string2ll operand).map Neg.neg = none
      rw [hoperand]
      rfl
    refine ⟨_, _, rfl, h, fun _ hmin => ?_, fun _ => ⟨fun n hn => ?_, fun _ => untouched_err ks _⟩⟩
    · have hop := (hmin_of hmin).1
      rw [hoperand] at hop
      cases hop
    · rw [wanted_none hamount] at hn
      cases hn
  | some incr =>
    have hincr := Hashes.isInt64_string2ll hoperand
    by_cases hmin : incr = LLONG_MIN
    · subst hmin
      obtain ⟨reply, ks', hexec, h', hcases⟩ := incrDecrCommand_spec server h key isInt64_min
      dsimp only
      rw [neg64_min]
      refine ⟨reply, ks', hexec, h', fun hexact hnegates => ?_, fun hnot => ?_⟩
      · obtain ⟨old, hold⟩ := (hmin_of hnegates).2
        obtain ⟨h1, -, -⟩ := expireIfNeeded_spec server h key
        exact not_exactOrUntouched hoperand hold (isInt64_getLongLongFromObject h1 hold) hcases hexact
      · have hnone : getLongLongFromObject (found server ks key) = none := by
          by_contra hne
          obtain ⟨old, hold⟩ := Option.ne_none_iff_exists'.mp hne
          exact hnot ⟨key, operand, old, rfl, hoperand, hold⟩
        rcases hcases with ⟨old, hold, -⟩ | ⟨-, huntouched⟩
        · rw [hnone] at hold
          cases hold
        · refine ⟨fun n hn => ?_, fun _ => huntouched⟩
          rw [wanted_decrby hoperand, hnone] at hn
          cases hn
    · have hneg := neg64_eq hincr hmin
      have hneg64 : IsInt64 (neg64 incr) := by
        obtain ⟨h1, h2⟩ := hincr
        rw [hneg]
        unfold LLONG_MIN at hmin
        exact ⟨by omega, by omega⟩
      have hamount : (Command.decrby key operand).amount = some (neg64 incr) := by
        show (string2ll operand).map Neg.neg = some (neg64 incr)
        rw [hoperand, hneg]
        rfl
      obtain ⟨reply, ks', hexec, h', hcases⟩ := incrDecrCommand_spec server h key hneg64
      refine ⟨reply, ks', hexec, h', fun _ hnegates => ?_, fun _ =>
        exact_of_done (c := .decrby key operand) hamount (fun _ => rfl) (fun _ _ _ h => h) hcases⟩
      have hop := (hmin_of hnegates).1
      rw [hoperand] at hop
      exact hmin (Option.some.inj hop)

/-- **Counters are exact or untouched, but for DECRBY with an operand that has no negation.** -/
theorem counters_exact (config : Hashes.Config) (server : Server) (h : ks.Valid) (c : Command) :
    ∃ reply ks', exec config server ks c = some (reply, ks') ∧ ks'.Valid ∧
      (ExactOrUntouched server ks c reply ks' ↔ ¬NegatesMin server ks c) := by
  cases c with
  | incr key =>
    obtain ⟨reply, ks', hexec, h', hcases⟩ := incrDecrCommand_spec server h key (show IsInt64 1 from ⟨by decide, by decide⟩)
    refine ⟨reply, ks', hexec, h', fun _ => ?_, fun _ => exact_of_done (c := .incr key) rfl (fun _ => rfl) (fun _ _ _ h => h) hcases⟩
    rintro ⟨_, _, _, heq, -, -⟩
    cases heq
  | decr key =>
    obtain ⟨reply, ks', hexec, h', hcases⟩ := incrDecrCommand_spec server h key (show IsInt64 (-1) from ⟨by decide, by decide⟩)
    refine ⟨reply, ks', hexec, h', fun _ => ?_, fun _ => exact_of_done (c := .decr key) rfl (fun _ => rfl) (fun _ _ _ h => h) hcases⟩
    rintro ⟨_, _, _, heq, -, -⟩
    cases heq
  | incrby key operand =>
    have hnot : ¬NegatesMin server ks (.incrby key operand) := by
      rintro ⟨_, _, _, heq, -, -⟩
      cases heq
    rw [exec, incrbyCommand]
    cases hoperand : string2ll operand with
    | none =>
      refine ⟨_, _, rfl, h, fun _ => hnot, fun _ => ⟨fun n hn => ?_, fun _ => untouched_err ks _⟩⟩
      rw [wanted_none (show (Command.incrby key operand).amount = none from hoperand)] at hn
      cases hn
    | some incr =>
      obtain ⟨reply, ks', hexec, h', hcases⟩ := incrDecrCommand_spec server h key (Hashes.isInt64_string2ll hoperand)
      exact ⟨reply, ks', hexec, h', fun _ => hnot,
        fun _ => exact_of_done (c := .incrby key operand) hoperand (fun _ => rfl) (fun _ _ _ h => h) hcases⟩
  | decrby key operand => exact decrbyCommand_spec server h key operand
  | hincrby key field operand =>
    obtain ⟨reply, ks', hexec, h', hexact⟩ := hincrbyCommand_spec config server h key field operand
    refine ⟨reply, ks', hexec, h', fun _ => ?_, fun _ => hexact⟩
    rintro ⟨_, _, _, heq, -, -⟩
    cases heq

/-- A master that has no limit of memory. -/
def master : Server where
  maxmemory := 0
  maxmemoryFlagNoSharedIntegers := false
  loading := false
  slave := false
  mstime := 0

/-- INCR of a key that is not there. -/
theorem counters_exact_incr : ∃ reply ks', exec ⟨512, 64⟩ master (emptyKeyspace : Keyspace Unit) (.incr (0, sds "k")) = some (reply, ks') ∧
    ks'.Valid ∧ (ExactOrUntouched master emptyKeyspace (.incr (0, sds "k")) reply ks' ↔
      ¬NegatesMin master (emptyKeyspace : Keyspace Unit) (.incr (0, sds "k"))) :=
  counters_exact ⟨512, 64⟩ master valid_empty (.incr (0, sds "k"))

/-- The smallest integer subtracted from 0 is stored, where it should be too large. -/
theorem decrby_min_stored : ∃ ks', exec ⟨512, 64⟩ master (emptyKeyspace : Keyspace Unit) (.decrby (0, sds "k") (sds "-9223372036854775808")) =
      some (.colon (sds "-9223372036854775808"), ks') ∧
    ¬ExactOrUntouched master emptyKeyspace (.decrby (0, sds "k") (sds "-9223372036854775808")) (.colon (sds "-9223372036854775808")) ks' := by
  obtain ⟨reply, ks', hexec, -, hiff⟩ := decrbyCommand_spec master (valid_empty (σ := Unit)) (0, sds "k") (sds "-9223372036854775808")
  have hreply : (exec ⟨512, 64⟩ master (emptyKeyspace : Keyspace Unit) (.decrby (0, sds "k") (sds "-9223372036854775808"))).map Prod.fst =
      some (.colon (sds "-9223372036854775808")) := by rfl
  rw [exec, hexec] at hreply
  cases hreply
  refine ⟨ks', hexec, fun hexact => hiff.mp hexact ⟨_, _, 0, rfl, ?_, ?_⟩⟩
  · rfl
  · rfl

end RedisZk.Counters
