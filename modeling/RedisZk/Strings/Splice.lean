/-
# Writing into strings

SETRANGE and APPEND write into the string of a key, which is copied before when it is shared or is not a
plain string. Lengths are added as unsigned numbers of 64 bits and tested as signed ones, so an offset
close to 2^63 passes the test, and the server ends when it asks for the memory.

Key definitions: `dbUnshareStringValue`, `tryObjectEncoding`, `setrangeCommand`, `appendCommand`, `getrangeCommand`,
`spliced`, `bytesBetween`.
Key theorems: `unshare_spec`, `setrangeCommand_spec`, `appendCommand_spec`, `getrangeCommand_spec`.
-/
import RedisZk.Counters.Commands

namespace RedisZk.Strings

open Streams (Sds ll2string IsInt64)
open Util (string2ll)
open Hashes (wrongtypeerr integerErr)
open Networking (sds)
open Counters

variable {σ : Type}

/-! ### The functions -/

/-- The objects, and which of the strings are `OBJ_ENCODING_EMBSTR`. -/
structure Memory (σ : Type) where
  keyspace : Keyspace σ
  embstr : Addr → Bool

inductive Reply
  | int (n : ℤ)
  | bulk (s : Sds)
  | err (text : String)
deriving DecidableEq

/-- A `size_t` as a `long long`. -/
def toLongLong (size : ℤ) : ℤ := size.bmod (2 ^ 64)

def checkStringLength (size : ℤ) : Bool := decide (size ≤ 512 * 1024 * 1024)

def lengthErr : String := "string exceeds maximum allowed size (512MB)"

/-- None for the assertion on the type. -/
def stringObjectLen : Val σ → Option ℕ
  | .sds s => some s.length
  | .int v => some (Util.sdigits10 v)
  | _ => none

/-- Zeros; there is no memory for half of the addresses, and the server ends. -/
def sdsnewlen (initlen : ℕ) : Option Sds := if initlen < 2 ^ 63 then some (List.replicate initlen 0) else none

def sdsgrowzero (s : Sds) (len : ℕ) : Option Sds :=
  if len ≤ s.length then some s
  else if len < 2 ^ 63 then some (s ++ List.replicate (len - s.length) 0)
  else none

/-- `memcpy` of a value to an offset that has room for it. -/
def copyTo (s : Sds) (offset : ℕ) (value : Sds) : Sds := s.take offset ++ value ++ s.drop (offset + value.length)

/-- An object that is one key's and a plain string, with the text of the given one. -/
def dbUnshareStringValue (m : Memory σ) (key : Key) (a : Addr) (o : Robj σ) : Option (Memory σ × Addr) :=
  match o.val with
  | .sds s =>
    if o.refcount ≠ 1 ∨ m.embstr a = true then
      let (ks, new) := createObject m.keyspace (.sds s)
      (dbOverwrite ks key new).map fun ks => (⟨ks, Function.update m.embstr new false⟩, new)
    else some (m, a)
  | .int v =>
    let (ks, new) := createObject m.keyspace (.sds (ll2string v))
    (dbOverwrite ks key new).map fun ks => (⟨ks, Function.update m.embstr new false⟩, new)
  | _ => none

def OBJ_ENCODING_EMBSTR_SIZE_LIMIT : ℕ := 44

/-- The argument becomes an integer, shared or not, or a string; `raw` tells how it was encoded. -/
def tryObjectEncoding (server : Server) (m : Memory σ) (raw : Bool) (s : Sds) : Memory σ × Addr :=
  match if s.length ≤ 20 then string2ll s else none with
  | some value =>
    if (server.maxmemory = 0 || !server.maxmemoryFlagNoSharedIntegers) ∧ 0 ≤ value ∧ value < OBJ_SHARED_INTEGERS then
      (m, .sharedInteger value.toNat)
    else
      let (ks, new) := if raw then createObject m.keyspace (.int value) else createStringObjectFromLongLongForValue server m.keyspace value
      (⟨ks, m.embstr⟩, new)
  | none =>
    let (ks, new) := createObject m.keyspace (.sds s)
    (⟨ks, Function.update m.embstr new (decide (s.length ≤ OBJ_ENCODING_EMBSTR_SIZE_LIMIT))⟩, new)

/-- The end of `setrangeCommand`: the string of the object is grown to `size`, and the value is copied. -/
def writeRange (m : Memory σ) (a : Addr) (offset size : ℕ) (value : Sds) : Option (Reply × Memory σ) := do
  let o ← m.keyspace.store.heap a
  match o.val with
  | .sds s =>
    (sdsgrowzero s size).map fun s =>
      (.int (copyTo s offset value).length, { m with keyspace := setPtr m.keyspace a (.sds (copyTo s offset value)) })
  | _ => none

/-- None for the end of the server. -/
def setrangeCommand (server : Server) (m : Memory σ) (key : Key) (offset value : Sds) : Option (Reply × Memory σ) :=
  match string2ll offset with
  | none => some (.err integerErr, m)
  | some offset =>
    if offset < 0 then some (.err "offset is out of range", m)
    else
      let m := { m with keyspace := expireIfNeeded server m.keyspace key }
      let size : ℕ := (offset.toNat + value.length) % 2 ^ 64
      match lookupKey m.keyspace key with
      | none =>
        if value = [] then some (.int 0, m)
        else if checkStringLength (toLongLong size) = false then some (.err lengthErr, m)
        else do
          let s ← sdsnewlen size
          let (ks, new) := createObject m.keyspace (.sds s)
          let ks ← dbAdd ks key new
          writeRange ⟨ks, Function.update m.embstr new false⟩ new offset.toNat size value
      | some (a, o) =>
        if otherType (some o.val) then some (.err wrongtypeerr, m)
        else do
          let olen ← stringObjectLen o.val
          if value = [] then some (.int olen, m)
          else if checkStringLength (toLongLong size) = false then some (.err lengthErr, m)
          else do
            let (m, a) ← dbUnshareStringValue m key a o
            writeRange m a offset.toNat size value

/-- The object of a key that is written to gets a longer string. -/
def catString (m : Memory σ) (a : Addr) (append : Sds) : Option (Reply × Memory σ) := do
  let o ← m.keyspace.store.heap a
  match o.val with
  | .sds s => some (.int (s ++ append).length, { m with keyspace := setPtr m.keyspace a (.sds (s ++ append)) })
  | _ => none

def appendCommand (server : Server) (m : Memory σ) (key : Key) (raw : Bool) (append : Sds) : Option (Reply × Memory σ) :=
  let m := { m with keyspace := expireIfNeeded server m.keyspace key }
  match lookupKey m.keyspace key with
  | none => do
    let (m, new) := tryObjectEncoding server m raw append
    let ks ← dbAdd m.keyspace key new
    let o ← ks.store.heap new
    let totlen ← stringObjectLen o.val
    some (.int totlen, { m with keyspace := ks })
  | some (a, o) =>
    if otherType (some o.val) then some (.err wrongtypeerr, m)
    else do
      let olen ← stringObjectLen o.val
      if checkStringLength (toLongLong ((olen + append.length) % 2 ^ 64)) = false then some (.err lengthErr, m)
      else do
        let (m, a) ← dbUnshareStringValue m key a o
        catString m a append

/-- A key that is expired is not read, unless the master of a slave reads it. -/
def lookupKeyRead (server : Server) (fromMaster : Bool) (ks : Keyspace σ) (key : Key) : Option (Addr × Robj σ) :=
  if keyIsExpired server ks key && (!server.slave || !fromMaster) then none else lookupKey ks key

/-- The range of `getrangeCommand`. -/
def substring (str : Sds) (start stop : ℤ) : Sds :=
  if start < 0 ∧ stop < 0 ∧ start > stop then []
  else
    let strlen : ℤ := str.length
    let start := if start < 0 then toLongLong (strlen + start) else start
    let stop := if stop < 0 then toLongLong (strlen + stop) else stop
    let start := if start < 0 then 0 else start
    let stop := if stop < 0 then 0 else stop
    let stop := if stop ≥ strlen then toLongLong (strlen - 1) else stop
    if start > stop ∨ strlen = 0 then [] else (str.drop start.toNat).take (stop - start + 1).toNat

def getrangeCommand (server : Server) (fromMaster : Bool) (m : Memory σ) (key : Key) (start stop : Sds) : Option (Reply × Memory σ) :=
  match string2ll start, string2ll stop with
  | some start, some stop =>
    let m' := { m with keyspace := expireIfNeeded server m.keyspace key }
    match lookupKeyRead server fromMaster m.keyspace key with
    | none => some (.bulk [], m')
    | some (_, o) =>
      match o.val.text with
      | none => some (.err wrongtypeerr, m')
      | some str => some (.bulk (substring str start stop), m')
  | _, _ => some (.err integerErr, m)

/-! ### What is written and read -/

/-- What a key has as a string, which is empty for none. -/
def textIn : Option (Val σ) → Option Sds
  | none => some []
  | some v => v.text

/-- A value at an offset, with zeros before it where the string is too short. -/
def spliced (s : Sds) (offset : ℕ) (value : Sds) : Sds := copyTo (s ++ List.replicate (offset - s.length) 0) offset value

/-- The bytes between two positions, which are counted from the end when they are negative: a position before
the string is its first, and an end behind it is its last. -/
def bytesBetween (s : Sds) (start stop : ℤ) : Sds :=
  let len : ℤ := s.length
  let first := max 0 (if start < 0 then len + start else start)
  let last := min (len - 1) (max 0 (if stop < 0 then len + stop else stop))
  if start < 0 ∧ stop < 0 ∧ start > stop then [] else (s.drop first.toNat).take (last + 1 - first).toNat

/-! ### Objects of one key -/

variable {ks : Keyspace σ} {key : Key} {a : Addr} {o : Robj σ} {server : Server} {s : Sds}

/-- A plain string that no other key has. -/
structure Owned (ks : Keyspace σ) (key : Key) (a : Addr) (s : Sds) : Prop where
  valid : ks.Valid
  dict : ks.store.dict key = some a
  heap : ∃ o, ks.store.heap a = some o ∧ o.val = .sds s
  sole : ∀ k, ks.store.dict k = some a → k = key
  own : ∀ i < OBJ_SHARED_INTEGERS, a ≠ .sharedInteger i

theorem proper_sds (s : Sds) : Proper (.sds s : Val σ) := ⟨nofun, nofun⟩

/-- **What one key has is written without a change of any other key.** -/
theorem owned_write (h : Owned ks key a s) (t : Sds) :
    (setPtr ks a (.sds t)).Valid ∧ (setPtr ks a (.sds t)).store.value key = some (.sds t) ∧ Others ks (setPtr ks a (.sds t)) key ∧
      (setPtr ks a (.sds t)).expires = ks.expires := by
  obtain ⟨o, ho, -⟩ := h.heap
  obtain ⟨hvalid, -, hvalue, hothers, hexpires⟩ := setPtr_spec h.valid (proper_sds t) h.dict ho h.sole h.own
  exact ⟨hvalid, hvalue, hothers, hexpires⟩

theorem dbAdd_dict {ks' : Keyspace σ} (h : dbAdd ks key a = some ks') : ks'.store.dict = Function.update ks.store.dict key (some a) := by
  rw [dbAdd] at h
  split at h
  · cases h
  · cases h
    rfl

theorem dbOverwrite_dict {ks' : Keyspace σ} (h : dbOverwrite ks key a = some ks') :
    ks'.store.dict = Function.update ks.store.dict key (some a) := by
  rw [dbOverwrite] at h
  split at h
  · cases h
  · cases h
    exact Store.dict_release _ _

/-- An object that is new and is given to one key is that key's only. -/
theorem owned_new {ks' : Keyspace σ} (h : ks.Valid) (h' : ks'.Valid) (hvalue : ks'.store.value key = some (.sds s))
    (hdict : ks'.store.dict = Function.update ks.store.dict key (some (.obj ks.next))) : Owned ks' key (.obj ks.next) s where
  valid := h'
  dict := by rw [hdict, Function.update_self]
  heap := Store.of_value (by rw [hdict, Function.update_self]) hvalue
  sole := by
    intro k hk
    by_contra hne
    rw [hdict, Function.update_of_ne hne] at hk
    exact Store.dict_ne_of_free h.sound (h.fresh ks.next (le_refl _)) k hk
  own := nofun

theorem create_overwrite (h : ks.Valid) {old : Addr} (hkey : ks.store.dict key = some old) (s : Sds) :
    ∃ ks', dbOverwrite (createObject ks (.sds s)).1 key (createObject ks (.sds s)).2 = some ks' ∧ Owned ks' key (.obj ks.next) s ∧
      Others ks ks' key ∧ ks'.expires = ks.expires := by
  obtain ⟨h1, hhold, hvalue1, hdict1, hexpires1⟩ := createObject_spec h (proper_sds s)
  obtain ⟨ks', hover, h', -, hvalue, hothers, hexpires⟩ := dbOverwrite_spec h1 (by rw [hdict1]; exact hkey) hhold
  have hothers1 : Others ks (createObject ks (.sds s)).1 key := ⟨fun k _ => hvalue1 k, fun k _ => congrFun hexpires1 k⟩
  refine ⟨ks', hover, owned_new h h' hvalue ?_, hothers1.trans hothers, hexpires.trans hexpires1⟩
  rw [dbOverwrite_dict hover, hdict1]
  rfl

theorem create_add (h : ks.Valid) (hkey : ks.store.dict key = none) (s : Sds) :
    ∃ ks', dbAdd (createObject ks (.sds s)).1 key (createObject ks (.sds s)).2 = some ks' ∧ Owned ks' key (.obj ks.next) s ∧
      Others ks ks' key ∧ ks'.expires = ks.expires := by
  obtain ⟨h1, hhold, hvalue1, hdict1, hexpires1⟩ := createObject_spec h (proper_sds s)
  obtain ⟨ks', hadd, h', -, hvalue, hothers, hexpires⟩ := dbAdd_spec h1 (by rw [hdict1]; exact hkey) hhold
  have hothers1 : Others ks (createObject ks (.sds s)).1 key := ⟨fun k _ => hvalue1 k, fun k _ => congrFun hexpires1 k⟩
  refine ⟨ks', hadd, owned_new h h' hvalue ?_, hothers1.trans hothers, hexpires.trans hexpires1⟩
  rw [dbAdd_dict hadd, hdict1]
  rfl

variable {m : Memory σ}

/-- **A string is copied unless it is one key's**, so that the key has its text in an object of its own. -/
theorem unshare_spec (h : m.keyspace.Valid) (hkey : m.keyspace.store.dict key = some a)
    (ha : m.keyspace.store.heap a = some o) (hs : o.val.text = some s) :
    ∃ m' a', dbUnshareStringValue m key a o = some (m', a') ∧ Owned m'.keyspace key a' s ∧ Others m.keyspace m'.keyspace key ∧
      m'.keyspace.expires = m.keyspace.expires := by
  obtain ⟨val, refcount⟩ := o
  have hcopy : ∃ m' a', (dbOverwrite (createObject m.keyspace (.sds s)).1 key (createObject m.keyspace (.sds s)).2).map (fun ks =>
      ((⟨ks, Function.update m.embstr (.obj m.keyspace.next) false⟩ : Memory σ), Addr.obj m.keyspace.next)) = some (m', a') ∧
        Owned m'.keyspace key a' s ∧ Others m.keyspace m'.keyspace key ∧ m'.keyspace.expires = m.keyspace.expires := by
    obtain ⟨ks', hover, howned, hothers, hexpires⟩ := create_overwrite h hkey s
    rw [hover]
    exact ⟨⟨ks', _⟩, _, rfl, howned, hothers, hexpires⟩
  cases val with
  | sds t =>
    obtain rfl : t = s := Option.some.inj hs
    rw [dbUnshareStringValue]
    dsimp only
    by_cases hshared : refcount ≠ 1 ∨ m.embstr a = true
    · rw [if_pos hshared]
      exact hcopy
    · rw [if_neg hshared]
      obtain ⟨hone, -⟩ := not_or.mp hshared
      have hone : refcount = 1 := not_not.mp hone
      refine ⟨m, a, rfl, ⟨h, hkey, ⟨_, ha, rfl⟩, fun k hk => Store.sole h.sound fixed_ne_one ha hone hkey hk, ?_⟩, Others.refl _ _, rfl⟩
      rintro i hi rfl
      obtain heq := Option.some.inj ((h.shared i hi).symm.trans ha)
      cases heq
  | int v =>
    obtain rfl : ll2string v = s := Option.some.inj hs
    exact hcopy
  | hash x => cases hs
  | other x => cases hs

/-! ### SETRANGE -/

theorem sdsgrowzero_eq {size : ℕ} (h : size < 2 ^ 63) : sdsgrowzero s size = some (s ++ List.replicate (size - s.length) 0) := by
  rw [sdsgrowzero]
  by_cases hle : size ≤ s.length
  · rw [if_pos hle, Nat.sub_eq_zero_of_le hle, List.replicate_zero, List.append_nil]
  · rw [if_neg hle, if_pos h]

/-- More zeros than the value needs are written over by it. -/
theorem copyTo_grown (s : Sds) (offset : ℕ) (value : Sds) :
    copyTo (s ++ List.replicate (offset + value.length - s.length) 0) offset value = spliced s offset value := by
  have htake : (s ++ List.replicate (offset + value.length - s.length) 0).take offset = (s ++ List.replicate (offset - s.length) 0).take offset := by
    rw [List.take_append, List.take_append, List.take_replicate, List.take_replicate, Nat.min_eq_left (by omega), Nat.min_self]
  have hdrop : (s ++ List.replicate (offset + value.length - s.length) 0).drop (offset + value.length) =
      (s ++ List.replicate (offset - s.length) 0).drop (offset + value.length) := by
    rw [List.drop_append, List.drop_append, List.drop_replicate, List.drop_replicate]
    congr 2
    omega
  rw [spliced, copyTo, copyTo, htake, hdrop]

theorem spliced_zeros (offset : ℕ) (value : Sds) : spliced (List.replicate (offset + value.length) 0) offset value = spliced [] offset value := by
  rw [← copyTo_grown [], spliced, List.length_replicate, Nat.sub_eq_zero_of_le (Nat.le_add_right _ _), List.replicate_zero, List.append_nil]
  rfl

theorem writeRange_spec (h : Owned m.keyspace key a s) (offset : ℕ) (value : Sds) (hsize : offset + value.length < 2 ^ 63) :
    ∃ m', writeRange m a offset (offset + value.length) value = some (.int (spliced s offset value).length, m') ∧ m'.keyspace.Valid ∧
      m'.keyspace.store.value key = some (.sds (spliced s offset value)) ∧ Others m.keyspace m'.keyspace key ∧
      m'.keyspace.expires = m.keyspace.expires := by
  obtain ⟨hvalid, hvalue, hothers, hexpires⟩ := owned_write h (spliced s offset value)
  obtain ⟨⟨val, refcount⟩, ho, hval⟩ := h.heap
  obtain rfl : val = .sds s := hval
  refine ⟨{ m with keyspace := setPtr m.keyspace a (.sds (spliced s offset value)) }, ?_, hvalid, hvalue, hothers, hexpires⟩
  rw [writeRange, ho, some_bind]
  dsimp only
  rw [sdsgrowzero_eq hsize, Option.map_some, copyTo_grown]

/-- Lengths that are a `long long` are added and tested as they are. -/
theorem toLongLong_eq {n : ℤ} (hlow : -2 ^ 63 ≤ n) (hhigh : n < 2 ^ 63) : toLongLong n = n := by
  rw [toLongLong]
  exact Int.bmod_eq_of_le (by omega) (by omega)

theorem stringObjectLen_eq {v : Val σ} (h : v.text = some s) : stringObjectLen v = some s.length ∧ otherType (some v) = false := by
  cases v with
  | sds t =>
    obtain rfl : t = s := Option.some.inj h
    exact ⟨rfl, rfl⟩
  | int n =>
    obtain rfl : ll2string n = s := Option.some.inj h
    exact ⟨congrArg some (Util.sdigits10_length n), rfl⟩
  | hash x => cases h
  | other x => cases h

/-- The reply is the length, the key has the text, and no other key changes. -/
structure Stored (ks : Keyspace σ) (key : Key) (text : Sds) (reply : Reply) (ks' : Keyspace σ) : Prop where
  reply : reply = .int text.length
  text : textIn (ks'.store.value key) = some text
  there : ks'.store.value key ≠ none
  others : Others ks ks' key
  expires : ks'.expires = ks.expires

/-- **SETRANGE**, with an offset that does not reach 2^63. -/
theorem setrangeCommand_spec (server : Server) (h : m.keyspace.Valid) (key : Key) (value : Sds) {offset : Sds} {n : ℤ}
    (hn : string2ll offset = some n) (hs : textIn (found server m.keyspace key) = some s) (hsize : n + value.length < 2 ^ 63) :
    ∃ reply m', setrangeCommand server m key offset value = some (reply, m') ∧ m'.keyspace.Valid ∧
      (n < 0 → (∃ text, reply = .err text) ∧ m' = m) ∧
      (0 ≤ n → value = [] → reply = .int s.length ∧ m'.keyspace = expireIfNeeded server m.keyspace key) ∧
      (0 ≤ n → value ≠ [] → 512 * 1024 * 1024 < n + value.length →
        reply = .err lengthErr ∧ m'.keyspace = expireIfNeeded server m.keyspace key) ∧
      (0 ≤ n → value ≠ [] → n + value.length ≤ 512 * 1024 * 1024 →
        Stored (expireIfNeeded server m.keyspace key) key (spliced s n.toNat value) reply m'.keyspace) := by
  obtain ⟨hvalid, -, -⟩ := expireIfNeeded_spec server h key
  rw [setrangeCommand, hn]
  dsimp only
  by_cases hneg : n < 0
  · rw [if_pos hneg]
    exact ⟨_, m, rfl, h, fun _ => ⟨⟨_, rfl⟩, rfl⟩, fun hpos => absurd hneg (not_lt.mpr hpos), fun hpos => absurd hneg (not_lt.mpr hpos),
      fun hpos => absurd hneg (not_lt.mpr hpos)⟩
  · rw [if_neg hneg]
    obtain ⟨offset, rfl⟩ := Int.eq_ofNat_of_zero_le (not_lt.mp hneg)
    have hfits : offset + value.length < 2 ^ 63 := by omega
    rw [Int.toNat_natCast, Nat.mod_eq_of_lt (by omega : offset + value.length < 2 ^ 64), toLongLong_eq (by omega) (by omega)]
    have hcheck : checkStringLength ((offset + value.length : ℕ) : ℤ) = false ↔ 512 * 1024 * 1024 < (offset : ℤ) + value.length := by
      rw [checkStringLength, decide_eq_false_iff_not, not_le, Nat.cast_add]
    unfold found at hs
    generalize expireIfNeeded server m.keyspace key = ks at hvalid hs ⊢
    -- what is written once there is an object of the key's own
    have hwrite : ∀ {m' : Memory σ} {a : Addr} {t : Sds}, Owned m'.keyspace key a t → Others ks m'.keyspace key →
        m'.keyspace.expires = ks.expires → spliced t offset value = spliced s offset value →
        ∃ m'', writeRange m' a offset (offset + value.length) value = some (.int (spliced s offset value).length, m'') ∧ m''.keyspace.Valid ∧
          Stored ks key (spliced s offset value) (.int (spliced s offset value).length) m''.keyspace := by
      intro m' a t howned hothers hexpires hsame
      obtain ⟨m'', hrun, hvalid'', hvalue, hothers', hexpires'⟩ := writeRange_spec howned offset value hfits
      rw [hsame] at hrun hvalue
      exact ⟨m'', hrun, hvalid'', rfl, by rw [hvalue]; rfl, by rw [hvalue]; exact Option.some_ne_none _, hothers.trans hothers',
        hexpires'.trans hexpires⟩
    rcases lookupKey_cases hvalid key with ⟨hlookup, hkey⟩ | ⟨a, o, hlookup, hkey, ho⟩
    · rw [hlookup]
      rw [Store.value_none hkey] at hs
      obtain rfl : ([] : Sds) = s := Option.some.inj hs
      dsimp only
      by_cases hnil : value = []
      · rw [if_pos hnil]
        exact ⟨_, _, rfl, hvalid, fun hlt => absurd hlt hneg, fun _ _ => ⟨rfl, rfl⟩, fun _ hne => absurd hnil hne, fun _ hne => absurd hnil hne⟩
      · rw [if_neg hnil]
        by_cases hlong : checkStringLength ((offset + value.length : ℕ) : ℤ) = false
        · rw [if_pos hlong]
          exact ⟨_, _, rfl, hvalid, fun hlt => absurd hlt hneg, fun _ hvalue => absurd hvalue hnil, fun _ _ _ => ⟨rfl, rfl⟩,
            fun _ _ hle => absurd hle (not_le.mpr (hcheck.mp hlong))⟩
        · obtain ⟨ks', hadd, howned, hothers, hexpires⟩ := create_add hvalid hkey (List.replicate (offset + value.length) 0)
          have howned : Owned (⟨ks', Function.update m.embstr (.obj ks.next) false⟩ : Memory σ).keyspace key (.obj ks.next)
            (List.replicate (offset + value.length) 0) := howned
          obtain ⟨m', hrun, hvalid', hstored⟩ := hwrite howned hothers hexpires (spliced_zeros offset value)
          rw [if_neg hlong, sdsnewlen, if_pos hfits, some_bind, hadd, some_bind]
          exact ⟨_, m', hrun, hvalid', fun hlt => absurd hlt hneg, fun _ hvalue => absurd hvalue hnil,
            fun _ _ hlt => absurd (hcheck.mpr hlt) hlong, fun _ _ _ => hstored⟩
    · rw [hlookup]
      rw [Store.value_of hkey ho] at hs
      obtain ⟨holen, htype⟩ := stringObjectLen_eq (show o.val.text = some s from hs)
      dsimp only
      rw [htype, holen, if_neg Bool.false_ne_true, some_bind]
      by_cases hnil : value = []
      · rw [if_pos hnil]
        exact ⟨_, _, rfl, hvalid, fun hlt => absurd hlt hneg, fun _ _ => ⟨rfl, rfl⟩, fun _ hne => absurd hnil hne, fun _ hne => absurd hnil hne⟩
      · rw [if_neg hnil]
        by_cases hlong : checkStringLength ((offset + value.length : ℕ) : ℤ) = false
        · rw [if_pos hlong]
          exact ⟨_, _, rfl, hvalid, fun hlt => absurd hlt hneg, fun _ hvalue => absurd hvalue hnil, fun _ _ _ => ⟨rfl, rfl⟩,
            fun _ _ hle => absurd hle (not_le.mpr (hcheck.mp hlong))⟩
        · obtain ⟨m1, a1, hunshare, howned, hothers, hexpires⟩ := unshare_spec (m := { m with keyspace := ks }) hvalid hkey ho hs
          obtain ⟨m', hrun, hvalid', hstored⟩ := hwrite howned hothers hexpires rfl
          rw [if_neg hlong, hunshare, some_bind]
          exact ⟨_, m', hrun, hvalid', fun hlt => absurd hlt hneg, fun _ hvalue => absurd hvalue hnil,
            fun _ _ hlt => absurd (hcheck.mpr hlt) hlong, fun _ _ _ => hstored⟩

/-- **SETRANGE ends the server exactly if the offset reaches 2^63 with the value**: the sum is negative and passes the test. -/
theorem setrange_aborts_iff (server : Server) {m : Memory σ} (h : m.keyspace.Valid) (key : Key) {value : Sds}
    (hlen : value.length < 2 ^ 63) {offset : Sds} {n : ℤ} (hn : string2ll offset = some n) (hs : textIn (found server m.keyspace key) = some s)
    (hshort : s.length < 2 ^ 63) : setrangeCommand server m key offset value = none ↔ 2 ^ 63 ≤ n + value.length := by
  refine ⟨fun hnone => ?_, fun hsize => ?_⟩
  · by_contra hlt
    obtain ⟨reply, m', hrun, -⟩ := setrangeCommand_spec server h key value hn hs (not_le.mp hlt)
    exact absurd (hrun.symm.trans hnone) (Option.some_ne_none _)
  obtain ⟨hvalid, -, -⟩ := expireIfNeeded_spec server h key
  have hint : IsInt64 n := by
    rw [Util.string2ll_eq] at hn
    exact Streams.isInt64_lpStringToInt64 hn
  obtain ⟨-, hhigh⟩ := hint
  have hvalue : value ≠ [] := by
    rintro rfl
    rw [List.length_nil] at hsize
    omega
  obtain ⟨offset, rfl⟩ := Int.eq_ofNat_of_zero_le (by omega : 0 ≤ n)
  have hcheck : checkStringLength (toLongLong ((offset + value.length : ℕ) : ℤ)) = true := by
    rw [checkStringLength, toLongLong, decide_eq_true_eq, Int.bmod_def]
    omega
  rw [setrangeCommand, hn]
  dsimp only
  unfold found at hs
  generalize expireIfNeeded server m.keyspace key = ks at hvalid hs ⊢
  rw [if_neg (not_lt.mpr (Int.natCast_nonneg offset)), Int.toNat_natCast, Nat.mod_eq_of_lt (by omega : offset + value.length < 2 ^ 64), hcheck]
  rcases lookupKey_cases hvalid key with ⟨hlookup, hkey⟩ | ⟨a, o, hlookup, hkey, ho⟩
  · rw [hlookup]
    dsimp only
    rw [if_neg hvalue, if_neg Bool.false_ne_true.symm, sdsnewlen, if_neg (by omega)]
    rfl
  · rw [hlookup]
    rw [Store.value_of hkey ho] at hs
    obtain ⟨holen, htype⟩ := stringObjectLen_eq (show o.val.text = some s from hs)
    obtain ⟨m1, a1, hunshare, howned, -, -⟩ := unshare_spec (m := { m with keyspace := ks }) hvalid hkey ho hs
    obtain ⟨⟨val, refcount⟩, ho1, hval⟩ := howned.heap
    obtain rfl : val = .sds s := hval
    dsimp only
    rw [htype, holen, if_neg Bool.false_ne_true, some_bind, if_neg hvalue, if_neg Bool.false_ne_true.symm, hunshare,
      some_bind, writeRange, ho1, some_bind]
    dsimp only
    rw [sdsgrowzero, if_neg (by omega), if_neg (by omega)]
    rfl

/-! ### APPEND -/

theorem catString_spec (h : Owned m.keyspace key a s) (append : Sds) :
    ∃ m', catString m a append = some (.int (s ++ append).length, m') ∧ m'.keyspace.Valid ∧
      m'.keyspace.store.value key = some (.sds (s ++ append)) ∧ Others m.keyspace m'.keyspace key ∧ m'.keyspace.expires = m.keyspace.expires := by
  obtain ⟨hvalid, hvalue, hothers, hexpires⟩ := owned_write h (s ++ append)
  obtain ⟨⟨val, refcount⟩, ho, hval⟩ := h.heap
  obtain rfl : val = .sds s := hval
  refine ⟨{ m with keyspace := setPtr m.keyspace a (.sds (s ++ append)) }, ?_, hvalid, hvalue, hothers, hexpires⟩
  rw [catString, ho, some_bind]

/-- **An argument that is encoded keeps its text**, and may be given to a key. -/
theorem tryObjectEncoding_spec (server : Server) (h : m.keyspace.Valid) (raw : Bool) (s : Sds) :
    ∃ m' new v, tryObjectEncoding server m raw s = (m', new) ∧ m'.keyspace.Valid ∧ MayHold m'.keyspace new v ∧ v.text = some s ∧
      (∀ k, m'.keyspace.store.value k = m.keyspace.store.value k) ∧ m'.keyspace.store.dict = m.keyspace.store.dict ∧
      m'.keyspace.expires = m.keyspace.expires := by
  rw [tryObjectEncoding]
  cases hvalue : (if s.length ≤ 20 then string2ll s else none) with
  | none =>
    obtain ⟨hvalid, hhold, hvalue1, hdict, hexpires⟩ := createObject_spec h (proper_sds s)
    exact ⟨_, _, .sds s, rfl, hvalid, hhold, rfl, hvalue1, hdict, hexpires⟩
  | some value =>
    have hnum : string2ll s = some value := by
      split at hvalue
      · exact hvalue
      · cases hvalue
    rw [Util.string2ll_eq] at hnum
    have htext : (.int value : Val σ).text = some s := congrArg some (Streams.ll2string_lpStringToInt64 hnum)
    have hint : IsInt64 value := Streams.isInt64_lpStringToInt64 hnum
    dsimp only
    by_cases hshared : (server.maxmemory = 0 || !server.maxmemoryFlagNoSharedIntegers) ∧ 0 ≤ value ∧ value < OBJ_SHARED_INTEGERS
    · rw [if_pos hshared]
      have hobj := h.shared value.toNat (by omega)
      rw [Int.toNat_of_nonneg hshared.2.1] at hobj
      exact ⟨m, _, .int value, rfl, h, ⟨⟨_, hobj, Or.inl rfl⟩, ⟨_, hobj, rfl⟩, nofun⟩, htext, fun _ => rfl, rfl, rfl⟩
    · rw [if_neg hshared]
      cases raw with
      | true =>
        obtain ⟨hvalid, hhold, hvalue1, hdict, hexpires⟩ := createObject_spec h (proper_int hint)
        exact ⟨_, _, .int value, rfl, hvalid, hhold, htext, hvalue1, hdict, hexpires⟩
      | false =>
        obtain ⟨ks1, new, hcreate, hvalid, hhold, hvalue1, hdict, hexpires⟩ := createStringObject_spec server h hint true
        rw [if_neg Bool.false_ne_true, createStringObjectFromLongLongForValue, hcreate]
        exact ⟨_, _, .int value, rfl, hvalid, hhold, htext, hvalue1, hdict, hexpires⟩

/-- **APPEND**, with lengths of at most 512 MB. -/
theorem appendCommand_spec (server : Server) (h : m.keyspace.Valid) (key : Key) (raw : Bool) (append : Sds)
    (hs : textIn (found server m.keyspace key) = some s) (hlen : s.length ≤ 512 * 1024 * 1024) (happend : append.length ≤ 512 * 1024 * 1024) :
    ∃ reply m', appendCommand server m key raw append = some (reply, m') ∧ m'.keyspace.Valid ∧
      (512 * 1024 * 1024 < s.length + append.length → reply = .err lengthErr ∧ m'.keyspace = expireIfNeeded server m.keyspace key) ∧
      (s.length + append.length ≤ 512 * 1024 * 1024 →
        Stored (expireIfNeeded server m.keyspace key) key (s ++ append) reply m'.keyspace) := by
  obtain ⟨hvalid, -, -⟩ := expireIfNeeded_spec server h key
  rw [appendCommand]
  dsimp only
  unfold found at hs
  generalize expireIfNeeded server m.keyspace key = ks at hvalid hs ⊢
  rcases lookupKey_cases hvalid key with ⟨hlookup, hkey⟩ | ⟨a, o, hlookup, hkey, ho⟩
  · rw [hlookup]
    rw [Store.value_none hkey] at hs
    obtain rfl : ([] : Sds) = s := Option.some.inj hs
    obtain ⟨m1, new, v, hencode, hvalid1, hhold, htext, hvalue1, hdict1, hexpires1⟩ :=
      tryObjectEncoding_spec server (m := { m with keyspace := ks }) hvalid raw append
    obtain ⟨ks', hadd, hvalid', hnew, hvalue, hothers, hexpires⟩ := dbAdd_spec hvalid1 (by rw [hdict1]; exact hkey) hhold
    obtain ⟨o, ho, rfl⟩ := Store.of_value hnew hvalue
    have hothers1 : Others ks m1.keyspace key := ⟨fun k _ => hvalue1 k, fun k _ => congrFun hexpires1 k⟩
    refine ⟨.int append.length, { m1 with keyspace := ks' }, ?_, hvalid', fun hlt => ?_, fun _ => ?_⟩
    · dsimp only
      rw [hencode]
      dsimp only
      rw [hadd, some_bind, ho, some_bind, (stringObjectLen_eq htext).1]
      rfl
    · rw [List.length_nil] at hlt
      omega
    · exact ⟨rfl, by rw [hvalue]; exact htext, by rw [hvalue]; exact Option.some_ne_none _, hothers1.trans hothers, hexpires.trans hexpires1⟩
  · rw [hlookup]
    rw [Store.value_of hkey ho] at hs
    obtain ⟨holen, htype⟩ := stringObjectLen_eq (show o.val.text = some s from hs)
    have hcheck : checkStringLength (toLongLong (((s.length : ℤ) + append.length) % 2 ^ 64)) = false ↔
        512 * 1024 * 1024 < s.length + append.length := by
      rw [Int.emod_eq_of_lt (by omega) (by omega), toLongLong_eq (by omega) (by omega), checkStringLength, decide_eq_false_iff_not]
      omega
    dsimp only
    rw [htype, holen, if_neg Bool.false_ne_true, some_bind]
    by_cases hlong : checkStringLength (toLongLong (((s.length : ℤ) + append.length) % 2 ^ 64)) = false
    · rw [if_pos hlong]
      exact ⟨_, _, rfl, hvalid, fun _ => ⟨rfl, rfl⟩, fun hle => absurd hle (not_le.mpr (hcheck.mp hlong))⟩
    · obtain ⟨m1, a1, hunshare, howned, hothers, hexpires⟩ := unshare_spec (m := { m with keyspace := ks }) hvalid hkey ho hs
      obtain ⟨m', hrun, hvalid', hvalue, hothers', hexpires'⟩ := catString_spec howned append
      rw [if_neg hlong, hunshare, some_bind]
      exact ⟨_, m', hrun, hvalid', fun hlt => absurd (hcheck.mpr hlt) hlong, fun _ => ⟨rfl, by rw [hvalue]; rfl,
        by rw [hvalue]; exact Option.some_ne_none _, hothers.trans hothers', hexpires'.trans hexpires⟩⟩

/-! ### GETRANGE -/

theorem substring_eq (hlen : s.length < 2 ^ 63) {start stop : ℤ} (hstart : IsInt64 start) (hstop : IsInt64 stop) :
    substring s start stop = bytesBetween s start stop := by
  obtain ⟨hstart0, -⟩ := hstart
  obtain ⟨hstop0, -⟩ := hstop
  rw [substring, bytesBetween]
  dsimp only
  by_cases hreverse : start < 0 ∧ stop < 0 ∧ start > stop
  · rw [if_pos hreverse, if_pos hreverse]
  · rw [if_neg hreverse, if_neg hreverse]
    have hcounted : ∀ x : ℤ, -2 ^ 63 ≤ x → (if x < 0 then toLongLong (s.length + x) else x) = if x < 0 then s.length + x else x := by
      intro x hx
      split
      · exact toLongLong_eq (by omega) (by omega)
      · rfl
    rw [hcounted start hstart0, hcounted stop hstop0, toLongLong_eq (by omega : -2 ^ 63 ≤ (s.length : ℤ) - 1) (by omega)]
    generalize (if start < 0 then (s.length : ℤ) + start else start) = i
    generalize (if stop < 0 then (s.length : ℤ) + stop else stop) = j
    have hfirst : (if i < 0 then 0 else i) = max 0 i := by omega
    have hlast : (if (if j < 0 then 0 else j) ≥ (s.length : ℤ) then (s.length : ℤ) - 1 else if j < 0 then 0 else j) =
        min ((s.length : ℤ) - 1) (max 0 j) := by omega
    rw [hfirst, hlast]
    generalize max 0 i = first
    generalize min ((s.length : ℤ) - 1) (max 0 j) = last
    by_cases hnone : first > last ∨ (s.length : ℤ) = 0
    · rw [if_pos hnone]
      rcases hnone with hgt | hzero
      · rw [show (last + 1 - first).toNat = 0 by omega, List.take_zero]
      · rw [List.length_eq_zero_iff.mp (Int.natCast_eq_zero.mp hzero), List.drop_nil, List.take_nil]
    · rw [if_neg hnone, show last - first + 1 = last + 1 - first by omega]

/-- **GETRANGE** of a key that is not expired. -/
theorem getrangeCommand_spec (server : Server) (fromMaster : Bool) (h : m.keyspace.Valid) (key : Key)
    (hlive : keyIsExpired server m.keyspace key = false) (hs : textIn (m.keyspace.store.value key) = some s) (hlen : s.length < 2 ^ 63)
    {start stop : Sds} {i j : ℤ} (hi : string2ll start = some i) (hj : string2ll stop = some j) :
    getrangeCommand server fromMaster m key start stop = some (.bulk (bytesBetween s i j), m) := by
  have hexpire : expireIfNeeded server m.keyspace key = m.keyspace := by
    rw [expireIfNeeded, hlive]
    rfl
  have hi' : IsInt64 i := by
    rw [Util.string2ll_eq] at hi
    exact Streams.isInt64_lpStringToInt64 hi
  have hj' : IsInt64 j := by
    rw [Util.string2ll_eq] at hj
    exact Streams.isInt64_lpStringToInt64 hj
  rw [getrangeCommand, hi, hj]
  dsimp only
  rw [hexpire, lookupKeyRead, hlive, Bool.false_and, if_neg Bool.false_ne_true, ← substring_eq hlen hi' hj']
  rcases lookupKey_cases h key with ⟨hlookup, hkey⟩ | ⟨a, o, hlookup, hkey, ho⟩
  · rw [Store.value_none hkey] at hs
    obtain rfl : ([] : Sds) = s := Option.some.inj hs
    rw [hlookup, substring]
    dsimp only
    rw [List.drop_nil, List.take_nil, ite_self, ite_self]
  · rw [Store.value_of hkey ho] at hs
    have htext : o.val.text = some s := hs
    rw [hlookup]
    dsimp only
    rw [htext]

/-! ### Strings are spliced exactly -/

theorem live_found (hlive : keyIsExpired server ks key = false) : expireIfNeeded server ks key = ks := by
  rw [expireIfNeeded, hlive]
  rfl

/-- **SETRANGE and APPEND splice, or change nothing**, for strings and values of at most 512 MB and an offset that does
not reach 2^63 with the value: an offset that is negative is an error, a value that is empty leaves the string as it is,
and otherwise an end behind 512 MB is an error. GETRANGE gives the bytes between two positions. -/
theorem splice_exact (server : Server) {m : Memory σ} (h : m.keyspace.Valid) (key : Key) (hs : textIn (found server m.keyspace key) = some s)
    (hlen : s.length ≤ 512 * 1024 * 1024) (value : Sds) (hvalue : value.length ≤ 512 * 1024 * 1024) :
    (∀ offset n, string2ll offset = some n → n + value.length < 2 ^ 63 →
      ∃ reply m', setrangeCommand server m key offset value = some (reply, m') ∧ m'.keyspace.Valid ∧
        (n < 0 → (∃ text, reply = .err text) ∧ m' = m) ∧
        (0 ≤ n → value = [] → reply = .int s.length ∧ m'.keyspace = expireIfNeeded server m.keyspace key) ∧
        (0 ≤ n → value ≠ [] → 512 * 1024 * 1024 < n + value.length →
          reply = .err lengthErr ∧ m'.keyspace = expireIfNeeded server m.keyspace key) ∧
        (0 ≤ n → value ≠ [] → n + value.length ≤ 512 * 1024 * 1024 →
          Stored (expireIfNeeded server m.keyspace key) key (spliced s n.toNat value) reply m'.keyspace)) ∧
    (∀ raw, ∃ reply m', appendCommand server m key raw value = some (reply, m') ∧ m'.keyspace.Valid ∧
      (512 * 1024 * 1024 < s.length + value.length → reply = .err lengthErr ∧ m'.keyspace = expireIfNeeded server m.keyspace key) ∧
      (s.length + value.length ≤ 512 * 1024 * 1024 → Stored (expireIfNeeded server m.keyspace key) key (s ++ value) reply m'.keyspace)) ∧
    ∀ fromMaster start stop i j, string2ll start = some i → string2ll stop = some j → keyIsExpired server m.keyspace key = false →
      getrangeCommand server fromMaster m key start stop = some (.bulk (bytesBetween s i j), m) := by
  refine ⟨fun offset n hn hsize => setrangeCommand_spec server h key value hn hs hsize,
    fun raw => appendCommand_spec server h key raw value hs hlen hvalue, fun fromMaster start stop i j hi hj hlive => ?_⟩
  rw [found, live_found hlive] at hs
  exact getrangeCommand_spec server fromMaster h key hlive hs (by omega) hi hj

/-- No key, and no object. -/
def nothing : Memory Unit := ⟨emptyKeyspace, fun _ => false⟩

/-- Two bytes behind three zeros, under a key that is not there. -/
theorem splice_exact_padded : ∃ reply m', setrangeCommand master nothing (0, [107]) (sds "3") (sds "ab") = some (reply, m') ∧
    m'.keyspace.Valid ∧ Stored (expireIfNeeded master nothing.keyspace (0, [107])) (0, [107]) [0, 0, 0, 97, 98] reply m'.keyspace := by
  obtain ⟨reply, m', hrun, hvalid, -, -, -, hstored⟩ :=
    (splice_exact master (m := nothing) valid_empty (0, [107]) (s := []) rfl (by decide) (sds "ab") (by decide)).1 (sds "3") 3
      (by decide) (by decide)
  exact ⟨reply, m', hrun, hvalid, hstored (by decide) (by decide) (by decide)⟩

theorem setrange_aborts_iff_last : setrangeCommand master nothing (0, [107]) (sds "9223372036854775807") [97] = none ↔
    2 ^ 63 ≤ (9223372036854775807 : ℤ) + [97].length :=
  setrange_aborts_iff master (m := nothing) valid_empty (0, [107]) (s := []) (by decide) (by decide) rfl (by decide)

/-- An empty value at an offset behind the string does not pad it, and is no error behind 512 MB. -/
theorem setrange_empty_value : ∃ reply m m' m'', appendCommand master nothing (0, [107]) false (sds "ab") = some (reply, m) ∧
    textIn (found master m.keyspace (0, [107])) = some (sds "ab") ∧
    setrangeCommand master m (0, [107]) (sds "5") [] = some (.int 2, m') ∧
    textIn (m'.keyspace.store.value (0, [107])) ≠ some (spliced (sds "ab") 5 []) ∧
    setrangeCommand master m (0, [107]) (sds "600000000") [] = some (.int 2, m'') := by
  obtain ⟨reply, m, happend, hvalid, -, hstored⟩ := appendCommand_spec master (m := nothing) valid_empty (0, [107]) false (sds "ab") (s := [])
    rfl (by decide) (by decide)
  have hstored := hstored (by decide)
  have hlive : keyIsExpired master m.keyspace (0, [107]) = false := by
    rw [keyIsExpired, hstored.expires]
    rfl
  have hs : textIn (found master m.keyspace (0, [107])) = some (sds "ab") := by
    rw [found, live_found hlive]
    exact hstored.text
  have hfive : string2ll (sds "5") = some 5 := by decide
  have hlarge : string2ll (sds "600000000") = some 600000000 := by decide
  obtain ⟨reply1, m', hrun1, -, -, hempty1, -⟩ := setrangeCommand_spec master hvalid (0, [107]) [] hfive hs (by decide)
  obtain ⟨reply2, m'', hrun2, -, -, hempty2, -⟩ := setrangeCommand_spec master hvalid (0, [107]) [] hlarge hs (by decide)
  obtain ⟨rfl, hsame⟩ := hempty1 (by decide) rfl
  obtain ⟨rfl, -⟩ := hempty2 (by decide) rfl
  refine ⟨reply, m, m', m'', happend, hs, hrun1, ?_, hrun2⟩
  rw [hsame, live_found hlive, hstored.text]
  decide

end RedisZk.Strings
