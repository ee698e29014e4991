/-
# PFADD and PFMERGE

The commands over the strings of a database: PFADD hashes its elements and sets one register for
each, PFMERGE computes the maximum of several strings and writes it to the first one. Keys that
have expired count as deleted already.

Key definitions: `MurmurHash64A`, `hllPatLen`, `hllAdd`, `isHLLObjectOrReply`, `pfaddCommand`, `pfmergeCommand`.
Key theorems: `hllPatLen_bounds`.
-/
import RedisZk.HyperLogLog.Sparse
import RedisZk.Keyspace.Db

namespace RedisZk.HyperLogLog

open Streams (Sds)
open Endian (Byte ofLittle)
open Keyspace (Db)
open Networking (sds)

/-! ### Elements -/

/-- One block of eight bytes. -/
def murmurMix (k : UInt64) : UInt64 :=
  let m := 0xc6a4a7935bd1e995
  let k := k * m
  let k := k ^^^ (k >>> 47)
  k * m

/-- `MurmurHash64A`; its last bytes, fewer than eight, are those of one number. -/
def MurmurHash64A (key : Sds) (seed : UInt64) : UInt64 :=
  let m := 0xc6a4a7935bd1e995
  let h := seed ^^^ (UInt64.ofNat key.length * m)
  let h := (List.range (key.length / 8)).foldl
    (fun h i => (h ^^^ murmurMix (UInt64.ofNat (ofLittle ((key.drop (8 * i)).take 8)))) * m) h
  let rest := key.drop (8 * (key.length / 8))
  let h := if rest = [] then h else (h ^^^ UInt64.ofNat (ofLittle rest)) * m
  let h := h ^^^ (h >>> 47)
  let h := h * m
  h ^^^ (h >>> 47)

/-- `while((hash & bit) == 0)`, in no more than `n` turns. -/
def zeroRun (hash : ℕ) : ℕ → ℕ → ℕ → ℕ
  | 0, _, count => count
  | n + 1, bit, count => if hash &&& bit = 0 then zeroRun hash n (bit <<< 1) (count + 1) else count

/-- The register of an element, and its count. -/
def hllPatLen (ele : Sds) : ℕ × ℕ :=
  let hash := (MurmurHash64A ele 0xadc83b19).toNat
  let index := hash &&& HLL_P_MASK
  let hash := hash >>> HLL_P ||| 1 <<< HLL_Q
  (index, zeroRun hash 64 1 1)

theorem zeroRun_bounds {hash : ℕ} (h : hash.testBit HLL_Q = true) : ∀ n j, j ≤ HLL_Q → HLL_Q < j + n →
    j + 1 ≤ zeroRun hash n (2 ^ j) (j + 1) ∧ zeroRun hash n (2 ^ j) (j + 1) ≤ HLL_Q + 1 := by
  intro n
  induction n with
  | zero =>
    intro j h1 h2
    omega
  | succ n ih =>
    intro j h1 h2
    rw [zeroRun]
    split
    · rename_i h0
      have hne : j ≠ HLL_Q := by
        rintro rfl
        have hbit : (hash &&& 2 ^ HLL_Q).testBit HLL_Q = true := by
          rw [Nat.testBit_and, h, Nat.testBit_two_pow_self, Bool.and_self]
        rw [h0, Nat.zero_testBit] at hbit
        cases hbit
      have hshift : 2 ^ j <<< 1 = 2 ^ (j + 1) := by rw [Nat.shiftLeft_eq, ← pow_add]
      have hrec := ih (j + 1) (by omega) (by omega)
      rw [hshift]
      omega
    · omega

/-- The count is from 1 to 51. -/
theorem hllPatLen_bounds (ele : Sds) :
    (hllPatLen ele).1 < HLL_REGISTERS ∧ 1 ≤ (hllPatLen ele).2 ∧ (hllPatLen ele).2 ≤ HLL_Q + 1 := by
  constructor
  · have hmask : (hllPatLen ele).1 = (MurmurHash64A ele 0xadc83b19).toNat % 2 ^ 14 := Nat.and_two_pow_sub_one_eq_mod _ 14
    rw [hmask]
    exact Nat.mod_lt _ (Nat.two_pow_pos 14)
  · have hbit : ∀ n, (n >>> HLL_P ||| 1 <<< HLL_Q).testBit HLL_Q = true := by
      intro n
      rw [Nat.testBit_or, Nat.one_shiftLeft, Nat.testBit_two_pow_self, Bool.or_true]
    exact zeroRun_bounds (hbit _) 64 0 (Nat.zero_le _) (by decide)

/-- Sets the register of an element, in either encoding. -/
def hllAdd (hll_sparse_max_bytes : ℕ) (o : Str) (ele : Sds) : Option (Str × ℤ) :=
  if o.encoding = some HLL_DENSE then denseSet o (hllPatLen ele).1 (hllPatLen ele).2
  else if o.encoding = some HLL_SPARSE then hllSparseSet hll_sparse_max_bytes o (hllPatLen ele).1 (hllPatLen ele).2
  else some (o, -1)

/-! ### Objects -/

/-- An object of a database; of a string is said whether it may be changed in place (no reference
to it but one, and `OBJ_ENCODING_RAW`). -/
inductive Object
  | string (s : Str) (raw : Bool)
  /-- A string with `OBJ_ENCODING_INT`. -/
  | int (v : ℤ)
  /-- An object of another type. -/
  | other
deriving DecidableEq, Repr

structure Server where
  db : Db Object
  hll_sparse_max_bytes : ℕ
  dirty : ℕ
  /-- The keys given to `signalModifiedKey`. -/
  modified : List Sds
  /-- The keys given to `notifyKeyspaceEvent`, with the event "pfadd". -/
  notified : List Sds

inductive Reply
  | zero
  | one
  | ok
  | error (text : Sds)
deriving DecidableEq, Repr

def wrongtypeerr : Sds := sds "-WRONGTYPE Operation against a key holding the wrong kind of value\r\n"
def not_hll_err : Sds := sds "-WRONGTYPE Key is not a valid HyperLogLog string value.\r\n"
def invalid_hll_err : Sds := sds "-INVALIDOBJ Corrupted HLL object detected\r\n"

/-- An empty HyperLogLog, sparse. -/
def createHLLObject : Str := ⟨(magic ++ [HLL_SPARSE] ++ List.replicate 11 0) ++ xzeroSet HLL_REGISTERS, 0⟩

/-- The tests of `isHLLObjectOrReply` on the bytes. -/
def isHLL (s : Str) : Bool :=
  HLL_HDR_SIZE ≤ s.bytes.length ∧ s.bytes.take 4 = magic ∧ (s.encoding = some HLL_DENSE ∨ s.encoding = some HLL_SPARSE) ∧
    (s.encoding = some HLL_DENSE → s.bytes.length = HLL_DENSE_SIZE)

/-- The string, or the error that is replied. -/
def isHLLObjectOrReply : Object → Except Sds (Str × Bool)
  | .other => .error wrongtypeerr
  | .int _ => .error not_hll_err
  | .string s raw => if isHLL s then .ok (s, raw) else .error not_hll_err

/-- `dbUnshareStringValue`: a copy has a null byte behind its end. -/
def dbUnshareStringValue (s : Str) (raw : Bool) : Str := if raw then s else ⟨s.bytes, 0⟩

/-- `dbAdd`, `dbOverwrite`, and a change of an object in place. -/
def store (db : Db Object) (key : Sds) (s : Str) : Db Object where
  dict := Function.update db.dict key (some (.string s true))
  expires := db.expires
  expires_in := by
    intro key' h
    by_cases hkey : key' = key
    · subst hkey
      rw [Function.update_self]
      rfl
    · rw [Function.update_of_ne hkey]
      exact db.expires_in h

/-! ### The commands -/

/-- The elements are added until one of them is refused; the count of those that changed a
register, none if there was an error. -/
def addElements (hll_sparse_max_bytes : ℕ) : List Sds → Str → ℕ → Option (Str × Option ℕ)
  | [], o, updated => some (o, some updated)
  | ele :: eles, o, updated =>
    (hllAdd hll_sparse_max_bytes o ele).bind fun r =>
      if r.2 = 1 then addElements hll_sparse_max_bytes eles r.1 (updated + 1)
      else if r.2 = -1 then some (r.1, none)
      else addElements hll_sparse_max_bytes eles r.1 updated

/-- PFADD after the key was looked up, or created. -/
def pfaddString (s : Server) (key : Sds) (eles : List Sds) (o : Str) (updated : ℕ) : Option (Server × Reply) :=
  (addElements s.hll_sparse_max_bytes eles o updated).map fun r =>
    match r.2 with
    | none => ({ s with db := store s.db key r.1 }, .error invalid_hll_err)
    | some updated =>
      if updated ≠ 0 then
        ({ s with
            db := store s.db key ⟨HLL_INVALIDATE_CACHE r.1.bytes, r.1.nul⟩
            dirty := s.dirty + 1
            modified := s.modified ++ [key]
            notified := s.notified ++ [key] }, .one)
      else ({ s with db := store s.db key r.1 }, .zero)

def pfaddCommand (s : Server) (key : Sds) (eles : List Sds) : Option (Server × Reply) :=
  match s.db.dict key with
  | none => pfaddString s key eles createHLLObject 1
  | some o =>
    match isHLLObjectOrReply o with
    | .error e => some (s, .error e)
    | .ok (str, raw) => pfaddString s key eles (dbUnshareStringValue str raw) 0

/-- The maximum of the strings at `keys`, and whether one of them is dense. -/
def mergeKeys (db : Db Object) : List Sds → List ℕ → Bool → Option (Except Sds (List ℕ × Bool))
  | [], max, use_dense => some (.ok (max, use_dense))
  | key :: keys, max, use_dense =>
    match db.dict key with
    | none => mergeKeys db keys max use_dense
    | some o =>
      match isHLLObjectOrReply o with
      | .error e => some (.error e)
      | .ok (str, _) =>
        (hllMerge max str).bind fun r =>
          if r.2 = C_ERR then some (.error invalid_hll_err)
          else mergeKeys db keys r.1 (if str.encoding = some HLL_DENSE then true else use_dense)

/-- One turn of the loop that writes the maximum. -/
def writeRegister (hll_sparse_max_bytes : ℕ) (max : List ℕ) (o : Str) (j : ℕ) : Option Str :=
  (max[j]?).bind fun count =>
    if count = 0 then some o
    else if o.encoding = some HLL_DENSE then (denseSet o j count).map Prod.fst
    else if o.encoding = some HLL_SPARSE then (hllSparseSet hll_sparse_max_bytes o j count).map Prod.fst
    else some o

/-- PFMERGE after the maximum was computed. -/
def pfmergeString (s : Server) (key : Sds) (max : List ℕ) (use_dense : Bool) (o : Str) : Option (Server × Reply) :=
  (if use_dense then hllSparseToDense o else some (o, C_OK)).bind fun r =>
    if r.2 = C_ERR then some ({ s with db := store s.db key r.1 }, .error invalid_hll_err)
    else
      ((List.range HLL_REGISTERS).foldlM (writeRegister s.hll_sparse_max_bytes max) r.1).map fun o =>
        ({ s with
            db := store s.db key ⟨HLL_INVALIDATE_CACHE o.bytes, o.nul⟩
            dirty := s.dirty + 1
            modified := s.modified ++ [key]
            notified := s.notified ++ [key] }, .ok)

def pfmergeCommand (s : Server) (key : Sds) (srcs : List Sds) : Option (Server × Reply) :=
  (mergeKeys s.db (key :: srcs) (List.replicate HLL_REGISTERS 0) false).bind fun r =>
    match r with
    | .error e => some (s, .error e)
    | .ok (max, use_dense) =>
      match s.db.dict key with
      | none => pfmergeString s key max use_dense createHLLObject
      | some (.string str raw) => pfmergeString s key max use_dense (dbUnshareStringValue str raw)
      -- `serverAssert(o->type == OBJ_STRING)`
      | some _ => none

end RedisZk.HyperLogLog
