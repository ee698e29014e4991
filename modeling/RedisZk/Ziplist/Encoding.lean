/-
# Entries of a ziplist

A ziplist is a block of bytes: a header with its size, the offset of the last entry and a count
of entries, the entries, and a byte 255. An entry begins with the length of the one before it,
in one byte or in five, then has its encoding, then its payload, a string or a number.

A pointer is an offset, and what it points to the bytes from there on; none stands for an access
outside of the block, for a panic, and for an assertion that fails.

Key definitions: `zlentry`, `zipEntry`, `zipStorePrevEntryLength`, `zipStoreEntryEncoding`,
`zipTryEncoding`, `zipSaveInteger`, `zipLoadInteger`, `ziplistGet`.
-/
import RedisZk.Aof.Load
import RedisZk.Lib.Endian
import RedisZk.Lib.Memory
import RedisZk.Streams.Cursor

namespace RedisZk.Ziplist

open Streams (Sds ll2string IsInt64)
open Aof (wrap)
open Endian (little ofLittle big ofBig)

/-! ### Encodings -/

def ZIP_END : Fin 256 := 255
def ZIP_BIG_PREVLEN : ℕ := 254
def ZIP_STR_MASK : ℕ := 0xc0
def ZIP_STR_06B : ℕ := 0x00
def ZIP_STR_14B : ℕ := 0x40
def ZIP_STR_32B : ℕ := 0x80
def ZIP_INT_16B : ℕ := 0xc0
def ZIP_INT_32B : ℕ := 0xd0
def ZIP_INT_64B : ℕ := 0xe0
def ZIP_INT_24B : ℕ := 0xf0
def ZIP_INT_8B : ℕ := 0xfe
def ZIP_INT_IMM_MIN : ℕ := 0xf1
def ZIP_INT_IMM_MAX : ℕ := 0xfd

def byte (n : ℕ) : Fin 256 := Fin.ofNat 256 n

/-- An `unsigned int`. -/
def uint (n : ℕ) : ℕ := n % 2 ^ 32

structure zlentry where
  prevrawlensize : ℕ
  prevrawlen : ℕ
  lensize : ℕ
  len : ℕ
  encoding : ℕ
deriving DecidableEq, Repr

def zlentry.headersize (e : zlentry) : ℕ := e.prevrawlensize + e.lensize

def zipIntSize (encoding : ℕ) : Option ℕ :=
  if encoding = ZIP_INT_8B then some 1
  else if encoding = ZIP_INT_16B then some 2
  else if encoding = ZIP_INT_24B then some 3
  else if encoding = ZIP_INT_32B then some 4
  else if encoding = ZIP_INT_64B then some 8
  else if ZIP_INT_IMM_MIN ≤ encoding ∧ encoding ≤ ZIP_INT_IMM_MAX then some 0
  else none

/-- The bytes that are written; for a string the encoding is found by the length. -/
def zipStoreEntryEncoding (encoding rawlen : ℕ) : Sds :=
  if encoding < ZIP_STR_MASK then
    if rawlen ≤ 0x3f then [byte rawlen]
    else if rawlen ≤ 0x3fff then byte (ZIP_STR_14B + rawlen / 256) :: [byte rawlen]
    else byte ZIP_STR_32B :: big 4 rawlen
  else [byte encoding]

/-- The encoding, the size of the length, and the length. -/
def zipDecodeLength : Sds → Option (ℕ × ℕ × ℕ)
  | [] => none
  | b :: rest =>
    if b.val / 64 = 0 then some (ZIP_STR_06B, 1, b.val % 64)
    else if b.val / 64 = 1 then rest.head?.map fun c => (ZIP_STR_14B, 2, b.val % 64 * 256 + c.val)
    else if b.val / 64 = 2 then
      if rest.length < 4 then none else some (ZIP_STR_32B, 5, ofBig (rest.take 4))
    else (zipIntSize b.val).map fun size => (b.val, 1, size)

def zipStorePrevEntryLengthLarge (len : ℕ) : Sds := 254 :: little 4 len

def zipStorePrevEntryLength (len : ℕ) : Sds :=
  if uint len < ZIP_BIG_PREVLEN then [byte len] else zipStorePrevEntryLengthLarge len

/-- The size of the length of the previous entry, and the length. -/
def zipDecodePrevlen : Sds → Option (ℕ × ℕ)
  | [] => none
  | b :: rest =>
    if b.val < ZIP_BIG_PREVLEN then some (1, b.val)
    else if rest.length < 4 then none
    else some (5, ofLittle (rest.take 4))

def zipPrevLenByteDiff (p : Sds) (len : ℕ) : Option ℤ := do
  let (prevlensize, _) ← zipDecodePrevlen p
  some ((zipStorePrevEntryLength len).length - prevlensize)

def zipEntry (p : Sds) : Option zlentry := do
  let (prevrawlensize, prevrawlen) ← zipDecodePrevlen p
  let (encoding, lensize, len) ← zipDecodeLength (p.drop prevrawlensize)
  some { prevrawlensize, prevrawlen, lensize, len, encoding }

def zipRawEntryLength (p : Sds) : Option ℕ := do
  let e ← zipEntry p
  some (uint (e.prevrawlensize + e.lensize + e.len))

/-! ### Payloads -/

/-- `string2ll`, of which `lpStringToInt64` has the steps. -/
def string2ll (s : Sds) : Option ℤ := Streams.lpStringToInt64 s

/-- The smallest encoding that can hold a value. -/
def intEncoding (value : ℤ) : ℕ :=
  if 0 ≤ value ∧ value ≤ 12 then ZIP_INT_IMM_MIN + value.toNat
  else if -2 ^ 7 ≤ value ∧ value ≤ 2 ^ 7 - 1 then ZIP_INT_8B
  else if -2 ^ 15 ≤ value ∧ value ≤ 2 ^ 15 - 1 then ZIP_INT_16B
  else if -2 ^ 23 ≤ value ∧ value ≤ 2 ^ 23 - 1 then ZIP_INT_24B
  else if -2 ^ 31 ≤ value ∧ value ≤ 2 ^ 31 - 1 then ZIP_INT_32B
  else ZIP_INT_64B

/-- The value and its encoding. -/
def zipTryEncoding (s : Sds) : Option (ℤ × ℕ) :=
  if 32 ≤ s.length ∨ s.length = 0 then none
  else (string2ll s).map fun value => (value, intEncoding value)

/-- A number in `n` bytes. -/
def signed (n : ℕ) (value : ℤ) : Sds := little n (value % 2 ^ (8 * n)).toNat

def ofSigned (n : ℕ) (s : Sds) : ℤ := wrap (2 ^ (8 * n - 1)) (ofLittle (s.take n))

def zipSaveInteger (value : ℤ) (encoding : ℕ) : Option Sds :=
  if encoding = ZIP_INT_8B then some (signed 1 value)
  else if encoding = ZIP_INT_16B then some (signed 2 value)
  -- The upper three bytes of a number of four.
  else if encoding = ZIP_INT_24B then some ((signed 4 (value * 256)).drop 1)
  else if encoding = ZIP_INT_32B then some (signed 4 value)
  else if encoding = ZIP_INT_64B then some (signed 8 value)
  else if ZIP_INT_IMM_MIN ≤ encoding ∧ encoding ≤ ZIP_INT_IMM_MAX then some []
  else none

def zipLoadInteger (p : Sds) (encoding : ℕ) : Option ℤ :=
  if encoding = ZIP_INT_8B then some (ofSigned 1 p)
  else if encoding = ZIP_INT_16B then some (ofSigned 2 p)
  else if encoding = ZIP_INT_32B then some (ofSigned 4 p)
  else if encoding = ZIP_INT_24B then some (ofSigned 4 (0 :: p.take 3) / 256)
  else if encoding = ZIP_INT_64B then some (ofSigned 8 p)
  else if ZIP_INT_IMM_MIN ≤ encoding ∧ encoding ≤ ZIP_INT_IMM_MAX then some (encoding % 16 - 1)
  else none

/-- A string or a number, as `ziplistGet` returns it. -/
inductive Value
  | str (s : Sds)
  | int (v : ℤ)
deriving DecidableEq

def Value.text : Value → Sds
  | .str s => s
  | .int v => ll2string v

def ziplistGet (p : Sds) : Option Value := do
  let e ← zipEntry p
  if e.encoding < ZIP_STR_MASK then some (.str ((p.drop e.headersize).take e.len))
  else do
    let v ← zipLoadInteger (p.drop e.headersize) e.encoding
    some (.int v)

end RedisZk.Ziplist
