/-
# intset.c

An intset is its encoding, its length and the block of its contents: integers of 16, 32 or 64 bits,
little-endian, in order. Adding an integer that is too wide for the encoding widens every cell in
place, from the last one to the first; every other operation begins with a binary search.

Reading and writing outside of the block is `none`; memory that `zrealloc` adds has any bytes in it.

Key definitions: `intset`, `intsetSearch`, `intsetUpgradeAndAdd`, `intsetAdd`, `intsetRemove`, `intsetFind`.
-/
import RedisZk.Ziplist.Entries

namespace RedisZk.Intset

open Aof (wrap)
open Memory (put memmove)
open Streams (Sds)
open Ziplist (signed ofSigned uint zrealloc)

def INTSET_ENC_INT16 : ℕ := 2
def INTSET_ENC_INT32 : ℕ := 4
def INTSET_ENC_INT64 : ℕ := 8

structure intset where
  encoding : ℕ
  length : ℕ
  contents : Sds
deriving DecidableEq

/-- A number as an `int`. -/
def int (n : ℤ) : ℤ := wrap (2 ^ 31) n

/-- `_intsetValueEncoding` -/
def intsetValueEncoding (v : ℤ) : ℕ :=
  if v < -2 ^ 31 ∨ v > 2 ^ 31 - 1 then INTSET_ENC_INT64
  else if v < -2 ^ 15 ∨ v > 2 ^ 15 - 1 then INTSET_ENC_INT32
  else INTSET_ENC_INT16

/-- The bytes of the C type that an encoding selects. -/
def cellSize (enc : ℕ) : ℕ :=
  if enc = INTSET_ENC_INT64 then 8 else if enc = INTSET_ENC_INT32 then 4 else 2

/-- `_intsetGetEncoded` -/
def intsetGetEncoded (is : intset) (pos : ℤ) (enc : ℕ) : Option ℤ :=
  if 0 ≤ pos ∧ (pos.toNat + 1) * cellSize enc ≤ is.contents.length then
    some (ofSigned (cellSize enc) (is.contents.drop (pos.toNat * cellSize enc)))
  else none

/-- `_intsetGet` -/
def intsetGet (is : intset) (pos : ℤ) : Option ℤ := intsetGetEncoded is pos is.encoding

/-- `_intsetSet` -/
def intsetSet (is : intset) (pos : ℤ) (value : ℤ) : Option intset :=
  if 0 ≤ pos then do
    let contents ← put is.contents (pos.toNat * cellSize is.encoding) (signed (cellSize is.encoding) value)
    some { is with contents }
  else none

def intsetNew : intset := { encoding := INTSET_ENC_INT16, length := 0, contents := [] }

/-- The loop of `intsetSearch`: `min`, `mid` and `cur` where it ends. -/
def searchLoop (is : intset) (value : ℤ) : ℕ → ℤ → ℤ → ℤ → ℤ → Option (ℤ × ℤ × ℤ)
  | 0, _, _, _, _ => none
  | n + 1, min, max, mid, cur =>
    if max ≥ min then do
      let mid := int (uint (uint (min % 2 ^ 32).toNat + uint (max % 2 ^ 32).toNat) / 2)
      let cur ← intsetGet is mid
      if value > cur then searchLoop is value n (mid + 1) max mid cur
      else if value < cur then searchLoop is value n min (mid - 1) mid cur
      else some (min, mid, cur)
    else some (min, mid, cur)

/-- Whether the value was found, and its position or the one where it can be inserted. -/
def intsetSearch (is : intset) (value : ℤ) : Option (Bool × ℕ) :=
  let max := int is.length - 1
  if is.length = 0 then some (false, 0)
  else do
    let last ← intsetGet is max
    if value > last then some (false, is.length)
    else do
      let first ← intsetGet is 0
      if value < first then some (false, 0)
      else do
        let (min, mid, cur) ← searchLoop is value (is.length + 1) 0 max (-1) (-1)
        if value = cur then some (true, (mid % 2 ^ 32).toNat) else some (false, (min % 2 ^ 32).toNat)

variable (fresh : ℕ → Fin 256)

def intsetResize (is : intset) (len : ℕ) : intset :=
  { is with contents := zrealloc fresh is.contents (uint (len * is.encoding)) }

/-- The loop of `intsetUpgradeAndAdd`, over the cells before `length`. -/
def upgradeLoop (curenc : ℕ) (prepend : ℤ) : ℕ → intset → Option intset
  | 0, is => some is
  | length + 1, is => do
    let value ← intsetGetEncoded is length curenc
    let is ← intsetSet is (length + prepend) value
    upgradeLoop curenc prepend length is

def intsetUpgradeAndAdd (is : intset) (value : ℤ) : Option intset := do
  let curenc := is.encoding
  let newenc := intsetValueEncoding value
  let length := int is.length
  let prepend : ℤ := if value < 0 then 1 else 0
  let is := intsetResize fresh { is with encoding := newenc } (uint (is.length + 1))
  -- A loop from below 0 would not end.
  let is ← if length < 0 then none else upgradeLoop curenc prepend length.toNat is
  let is ← if prepend ≠ 0 then intsetSet is 0 value else intsetSet is (int is.length) value
  some { is with length := uint (is.length + 1) }

/-- The cells from `start` on are moved to `dest`. -/
def intsetMoveTail (is : intset) (start dest : ℕ) : Option intset := do
  let count := uint (is.length + (2 ^ 32 - start))
  let w := cellSize is.encoding
  let contents ← memmove is.contents (dest * w) (start * w) (uint (count * w))
  some { is with contents }

/-- The intset, and whether the value was not in it. -/
def intsetAdd (is : intset) (value : ℤ) : Option (intset × Bool) := do
  if intsetValueEncoding value > is.encoding then do
    let is ← intsetUpgradeAndAdd fresh is value
    some (is, true)
  else do
    let (found, pos) ← intsetSearch is value
    if found then some (is, false)
    else do
      let is := intsetResize fresh is (uint (is.length + 1))
      let is ← if pos < is.length then intsetMoveTail is pos (uint (pos + 1)) else some is
      let is ← intsetSet is (int pos) value
      some ({ is with length := uint (is.length + 1) }, true)

/-- The intset, and whether the value was in it. -/
def intsetRemove (is : intset) (value : ℤ) : Option (intset × Bool) :=
  if intsetValueEncoding value ≤ is.encoding then do
    let (found, pos) ← intsetSearch is value
    if found then do
      let len := is.length
      let is ← if pos < uint (len + (2 ^ 32 - 1)) then intsetMoveTail is (uint (pos + 1)) pos else some is
      let is := intsetResize fresh is (uint (len + (2 ^ 32 - 1)))
      some ({ is with length := uint (len + (2 ^ 32 - 1)) }, true)
    else some (is, false)
  else some (is, false)

def intsetFind (is : intset) (value : ℤ) : Option Bool :=
  if intsetValueEncoding value ≤ is.encoding then (intsetSearch is value).map (·.1) else some false

end RedisZk.Intset
