/-
# Inserting into a ziplist

The block grows, the entries from the place on are moved, the next entry gets the length of the
new one, and where that changes its own length the entries behind it are gone through as well.
Memory that is new has any bytes in it.

Key definitions: `ziplistResize`, `ziplistCascadeUpdate`, `ziplistInsert`.
-/
import RedisZk.Ziplist.Encoding

namespace RedisZk.Ziplist

open Streams (Sds)
open Endian (little ofLittle)
open Memory (put memmove)

/-! ### The header -/

def ZIPLIST_HEADER_SIZE : ℕ := 10
def UINT16_MAX : ℕ := 2 ^ 16 - 1

def ziplistBytes (zl : Sds) : ℕ := ofLittle (zl.take 4)
def ziplistTailOffset (zl : Sds) : ℕ := ofLittle ((zl.drop 4).take 4)
def ziplistLength (zl : Sds) : ℕ := ofLittle ((zl.drop 8).take 2)

def setBytes (zl : Sds) (n : ℕ) : Sds := little 4 n ++ zl.drop 4

/-- A `uint32_t`. -/
def setTailOffset (zl : Sds) (n : ℤ) : Sds := zl.take 4 ++ (little 4 (n % 2 ^ 32).toNat ++ zl.drop 8)

def setLength (zl : Sds) (n : ℕ) : Sds := zl.take 8 ++ (little 2 n ++ zl.drop 10)

def ziplistIncrLength (zl : Sds) (incr : ℕ) : Sds :=
  if ziplistLength zl < UINT16_MAX then setLength zl (ziplistLength zl + incr) else zl

def ziplistNew : Sds := little 4 11 ++ (little 4 10 ++ (little 2 0 ++ [ZIP_END]))

variable (fresh : ℕ → Fin 256)

/-- `zrealloc`, with what is in the new memory. -/
def zrealloc (m : Sds) (len : ℕ) : Sds := m.take len ++ (List.range' m.length (len - m.length)).map fresh

def ziplistResize (zl : Sds) (len : ℕ) : Option Sds :=
  put (setBytes (zrealloc fresh zl (uint len)) (uint len)) (uint len - 1) [ZIP_END]

/-! ### The cascade -/

/-- The loop of `__ziplistCascadeUpdate`, of a ziplist of `curlen` bytes, from the entry at `p` on. -/
def cascadeLoop : ℕ → ℕ → Sds → ℕ → Option Sds
  | 0, _, _, _ => none
  | n + 1, curlen, zl, p => do
    let first ← (zl.drop p).head?
    if first = ZIP_END then some zl
    else do
      let cur ← zipEntry (zl.drop p)
      let rawlen := uint (cur.headersize + cur.len)
      let rawlensize := (zipStorePrevEntryLength rawlen).length
      let np := p + rawlen
      let second ← (zl.drop np).head?
      if second = ZIP_END then some zl
      else do
        let next ← zipEntry (zl.drop np)
        if next.prevrawlen = rawlen then some zl
        else if next.prevrawlensize < rawlensize then do
          let extra := rawlensize - next.prevrawlensize
          let zl ← ziplistResize fresh zl (curlen + extra)
          let zl := if ziplistTailOffset zl ≠ np then setTailOffset zl (ziplistTailOffset zl + extra) else zl
          let zl ← memmove zl (np + rawlensize) (np + next.prevrawlensize) (curlen - np - next.prevrawlensize - 1)
          let zl ← put zl np (zipStorePrevEntryLength rawlen)
          cascadeLoop n (curlen + extra) zl np
        -- It is not shrunk.
        else if next.prevrawlensize > rawlensize then put zl np (zipStorePrevEntryLengthLarge rawlen)
        else put zl np (zipStorePrevEntryLength rawlen)

/-- `__ziplistCascadeUpdate`; there is a turn for each entry at most. -/
def ziplistCascadeUpdate (zl : Sds) (p : ℕ) : Option Sds := cascadeLoop fresh zl.length (ziplistBytes zl) zl p

/-! ### Insertion -/

/-- The length of the entry before `p`. -/
def prevlenAt (zl : Sds) (p : ℕ) : Option ℕ := do
  let first ← (zl.drop p).head?
  if first ≠ ZIP_END then do
    let (_, prevlen) ← zipDecodePrevlen (zl.drop p)
    some prevlen
  else do
    let ptail := zl.drop (ziplistTailOffset zl)
    let t ← ptail.head?
    if t ≠ ZIP_END then zipRawEntryLength ptail else some 0

/-- The encoding and the payload of an entry. -/
def zipEncode (s : Sds) : Option (Sds × Sds) :=
  match zipTryEncoding s with
  | some (value, encoding) => do
    let payload ← zipSaveInteger value encoding
    some (zipStoreEntryEncoding encoding s.length, payload)
  | none => some (zipStoreEntryEncoding 0 s.length, s)

/-- The entries from `p` on are moved by `reqlen` and the next of them gets that as the length before
it, which takes `nextdiff` bytes more; then the offset of the tail is set. -/
def insertMove (zl : Sds) (p curlen reqlen : ℕ) (nextdiff : ℤ) (forcelarge : Bool) : Option Sds := do
  let first ← (zl.drop p).head?
  if first ≠ ZIP_END then do
    let zl ← memmove zl (p + reqlen) (p - nextdiff).toNat (curlen - p - 1 + nextdiff).toNat
    let zl ← put zl (p + reqlen)
      (if forcelarge then zipStorePrevEntryLengthLarge reqlen else zipStorePrevEntryLength reqlen)
    let zl := setTailOffset zl (ziplistTailOffset zl + reqlen)
    let tail ← zipEntry (zl.drop (p + reqlen))
    let behind ← (zl.drop (p + reqlen + uint (tail.headersize + tail.len))).head?
    some (if behind ≠ ZIP_END then setTailOffset zl (ziplistTailOffset zl + nextdiff) else zl)
  else some (setTailOffset zl p)

/-- `__ziplistInsert` -/
def ziplistInsert (zl : Sds) (p : ℕ) (s : Sds) : Option Sds := do
  let curlen := ziplistBytes zl
  let first ← (zl.drop p).head?
  let prevlen ← prevlenAt zl p
  let (encoding, payload) ← zipEncode s
  let reqlen := payload.length + (zipStorePrevEntryLength prevlen).length + encoding.length
  let nextdiff ← if first ≠ ZIP_END then zipPrevLenByteDiff (zl.drop p) reqlen else some 0
  let forcelarge : Bool := nextdiff = -4 ∧ reqlen < 4
  let nextdiff := if forcelarge then 0 else nextdiff
  let zl ← ziplistResize fresh zl (curlen + reqlen + nextdiff).toNat
  let zl ← insertMove zl p curlen reqlen nextdiff forcelarge
  let zl ← if nextdiff ≠ 0 then ziplistCascadeUpdate fresh zl (p + reqlen) else some zl
  let zl ← put zl p (zipStorePrevEntryLength prevlen)
  let p := p + (zipStorePrevEntryLength prevlen).length
  let zl ← put zl p encoding
  let zl ← put zl (p + encoding.length) payload
  some (ziplistIncrLength zl 1)

end RedisZk.Ziplist
