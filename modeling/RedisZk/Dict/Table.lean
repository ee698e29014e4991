/-
# Hash tables with incremental rehashing

The dict of dict.c: two tables of chains, of which the second one exists while
the entries move from the first to it, bucket by bucket. A bucket is the list of
its entries in the order of the chain, and a table is as long as the memory
`zcalloc` gave for it, which is not its `size` when the number of bytes asked for
overflows. Reads and writes at an index fail outside that memory. The value of a
new entry, which the caller of `dictAddRaw` sets, comes as an argument.

Hashes, masks and cursors are the 64 bits of an `unsigned long`; sizes and
counts are naturals.

Key definitions: `DictType`, `Dict`, `dictExpand`, `dictRehash`, `dictAddRaw`, `dictReplace`,
`dictGenericDelete`, `dictFind`.
-/
import Mathlib

namespace RedisZk.Hash

def DICT_HT_INITIAL_SIZE : ℕ := 4
def LONG_MAX : ℕ := 2 ^ 63 - 1

/-- `dictType`: any hash function, and any comparison of keys that is an equivalence and
consistent with it. -/
structure DictType (κ : Type) where
  hashFunction : κ → BitVec 64
  keyCompare : κ → κ → Bool
  refl : ∀ a, keyCompare a a = true
  symm : ∀ a b, keyCompare a b = true → keyCompare b a = true
  trans : ∀ a b c, keyCompare a b = true → keyCompare b c = true → keyCompare a c = true
  hash_eq : ∀ a b, keyCompare a b = true → hashFunction a = hashFunction b

/-- The entries of a bucket. -/
abbrev Chain (κ ν : Type) := List (κ × ν)

structure DictHt (κ ν : Type) where
  table : List (Chain κ ν) := []
  size : ℕ := 0
  sizemask : BitVec 64 := 0
  used : ℕ := 0

/-- The dict, and the static `dict_can_resize`; `rehashidx` is `none` for -1. -/
structure Dict (κ ν : Type) where
  ht0 : DictHt κ ν := {}
  ht1 : DictHt κ ν := {}
  rehashidx : Option ℕ := none
  iterators : ℕ := 0
  canResize : Bool := true

/-- The ways a dict operation goes wrong. -/
inductive DictAbort
  /-- `assert(d->ht[0].size > (unsigned long)d->rehashidx)` -/
  | rehashAssert
  /-- An index outside the memory of the table. -/
  | outOfRange
  /-- `dictReplace`: neither a new entry nor an existing one. -/
  | nullExisting
deriving DecidableEq, Repr

variable {κ ν : Type} (t : DictType κ)

/-! ### Tables -/

/-- The index of a hash, or of a cursor. -/
def idxOf (h mask : BitVec 64) : ℕ := (h &&& mask).toNat

namespace DictHt

def bucket (ht : DictHt κ ν) (i : ℕ) : Except DictAbort (Chain κ ν) :=
  match ht.table[i]? with
  | none => .error .outOfRange
  | some c => .ok c

def setBucket (ht : DictHt κ ν) (i : ℕ) (c : Chain κ ν) : DictHt κ ν := { ht with table := ht.table.set i c }

/-- An entry on top of bucket `i`. -/
def push (ht : DictHt κ ν) (i : ℕ) (e : κ × ν) : Except DictAbort (DictHt κ ν) := do
  let c ← ht.bucket i
  .ok { ht.setBucket i (e :: c) with used := ht.used + 1 }

/-- The chain a key belongs to. -/
def chainOf (ht : DictHt κ ν) (key : κ) : Except DictAbort (Chain κ ν) :=
  ht.bucket (idxOf (t.hashFunction key) ht.sizemask)

end DictHt

def dictIsRehashing (d : Dict κ ν) : Bool := d.rehashidx.isSome

def dictSize (d : Dict κ ν) : ℕ := d.ht0.used + d.ht1.used

/-! ### Resizing -/

/-- `zcalloc(realsize*sizeof(dictEntry*))`: NULL pointers, as many as there are in the
number of bytes the multiplication gives. -/
def zcalloc (realsize : ℕ) : List (Chain κ ν) := List.replicate (realsize * 8 % 2 ^ 64 / 8) []

def nextPowerLoop (size : ℕ) : ℕ → ℕ → ℕ
  | 0, i => i
  | fuel + 1, i => if i ≥ size then i else nextPowerLoop size fuel (i * 2)

/-- `_dictNextPower`. The loop doubles at most 61 times. -/
def dictNextPower (size : ℕ) : ℕ :=
  if size ≥ LONG_MAX then LONG_MAX + 1 else nextPowerLoop size 61 DICT_HT_INITIAL_SIZE

/-- "Allocate the new hash table and initialize all pointers to NULL". -/
def newTable (realsize : ℕ) : DictHt κ ν where
  table := zcalloc realsize
  size := realsize
  sizemask := BitVec.ofNat 64 (realsize - 1)

/-- The dict, and whether DICT_OK was returned. -/
def dictExpand (d : Dict κ ν) (size : ℕ) : Dict κ ν × Bool :=
  if dictIsRehashing d ∨ d.ht0.used > size then (d, false)
  else
    let realsize := dictNextPower size
    if realsize = d.ht0.size then (d, false)
    -- `d->ht[0].table == NULL`, which is so exactly when the size is 0
    else if d.ht0.size = 0 then ({ d with ht0 := newTable realsize }, true)
    else ({ d with ht1 := newTable realsize, rehashidx := some 0 }, true)

/-- `int minimal = d->ht[0].used;` -/
def dictResize (d : Dict κ ν) : Dict κ ν × Bool :=
  if d.canResize = false ∨ dictIsRehashing d then (d, false)
  else
    let minimal := (BitVec.ofNat 32 d.ht0.used).toInt
    let minimal := if minimal < DICT_HT_INITIAL_SIZE then DICT_HT_INITIAL_SIZE else minimal.toNat
    dictExpand d minimal

/-- `_dictExpandIfNeeded` -/
def dictExpandIfNeeded (d : Dict κ ν) : Dict κ ν × Bool :=
  if dictIsRehashing d then (d, true)
  else if d.ht0.size = 0 then dictExpand d DICT_HT_INITIAL_SIZE
  else if d.ht0.used ≥ d.ht0.size ∧ (d.canResize = true ∨ d.ht0.used / d.ht0.size > 5) then
    dictExpand d (d.ht0.used * 2)
  else (d, true)

/-! ### Rehashing -/

/-- `while(d->ht[0].table[d->rehashidx] == NULL)`, over the buckets from `rehashidx` on:
the new `rehashidx`, and the empty visits left, if any. -/
def skipEmpty : List (Chain κ ν) → ℕ → ℕ → Except DictAbort (ℕ × Option ℕ)
  | [], _, _ => .error .outOfRange
  | [] :: rest, idx, emptyVisits =>
    if emptyVisits - 1 = 0 then .ok (idx + 1, none) else skipEmpty rest (idx + 1) (emptyVisits - 1)
  | (_ :: _) :: _, idx, emptyVisits => .ok (idx, some emptyVisits)

/-- One entry goes to the top of its bucket in the new table. -/
def moveEntry (d : Dict κ ν) (e : κ × ν) : Except DictAbort (Dict κ ν) := do
  let ht ← d.ht1.push (idxOf (t.hashFunction e.1) d.ht1.sizemask) e
  .ok { d with ht0 := { d.ht0 with used := d.ht0.used - 1 }, ht1 := ht }

/-- "Move all the keys in this bucket from the old to the new hash HT". -/
def rehashBucket (d : Dict κ ν) (idx : ℕ) : Except DictAbort (Dict κ ν) := do
  let c ← d.ht0.bucket idx
  let d ← c.foldlM (moveEntry t) d
  .ok { d with ht0 := d.ht0.setBucket idx [], rehashidx := some (idx + 1) }

/-- "Check if we already rehashed the whole table". -/
def rehashDone (d : Dict κ ν) : Dict κ ν × Bool :=
  if d.ht0.used = 0 then ({ d with ht0 := d.ht1, ht1 := {}, rehashidx := none }, false) else (d, true)

/-- The steps of `dictRehash`, from `rehashidx` on. -/
def rehashSteps : ℕ → ℕ → ℕ → Dict κ ν → Except DictAbort (Dict κ ν × Bool)
  | 0, _, _, d => .ok (rehashDone d)
  | n + 1, idx, emptyVisits, d =>
    if d.ht0.used = 0 then .ok (rehashDone d)
    else if d.ht0.size ≤ idx then .error .rehashAssert
    else do
      let (idx, left) ← skipEmpty (d.ht0.table.drop idx) idx emptyVisits
      match left with
      | none => .ok ({ d with rehashidx := some idx }, true)
      | some emptyVisits =>
        let d ← rehashBucket t d idx
        rehashSteps n (idx + 1) emptyVisits d

/-- `dictRehash(d,n)`, and whether there are still keys to move. -/
def dictRehash (d : Dict κ ν) (n : ℕ) : Except DictAbort (Dict κ ν × Bool) :=
  match d.rehashidx with
  | none => .ok (d, false)
  | some idx => rehashSteps t n idx (n * 10) d

/-- `_dictRehashStep` -/
def dictRehashStep (d : Dict κ ν) : Except DictAbort (Dict κ ν) :=
  if d.iterators = 0 then (dictRehash t d 1).map Prod.fst else .ok d

/-- `if (dictIsRehashing(d)) _dictRehashStep(d);` -/
def rehashIfNeeded (d : Dict κ ν) : Except DictAbort (Dict κ ν) :=
  if dictIsRehashing d then dictRehashStep t d else .ok d

/-! ### Adding -/

/-- Where an entry is: the table (the second one if set), the bucket, the place in its chain. -/
structure EntryRef where
  second : Bool
  idx : ℕ
  pos : ℕ

/-- What `_dictKeyIndex` finds: -1 without an entry, an entry, or the index of a new one. -/
inductive KeyIndex
  | failed
  | existing (ref : EntryRef)
  | free (idx : ℕ)

def findKey (key : κ) (c : Chain κ ν) : Option ℕ := c.findIdx? fun e => t.keyCompare key e.1

/-- `_dictKeyIndex` -/
def dictKeyIndex (d : Dict κ ν) (key : κ) : Except DictAbort (Dict κ ν × KeyIndex) := do
  let (d, ok) := dictExpandIfNeeded d
  if ok = false then .ok (d, .failed)
  else
    let idx0 := idxOf (t.hashFunction key) d.ht0.sizemask
    let c ← d.ht0.bucket idx0
    match findKey t key c with
    | some pos => .ok (d, .existing ⟨false, idx0, pos⟩)
    | none =>
      if dictIsRehashing d then
        let idx1 := idxOf (t.hashFunction key) d.ht1.sizemask
        let c ← d.ht1.bucket idx1
        match findKey t key c with
        | some pos => .ok (d, .existing ⟨true, idx1, pos⟩)
        | none => .ok (d, .free idx1)
      else .ok (d, .free idx0)

/-- What `dictAddRaw` returns: whether there is a new entry, and the existing one. -/
inductive Added
  | added
  | existing (ref : EntryRef)
  | failed

def dictAddRaw (d : Dict κ ν) (key : κ) (val : ν) : Except DictAbort (Dict κ ν × Added) := do
  let d ← rehashIfNeeded t d
  let (d, index) ← dictKeyIndex t d key
  match index with
  | .failed => .ok (d, .failed)
  | .existing ref => .ok (d, .existing ref)
  | .free idx =>
    if dictIsRehashing d then
      let ht ← d.ht1.push idx (key, val)
      .ok ({ d with ht1 := ht }, .added)
    else
      let ht ← d.ht0.push idx (key, val)
      .ok ({ d with ht0 := ht }, .added)

/-- The dict, and whether DICT_OK was returned. -/
def dictAdd (d : Dict κ ν) (key : κ) (val : ν) : Except DictAbort (Dict κ ν × Bool) := do
  let (d, res) ← dictAddRaw t d key val
  .ok (d, match res with
    | .added => true
    | _ => false)

/-- `dictSetVal(d, existing, val)` -/
def DictHt.setVal (ht : DictHt κ ν) (ref : EntryRef) (val : ν) : DictHt κ ν :=
  { ht with table := ht.table.modify ref.idx fun c => c.modify ref.pos fun e => (e.1, val) }

def dictSetVal (d : Dict κ ν) (ref : EntryRef) (val : ν) : Dict κ ν :=
  if ref.second then { d with ht1 := d.ht1.setVal ref val } else { d with ht0 := d.ht0.setVal ref val }

/-- The dict, and whether the key was added from scratch. -/
def dictReplace (d : Dict κ ν) (key : κ) (val : ν) : Except DictAbort (Dict κ ν × Bool) := do
  let (d, res) ← dictAddRaw t d key val
  match res with
  | .added => .ok (d, true)
  | .existing ref => .ok (dictSetVal d ref val, false)
  | .failed => .error .nullExisting

/-! ### Removing and finding -/

/-- Unlinks the first entry of the key from its chain in this table. -/
def DictHt.unlink (ht : DictHt κ ν) (key : κ) : Except DictAbort (Option (DictHt κ ν × κ × ν)) := do
  let c ← ht.chainOf t key
  match c.find? fun e => t.keyCompare key e.1 with
  | none => .ok none
  | some e => .ok (some
      ({ ht.setBucket (idxOf (t.hashFunction key) ht.sizemask) (c.eraseP fun e => t.keyCompare key e.1) with
          used := ht.used - 1 }, e))

/-- The dict, and the entry that was unlinked. -/
def dictGenericDelete (d : Dict κ ν) (key : κ) : Except DictAbort (Dict κ ν × Option (κ × ν)) :=
  if d.ht0.used = 0 ∧ d.ht1.used = 0 then .ok (d, none)
  else do
    let d ← rehashIfNeeded t d
    match ← d.ht0.unlink t key with
    | some (ht, e) => .ok ({ d with ht0 := ht }, some e)
    | none =>
      if dictIsRehashing d then
        match ← d.ht1.unlink t key with
        | some (ht, e) => .ok ({ d with ht1 := ht }, some e)
        | none => .ok (d, none)
      else .ok (d, none)

/-- The dict, and whether DICT_OK was returned. -/
def dictDelete (d : Dict κ ν) (key : κ) : Except DictAbort (Dict κ ν × Bool) := do
  let (d, e) ← dictGenericDelete t d key
  .ok (d, e.isSome)

def dictUnlink (d : Dict κ ν) (key : κ) : Except DictAbort (Dict κ ν × Option (κ × ν)) :=
  dictGenericDelete t d key

def DictHt.find (ht : DictHt κ ν) (key : κ) : Except DictAbort (Option (κ × ν)) := do
  let c ← ht.chainOf t key
  .ok (c.find? fun e => t.keyCompare key e.1)

def dictFind (d : Dict κ ν) (key : κ) : Except DictAbort (Dict κ ν × Option (κ × ν)) :=
  if d.ht0.used + d.ht1.used = 0 then .ok (d, none)
  else do
    let d ← rehashIfNeeded t d
    match ← d.ht0.find t key with
    | some e => .ok (d, some e)
    | none =>
      if dictIsRehashing d then
        let e ← d.ht1.find t key
        .ok (d, e)
      else .ok (d, none)

end RedisZk.Hash
