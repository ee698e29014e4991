/-
# Values in an RDB file

What `rdbSaveObject` writes for a value and `rdbLoadObject` makes of it. Packed values
(ziplists, intsets and the nodes of lists) are kept as their bytes and written as they are;
loading converts them where the limits of the configuration say so.

A dict is the list of its entries, in the order its iterator takes, and a skip list the list
of its nodes. How the bytes of packed values are read and extended, and the text of a double,
are parameters, as is `lzf`. Modules are left out.

Key definitions: `Robj`, `rdbSaveObjectType`, `rdbSaveObject`, `rdbLoadObject`.
-/
import RedisZk.Rdb.Strings
import RedisZk.Streams.Commands
import RedisZk.Zset.Skiplist

namespace RedisZk.Rdb

open Streams (Sds ll2string StreamID StreamCG StreamNACK StreamConsumer GroupedStream Listpack U64)
open Endian (little ofLittle big ofBig)
open Reading (Reader)

/-! ### Values -/

/-- What the server is told. -/
structure Config where
  rdb_compression : Bool := true
  list_compress_depth : ℕ := 0
  set_max_intset_entries : ℕ := 512
  hash_max_ziplist_entries : ℕ := 512
  hash_max_ziplist_value : ℕ := 64
  zset_max_ziplist_entries : ℕ := 128
  zset_max_ziplist_value : ℕ := 64

/-- How packed values and doubles of the type `σ` are read and written. -/
structure Codecs (σ : Type) extends Lzf where
  /-- The entries of a ziplist, as strings. -/
  ziplistEntries : Sds → List Sds
  ziplistNew : Sds
  /-- `ziplistPush` with `ZIPLIST_TAIL`. -/
  ziplistPush : Sds → Sds → Sds
  intsetEntries : Sds → List ℤ
  intsetNew : Sds
  intsetAdd : Sds → ℤ → Sds
  /-- The bytes of a listpack. -/
  lpBlob : Listpack → Sds
  lpOfBlob : Sds → Listpack
  /-- The bytes of a double in memory, the least significant first. -/
  doubleBytes : σ → Sds
  doubleOfBytes : Sds → σ
  d2string : σ → Sds
  strtod : Sds → σ

/-- A node of a list, compressed or not; `sz` is the size it had before. -/
inductive QuicklistNode
  | raw (zl : Sds)
  | lzf (data : Sds) (sz : ℕ)
deriving DecidableEq, Repr

/-- A sorted set: the skip list and the dict. -/
structure Zset (σ : Type) where
  zsl : List (Sds × σ) := []
  dict : List (Sds × σ) := []

inductive Robj (σ : Type)
  | string (o : StringObject)
  | quicklist (nodes : List QuicklistNode)
  | intset (is : Sds)
  | set (elements : List Sds)
  | zsetZiplist (zl : Sds)
  | zset (zs : Zset σ)
  | hashZiplist (zl : Sds)
  | hash (pairs : List (Sds × Sds))
  | stream (s : GroupedStream)

variable {σ : Type} (k : Codecs σ)

/-! ### Saving -/

def rdbSaveObjectType : Robj σ → ℕ
  | .string _ => 0
  | .quicklist _ => 14
  | .intset _ => 11
  | .set _ => 2
  | .zsetZiplist _ => 12
  | .zset _ => 5
  | .hashZiplist _ => 13
  | .hash _ => 4
  | .stream _ => 15

/-- The raw key of an ID. -/
def rawId (id : StreamID) : Sds := big 8 id.ms.val ++ big 8 id.seq.val

def saveNode (c : Config) : QuicklistNode → Sds
  | .raw zl => rdbSaveRawString k.toLzf c.rdb_compression zl
  | .lzf data sz => rdbSaveLzfBlob data sz

def saveId (id : StreamID) : Sds := rdbSaveLen id.ms.val ++ rdbSaveLen id.seq.val

/-- An entry of `rdbSaveStreamPEL`, with `nacks`. -/
def saveNack (g : StreamCG) (e : StreamID × ℕ) : Except Streams.Abort Sds := do
  let nack ← g.nack e.2
  .ok (rawId e.1 ++ rdbSaveMillisecondTime nack.delivery_time ++ rdbSaveLen nack.delivery_count)

/-- The bytes of some items, in turn. -/
def saveAll {α : Type} (save : α → Except Streams.Abort Sds) : List α → Except Streams.Abort Sds
  | [] => .ok []
  | x :: xs => do
    let s ← save x
    let rest ← saveAll save xs
    .ok (s ++ rest)

def saveConsumer (c : Config) (g : StreamCG) (e : Sds × ℕ) : Except Streams.Abort Sds := do
  let consumer ← g.consumer e.2
  .ok (rdbSaveRawString k.toLzf c.rdb_compression e.1 ++ rdbSaveMillisecondTime consumer.seen_time ++
    rdbSaveLen consumer.pel.entries.length ++ consumer.pel.entries.flatMap fun e => rawId e.1)

def saveGroup (c : Config) (e : Sds × StreamCG) : Except Streams.Abort Sds := do
  let g := e.2
  let pel ← saveAll (saveNack g) g.pel.entries
  let consumers ← saveAll (saveConsumer k c g) g.consumers.entries
  .ok (rdbSaveRawString k.toLzf c.rdb_compression e.1 ++ saveId g.last_id ++
    (rdbSaveLen g.pel.entries.length ++ pel) ++ (rdbSaveLen g.consumers.entries.length ++ consumers))

def saveListpack (c : Config) (e : StreamID × Listpack) : Sds :=
  rdbSaveRawString k.toLzf c.rdb_compression (rawId e.1) ++ rdbSaveRawString k.toLzf c.rdb_compression (k.lpBlob e.2)

def saveStream (c : Config) (s : GroupedStream) : Except Streams.Abort Sds := do
  let groups ← saveAll (saveGroup k c) s.cgroups.entries
  .ok (rdbSaveLen s.rax.entries.length ++ s.rax.entries.flatMap (saveListpack k c) ++
    rdbSaveLen s.length ++ saveId s.last_id ++ (rdbSaveLen s.cgroups.entries.length ++ groups))

def rdbSaveObject (c : Config) : Robj σ → Except Streams.Abort Sds
  | .string o => .ok (rdbSaveStringObject k.toLzf c.rdb_compression o)
  | .quicklist nodes => .ok (rdbSaveLen nodes.length ++ nodes.flatMap (saveNode k c))
  | .intset is => .ok (rdbSaveRawString k.toLzf c.rdb_compression is)
  | .set elements =>
    .ok (rdbSaveLen elements.length ++ elements.flatMap (rdbSaveRawString k.toLzf c.rdb_compression))
  | .zsetZiplist zl => .ok (rdbSaveRawString k.toLzf c.rdb_compression zl)
  -- From the greatest to the smallest.
  | .zset zs => .ok (rdbSaveLen zs.zsl.length ++
      zs.zsl.reverse.flatMap fun e => rdbSaveRawString k.toLzf c.rdb_compression e.1 ++ k.doubleBytes e.2)
  | .hashZiplist zl => .ok (rdbSaveRawString k.toLzf c.rdb_compression zl)
  | .hash pairs => .ok (rdbSaveLen pairs.length ++ pairs.flatMap fun e =>
      rdbSaveRawString k.toLzf c.rdb_compression e.1 ++ rdbSaveRawString k.toLzf c.rdb_compression e.2)
  | .stream s => saveStream k c s

/-! ### Lists -/

namespace QuicklistNode

/-- `quicklistCompressNode`: nothing is done if it is compressed, small, or not worth it. -/
def compress : QuicklistNode → QuicklistNode
  | .raw zl =>
    if zl.length < 48 then .raw zl
    else
      match k.lzf_compress zl zl.length with
      | none => .raw zl
      | some data => if zl.length ≤ data.length + 8 then .raw zl else .lzf data zl.length
  | .lzf data sz => .lzf data sz

/-- `quicklistDecompressNode`: it stays as it is if that fails. -/
def decompress : QuicklistNode → QuicklistNode
  | .raw zl => .raw zl
  | .lzf data sz =>
    match k.lzf_decompress data sz with
    | none => .lzf data sz
    | some zl => .raw zl

end QuicklistNode

/-- The walk of `__quicklistCompress` from both ends: the nodes, and none for `in_depth` if the
two met. -/
def quicklistWalk (nodes : List QuicklistNode) (i : ℕ) : ℕ → ℕ → Bool → List QuicklistNode × Option Bool
  | 0, _, in_depth => (nodes, some in_depth)
  | n + 1, forward, in_depth =>
    let reverse := nodes.length - 1 - forward
    let nodes' := (nodes.modify forward (QuicklistNode.decompress k)).modify reverse (QuicklistNode.decompress k)
    if forward = reverse then (nodes', none)
    else quicklistWalk nodes' i n (forward + 1) (in_depth || forward = i || reverse = i)

/-- `__quicklistCompress`, for the node at `i` of a list with the given `len`. -/
def quicklistCompress (compress len : ℕ) (nodes : List QuicklistNode) (i : ℕ) : List QuicklistNode :=
  if compress = 0 ∨ len < compress * 2 then nodes
  else
    match quicklistWalk k nodes i compress 0 false with
    | (nodes, none) => nodes
    | (nodes, some in_depth) =>
      let nodes := if in_depth then nodes else nodes.modify i (QuicklistNode.compress k)
      if 2 ≤ compress then
        (nodes.modify compress (QuicklistNode.compress k)).modify (nodes.length - 1 - compress) (QuicklistNode.compress k)
      else nodes

/-- The node that was the last one is compressed before the list is said to be longer. -/
def quicklistAppendZiplist (c : Config) (nodes : List QuicklistNode) (zl : Sds) : List QuicklistNode :=
  if nodes = [] then [.raw zl]
  else quicklistCompress k c.list_compress_depth nodes.length (nodes ++ [.raw zl]) (nodes.length - 1)

/-! ### Sets -/

/-- `dictAdd`: an element that is there is not added. -/
def setAdd (elements : List Sds) (ele : Sds) : List Sds := if ele ∈ elements then elements else elements ++ [ele]

/-- `setTypeConvert` to a dict, which asserts that the elements differ. -/
def setTypeConvert (is : Sds) : Load (List Sds) :=
  let elements := (k.intsetEntries is).map ll2string
  if elements.Nodup then pure elements else throw .corrupt

/-- An element of a set that is loaded. -/
def loadElement (o : Robj σ) (ele : Sds) : Load (Robj σ) :=
  match o with
  | .intset is =>
    match Streams.lpStringToInt64 ele with
    | some llval => pure (.intset (k.intsetAdd is llval))
    | none => do
      let elements ← setTypeConvert k is
      pure (.set (setAdd elements ele))
  | .set elements => pure (.set (setAdd elements ele))
  | o => pure o

/-- The loop over the elements of a set, whose counter `i` is an `unsigned int`. Every turn takes
a byte, or fails; `n` is the count of turns that there may be. -/
def loadElements (len : ℕ) : ℕ → ℕ → Robj σ → Load (Robj σ)
  | 0, _, _ => throw .short
  | n + 1, i, o =>
    if i < len then do
      let ele ← rdbGenericLoadStringObject k.toLzf
      let o ← loadElement k o ele
      loadElements len n ((i + 1) % 2 ^ 32) o
    else pure o

def loadSet (c : Config) : Load (Robj σ) := do
  let len ← loadLenOrShort
  let o : Robj σ := if len > c.set_max_intset_entries then .set [] else .intset k.intsetNew
  fun s => loadElements k len (s.length + 1) 0 o s

def loadIntset (c : Config) : Load (Robj σ) := do
  let is ← rdbGenericLoadStringObject k.toLzf
  if (k.intsetEntries is).length > c.set_max_intset_entries then do
    let elements ← setTypeConvert k is
    pure (.set elements)
  else pure (.intset is)

/-! ### Sorted sets -/

section Zset

variable [LinearOrder σ]

/-- The condition of the walk of `zslInsert`. -/
def zslBefore (score : σ) (ele : Sds) (n : Sds × σ) : Bool := n.2 < score ∨ n.2 = score ∧ Zset.sdscmp n.1 ele = .lt

/-- `zslInsert`: behind the nodes that are before the new one. -/
def zslInsert (zsl : List (Sds × σ)) (score : σ) (ele : Sds) : List (Sds × σ) :=
  zsl.takeWhile (zslBefore score ele) ++ (ele, score) :: zsl.dropWhile (zslBefore score ele)

/-- `zslInsert` and `dictAdd`. -/
def Zset.add (zs : Zset σ) (ele : Sds) (score : σ) : Zset σ :=
  { zsl := zslInsert zs.zsl score ele
    dict := if ele ∈ zs.dict.map Prod.fst then zs.dict else zs.dict ++ [(ele, score)] }

/-- The entries of a ziplist, two by two. -/
def pairUp {α : Type} : List α → List (α × α)
  | a :: b :: l => (a, b) :: pairUp l
  | _ => []

/-- The elements of a sorted set in a ziplist, with their scores. -/
def zzlPairs (zl : Sds) : List (Sds × σ) := (pairUp (k.ziplistEntries zl)).map fun e => (e.1, k.strtod e.2)

/-- `zsetConvert` to a skip list, which asserts that there are elements, and that they differ. -/
def zsetConvertToSkiplist (zl : Sds) : Load (Robj σ) :=
  let pairs := zzlPairs k zl
  if pairs ≠ [] ∧ (pairs.map Prod.fst).Nodup then
    pure (.zset (pairs.foldl (fun zs e => zs.add e.1 e.2) {}))
  else throw .corrupt

/-- `zsetConvert` to a ziplist. -/
def zsetConvertToZiplist (zs : Zset σ) : Robj σ :=
  .zsetZiplist (zs.zsl.foldl (fun zl e => k.ziplistPush (k.ziplistPush zl e.1) (k.d2string e.2)) k.ziplistNew)

/-- An element and its score. -/
def loadScored (r : Zset σ × ℕ) : Load (Zset σ × ℕ) := do
  let ele ← rdbGenericLoadStringObject k.toLzf
  let score ← readOr .short 8
  pure (r.1.add ele (k.doubleOfBytes score), max r.2 ele.length)

def loadZset (c : Config) : Load (Robj σ) := do
  let zsetlen ← loadLenOrShort
  let (zs, maxelelen) ← Reader.times (loadScored k) zsetlen ({}, 0)
  if zs.zsl.length ≤ c.zset_max_ziplist_entries ∧ maxelelen ≤ c.zset_max_ziplist_value then
    pure (zsetConvertToZiplist k zs)
  else pure (.zset zs)

def loadZsetZiplist (c : Config) : Load (Robj σ) := do
  let zl ← rdbGenericLoadStringObject k.toLzf
  if (k.ziplistEntries zl).length / 2 > c.zset_max_ziplist_entries then zsetConvertToSkiplist k zl
  else pure (.zsetZiplist zl)

end Zset

/-! ### Hashes -/

/-- `hashTypeConvert` to a dict, which panics if a field is there twice. -/
def hashTypeConvert (zl : Sds) : Load (List (Sds × Sds)) :=
  let pairs := pairUp (k.ziplistEntries zl)
  if (pairs.map Prod.fst).Nodup then pure pairs else throw .corrupt

/-- The loop that fills a ziplist; the hash, and how many fields are left. -/
def loadHashZiplist (c : Config) : ℕ → Sds → Load (Robj σ × ℕ)
  | 0, zl => pure (.hashZiplist zl, 0)
  | len + 1, zl => do
    let field ← rdbGenericLoadStringObject k.toLzf
    let value ← rdbGenericLoadStringObject k.toLzf
    let zl := k.ziplistPush (k.ziplistPush zl field) value
    if field.length > c.hash_max_ziplist_value ∨ value.length > c.hash_max_ziplist_value then do
      let pairs ← hashTypeConvert k zl
      pure (.hash pairs, len)
    else loadHashZiplist c len zl

/-- A field that goes into the dict. -/
def loadField (pairs : List (Sds × Sds)) : Load (List (Sds × Sds)) := do
  let field ← rdbGenericLoadStringObject k.toLzf
  let value ← rdbGenericLoadStringObject k.toLzf
  if field ∈ pairs.map Prod.fst then throw .corrupt else pure (pairs ++ [(field, value)])

def loadHash (c : Config) : Load (Robj σ) := do
  let len ← loadLenOrShort
  let (o, len) ← if len > c.hash_max_ziplist_entries then pure (.hash [], len) else loadHashZiplist k c len k.ziplistNew
  match o with
  | .hash pairs => do
    let pairs ← Reader.times (loadField k) len pairs
    pure (.hash pairs)
  | o => pure o

def loadHashOfZiplist (c : Config) : Load (Robj σ) := do
  let zl ← rdbGenericLoadStringObject k.toLzf
  if (k.ziplistEntries zl).length / 2 > c.hash_max_ziplist_entries then do
    let pairs ← hashTypeConvert k zl
    pure (.hash pairs)
  else pure (.hashZiplist zl)

/-! ### Streams -/

/-- Where no string is loaded, the server exits. -/
def orExit {α : Type} (r : Load α) : Load α := fun s => (r s).mapError fun _ => .corrupt

/-- A step on the memory of a group. -/
def onGroup {α : Type} (r : Except Streams.Abort α) : Load α := fun s =>
  match r with
  | .ok a => .ok (a, s)
  | .error _ => .error .corrupt

def idOfRaw (s : Sds) : StreamID := ⟨Fin.ofNat _ (ofBig (s.take 8)), Fin.ofNat _ (ofBig (s.drop 8))⟩

def loadId : Load StreamID := do
  let ms ← rdbLoadLen
  let seq ← rdbLoadLen
  pure ⟨Fin.ofNat _ ms, Fin.ofNat _ seq⟩

/-- A listpack goes into the radix tree, under its master ID. -/
def loadListpack (rax : SortedMap StreamID Listpack) : Load (SortedMap StreamID Listpack) := do
  let nodekey ← orExit (rdbGenericLoadStringObject k.toLzf)
  if nodekey.length ≠ 16 then throw .corrupt
  else do
    let blob ← rdbGenericLoadStringObject k.toLzf
    let lp := k.lpOfBlob blob
    if lp = [] then throw .corrupt
    else if (rax.find (idOfRaw nodekey)).isSome then throw .corrupt
    else pure (rax.insert (idOfRaw nodekey) lp)

/-- An entry of the PEL of the group, which has no consumer yet. -/
def loadPending (now : ℤ) (g : StreamCG) : Load StreamCG := do
  let rawid ← rdbLoadRaw 16
  let (g, nack) := Streams.streamCreateNACK g now none
  let delivery_time ← rdbLoadMillisecondTime
  let delivery_count ← rdbLoadLen
  let g := g.setNack nack { delivery_time := delivery_time, delivery_count := delivery_count, consumer := none }
  if (g.pel.find (idOfRaw rawid)).isSome then throw .corrupt
  else pure { g with pel := g.pel.insert (idOfRaw rawid) nack }

/-- An entry of the PEL of the consumer at `a`, whose NACK is that of the group. -/
def loadOwned (a : ℕ) (g : StreamCG) : Load StreamCG := do
  let rawid ← rdbLoadRaw 16
  match g.pel.find (idOfRaw rawid) with
  | none => throw .corrupt
  | some n => do
    let nack ← onGroup (g.nack n)
    let g := g.setNack n { nack with consumer := some a }
    let consumer ← onGroup (g.consumer a)
    if (consumer.pel.find (idOfRaw rawid)).isSome then throw .corrupt
    else onGroup (g.link a (idOfRaw rawid) n)

def loadConsumer (now : ℤ) (g : StreamCG) : Load StreamCG := do
  let cname ← orExit (rdbGenericLoadStringObject k.toLzf)
  let (g, a) ← onGroup (Streams.streamLookupConsumer g now cname)
  let seen_time ← rdbLoadMillisecondTime
  let consumer ← onGroup (g.consumer a)
  let g := g.setConsumer a { consumer with seen_time := seen_time }
  let pel_size ← rdbLoadLen
  Reader.times (loadOwned a) pel_size g

def loadGroup (now : ℤ) (s : GroupedStream) : Load GroupedStream := do
  let cgname ← orExit (rdbGenericLoadStringObject k.toLzf)
  let cg_id ← loadId
  match Streams.streamCreateCG s cgname cg_id with
  | none => throw .corrupt
  | some s => do
    let pel_size ← rdbLoadLen
    let g ← Reader.times (loadPending now) pel_size { last_id := cg_id }
    let consumers_num ← rdbLoadLen
    let g ← Reader.times (loadConsumer k now) consumers_num g
    pure (s.setGroup cgname g)

def loadStream (now : ℤ) : Load GroupedStream := do
  let listpacks ← rdbLoadLen
  let rax ← Reader.times (loadListpack k) listpacks .empty
  let length ← rdbLoadLen
  let last_id ← loadId
  let cgroups_count ← rdbLoadLen
  Reader.times (loadGroup k now) cgroups_count { rax := rax, length := length, last_id := last_id }

/-! ### Objects -/

/-- `tryObjectEncoding` -/
def tryObjectEncoding : StringObject → StringObject
  | .int value => .int value
  | .sds s =>
    if s.length ≤ 20 then
      match Streams.lpStringToInt64 s with
      | some value => .int value
      | none => .sds s
    else .sds s

/-- The nodes of a list. -/
def loadQuicklist (c : Config) : Load (Robj σ) := do
  let len ← loadLenOrShort
  let nodes ← Reader.times (fun nodes => do
    let zl ← rdbGenericLoadStringObject k.toLzf
    pure (quicklistAppendZiplist k c nodes zl)) len []
  pure (.quicklist nodes)

def loadString : Load (Robj σ) := do
  let o ← rdbLoadEncodedStringObject k.toLzf
  pure (.string (tryObjectEncoding o))

/-- The types that `rdbSaveObjectType` gives; those of older files are left out. -/
def rdbLoadObject [LinearOrder σ] (c : Config) (now : ℤ) (rdbtype : ℕ) : Load (Robj σ) :=
  match rdbtype with
  | 0 => loadString k
  | 2 => loadSet k c
  | 4 => loadHash k c
  | 5 => loadZset k c
  | 11 => loadIntset k c
  | 12 => loadZsetZiplist k c
  | 13 => loadHashOfZiplist k c
  | 14 => loadQuicklist k c
  | 15 => do
    let s ← loadStream k now
    pure (.stream s)
  | _ => throw .corrupt

end RedisZk.Rdb
