/-
# Streams: a radix tree of listpacks

The stream of t_stream.c and its entries. The radix tree is a map from the ID of a
node's master entry to the listpack of the node; the keys are IDs as 128 bit big endian
numbers, so their order is the order of `StreamID.num`. A `uint64_t` is a `U64`; the
entries of a listpack hold the differences to the master ID as `int64_t`.

Key definitions: `Stream`, `streamAppendItem`, `streamTrimByLength`, `streamIteratorStart`, `streamIteratorGetID`,
`streamIteratorGetField`, `streamIteratorRemoveEntry`, `streamDeleteItem`.
-/
import Mathlib
import RedisZk.Lib.SortedMap
import RedisZk.Streams.Listpack

namespace RedisZk.Streams

/-! ### IDs -/

abbrev U64 := Fin (2 ^ 64)

instance neZero_u64 : NeZero (2 ^ 64) := ⟨by decide⟩

def U64.max : U64 := ⟨UINT64_MAX, by decide⟩

@[ext]
structure StreamID where
  ms : U64
  seq : U64
deriving DecidableEq, Repr

/-- The 128 bit number of `streamEncodeID`. -/
def StreamID.num (id : StreamID) : ℕ := id.ms.val * 2 ^ 64 + id.seq.val

theorem StreamID.num_injective : Function.Injective StreamID.num := by
  intro a b h
  have ha := a.seq.isLt
  have hb := b.seq.isLt
  unfold StreamID.num at h
  ext
  · omega
  · omega

instance : LinearOrder StreamID := LinearOrder.lift' StreamID.num StreamID.num_injective

theorem StreamID.lt_iff {a b : StreamID} : a < b ↔ a.num < b.num := .rfl

theorem StreamID.le_iff {a b : StreamID} : a ≤ b ↔ a.num ≤ b.num := .rfl

def StreamID.min : StreamID := ⟨0, 0⟩

def StreamID.max : StreamID := ⟨U64.max, U64.max⟩

def streamCompareID (a b : StreamID) : Ordering :=
  if a.ms > b.ms then .gt
  else if a.ms < b.ms then .lt
  else if a.seq > b.seq then .gt
  else if a.seq < b.seq then .lt
  else .eq

def streamIncrID (id : StreamID) : StreamID :=
  if id.seq = U64.max then
    if id.ms = U64.max then ⟨0, 0⟩ else ⟨id.ms + 1, 0⟩
  else ⟨id.ms, id.seq + 1⟩

/-- `streamNextID` at the time `ms`. -/
def streamNextID (ms : U64) (last_id : StreamID) : StreamID :=
  if ms > last_id.ms then ⟨ms, 0⟩ else streamIncrID last_id

/-- A `uint64_t` as an `int64_t`. -/
def toInt64 (x : U64) : ℤ := if x.val ≤ INT64_MAX then x.val else x.val - 2 ^ 64

/-- An `int64_t` as a `uint64_t`. -/
def toUInt64 (v : ℤ) : U64 := Fin.ofNat (2 ^ 64) (v % 2 ^ 64).toNat

/-! ### The stream -/

structure Stream where
  rax : SortedMap StreamID Listpack := .empty
  length : ℕ := 0
  last_id : StreamID := .min

/-- `streamNew`, without the consumer groups. -/
def streamNew : Stream := {}

def STREAM_ITEM_FLAG_NONE : ℕ := 0
def STREAM_ITEM_FLAG_DELETED : ℕ := 1
def STREAM_ITEM_FLAG_SAMEFIELDS : ℕ := 2

/-- The flag of an entry is set. -/
def hasFlag (flags : ℤ) (flag : ℕ) : Bool := flags.toNat &&& flag ≠ 0

/-- Sets a flag of an entry. -/
def setFlag (flags : ℤ) (flag : ℕ) : ℤ := (flags.toNat ||| flag : ℕ)

/-- The two settings of the server that bound a node. -/
structure NodeLimits where
  stream_node_max_bytes : ℕ
  stream_node_max_entries : ℤ

/-! ### Adding an entry -/

/-- Whether the fields of the new entry are those of the master entry, which stand at `p`. -/
def sameFields (lp : Listpack) (p : Option ℕ) : List (Sds × Sds) → Except LpAbort Bool
  | [] => .ok true
  | (field, _) :: argv => do
    let e ← lpGet lp p
    if field ≠ e then .ok false
    else
      let p ← lpNext lp p
      sameFields lp p argv

/-- The tail node, unless it is full. -/
def tailNode (lim : NodeLimits) (s : Stream) : Except LpAbort (Option (StreamID × Listpack)) :=
  match s.rax.last? with
  | none => .ok none
  | some (key, lp) =>
    if lim.stream_node_max_bytes ≠ 0 ∧ lpBytes lp ≥ lim.stream_node_max_bytes then .ok none
    else if lim.stream_node_max_entries ≠ 0 then do
      let count ← lpGetInteger lp (lpFirst lp)
      .ok (if count ≥ lim.stream_node_max_entries then none else some (key, lp))
    else .ok (some (key, lp))

/-- A new listpack with its master entry. -/
def newNode (argv : List (Sds × Sds)) : Except LpAbort Listpack := do
  let lp ← lpAppendInteger lpNew 1
  let lp ← lpAppendInteger lp 0
  let lp ← lpAppendInteger lp argv.length
  let lp ← lpAppends lp (argv.map Prod.fst)
  lpAppendInteger lp 0

/-- The tail listpack with one more entry counted, and the flags of the entry. -/
def countEntry (lp : Listpack) (argv : List (Sds × Sds)) : Except LpAbort (Listpack × ℕ) := do
  let lp_ele := lpFirst lp
  let count ← lpGetInteger lp lp_ele
  let lp ← lpReplaceInteger lp lp_ele (count + 1)
  let lp_ele ← lpNexts lp lp_ele 2
  let master_fields_count ← lpGetInteger lp lp_ele
  let lp_ele ← lpNext lp lp_ele
  if (argv.length : ℤ) = master_fields_count then
    let same ← sameFields lp lp_ele argv
    .ok (lp, if same then STREAM_ITEM_FLAG_SAMEFIELDS else STREAM_ITEM_FLAG_NONE)
  else .ok (lp, STREAM_ITEM_FLAG_NONE)

/-- The elements of the entry are appended. -/
def appendEntry (lp : Listpack) (flags : ℕ) (master_id id : StreamID) (argv : List (Sds × Sds)) :
    Except LpAbort Listpack := do
  let lp ← lpAppendInteger lp flags
  let lp ← lpAppendInteger lp (toInt64 (id.ms - master_id.ms))
  let lp ← lpAppendInteger lp (toInt64 (id.seq - master_id.seq))
  if hasFlag flags STREAM_ITEM_FLAG_SAMEFIELDS then
    let lp ← lpAppends lp (argv.map Prod.snd)
    lpAppendInteger lp (argv.length + 3)
  else
    let lp ← lpAppendInteger lp argv.length
    let lp ← lpAppends lp (argv.flatMap fun fv => [fv.1, fv.2])
    lpAppendInteger lp (argv.length + 3 + (argv.length + 1))

/-- `streamAppendItem` at the time `ms`: the stream and the ID of the entry, or `none` for `C_ERR`. -/
def streamAppendItem (lim : NodeLimits) (ms : U64) (s : Stream) (argv : List (Sds × Sds)) (use_id : Option StreamID) :
    Except LpAbort (Option (Stream × StreamID)) := do
  let id := use_id.getD (streamNextID ms s.last_id)
  if streamCompareID id s.last_id ≠ .gt then .ok none
  else
    let node ← tailNode lim s
    let lp_bytes := match s.rax.last? with
      | none => 0
      | some (_, lp) => lpBytes lp
    let (rax_key, lp, flags) ← match node with
      | some (key, lp) =>
        if lp_bytes ≥ lim.stream_node_max_bytes then do
          let lp ← newNode argv
          .ok (id, lp, STREAM_ITEM_FLAG_SAMEFIELDS)
        else do
          let (lp, flags) ← countEntry lp argv
          .ok (key, lp, flags)
      | none => do
        let lp ← newNode argv
        .ok (id, lp, STREAM_ITEM_FLAG_SAMEFIELDS)
    let lp ← appendEntry lp flags rax_key id argv
    .ok (some ({ rax := s.rax.insert rax_key lp, length := s.length + 1, last_id := id }, id))

/-! ### Trimming -/

/-- Marks the entries from `p` on as deleted until `maxlen` are left of `length`; `deleted` were so far. -/
def markDeleted (maxlen : ℕ) (master_fields_count : ℤ) :
    ℕ → Listpack → Option ℕ → ℕ → ℕ → Except LpAbort (Listpack × ℕ × ℕ)
  | 0, _, _, _, _ => .error .endless
  | _ + 1, lp, none, length, deleted => .ok (lp, length, deleted)
  | fuel + 1, lp, some p, length, deleted => do
    let flags ← lpGetInteger lp (some p)
    let fresh := !hasFlag flags STREAM_ITEM_FLAG_DELETED
    let flags := if fresh then setFlag flags STREAM_ITEM_FLAG_DELETED else flags
    let lp ← if fresh then lpReplaceInteger lp (some p) flags else .ok lp
    let length := if fresh then length - 1 else length
    let deleted := if fresh then deleted + 1 else deleted
    if fresh ∧ length ≤ maxlen then .ok (lp, length, deleted)
    else
      let p ← lpNexts lp (some p) 3
      let to_skip ← if hasFlag flags STREAM_ITEM_FLAG_SAMEFIELDS then .ok (asInt master_fields_count) else do
        let n ← lpGetInteger lp p
        .ok (asInt (1 + asInt n * 2))
      let n ← countdown to_skip
      let p ← lpNexts lp p n
      let p ← lpNext lp p
      markDeleted maxlen master_fields_count fuel lp p length deleted

/-- The first entry of a listpack whose number of master fields stands at `p`. -/
def skipMaster (lp : Listpack) (p : Option ℕ) : Except LpAbort (Option ℕ × ℤ) := do
  let master_fields_count ← lpGetInteger lp p
  let p ← lpNext lp p
  let p ← lpNexts lp p master_fields_count.toNat
  let p ← lpNext lp p
  .ok (p, master_fields_count)

/-- The node at `key` loses its `to_delete` oldest entries. -/
def trimNode (s : Stream) (key : StreamID) (lp : Listpack) (maxlen deleted : ℕ) : Except LpAbort (Stream × ℕ) := do
  let p := lpFirst lp
  let entries ← lpGetInteger lp p
  let to_delete : ℤ := (s.length - maxlen : ℕ)
  if ¬to_delete < entries then .error .toDelete
  else
    let lp ← lpReplaceInteger lp p (entries - to_delete)
    let p ← lpNext lp p
    let marked_deleted ← lpGetInteger lp p
    let lp ← lpReplaceInteger lp p (marked_deleted + to_delete)
    let p ← lpNext lp p
    let (p, master_fields_count) ← skipMaster lp p
    let (lp, length, deleted) ← markDeleted maxlen master_fields_count (lp.length + 1) lp p s.length deleted
    .ok ({ s with rax := s.rax.insert key lp, length := length }, deleted)

/-- `s->length - entries`, which wraps below 0 only: no memory holds 2^64 entries. -/
def lengthWithout (length : ℕ) (entries : ℤ) : ℕ :=
  if entries ≤ length then (length - entries).toNat else (length - entries + 2 ^ 64).toNat

/-- The loop of `streamTrimByLength`, at the node `ri`. -/
def trimLoop (maxlen : ℕ) (approx : Bool) :
    ℕ → Stream → Option (StreamID × Listpack) → ℕ → Except LpAbort (Stream × ℕ)
  | 0, _, _, _ => .error .endless
  | fuel + 1, s, ri, deleted =>
    if s.length ≤ maxlen then .ok (s, deleted)
    else
      match ri with
      | none => .ok (s, deleted)
      | some (key, lp) => do
        let entries ← lpGetInteger lp (lpFirst lp)
        if lengthWithout s.length entries ≥ maxlen then
          let rax := s.rax.erase key
          trimLoop maxlen approx fuel { s with rax := rax, length := lengthWithout s.length entries }
            (rax.seekGe? key) (deleted + entries.toNat)
        else if approx then .ok (s, deleted)
        else trimNode s key lp maxlen deleted

/-- The stream, and the number of entries removed. -/
def streamTrimByLength (s : Stream) (maxlen : ℕ) (approx : Bool) : Except LpAbort (Stream × ℕ) :=
  if s.length ≤ maxlen then .ok (s, 0)
  else trimLoop maxlen approx (s.rax.entries.length + 1) s s.rax.first? 0

/-! ### Iterating -/

/-- An iterator of the radix tree: at its end, sought at a node that the next step returns, or at a node. -/
inductive RaxIterator
  | eof
  | sought (e : StreamID × Listpack)
  | at (key : StreamID)

def RaxIterator.seek : Option (StreamID × Listpack) → RaxIterator
  | none => .eof
  | some e => .sought e

def raxNext (rax : SortedMap StreamID Listpack) : RaxIterator → Option (StreamID × Listpack)
  | .eof => none
  | .sought e => some e
  | .at key => rax.next? key

def raxPrev (rax : SortedMap StreamID Listpack) : RaxIterator → Option (StreamID × Listpack)
  | .eof => none
  | .sought e => some e
  | .at key => rax.prev? key

structure StreamIterator where
  master_id : StreamID := .min
  master_fields_count : ℤ := 0
  master_fields_start : Option ℕ := none
  master_fields_ptr : Option ℕ := none
  entry_flags : ℤ := 0
  rev : Bool
  start_key : StreamID
  end_key : StreamID
  ri : RaxIterator
  lp : Option Listpack := none
  lp_ele : Option ℕ := none
  lp_flags : Option ℕ := none

/-- The node `raxSeek` finds with `"<="`, else the one at the end `other`. -/
def seekLeOr (rax : SortedMap StreamID Listpack) (key : StreamID) (other : Option (StreamID × Listpack)) : RaxIterator :=
  match rax.seekLe? key with
  | some e => .sought e
  | none => .seek other

def streamIteratorStart (s : Stream) (start stop : Option StreamID) (rev : Bool) : StreamIterator :=
  { rev := rev
    start_key := start.getD .min
    end_key := stop.getD .max
    ri :=
      if !rev then
        match start with
        | some start => if start.ms ≠ 0 ∨ start.seq ≠ 0 then seekLeOr s.rax start s.rax.first? else .seek s.rax.first?
        | none => .seek s.rax.first?
      else
        match stop with
        | some stop => if stop.ms ≠ 0 ∨ stop.seq ≠ 0 then seekLeOr s.rax stop s.rax.last? else .seek s.rax.last?
        | none => .seek s.rax.last? }

/-- Goes to the node: before its first entry, or to the end of its last one. -/
def StreamIterator.enter (si : StreamIterator) (e : StreamID × Listpack) : Except LpAbort StreamIterator := do
  let lp := e.2
  let lp_ele ← lpNexts lp (lpFirst lp) 2
  let master_fields_count ← lpGetInteger lp lp_ele
  let lp_ele ← lpNext lp lp_ele
  let start := lp_ele
  let lp_ele ← if !si.rev then lpNexts lp lp_ele master_fields_count.toNat else .ok (lpLast lp)
  .ok { si with
    master_id := e.1
    master_fields_count := master_fields_count
    master_fields_start := start
    ri := .at e.1
    lp := some lp
    lp_ele := lp_ele }

/-- In reverse, from the last element of the entry just emitted to that of the one before. -/
def StreamIterator.backUp (si : StreamIterator) (lp : Listpack) : Except LpAbort StreamIterator := do
  let lp_count ← lpGetInteger lp si.lp_ele
  let n ← countdown (asInt lp_count)
  let lp_ele ← lpPrevs lp si.lp_ele n
  let lp_ele ← lpPrev lp lp_ele
  .ok { si with lp_ele := lp_ele }

/-- What one round of the inner loop of `streamIteratorGetID` comes to. -/
inductive Visit
  /-- `return 1` -/
  | emit (si : StreamIterator) (id : StreamID) (numfields : ℤ)
  /-- `return 0` -/
  | stop (si : StreamIterator)
  /-- The listpack is at its end. -/
  | leave (si : StreamIterator)
  /-- The entry is not emitted. -/
  | pass (si : StreamIterator)

/-- The entry whose flags are at `lp_ele`. -/
def StreamIterator.readEntry (si : StreamIterator) (lp : Listpack) : Except LpAbort Visit := do
  let flags ← lpGetInteger lp si.lp_ele
  let lp_flags := si.lp_ele
  let lp_ele ← lpNext lp si.lp_ele
  let ms ← lpGetInteger lp lp_ele
  let lp_ele ← lpNext lp lp_ele
  let seq ← lpGetInteger lp lp_ele
  let lp_ele ← lpNext lp lp_ele
  let id : StreamID := ⟨si.master_id.ms + toUInt64 ms, si.master_id.seq + toUInt64 seq⟩
  let same := hasFlag flags STREAM_ITEM_FLAG_SAMEFIELDS
  let numfields ← if same then .ok si.master_fields_count else lpGetInteger lp lp_ele
  let lp_ele ← if same then .ok lp_ele else lpNext lp lp_ele
  let si := { si with lp_flags := lp_flags, lp_ele := lp_ele }
  let emitted := { si with
    entry_flags := flags
    master_fields_ptr := if same then si.master_fields_start else si.master_fields_ptr }
  if !si.rev then
    if id ≥ si.start_key ∧ !hasFlag flags STREAM_ITEM_FLAG_DELETED then
      .ok (if id > si.end_key then .stop si else .emit emitted id numfields)
    else
      let to_discard := if same then numfields else numfields * 2
      let lp_ele ← lpNexts lp lp_ele to_discard.toNat
      .ok (.pass { si with lp_ele := lp_ele })
  else
    if id ≤ si.end_key ∧ !hasFlag flags STREAM_ITEM_FLAG_DELETED then
      .ok (if id < si.start_key then .stop si else .emit emitted id numfields)
    else
      let lp_ele ← lpPrevs lp lp_ele (if same then 4 else 5)
      .ok (.pass { si with lp_ele := lp_ele })

/-- One round of the inner loop. -/
def StreamIterator.visit (si : StreamIterator) (lp : Listpack) : Except LpAbort Visit := do
  if !si.rev then
    let lp_ele ← lpNext lp si.lp_ele
    if lp_ele = none then .ok (.leave { si with lp_ele := none })
    else StreamIterator.readEntry { si with lp_ele := lp_ele } lp
  else
    let lp_count ← lpGetInteger lp si.lp_ele
    if lp_count = 0 then .ok (.leave { si with lp := none, lp_ele := none })
    else
      let n ← countdown lp_count
      let lp_ele ← lpPrevs lp si.lp_ele n
      StreamIterator.readEntry { si with lp_ele := lp_ele } lp

/-- The inner loop, in `fuel` rounds. -/
def StreamIterator.scan (lp : Listpack) : ℕ → StreamIterator → Except LpAbort Visit
  | 0, _ => .error .endless
  | fuel + 1, si => do
    match ← si.visit lp with
    | .pass si => scan lp fuel si
    | v => .ok v

/-- The nodes, in `fuel` rounds of the outer loop. -/
def StreamIterator.nodes (s : Stream) : ℕ → StreamIterator → Except LpAbort (StreamIterator × Option (StreamID × ℤ))
  | 0, _ => .error .endless
  | fuel + 1, si =>
    match if si.rev then raxPrev s.rax si.ri else raxNext s.rax si.ri with
    | none => .ok ({ si with ri := .eof }, none)
    | some e => do
      let si ← si.enter e
      match ← si.scan e.2 (e.2.length + 1) with
      | .emit si id numfields => .ok (si, some (id, numfields))
      | .stop si => .ok (si, none)
      | .leave si | .pass si => nodes s fuel si

/-- The iterator, and the ID and the number of fields of the entry it is at, if there is one. -/
def streamIteratorGetID (s : Stream) (si : StreamIterator) : Except LpAbort (StreamIterator × Option (StreamID × ℤ)) :=
  match si.lp with
  | none => si.nodes s (s.rax.entries.length + 1)
  | some lp =>
    if si.lp_ele = none then si.nodes s (s.rax.entries.length + 1)
    else do
      let si ← if si.rev then si.backUp lp else .ok si
      match ← si.scan lp (lp.length + 1) with
      | .emit si id numfields => .ok (si, some (id, numfields))
      | .stop si => .ok (si, none)
      | .leave si | .pass si => si.nodes s (s.rax.entries.length + 1)

def streamIteratorGetField (si : StreamIterator) : Except LpAbort (StreamIterator × Sds × Sds) :=
  match si.lp with
  | none => .error .null
  | some lp => do
    let same := hasFlag si.entry_flags STREAM_ITEM_FLAG_SAMEFIELDS
    let field ← lpGet lp (if same then si.master_fields_ptr else si.lp_ele)
    let master_fields_ptr ← if same then lpNext lp si.master_fields_ptr else .ok si.master_fields_ptr
    let lp_ele ← if same then .ok si.lp_ele else lpNext lp si.lp_ele
    let value ← lpGet lp lp_ele
    let lp_ele ← lpNext lp lp_ele
    .ok ({ si with master_fields_ptr := master_fields_ptr, lp_ele := lp_ele }, field, value)

/-- The fields of the entry the iterator is at. -/
def getFields : ℕ → StreamIterator → Except LpAbort (StreamIterator × List (Sds × Sds))
  | 0, si => .ok (si, [])
  | n + 1, si => do
    let (si, fv) ← streamIteratorGetField si
    let (si, fvs) ← getFields n si
    .ok (si, fv :: fvs)

/-- `while(streamIteratorGetID(..))` with the fields of every entry, until there are `count` unless that is 0. -/
def iterate (s : Stream) (count : ℕ) : ℕ → StreamIterator → Except LpAbort (List (StreamID × List (Sds × Sds)))
  | 0, _ => .error .endless
  | fuel + 1, si => do
    match ← streamIteratorGetID s si with
    | (_, none) => .ok []
    | (si, some (id, numfields)) => do
      let n ← countdown numfields
      let (si, fields) ← getFields n si
      if count = 1 then .ok [(id, fields)]
      else
        let rest ← iterate s (count - 1) fuel si
        .ok ((id, fields) :: rest)

/-- The number of elements in all the listpacks. -/
def Stream.size (s : Stream) : ℕ := (s.rax.entries.map fun e => e.2.length).sum

/-- The entries from `start` to `stop` that the iterator gives, at most `count` unless that is 0. -/
def streamRange (s : Stream) (start stop : Option StreamID) (count : ℕ) (rev : Bool) :
    Except LpAbort (List (StreamID × List (Sds × Sds))) :=
  iterate s count (s.size + 1) (streamIteratorStart s start stop rev)

/-! ### Removing an entry -/

/-- The stream, and the iterator sought again. -/
def streamIteratorRemoveEntry (s : Stream) (si : StreamIterator) (current : StreamID) :
    Except LpAbort (Stream × StreamIterator) :=
  match si.lp with
  | none => .error .null
  | some lp => do
    let flags ← lpGetInteger lp si.lp_flags
    let lp ← lpReplaceInteger lp si.lp_flags (setFlag flags STREAM_ITEM_FLAG_DELETED)
    let p := lpFirst lp
    let aux ← lpGetInteger lp p
    let rax ← if aux = 1 then .ok (s.rax.erase si.master_id) else do
      let lp ← lpReplaceInteger lp p (aux - 1)
      let p ← lpNext lp p
      let aux ← lpGetInteger lp p
      let lp ← lpReplaceInteger lp p (aux + 1)
      .ok (s.rax.insert si.master_id lp)
    let s := { s with rax := rax, length := s.length - 1 }
    let (start, stop) := if si.rev then (si.start_key, current) else (current, si.end_key)
    .ok (s, streamIteratorStart s (some start) (some stop) si.rev)

/-- The stream, and whether the entry was there. -/
def streamDeleteItem (s : Stream) (id : StreamID) : Except LpAbort (Stream × Bool) := do
  match ← streamIteratorGetID s (streamIteratorStart s (some id) (some id) false) with
  | (_, none) => .ok (s, false)
  | (si, some (myid, _)) => do
    let (s, _) ← streamIteratorRemoveEntry s si myid
    .ok (s, true)

/-- `streamLastValidID`; `none` when it leaves `maxid` unset. -/
def streamLastValidID (s : Stream) : Except LpAbort (Option StreamID) := do
  let (_, e) ← streamIteratorGetID s (streamIteratorStart s none none true)
  .ok (e.map Prod.fst)

end RedisZk.Streams
