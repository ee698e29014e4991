/-
# Consumer groups

The consumer groups of t_stream.c. The pending entries of a group (its PEL) map IDs to
NACKs, and so do those of each of its consumers; NACKs and consumers are in memory, at
addresses. A group keeps the memory of its own, as no pointer leaves it. Freed memory
stays free: reading it fails.

`mstime()` gives one value, `now`, through a command. Replies are left out.

Key definitions: `StreamCG`, `streamLookupConsumer`, `streamDelConsumer`, `deliverEntry`, `streamReplyWithRange`,
`claimEntry`, `ackEntry`.
-/
import Mathlib
import RedisZk.Streams.Items

namespace RedisZk.Streams

/-- The ways a command goes wrong. -/
inductive Abort
  | stream (e : LpAbort)
  /-- A NACK is read after it was freed. -/
  | freedNack
  /-- The consumer of a NACK is NULL, or a consumer is read after it was freed. -/
  | freedConsumer
  /-- `serverAssert(nack != raxNotFound)` -/
  | noNack
  /-- `serverPanic("NACK half-created. Should not be possible.")` -/
  | halfCreated
deriving DecidableEq, Repr

/-- A call of a function of streams. -/
def ofStream {α : Type} (r : Except LpAbort α) : Except Abort α := r.mapError .stream

structure StreamNACK where
  delivery_time : ℤ
  delivery_count : ℕ
  /-- The address of the consumer, or NULL. -/
  consumer : Option ℕ

structure StreamConsumer where
  seen_time : ℤ
  name : Sds
  /-- The addresses of the NACKs. -/
  pel : SortedMap StreamID ℕ := .empty

structure StreamCG where
  last_id : StreamID
  /-- The addresses of the NACKs. -/
  pel : SortedMap StreamID ℕ := .empty
  /-- The addresses of the consumers. -/
  consumers : SortedMap Sds ℕ := .empty
  nacks : ℕ → Option StreamNACK := fun _ => none
  heap : ℕ → Option StreamConsumer := fun _ => none
  /-- Where `zmalloc` puts the next NACK or consumer. -/
  fresh : ℕ := 0

/-- A stream with its consumer groups. -/
structure GroupedStream extends Stream where
  cgroups : SortedMap Sds StreamCG := .empty

/-! ### Memory -/

namespace StreamCG

def nack (g : StreamCG) (n : ℕ) : Except Abort StreamNACK :=
  match g.nacks n with
  | none => .error .freedNack
  | some nk => .ok nk

def consumer (g : StreamCG) (a : ℕ) : Except Abort StreamConsumer :=
  match g.heap a with
  | none => .error .freedConsumer
  | some c => .ok c

/-- `nack->consumer`, read through. -/
def owner (nk : StreamNACK) : Except Abort ℕ :=
  match nk.consumer with
  | none => .error .freedConsumer
  | some a => .ok a

def setNack (g : StreamCG) (n : ℕ) (nk : StreamNACK) : StreamCG :=
  { g with nacks := fun m => if m = n then some nk else g.nacks m }

def setConsumer (g : StreamCG) (a : ℕ) (c : StreamConsumer) : StreamCG :=
  { g with heap := fun b => if b = a then some c else g.heap b }

/-- `raxRemove(consumer->pel,..)` -/
def unlink (g : StreamCG) (a : ℕ) (id : StreamID) : Except Abort StreamCG := do
  let c ← g.consumer a
  .ok (g.setConsumer a { c with pel := c.pel.erase id })

/-- `raxInsert(consumer->pel,..)` -/
def link (g : StreamCG) (a : ℕ) (id : StreamID) (n : ℕ) : Except Abort StreamCG := do
  let c ← g.consumer a
  .ok (g.setConsumer a { c with pel := c.pel.insert id n })

end StreamCG

/-- The group, and the address of the NACK. -/
def streamCreateNACK (g : StreamCG) (now : ℤ) (consumer : Option ℕ) : StreamCG × ℕ :=
  ({ g.setNack g.fresh { delivery_time := now, delivery_count := 1, consumer := consumer } with fresh := g.fresh + 1 },
    g.fresh)

def streamFreeNACK (g : StreamCG) (n : ℕ) : Except Abort StreamCG := do
  let _ ← g.nack n
  .ok { g with nacks := fun m => if m = n then none else g.nacks m }

def streamFreeConsumer (g : StreamCG) (a : ℕ) : Except Abort StreamCG := do
  let _ ← g.consumer a
  .ok { g with heap := fun b => if b = a then none else g.heap b }

/-! ### Consumers -/

/-- `streamLookupConsumer` with `SLC_NONE`: the consumer is created if it does not exist. -/
def streamLookupConsumer (g : StreamCG) (now : ℤ) (name : Sds) : Except Abort (StreamCG × ℕ) :=
  match g.consumers.find name with
  | none =>
    .ok ({ g.setConsumer g.fresh { seen_time := now, name := name } with
      consumers := g.consumers.insert name g.fresh, fresh := g.fresh + 1 }, g.fresh)
  | some a => do
    let c ← g.consumer a
    .ok (g.setConsumer a { c with seen_time := now }, a)

/-- The loop of `streamDelConsumer` over the pending entries of the consumer. -/
def forgetEntries (g : StreamCG) : List (StreamID × ℕ) → Except Abort StreamCG
  | [] => .ok g
  | (id, nack) :: rest => do
    let g ← streamFreeNACK { g with pel := g.pel.erase id } nack
    forgetEntries g rest

def streamDelConsumer (g : StreamCG) (name : Sds) : Except Abort StreamCG :=
  match g.consumers.find name with
  | none => .ok g
  | some a => do
    let c ← g.consumer a
    let g ← forgetEntries g c.pel.entries
    streamFreeConsumer { g with consumers := g.consumers.erase name } a

/-! ### What is propagated -/

/-- The synthetic commands of `streamPropagateXCLAIM` and `streamPropagateGroupID`. -/
inductive Synthetic
  /-- `XCLAIM key group consumer 0 id TIME time RETRYCOUNT count FORCE JUSTID LASTID lastid` -/
  | xclaim (group consumer : Sds) (id : StreamID) (time : ℤ) (count : ℕ) (lastid : StreamID)
  /-- `XGROUP SETID key group id` -/
  | setid (group : Sds) (id : StreamID)
deriving DecidableEq, Repr

def streamPropagateXCLAIM (g : StreamCG) (groupname : Sds) (id : StreamID) (nack : ℕ) : Except Abort Synthetic := do
  let nk ← g.nack nack
  let a ← StreamCG.owner nk
  let c ← g.consumer a
  .ok (.xclaim groupname c.name id nk.delivery_time nk.delivery_count g.last_id)

def streamPropagateGroupID (g : StreamCG) (groupname : Sds) : Synthetic := .setid groupname g.last_id

/-! ### Delivery -/

/-- `raxTryInsert` into the group PEL. -/
def tryInsertGroup (g : StreamCG) (id : StreamID) (nack : ℕ) : StreamCG × Bool :=
  if (g.pel.find id).isSome then (g, false) else ({ g with pel := g.pel.insert id nack }, true)

/-- `raxTryInsert` into the PEL of a consumer. -/
def tryInsertConsumer (g : StreamCG) (a : ℕ) (id : StreamID) (nack : ℕ) : Except Abort (StreamCG × Bool) := do
  let c ← g.consumer a
  if (c.pel.find id).isSome then .ok (g, false)
  else do
    let g ← g.link a id nack
    .ok (g, true)

/-- The entry gets a NACK of the consumer, its old one if there is one; the group and the NACK. -/
def deliverEntry (g : StreamCG) (now : ℤ) (consumer : ℕ) (id : StreamID) : Except Abort (StreamCG × ℕ) := do
  let (g, nack) := streamCreateNACK g now (some consumer)
  let (g, group_inserted) := tryInsertGroup g id nack
  let (g, consumer_inserted) ← tryInsertConsumer g consumer id nack
  if group_inserted = false then
    let g ← streamFreeNACK g nack
    match g.pel.find id with
    | none => .error .noNack
    | some nack => do
      let nk ← g.nack nack
      let old ← StreamCG.owner nk
      let g ← g.unlink old id
      let g := g.setNack nack { delivery_time := now, delivery_count := 1, consumer := some consumer }
      let g ← g.link consumer id nack
      .ok (g, nack)
  else if consumer_inserted = false then .error .halfCreated
  else .ok (g, nack)

/-- The loop of `streamReplyWithRange` for a group, over the entries that the iterator gives. -/
def streamReplyWithRange (groupname : Sds) (now : ℤ) (consumer : ℕ) (noack : Bool) :
    StreamCG → Bool → List StreamID → Except Abort (StreamCG × List Synthetic)
  | g, _, [] => .ok (g, [])
  | g, propagate_last_id, id :: ids => do
    let newer := streamCompareID id g.last_id = .gt
    let g := if newer then { g with last_id := id } else g
    let propagate_last_id := propagate_last_id || newer
    if !noack then
      let (g, nack) ← deliverEntry g now consumer id
      let p ← streamPropagateXCLAIM g groupname id nack
      let (g, ps) ← streamReplyWithRange groupname now consumer noack g propagate_last_id ids
      .ok (g, p :: ps)
    else
      let p := if propagate_last_id then [streamPropagateGroupID g groupname] else []
      let (g, ps) ← streamReplyWithRange groupname now consumer noack g propagate_last_id ids
      .ok (g, p ++ ps)

/-- The loop of `streamReplyWithRangeFromConsumerPEL`: the NACKs of the entries that are still in the stream
were delivered once more. -/
def redeliver (s : Stream) (now : ℤ) (g : StreamCG) : List (StreamID × ℕ) → Except Abort StreamCG
  | [] => .ok g
  | (thisid, nack) :: rest => do
    let found ← ofStream (streamRange s (some thisid) (some thisid) 1 false)
    if found.length = 0 then redeliver s now g rest
    else
      let nk ← g.nack nack
      let g := g.setNack nack { nk with delivery_time := now, delivery_count := (nk.delivery_count + 1) % 2 ^ 64 }
      redeliver s now g rest

def streamReplyWithRangeFromConsumerPEL (s : Stream) (now : ℤ) (g : StreamCG) (start : StreamID) (count : ℕ)
    (consumer : ℕ) : Except Abort StreamCG := do
  let c ← g.consumer consumer
  let entries := c.pel.entries.filter fun e => decide (start ≤ e.1)
  redeliver s now g (if count = 0 then entries else entries.take count)

/-! ### Claims and acknowledgements -/

/-- The options of XCLAIM, as its parsing leaves them. -/
structure Claim where
  minidle : ℤ
  force : Bool := false
  justid : Bool := false
  retrycount : ℤ := -1
  deliverytime : ℤ := -1
  last_id : StreamID := .min

/-- The NACK of the ID, which `FORCE` creates if the entry is in the stream; `none` for `raxNotFound`. -/
def claimNack (s : Stream) (g : StreamCG) (now : ℤ) (force : Bool) (id : StreamID) :
    Except Abort (StreamCG × Option ℕ) :=
  match g.pel.find id with
  | some nack => .ok (g, some nack)
  | none =>
    if force then do
      let (_, found) ← ofStream (streamIteratorGetID s (streamIteratorStart s (some id) (some id) false))
      if found = none then .ok (g, none)
      else
        let (g, nack) := streamCreateNACK g now none
        .ok ({ g with pel := g.pel.insert id nack }, some nack)
    else .ok (g, none)

/-- `if (nack->consumer) raxRemove(nack->consumer->pel,..)` -/
def unlinkOwner (g : StreamCG) (nk : StreamNACK) (id : StreamID) : Except Abort StreamCG :=
  match nk.consumer with
  | none => .ok g
  | some a => g.unlink a id

/-- `if (consumer == NULL) consumer = streamLookupConsumer(..)` -/
def claimant (g : StreamCG) (now : ℤ) (name : Sds) : Option ℕ → Except Abort (StreamCG × ℕ)
  | some a => .ok (g, a)
  | none => streamLookupConsumer g now name

/-- One ID of XCLAIM. The consumer is NULL until the first ID that is claimed; the address of the NACK if this one is. -/
def claimEntry (s : Stream) (g : StreamCG) (now : ℤ) (name : Sds) (o : Claim) (consumer : Option ℕ) (id : StreamID) :
    Except Abort (StreamCG × Option ℕ × Option ℕ) := do
  let (g, nack) ← claimNack s g now o.force id
  match nack with
  | none => .ok (g, consumer, none)
  | some nack => do
    let nk ← g.nack nack
    if nk.consumer.isSome ∧ o.minidle ≠ 0 ∧ now - nk.delivery_time < o.minidle then .ok (g, consumer, none)
    else
      let g ← unlinkOwner g nk id
      let (g, a) ← claimant g now name consumer
      let count := if o.retrycount ≥ 0 then o.retrycount.toNat
        else if !o.justid then (nk.delivery_count + 1) % 2 ^ 64 else nk.delivery_count
      let g := g.setNack nack { delivery_time := o.deliverytime, delivery_count := count, consumer := some a }
      let g ← g.link a id nack
      .ok (g, some a, some nack)

/-- The claims of XCLAIM, and what they propagate. -/
def claimEntries (s : Stream) (groupname : Sds) (now : ℤ) (name : Sds) (o : Claim) :
    StreamCG → Option ℕ → List StreamID → Except Abort (StreamCG × List Synthetic)
  | g, _, [] => .ok (g, [])
  | g, consumer, id :: ids => do
    match ← claimEntry s g now name o consumer id with
    | (g, consumer, none) => claimEntries s groupname now name o g consumer ids
    | (g, consumer, some nack) => do
      let p ← streamPropagateXCLAIM g groupname id nack
      let (g, ps) ← claimEntries s groupname now name o g consumer ids
      .ok (g, p :: ps)

/-- One ID of XACK; whether it was pending. -/
def ackEntry (g : StreamCG) (id : StreamID) : Except Abort (StreamCG × Bool) :=
  match g.pel.find id with
  | none => .ok (g, false)
  | some nack => do
    let g := { g with pel := g.pel.erase id }
    let nk ← g.nack nack
    let a ← StreamCG.owner nk
    let g ← g.unlink a id
    let g ← streamFreeNACK g nack
    .ok (g, true)

/-- The IDs of XACK until one that is no ID; the number of those acknowledged. -/
def ackEntries : StreamCG → List (Option StreamID) → Except Abort (StreamCG × ℕ)
  | g, [] => .ok (g, 0)
  | g, none :: _ => .ok (g, 0)
  | g, some id :: ids => do
    let (g, acked) ← ackEntry g id
    let (g, acknowledged) ← ackEntries g ids
    .ok (g, acknowledged + acked.toNat)

end RedisZk.Streams
