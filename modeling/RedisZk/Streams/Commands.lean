/-
# The stream commands on one key

The commands of t_stream.c that change a stream, with their arguments parsed: an argument
that is no ID where one is expected is `none` or `IdArg.bad`. A command takes the
object at the key, `none` if there is none, and gives it back with what is propagated to
the replicas: the commands of `Synthetic`, or the command itself when it made
`server.dirty` grow, with the arguments that it rewrote.

A client blocked in XREADGROUP is served later, by blocked.c: that is an event of its own.

Key definitions: `Command`, `Event`, `run`, `occur`, `StreamRun`.
-/
import RedisZk.Lib.Run
import RedisZk.Streams.Groups

namespace RedisZk.Streams

/-! ### Arguments -/

/-- `MAXLEN [~|=] count` -/
structure Maxlen where
  approx : Bool
  count : ℤ
deriving DecidableEq, Repr

/-- An ID, `$`, or neither. -/
inductive IdArg
  | id (id : StreamID)
  | dollar
  | bad
deriving DecidableEq, Repr

/-- An option of XCLAIM; `bad` is one that makes it return an error. -/
inductive ClaimOpt
  | force
  | justid
  | idle (ms : ℤ)
  | time (ms : ℤ)
  | retrycount (count : ℤ)
  | lastid (id : StreamID)
  | bad
deriving DecidableEq, Repr

inductive Command
  /-- The ID is `none` for `*`. -/
  | xadd (opts : List Maxlen) (id : Option StreamID) (fields : List (Sds × Sds))
  | xtrim (opts : List Maxlen)
  | xdel (ids : List (Option StreamID))
  | xgroupCreate (group : Sds) (id : IdArg) (mkstream : Bool)
  | xgroupSetid (group : Sds) (id : IdArg)
  | xgroupDestroy (group : Sds)
  | xgroupDelconsumer (group consumer : Sds)
  | xack (group : Sds) (ids : List (Option StreamID))
  /-- The ID is `none` for `>`. -/
  | xreadgroup (group consumer : Sds) (noack : Bool) (count : ℕ) (id : Option StreamID)
  | xclaim (group consumer : Sds) (minidle : ℤ) (ids : List StreamID) (opts : List ClaimOpt)
deriving DecidableEq, Repr

def Synthetic.command : Synthetic → Command
  | .xclaim group consumer id time count lastid =>
    .xclaim group consumer 0 [id] [.time time, .retrycount count, .force, .justid, .lastid lastid]
  | .setid group id => .xgroupSetid group (.id id)

/-- What a command leaves at the key, and what it propagates. -/
abbrev Result := Except Abort (Option GroupedStream × List Command)

/-! ### Entries -/

/-- The last option `MAXLEN`, if the parsing of the options does not fail. -/
def parseMaxlen (opts : List Maxlen) : Option (Option Maxlen) :=
  if opts.all fun o => o.count ≥ 0 then some opts.getLast? else none

/-- `streamRewriteApproxMaxlen` -/
def rewriteApproxMaxlen (opts : List Maxlen) (o : Maxlen) (length : ℕ) : List Maxlen :=
  if o.approx then opts.dropLast ++ [{ approx := false, count := length }] else opts

/-- `streamTrimByLength`, on a stream with groups. -/
def trim (s : GroupedStream) (o : Maxlen) : Except Abort (GroupedStream × ℕ) := do
  let (s', deleted) ← ofStream (streamTrimByLength s.toStream o.count.toNat o.approx)
  .ok ({ s with toStream := s' }, deleted)

def xaddCommand (lim : NodeLimits) (now : ℤ) (key : Option GroupedStream) (opts : List Maxlen) (id : Option StreamID)
    (fields : List (Sds × Sds)) : Result :=
  match parseMaxlen opts with
  | none => .ok (key, [])
  | some maxlen =>
    if fields = [] ∨ id = some .min then .ok (key, [])
    else do
      let s := key.getD {}
      if s.last_id = .max then .ok (some s, [])
      else
        match ← ofStream (streamAppendItem lim (toUInt64 now) s.toStream fields id) with
        | none => .ok (some s, [])
        | some (s', added) => do
          let s := { s with toStream := s' }
          match maxlen with
          | none => .ok (some s, [.xadd opts (some added) fields])
          | some o => do
            let (s, _) ← trim s o
            .ok (some s, [.xadd (rewriteApproxMaxlen opts o s.length) (some added) fields])

def xtrimCommand (key : Option GroupedStream) (opts : List Maxlen) : Result :=
  match key with
  | none => .ok (none, [])
  | some s =>
    match parseMaxlen opts with
    | none | some none => .ok (some s, [])
    | some (some o) => do
      let (s, deleted) ← trim s o
      .ok (some s, if deleted = 0 then [] else [.xtrim (rewriteApproxMaxlen opts o s.length)])

/-- The loop of XDEL; the number of entries deleted. -/
def deleteEntries (s : Stream) : List StreamID → Except LpAbort (Stream × ℕ)
  | [] => .ok (s, 0)
  | id :: ids => do
    let (s, d) ← streamDeleteItem s id
    let (s, deleted) ← deleteEntries s ids
    .ok (s, deleted + d.toNat)

def xdelCommand (key : Option GroupedStream) (ids : List (Option StreamID)) : Result :=
  match key with
  | none => .ok (none, [])
  | some s =>
    if ids.all Option.isSome then do
      let (s', deleted) ← ofStream (deleteEntries s.toStream (ids.filterMap fun id => id))
      .ok (some { s with toStream := s' }, if deleted = 0 then [] else [.xdel ids])
    else .ok (some s, [])

/-! ### Groups -/

/-- The group is changed. -/
def GroupedStream.setGroup (s : GroupedStream) (group : Sds) (g : StreamCG) : GroupedStream :=
  { s with cgroups := s.cgroups.insert group g }

/-- `streamCreateCG`; `none` if the group is there. -/
def streamCreateCG (s : GroupedStream) (name : Sds) (id : StreamID) : Option GroupedStream :=
  match s.cgroups.find name with
  | some _ => none
  | none => some (s.setGroup name { last_id := id })

def IdArg.resolve (last_id : StreamID) : IdArg → Option StreamID
  | .id i => some i
  | .dollar => some last_id
  | .bad => none

def xgroupCreateCommand (key : Option GroupedStream) (group : Sds) (id : IdArg) (mkstream : Bool) : Result :=
  match key, mkstream with
  | none, false => .ok (none, [])
  | _, _ =>
    let s := key.getD {}
    match id.resolve s.last_id with
    | none => .ok (key, [])
    | some i =>
      match streamCreateCG s group i with
      | none => .ok (some s, [])
      | some s => .ok (some s, [.xgroupCreate group id mkstream])

/-- What a command does to a group that must exist: without it the command returns. -/
def withGroup (key : Option GroupedStream) (group : Sds)
    (f : GroupedStream → StreamCG → Except Abort (StreamCG × List Command)) : Result :=
  match key with
  | none => .ok (none, [])
  | some s =>
    match s.cgroups.find group with
    | none => .ok (some s, [])
    | some g => do
      let (g, ps) ← f s g
      .ok (some (s.setGroup group g), ps)

def xgroupSetidCommand (key : Option GroupedStream) (group : Sds) (id : IdArg) : Result :=
  withGroup key group fun s g =>
    match id.resolve s.last_id with
    | none => .ok (g, [])
    | some i => .ok ({ g with last_id := i }, [.xgroupSetid group id])

def xgroupDestroyCommand (key : Option GroupedStream) (group : Sds) : Result :=
  match key with
  | none => .ok (none, [])
  | some s =>
    match s.cgroups.find group with
    | none => .ok (some s, [])
    | some _ => .ok (some { s with cgroups := s.cgroups.erase group }, [.xgroupDestroy group])

def xgroupDelconsumerCommand (key : Option GroupedStream) (group consumer : Sds) : Result :=
  withGroup key group fun _ g => do
    let g ← streamDelConsumer g consumer
    .ok (g, [.xgroupDelconsumer group consumer])

def xackCommand (key : Option GroupedStream) (group : Sds) (ids : List (Option StreamID)) : Result :=
  withGroup key group fun _ g => do
    let (g, acknowledged) ← ackEntries g ids
    .ok (g, if acknowledged = 0 then [] else [.xack group ids])

/-! ### Reading -/

/-- New entries, after the last one delivered, go to the consumer. -/
def serveGroup (now : ℤ) (s : GroupedStream) (g : StreamCG) (group consumer : Sds) (noack : Bool) (count : ℕ) :
    Except Abort (StreamCG × List Command) := do
  let start := streamIncrID g.last_id
  let (g, a) ← streamLookupConsumer g now consumer
  let entries ← ofStream (streamRange s.toStream (some start) none count false)
  let (g, ps) ← streamReplyWithRange group now a noack g false (entries.map Prod.fst)
  .ok (g, ps.map Synthetic.command)

/-- XREADGROUP of one key: what is not there is not waited for here. -/
def xreadCommand (now : ℤ) (key : Option GroupedStream) (group consumer : Sds) (noack : Bool) (count : ℕ)
    (id : Option StreamID) : Result :=
  withGroup key group fun s g =>
    match id with
    | some gt => do
      let (g, a) ← streamLookupConsumer g now consumer
      let g ← streamReplyWithRangeFromConsumerPEL s.toStream now g (streamIncrID gt) count a
      .ok (g, [])
    | none =>
      if s.length = 0 then .ok (g, [])
      else do
        let maxid ← ofStream (streamLastValidID s.toStream)
        match maxid with
        | none => .ok (g, [])
        | some maxid =>
          if streamCompareID maxid g.last_id = .gt then serveGroup now s g group consumer noack count
          else .ok (g, [])

/-- `handleClientsBlockedOnKeys` for one client blocked in XREADGROUP. -/
def serveBlocked (now : ℤ) (key : Option GroupedStream) (group consumer : Sds) (noack : Bool) (count : ℕ) : Result :=
  withGroup key group fun s g =>
    if streamCompareID s.last_id g.last_id = .gt then serveGroup now s g group consumer noack count
    else .ok (g, [])

/-! ### XCLAIM -/

/-- The options of XCLAIM; `none` if one is bad. -/
def parseClaim (now : ℤ) : Claim → List ClaimOpt → Option Claim
  | o, [] => some o
  | o, opt :: opts =>
    match opt with
    | .force => parseClaim now { o with force := true } opts
    | .justid => parseClaim now { o with justid := true } opts
    | .idle ms => parseClaim now { o with deliverytime := now - ms } opts
    | .time ms => parseClaim now { o with deliverytime := ms } opts
    | .retrycount count => parseClaim now { o with retrycount := count } opts
    | .lastid id => parseClaim now { o with last_id := id } opts
    | .bad => none

/-- The delivery time, now unless a sane one was given. -/
def sanitize (now : ℤ) (o : Claim) : Claim :=
  if o.deliverytime ≠ -1 ∧ ¬(o.deliverytime < 0 ∨ o.deliverytime > now) then o else { o with deliverytime := now }

def xclaimCommand (now : ℤ) (key : Option GroupedStream) (group consumer : Sds) (minidle : ℤ) (ids : List StreamID)
    (opts : List ClaimOpt) : Result :=
  withGroup key group fun s g =>
    match parseClaim now { minidle := if minidle < 0 then 0 else minidle } opts with
    | none => .ok (g, [])
    | some o => do
      let newer := streamCompareID o.last_id g.last_id = .gt
      let g := if newer then { g with last_id := o.last_id } else g
      let (g, ps) ← claimEntries s.toStream group now consumer (sanitize now o) g none ids
      .ok (g, if newer ∧ ps = [] then [(streamPropagateGroupID g group).command] else ps.map Synthetic.command)

/-! ### Events -/

def run (lim : NodeLimits) (now : ℤ) (key : Option GroupedStream) : Command → Result
  | .xadd opts id fields => xaddCommand lim now key opts id fields
  | .xtrim opts => xtrimCommand key opts
  | .xdel ids => xdelCommand key ids
  | .xgroupCreate group id mkstream => xgroupCreateCommand key group id mkstream
  | .xgroupSetid group id => xgroupSetidCommand key group id
  | .xgroupDestroy group => xgroupDestroyCommand key group
  | .xgroupDelconsumer group consumer => xgroupDelconsumerCommand key group consumer
  | .xack group ids => xackCommand key group ids
  | .xreadgroup group consumer noack count id => xreadCommand now key group consumer noack count id
  | .xclaim group consumer minidle ids opts => xclaimCommand now key group consumer minidle ids opts

/-- A command of a client, or a blocked client that is served; with the limits of a node at the time, and the time. -/
inductive Event
  | command (lim : NodeLimits) (now : ℤ) (c : Command)
  | blocked (now : ℤ) (group consumer : Sds) (noack : Bool) (count : ℕ)

def occur (key : Option GroupedStream) : Event → Result
  | .command lim now c => run lim now key c
  | .blocked now group consumer noack count => serveBlocked now key group consumer noack count

/-- The object at the key after an event; `none` if the server stops. -/
def next (key : Option GroupedStream) (e : Event) : Option (Option GroupedStream) :=
  match occur key e with
  | .ok (key', _) => some key'
  | .error _ => none

/-- The states of the key, from none on. -/
abbrev StreamRun : Option GroupedStream → Prop := Stepwise.Run (· = none) (Stepwise.Steps next fun _ _ _ => True)

end RedisZk.Streams
