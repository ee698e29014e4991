/-
# Propagation of commands

What a command changes is counted in `server.dirty`. After a command `call` feeds it to the
append only file and to the replication backlog if the count went up, or if the command
forces it. `EXEC` calls the queued commands one by one, has `MULTI` fed before the first that
is neither read-only nor administrative, and counts one change more, so that `EXEC` itself is
fed.

A command is what its implementation does to what is propagated: the keys it finds expired,
the changes it counts, and the calls of the propagation functions. What the data is that
decides this is left open.

Key definitions: `Entry`, `Server`, `propagate`, `call`, `Command`, `evalGenericCommand`,
`execCommand`, `Event`, `serve`, `run`.
-/
import RedisZk.Networking.Reply

namespace RedisZk.Propagation

open Streams (Sds)
open Networking (sds)

/-! ### What is fed -/

/-- `PROPAGATE_AOF` and `PROPAGATE_REPL`. -/
structure Target where
  aof : Bool
  repl : Bool
deriving DecidableEq

def PROPAGATE_NONE : Target := ⟨false, false⟩
def PROPAGATE_ALL : Target := ⟨true, true⟩

def Target.and (t u : Target) : Target := ⟨t.aof && u.aof, t.repl && u.repl⟩
def Target.or (t u : Target) : Target := ⟨t.aof || u.aof, t.repl || u.repl⟩

/-- A command that is fed; `expire` is the `DEL` of a key that is found expired. -/
inductive Op
  | multi
  | exec
  | command (argv : List Sds)
  | expire (key : Sds)
deriving DecidableEq

/-- For whom a command is executed: a client, or the server itself, and whether it was queued
and `EXEC` calls it. -/
structure Who where
  client : Option ℕ
  queued : Bool
deriving DecidableEq

structure Entry where
  who : Who
  op : Op
deriving DecidableEq

/-- What was fed to the append only file while it is on, and to the backlog while there is
one. A replica does not feed its backlog with its own commands. -/
structure Feeds where
  aof : Option (List Entry)
  backlog : Option (List Entry)
  masterhost : Bool := false
deriving DecidableEq

def feedAppendOnlyFile (e : Entry) (f : Feeds) : Feeds := { f with aof := f.aof.map (· ++ [e]) }

def replicationFeedSlaves (e : Entry) (f : Feeds) : Feeds :=
  if f.masterhost then f else { f with backlog := f.backlog.map (· ++ [e]) }

def propagate (who : Who) (op : Op) (flags : Target) (f : Feeds) : Feeds :=
  let f := if flags.aof then feedAppendOnlyFile ⟨who, op⟩ f else f
  if flags.repl then replicationFeedSlaves ⟨who, op⟩ f else f

def propagateExpire (who : Who) (key : Sds) (f : Feeds) : Feeds :=
  replicationFeedSlaves ⟨who, .expire key⟩ (feedAppendOnlyFile ⟨who, .expire key⟩ f)

def execCommandPropagateMulti (who : Who) (f : Feeds) : Feeds := propagate who .multi PROPAGATE_ALL f

/-! ### Calls -/

/-- What commands work on. The flags of the client whose command is called, its arguments,
and the commands to be propagated after it are those of the innermost call. -/
structure Server where
  feeds : Feeds
  dirty : ℤ := 0
  force : Target := PROPAGATE_NONE
  prevent : Target := PROPAGATE_NONE
  argv : List Sds := []
  also : List (Op × Target) := []
  luaWriteDirty : Bool := false
  luaReplicateCommands : Bool := false
  luaMultiEmitted : Bool := false
  luaRepl : Target := PROPAGATE_ALL
deriving DecidableEq

/-- `call`: what is fed has the name of the command from `op`, with the arguments that the
implementation leaves. The flags that a command forces in the Lua client go to its caller. -/
def call (who : Who) (lua : Bool) (flags : Target) (op : List Sds → Op) (argv : List Sds)
    (proc : Server → Server) (s : Server) : Server :=
  let s1 := proc { s with force := PROPAGATE_NONE, prevent := PROPAGATE_NONE, argv := argv, also := [] }
  let dirty : Bool := s.dirty < s1.dirty
  let propagateFlags : Target :=
    { aof := (dirty || s1.force.aof) && !s1.prevent.aof && flags.aof
      repl := (dirty || s1.force.repl) && !s1.prevent.repl && flags.repl }
  let feeds := propagate who (op s1.argv) propagateFlags s1.feeds
  { s1 with
    feeds := s1.also.foldl (fun f rop => propagate who rop.1 (rop.2.and flags) f) feeds
    force := if lua then s.force.or s1.force else s.force
    prevent := s.prevent
    argv := s.argv
    also := s.also }

/-- What an implementation does to what is propagated. -/
inductive Effect
  | dirty (n : ℕ)
  | forceCommandPropagation (flags : Target)
  | preventCommandPropagation (flags : Target)
  | alsoPropagate (argv : List Sds) (target : Target)
  | propagate (argv : List Sds) (flags : Target)
  | propagateExpire (key : Sds)
  | rewriteClientCommandVector (argv : List Sds)
deriving DecidableEq

def Effect.run (who : Who) (s : Server) : Effect → Server
  | .dirty n => { s with dirty := s.dirty + n }
  | .forceCommandPropagation flags => { s with force := s.force.or flags }
  | .preventCommandPropagation flags => { s with prevent := s.prevent.or flags }
  | .alsoPropagate argv target => { s with also := s.also ++ [(.command argv, target)] }
  | .propagate argv flags => { s with feeds := Propagation.propagate who (.command argv) flags s.feeds }
  | .propagateExpire key => { s with feeds := Propagation.propagateExpire who key s.feeds }
  | .rewriteClientCommandVector argv => { s with argv := argv }

def expireIfNeeded (who : Who) (keys : List Sds) (s : Server) : Server :=
  { s with feeds := keys.foldl (fun f key => propagateExpire who key f) s.feeds }

/-- A command that scripts may call: one flagged read-only; `PFCOUNT`, which is flagged so and
may store the cardinality that it computes; or another, with the flag `CMD_WRITE` or not. -/
inductive Plain
  | read (argv : List Sds) (expired : List Sds)
  | pfcount (argv : List Sds) (expired : List Sds) (recomputed : Bool)
  | write (cmdWrite : Bool) (argv : List Sds) (effects : List Effect)
deriving DecidableEq

def Plain.argv : Plain → List Sds
  | .read argv _ => argv
  | .pfcount argv _ _ => argv
  | .write _ argv _ => argv

/-- The flag `CMD_WRITE`. -/
def Plain.cmdWrite : Plain → Bool
  | .write w _ _ => w
  | _ => false

def pfcountCommand (who : Who) (expired : List Sds) (recomputed : Bool) (s : Server) : Server :=
  let s := expireIfNeeded who expired s
  if recomputed then { s with dirty := s.dirty + 1 } else s

def Plain.proc (who : Who) : Plain → Server → Server
  | .read _ expired, s => expireIfNeeded who expired s
  | .pfcount _ expired recomputed, s => pfcountCommand who expired recomputed s
  | .write _ _ effects, s => effects.foldl (Effect.run who) s

/-! ### Scripts -/

inductive LuaStep
  | call (c : Plain)
  | replicateCommands
  | setRepl (flags : Target)
deriving DecidableEq

/-- `redis.call` with a command that is not refused. The caller has the flag `CLIENT_MULTI`
when the script is called by `EXEC`. -/
def luaRedisGenericCommand (who : Who) (c : Plain) (s : Server) : Server :=
  let s := if c.cmdWrite then { s with luaWriteDirty := true } else s
  let s :=
    if s.luaReplicateCommands && !s.luaMultiEmitted && !who.queued && s.luaWriteDirty && decide (s.luaRepl ≠ PROPAGATE_NONE)
    then { s with feeds := execCommandPropagateMulti who s.feeds, luaMultiEmitted := true } else s
  let callFlags := if s.luaReplicateCommands then s.luaRepl else PROPAGATE_NONE
  call who true callFlags .command c.argv (c.proc who) s

def luaRedisReplicateCommandsCommand (s : Server) : Server :=
  if s.luaWriteDirty then s else { s with luaReplicateCommands := true }

def luaRedisSetReplCommand (flags : Target) (s : Server) : Server :=
  if s.luaReplicateCommands then { s with luaRepl := flags } else s

def LuaStep.run (who : Who) (s : Server) : LuaStep → Server
  | .call c => luaRedisGenericCommand who c s
  | .replicateCommands => luaRedisReplicateCommandsCommand s
  | .setRepl flags => luaRedisSetReplCommand flags s

/-- A script, by `EVAL` or by `EVALSHA`; with `EVALSHA` comes the body, and whether those who
are fed know it already. A script that fails is one that takes less steps. -/
structure Script where
  argv : List Sds
  steps : List LuaStep
  evalsha : Option (Sds × Bool) := none
deriving DecidableEq

/-- How `EVALSHA` is fed when the body is not known. -/
def rewriteEvalsha (initialDirty : ℤ) (body : Sds) (s : Server) : Server :=
  { s with
    argv := if s.dirty = initialDirty then [sds "SCRIPT", sds "LOAD", body] else sds "EVAL" :: body :: s.argv.drop 2
    force := PROPAGATE_ALL }

/-- `always` is the configuration `lua-replicate-commands`. -/
def evalGenericCommand (always : Bool) (who : Who) (script : Script) (s : Server) : Server :=
  let initialDirty := s.dirty
  let s := { s with
    luaWriteDirty := false
    luaReplicateCommands := always
    luaMultiEmitted := false
    luaRepl := PROPAGATE_ALL }
  let s := script.steps.foldl (LuaStep.run who) s
  if s.luaReplicateCommands then
    { s with
      prevent := PROPAGATE_ALL
      also := if s.luaMultiEmitted then s.also ++ [(.exec, PROPAGATE_ALL)] else s.also }
  else
    match script.evalsha with
    | some (body, false) => rewriteEvalsha initialDirty body s
    | _ => s

/-! ### Commands -/

/-- What an administrative command does to what is propagated. `rdbSave` resets the count of
changes (`SAVE`, `DEBUG RELOAD`), as does `DEBUG LOADAOF`. -/
inductive Admin
  | other
  | rdbSave
  | loadAppendOnlyFile
  | startAppendOnly
  | stopAppendOnly
  | sync
  | replicaof (host : Bool)
deriving DecidableEq

/-- The count of changes is set back. -/
def Admin.resets : Admin → Bool
  | .rdbSave | .loadAppendOnlyFile => true
  | _ => false

/-- What is fed from now on: `CONFIG SET appendonly`, the backlog that a first replica has
made, and `REPLICAOF`, with a master or none. -/
def Admin.switch (f : Feeds) : Admin → Feeds
  | .startAppendOnly => { f with aof := some (f.aof.getD []) }
  | .stopAppendOnly => { f with aof := none }
  | .sync => { f with backlog := some (f.backlog.getD []) }
  | .replicaof host => { f with masterhost := host }
  | _ => f

def Admin.proc (a : Admin) (s : Server) : Server :=
  { s with feeds := a.switch s.feeds, dirty := if a.resets then 0 else s.dirty }

/-- A command that can be queued. -/
inductive Command
  | plain (c : Plain)
  | eval (script : Script)
  | admin (argv : List Sds) (a : Admin)
deriving DecidableEq

/-- The command is flagged `CMD_READONLY` or `CMD_ADMIN`. -/
def Command.lazy : Command → Bool
  | .plain (.write ..) => false
  | .plain _ => true
  | .eval _ => false
  | .admin .. => true

/-- `call` for a client. -/
def callCommand (always : Bool) (who : Who) (c : Command) (s : Server) : Server :=
  match c with
  | .plain c => call who false PROPAGATE_ALL .command c.argv (c.proc who) s
  | .eval script => call who false PROPAGATE_ALL .command script.argv (evalGenericCommand always who script) s
  | .admin argv a => call who false PROPAGATE_ALL .command argv a.proc s

/-! ### Transactions -/

/-- `c->mstate`, and the flags of a client that has to do with transactions. -/
structure MultiState where
  multi : Bool := false
  dirtyCas : Bool := false
  dirtyExec : Bool := false
  commands : List Command := []
deriving DecidableEq

/-- The loop of `execCommand`, with `must_propagate`. -/
def execQueued (always : Bool) (who : Who) : List Command → Bool → Server → Bool × Server
  | [], mustPropagate, s => (mustPropagate, s)
  | c :: cs, mustPropagate, s =>
    if !mustPropagate && !c.lazy then
      execQueued always who cs true
        (callCommand always who c { s with feeds := execCommandPropagateMulti who s.feeds })
    else execQueued always who cs mustPropagate (callCommand always who c s)

/-- What `execCommand` does when there is a transaction that is not aborted. -/
def execTransaction (always : Bool) (client : ℕ) (commands : List Command) (s : Server) : Server :=
  let wasMaster := !s.feeds.masterhost
  let (mustPropagate, s) := execQueued always ⟨some client, true⟩ commands false s
  if mustPropagate then
    let isMaster := !s.feeds.masterhost
    let s := { s with dirty := s.dirty + 1 }
    if wasMaster && !isMaster then
      { s with feeds := { s.feeds with
        backlog := s.feeds.backlog.map (· ++ [⟨⟨some client, true⟩, .exec⟩]) } }
    else s
  else s

def execCommand (always : Bool) (client : ℕ) (m : MultiState) (s : Server) : Server :=
  if !m.multi then s
  else if m.dirtyCas || m.dirtyExec then s
  else execTransaction always client m.commands s

/-! ### Runs -/

/-- A server and the transactions of its clients. -/
structure System where
  server : Server
  clients : ℕ → MultiState := fun _ => {}

/-- What happens: a client sends a command, one that opens, drops or executes a transaction, or
one that is refused, which may flag the transaction or drop it; keys it watches are
touched, or watched no more; it is gone. On its own the server has keys expire or evicted,
feeds the commands of a client that was blocked, sends pings and asks for acknowledgements, is
done with a dump, and frees the backlog. -/
inductive Event
  | command (client : ℕ) (c : Command)
  | multi (client : ℕ)
  | discard (client : ℕ)
  | exec (client : ℕ)
  | refused (client : ℕ) (flagged dropped : Bool)
  | touched (client : ℕ) (dirty : Bool)
  | gone (client : ℕ)
  | expire (key : Sds)
  | unblocked (client : ℕ) (argv : List Sds) (flags : Target)
  | ping (argv : List Sds)
  | backgroundSaveDone (dirtyBefore : ℤ)
  | freeReplicationBacklog
deriving DecidableEq

def System.setClient (s : System) (client : ℕ) (m : MultiState) : System :=
  { s with clients := Function.update s.clients client m }

/-- A command of a client, queued or called. -/
def processCommand (always : Bool) (client : ℕ) (c : Command) (s : System) : System :=
  let m := s.clients client
  if m.multi then s.setClient client { m with commands := m.commands ++ [c] }
  else { s with server := callCommand always ⟨some client, false⟩ c s.server }

/-- `call` for `EXEC`, after which a transaction is over. -/
def processExec (always : Bool) (client : ℕ) (s : System) : System :=
  let m := s.clients client
  let server := call ⟨some client, true⟩ false PROPAGATE_ALL (fun _ => .exec) [sds "EXEC"] (execCommand always client m) s.server
  { s with server := server }.setClient client (if m.multi then {} else m)

def serve (always : Bool) (s : System) : Event → System
  | .command client c => processCommand always client c s
  | .multi client => s.setClient client { s.clients client with multi := true }
  | .discard client => s.setClient client (if (s.clients client).multi then {} else s.clients client)
  | .exec client => processExec always client s
  | .refused client flagged dropped =>
    let m := s.clients client
    s.setClient client (if dropped then {} else { m with dirtyExec := m.dirtyExec || (m.multi && flagged) })
  | .touched client dirty => s.setClient client { s.clients client with dirtyCas := dirty }
  | .gone client => s.setClient client {}
  | .expire key => { s with server.feeds := propagateExpire ⟨none, false⟩ key s.server.feeds }
  | .unblocked client argv flags =>
    { s with server.feeds := propagate ⟨some client, false⟩ (.command argv) flags s.server.feeds }
  | .ping argv =>
    { s with server.feeds := replicationFeedSlaves ⟨⟨none, false⟩, .command argv⟩ s.server.feeds }
  | .backgroundSaveDone dirtyBefore => { s with server.dirty := s.server.dirty - dirtyBefore }
  | .freeReplicationBacklog => { s with server.feeds.backlog := none }

/-- What happens to a master, until it is one no more. -/
def run (always : Bool) : System → List Event → System
  | s, [] => s
  | s, e :: es => if s.server.feeds.masterhost then s else run always (serve always s e) es

end RedisZk.Propagation
