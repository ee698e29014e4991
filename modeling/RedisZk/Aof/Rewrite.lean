/-
# Rewriting the append only file in the background

A child writes the data as it was at the fork to a new file. What the parent feeds meanwhile
goes into blocks, from these into a pipe as it has room, and is read by the child now and
then. When the child is about to end it asks the parent to stop; when that is acknowledged it
reads what is left in the pipe, puts all it has read behind the data, and exits. The parent puts
the rest of its blocks behind that and renames the file.

What a command does to the data is a parameter, as is what the child writes for the data. The
calls of the operating system that may be short or fail have their outcome as an argument.

Key definitions: `Dataset`, `Server`, `aofRewriteBufferAppend`, `aofChildWriteDiffData`,
`backgroundRewriteDoneHandler`, `Event`, `step`.
-/
import RedisZk.Aof.Truncated
import RedisZk.Lib.Run

namespace RedisZk.Aof

open Streams (Sds ll2string)
open Networking (sds encode commandName Abort)

/-! ### The data -/

/-- What commands do to data of the type `D`, what is written for it, as a dump or as commands,
and how a dump is read. -/
structure Dataset (D : Type) where
  empty : D
  /-- A command in a database. -/
  execute : ℕ → List Sds → D → D
  rdbSaveRio : D → Sds
  rewriteAppendOnlyFileRio : D → List (List Sds)
  rdbLoadRio : Sds → Option (D × Sds)

variable {D : Type} (k : Dataset D)

/-- A command of a client that has selected a database; a transaction is told by its commands. -/
def Dataset.run (c : ℕ × D) (argv : List Sds) : ℕ × D :=
  if commandName argv = sds "select" then ((strtol (argv.getD 1 [])).toNat, c.2)
  else if commandName argv = sds "multi" ∨ commandName argv = sds "exec" then c
  else (c.1, k.execute c.1 argv c.2)

/-- What is in memory once a file is loaded, and the file. -/
def Dataset.load (file : Sds) : Option (D × Sds) :=
  (loadAppendOnlyFile (fun s => (k.rdbLoadRio s).map Prod.snd) true file).map fun r =>
    let start := if r.1.preamble then ((k.rdbLoadRio file).map Prod.fst).getD k.empty else k.empty
    ((r.1.executed.foldl k.run (0, start)).2, r.2)

/-- A command that is executed by a client of the server, with the effect of what is fed for it. -/
def Dataset.call (f : Fed) (d : D) : Except Abort D := do
  let cmds ← translate f
  .ok (cmds.foldl k.run (f.dictid, d)).2

/-! ### The parent and its child -/

inductive AofState
  | off
  | on
  | waitRewrite
deriving DecidableEq

/-- The child: what it writes for the data, and `server.aof_child_diff`. It has exited with the file
that it has made, or without. -/
inductive Process
  | saving (image diff : Sds)
  | asked (image diff : Sds)
  | agreed (image diff : Sds)
  | exited (tmpfile : Option Sds)
deriving DecidableEq

/-- The child and the pipes, with the handlers of the parent at their ends; `stop` is
`server.aof_stop_sending_diff`. -/
structure Rewrite where
  process : Process
  data : Sds := []
  toParent : Sds := []
  toChild : Sds := []
  stop : Bool := false
  writeHandler : Bool := false
  readHandler : Bool := true
deriving DecidableEq

/-- `file` is what is in the file with the name `server.aof_filename`. The file is open unless
`aof_state` is `off`. -/
structure Server (D : Type) where
  data : D
  aof_state : AofState := .off
  aof_fsync_always : Bool := false
  aof_use_rdb_preamble : Bool := true
  file : Sds := []
  aof_current_size : ℕ := 0
  aof : AofBuf := {}
  aof_rewrite_buf_blocks : List Sds := []
  aof_rewrite_scheduled : Bool := false
  rdb_child : Bool := false
  child : Option Rewrite := none

/-! ### The blocks -/

def AOF_RW_BUF_BLOCK_SIZE : ℕ := 1024 * 1024 * 10

/-- The last block takes what it has room for. -/
def fillLast (blocks : List Sds) (s : Sds) : List Sds × Sds :=
  match blocks.getLast? with
  | none => (blocks, s)
  | some block =>
    let free := AOF_RW_BUF_BLOCK_SIZE - block.length
    (blocks.dropLast ++ [block ++ s.take free], s.drop free)

/-- The loop of `aofRewriteBufferAppend`, with a new block where the last one is full. There is a
turn for each byte at most, and one more. -/
def appendLoop : ℕ → List Sds → Sds → List Sds
  | 0, blocks, _ => blocks
  | n + 1, blocks, s =>
    if s = [] then blocks
    else
      let (blocks, s) := fillLast blocks s
      if s = [] then blocks else appendLoop n (blocks ++ [[]]) s

def aofRewriteBufferAppend (blocks : List Sds) (s : Sds) : List Sds := appendLoop (s.length + 1) blocks s

/-- The loop of `aofChildWriteDiffData`, in which empty blocks are deleted; a write takes so many
bytes, and none if it is the last. Whether the handler stays. -/
def writeDiff (stop : Bool) : List ℕ → List Sds → Sds → Bool × List Sds × Sds
  | [], blocks, data =>
    if stop then (false, blocks, data)
    else (blocks.dropWhile (· = []) ≠ [], blocks.dropWhile (· = []), data)
  | nwritten :: writes, blocks, data =>
    if stop then (false, blocks, data)
    else
      match blocks.dropWhile (· = []) with
      | [] => (false, [], data)
      | block :: blocks =>
        if nwritten = 0 then (true, block :: blocks, data)
        else writeDiff stop writes (block.drop nwritten :: blocks) (data ++ block.take nwritten)

def aofChildWriteDiffData (writes : List ℕ) (r : Rewrite) (s : Server D) : Server D :=
  let (handler, blocks, data) := writeDiff r.stop writes s.aof_rewrite_buf_blocks r.data
  { s with
    aof_rewrite_buf_blocks := blocks
    child := some { r with data := data, writeHandler := handler } }

/-- What is written to a file, unless a write is short. -/
def aofRewriteBufferWrite (whole : Sds → Bool) : List Sds → Option Sds
  | [] => some []
  | block :: blocks =>
    if block = [] ∨ whole block then (aofRewriteBufferWrite whole blocks).map (block ++ ·) else none

/-! ### Feeding and flushing -/

/-- `feedAppendOnlyFile`, which has the handler installed if there is a child. -/
def Server.feedAppendOnlyFile (s : Server D) (f : Fed) : Except Abort (Server D) := do
  let cmds ← written s.aof.selectedDb f
  let buf := cmds.flatMap encode
  let s := { s with aof :=
    { selectedDb := some f.dictid, buf := if s.aof_state = AofState.on then s.aof.buf ++ buf else s.aof.buf } }
  match s.child with
  | none => .ok s
  | some r =>
    .ok { s with
      aof_rewrite_buf_blocks := aofRewriteBufferAppend s.aof_rewrite_buf_blocks buf
      child := some { r with writeHandler := true } }

/-- A command is executed, and fed by `propagate`. -/
def Server.call (s : Server D) (f : Fed) : Except Abort (Server D) := do
  let d ← k.call f s.data
  let s := { s with data := d }
  if s.aof_state = .off then .ok s else s.feedAppendOnlyFile f

/-- How many bytes `aofWrite` writes, and whether `ftruncate` takes back what is short. -/
structure Written where
  nwritten : ℕ
  truncated : Bool := true
deriving DecidableEq

def ftruncate (file : Sds) (size : ℕ) : Sds := file.take size ++ List.replicate (size - file.length) 0

/-- None when the server exits. -/
def flushAppendOnlyFile (w : Written) (s : Server D) : Option (Server D) :=
  let n := if s.aof_state = .off then 0 else w.nwritten
  if s.aof.buf = [] then some s
  else if s.aof.buf.length ≤ n then
    some { s with
      file := s.file ++ s.aof.buf
      aof_current_size := s.aof_current_size + s.aof.buf.length
      aof := { s.aof with buf := [] } }
  else if s.aof_fsync_always then none
  else if n = 0 then some s
  else if w.truncated then
    some { s with file := ftruncate (s.file ++ s.aof.buf.take n) s.aof_current_size }
  else
    some { s with
      file := s.file ++ s.aof.buf.take n
      aof_current_size := s.aof_current_size + n
      aof := { s.aof with buf := s.aof.buf.drop n } }

/-! ### The rewrite -/

/-- What the child writes for the data. -/
def Server.image (s : Server D) : Sds :=
  if s.aof_use_rdb_preamble then k.rdbSaveRio s.data else bytes (k.rewriteAppendOnlyFileRio s.data)

/-- The child is forked, with new pipes. -/
def fork (s : Server D) : Server D :=
  { s with
    child := some { process := .saving (s.image k) [] }
    aof_rewrite_scheduled := false
    aof := { s.aof with selectedDb := none } }

def rewriteAppendOnlyFileBackground (s : Server D) : Option (Server D) :=
  if s.child.isSome ∨ s.rdb_child then none else some (fork k s)

def killAppendOnlyChild (s : Server D) : Server D :=
  { s with
    aof_rewrite_buf_blocks := if s.child.isSome then [] else s.aof_rewrite_buf_blocks
    child := none }

def stopAppendOnly (w : Written) (s : Server D) : Option (Server D) := do
  let s ← flushAppendOnlyFile w s
  some (killAppendOnlyChild { s with aof_state := .off, aof := { s.aof with selectedDb := none } })

/-- While a dump is saved the rewrite is left for later. -/
def startAppendOnly (s : Server D) : Option (Server D) := do
  let s ←
    if s.rdb_child then some { s with aof_rewrite_scheduled := true }
    else rewriteAppendOnlyFileBackground k (killAppendOnlyChild s)
  some { s with aof_state := .waitRewrite }

/-- The handler of a byte from the child, which is called once; whether the answer can be written. -/
def aofChildPipeReadable (answered : Bool) (r : Rewrite) : Option Rewrite :=
  if !r.readHandler then none
  else
    match r.toParent with
    | [] => none
    | c :: rest =>
      let r := { r with toParent := rest, readHandler := false }
      if c = 33 then
        some { r with stop := true, toChild := if answered then r.toChild ++ [33] else r.toChild }
      else some r

/-- What the child does next: it reads so many bytes of the diff, asks for the end of it, gets the
answer, ends when there is nothing left to read, or fails. -/
inductive Turn
  | read (n : ℕ)
  | ask
  | answer
  | finish
  | fail
deriving DecidableEq

/-- A turn of `rewriteAppendOnlyFile`. A read takes some of the bytes that are there, of which the
buffer holds 65536. -/
def rewriteAppendOnlyFile (r : Rewrite) : Turn → Option Rewrite
  | .read n =>
    if n = 0 ∨ 65536 < n ∨ r.data.length < n then none
    else
      match r.process with
      | .saving image diff => some { r with process := .saving image (diff ++ r.data.take n), data := r.data.drop n }
      | .agreed image diff => some { r with process := .agreed image (diff ++ r.data.take n), data := r.data.drop n }
      | _ => none
  | .ask =>
    match r.process with
    | .saving image diff => some { r with process := .asked image diff, toParent := r.toParent ++ [33] }
    | _ => none
  | .answer =>
    match r.process, r.toChild with
    | .asked image diff, c :: rest =>
      if c = 33 then some { r with process := .agreed image diff, toChild := rest }
      else some { r with process := .exited none, toChild := rest }
    | _, _ => none
  | .finish =>
    match r.process with
    | .agreed image diff => if r.data = [] then some { r with process := .exited (some (image ++ diff)) } else none
    | _ => none
  | .fail =>
    match r.process with
    | .exited _ => none
    | _ => some { r with process := .exited none }

/-- How the calls of `backgroundRewriteDoneHandler` end. -/
structure Outcome where
  opened : Bool := true
  whole : Sds → Bool := fun _ => true
  renamed : Bool := true

/-- The file that is renamed to the name of the append only file, if that comes about. -/
def newFile (o : Outcome) (r : Rewrite) (s : Server D) : Option Sds :=
  match r.process with
  | .exited (some tmpfile) =>
    if !o.opened then none
    else
      match aofRewriteBufferWrite o.whole s.aof_rewrite_buf_blocks with
      | none => none
      | some diff => if o.renamed then some (tmpfile ++ diff) else none
  | _ => none

/-- For a child that has exited. -/
def backgroundRewriteDoneHandler (o : Outcome) (r : Rewrite) (s : Server D) : Server D :=
  let s :=
    match newFile o r s with
    | none => s
    | some file =>
      if s.aof_state = AofState.off then { s with file := file }
      else { s with file := file, aof := {}, aof_current_size := file.length, aof_state := .on }
  { s with
    child := none
    aof_rewrite_buf_blocks := []
    aof_rewrite_scheduled := s.aof_rewrite_scheduled || s.aof_state = AofState.waitRewrite }

/-! ### Steps -/

/-- What happens, after the fork or at any other time: a client executes a command, the data is
replaced while nothing is fed, a dump is being saved or is done, the buffer is flushed, a rewrite
begins, the file is switched on or off, a handler of the event loop is called, the child takes a
turn, or `serverCron` finds that it has exited. -/
inductive Event (D : Type)
  | call (f : Fed)
  | replaced (d : D)
  | rdbChild (running : Bool)
  | flush (w : Written)
  | rewrite
  | start
  | stop (w : Written)
  | writable (writes : List ℕ)
  | readable (answered : Bool)
  | child (t : Turn)
  | done (o : Outcome)

/-- None where the event is not possible, or the server exits. -/
def step (s : Server D) : Event D → Option (Server D)
  | .call f => (s.call k f).toOption
  | .replaced d => if s.aof_state = .off then some { s with data := d } else none
  | .rdbChild running => if running ∧ s.child.isSome then none else some { s with rdb_child := running }
  | .flush w => flushAppendOnlyFile w s
  | .rewrite => rewriteAppendOnlyFileBackground k s
  | .start => if s.aof_state = .off then startAppendOnly k s else none
  | .stop w => if s.aof_state = .off then none else stopAppendOnly w s
  | .writable writes =>
    match s.child with
    | some r => if r.writeHandler then some (aofChildWriteDiffData writes r s) else none
    | none => none
  | .readable answered => do
    let r ← s.child
    let r ← aofChildPipeReadable answered r
    some { s with child := some r }
  | .child t => do
    let r ← s.child
    let r ← rewriteAppendOnlyFile r t
    some { s with child := some r }
  | .done o =>
    match s.child with
    | some r =>
      match r.process with
      | .exited _ => some (backgroundRewriteDoneHandler o r s)
      | _ => none
    | none => none

/-- The states that events lead to. -/
def steps (s : Server D) : List (Event D) → Option (Server D)
  | [] => some s
  | e :: es => do
    let s ← step k s e
    steps s es

end RedisZk.Aof
