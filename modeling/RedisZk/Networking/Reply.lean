/-
# The output buffers of a client

What a command says to its client is kept in a buffer inside the client and, once that is
full, in a list of blocks; `sentlen` is how much of the first of them is on the socket
already. The length of an array that is not known yet is a node with no block in the list,
filled when the command knows it. A node is named by the number of the allocation that made
it, and `slack n` is what the allocator gave the `n`-th allocation above what was asked for.

Key definitions: `Client`, `addReplyToBuffer`, `addReplyStringToList`, `Call`,
`addDeferredMultiBulkLength`, `setDeferredMultiBulkLength`, `writeToClient`, `Replies`, `serve`.
-/
import RedisZk.Streams.Listpack

namespace RedisZk.Networking

open Streams (Sds ll2string)

def PROTO_REPLY_CHUNK_BYTES : ℕ := 16 * 1024
def NET_MAX_WRITES_PER_EVENT : ℕ := 1024 * 64
def OBJ_SHARED_BULKHDR_LEN : ℤ := 32

/-- The characters of a text of the source. -/
def sds (s : String) : Sds := s.toList.map fun c => Fin.ofNat 256 c.toNat

def crlf : Sds := [13, 10]

/-- A null pointer is followed, or a `serverAssert` fails. -/
inductive Abort
  | null
  | assert
deriving DecidableEq

/-! ### The client -/

/-- The flags that decide what becomes of a reply. -/
structure Flags where
  lua : Bool := false
  fromModule : Bool := false
  replyOff : Bool := false
  replySkip : Bool := false
  master : Bool := false
  masterForceReply : Bool := false
  slave : Bool := false
  closeAfterReply : Bool := false
deriving DecidableEq

/-- `clientReplyBlock`: the bytes in use, and how many there is room for. -/
structure Block where
  size : ℕ
  used : Sds
  fits : used.length ≤ size
deriving DecidableEq

/-- A node of the list of replies; with no block it is a placeholder. -/
structure ReplyNode where
  addr : ℕ
  value : Option Block
deriving DecidableEq

inductive ReplState
  | none
  | waitBgsaveStart
  | waitBgsaveEnd
  | sendBulk
  | online
deriving DecidableEq

/-- What of a client its replies go through; `bufpos` is the length of `buf`. -/
structure Client where
  fd : ℤ
  flags : Flags := {}
  pendingWrite : Bool := false
  replstate : ReplState := .none
  replPutOnlineOnAck : Bool := false
  buf : Sds := []
  room : buf.length ≤ PROTO_REPLY_CHUNK_BYTES := by decide
  sentlen : ℕ := 0
  reply : List ReplyNode := []
  replyBytes : ℕ := 0
  mallocs : ℕ := 0
deriving DecidableEq

def clientHasPendingReplies (c : Client) : Bool := !c.buf.isEmpty || !c.reply.isEmpty

def clientInstallWriteHandler (c : Client) : Client :=
  if !c.pendingWrite ∧ (c.replstate = .none ∨ (c.replstate = .online ∧ !c.replPutOnlineOnAck)) then
    { c with pendingWrite := true }
  else c

/-- Whether data may be queued for a client with these flags and this descriptor. -/
def takesReplies (fd : ℤ) (flags : Flags) : Bool :=
  if flags.lua || flags.fromModule then true
  else if flags.replyOff || flags.replySkip then false
  else if flags.master && !flags.masterForceReply then false
  else decide (0 < fd)

/-- `prepareClientToWrite`; no client stands for `C_ERR`. -/
def prepareClientToWrite (c : Client) : Option Client :=
  if c.flags.lua || c.flags.fromModule then some c
  else if !takesReplies c.fd c.flags then none
  else if !clientHasPendingReplies c then some (clientInstallWriteHandler c)
  else some c

/-! ### Queueing bytes -/

/-- `_addReplyToBuffer`; no client stands for `C_ERR`. -/
def addReplyToBuffer (c : Client) (s : Sds) : Option Client :=
  if c.flags.closeAfterReply then some c
  else if c.reply ≠ [] then none
  else if h : PROTO_REPLY_CHUNK_BYTES - c.buf.length < s.length then none
  else
    some { c with
      buf := c.buf ++ s
      room := by have := c.room; rw [List.length_append]; omega }

section Alloc

variable (slack : ℕ → ℕ)

/-- The end of `_addReplyStringToList`: what did not fit into the last block gets a new one. -/
def addReplyBlock (c : Client) (s : Sds) : Client :=
  if s = [] then c
  else
    let size := max PROTO_REPLY_CHUNK_BYTES s.length + slack c.mallocs
    { c with
      reply := c.reply ++ [⟨c.mallocs, some ⟨size, s, by omega⟩⟩]
      replyBytes := c.replyBytes + size
      mallocs := c.mallocs + 1 }

/-- Copies what fits of `s` into a block. -/
def Block.take (b : Block) (s : Sds) : Block :=
  ⟨b.size, b.used ++ s.take (b.size - b.used.length), by
    have := b.fits
    rw [List.length_append, List.length_take]
    omega⟩

/-- `_addReplyStringToList`. -/
def addReplyStringToList (c : Client) (s : Sds) : Client :=
  if c.flags.closeAfterReply then c
  else
    match c.reply.getLast? with
    | some ⟨addr, some tail⟩ =>
      addReplyBlock slack { c with reply := c.reply.dropLast ++ [⟨addr, some (tail.take s)⟩] }
        (s.drop (tail.size - tail.used.length))
    | _ => addReplyBlock slack c s

/-- `addReplyString`, which `addReplySds` repeats. -/
def addReplyString (c : Client) (s : Sds) : Client :=
  match prepareClientToWrite c with
  | none => c
  | some c =>
    match addReplyToBuffer c s with
    | some c => c
    | none => addReplyStringToList slack c s

/-! ### The calls of the commands -/

/-- The string of an object, or the integer it is encoded as. -/
inductive Obj
  | raw (s : Sds)
  | int (n : ℤ)
deriving DecidableEq

def Obj.ptr : Obj → Sds
  | .raw s => s
  | .int n => ll2string n

def addReply (c : Client) (obj : Obj) : Client := addReplyString slack c obj.ptr

def addReplyErrorLength (c : Client) (s : Sds) : Client :=
  let c := if s.head? ≠ some 45 then addReplyString slack c (sds "-ERR ") else c
  let c := addReplyString slack c s
  addReplyString slack c crlf

/-- `addReplyErrorFormat`, with the text made already. -/
def addReplyErrorFormat (c : Client) (s : Sds) : Client :=
  addReplyErrorLength slack c (s.map fun ch => if ch = 13 ∨ ch = 10 then 32 else ch)

def addReplyStatusLength (c : Client) (s : Sds) : Client :=
  let c := addReplyString slack c (sds "+")
  let c := addReplyString slack c s
  addReplyString slack c crlf

/-- The shared objects and the text made on the stack hold the same bytes. -/
def addReplyLongLongWithPrefix (c : Client) (ll : ℤ) (pre : Fin 256) : Client :=
  if pre = 42 ∧ ll < OBJ_SHARED_BULKHDR_LEN ∧ 0 ≤ ll then addReply slack c (.raw (42 :: ll2string ll ++ crlf))
  else if pre = 36 ∧ ll < OBJ_SHARED_BULKHDR_LEN ∧ 0 ≤ ll then
    addReply slack c (.raw (36 :: ll2string ll ++ crlf))
  else addReplyString slack c (pre :: ll2string ll ++ crlf)

def addReplyLongLong (c : Client) (ll : ℤ) : Client :=
  if ll = 0 then addReply slack c (.raw (sds ":0\r\n"))
  else if ll = 1 then addReply slack c (.raw (sds ":1\r\n"))
  else addReplyLongLongWithPrefix slack c ll 58

def addReplyMultiBulkLen (c : Client) (length : ℕ) : Client :=
  if length < OBJ_SHARED_BULKHDR_LEN then addReply slack c (.raw (42 :: ll2string length ++ crlf))
  else addReplyLongLongWithPrefix slack c length 42

def addReplyBulkLen (c : Client) (obj : Obj) : Client :=
  if obj.ptr.length < OBJ_SHARED_BULKHDR_LEN then
    addReply slack c (.raw (36 :: ll2string obj.ptr.length ++ crlf))
  else addReplyLongLongWithPrefix slack c obj.ptr.length 36

def addReplyBulk (c : Client) (obj : Obj) : Client :=
  let c := addReplyBulkLen slack c obj
  let c := addReply slack c obj
  addReply slack c (.raw crlf)

/-- `addReplyBulkCBuffer`, which `addReplyBulkSds` repeats. -/
def addReplyBulkCBuffer (c : Client) (p : Sds) : Client :=
  let c := addReplyLongLongWithPrefix slack c p.length 36
  let c := addReplyString slack c p
  addReply slack c (.raw crlf)

def addReplyBulkCString (c : Client) : Option Sds → Client
  | none => addReply slack c (.raw (sds "$-1\r\n"))
  | some s => addReplyBulkCBuffer slack c s

def addReplyBulkLongLong (c : Client) (ll : ℤ) : Client := addReplyBulkCBuffer slack c (ll2string ll)

/-- A reply call with its arguments. Texts that are formatted (`addReplyErrorFormat`,
`addReplyStatusFormat`, the doubles) are given as they come out. -/
inductive Call
  | addReply (obj : Obj)
  | addReplyString (s : Sds)
  | addReplyErrorLength (s : Sds)
  | addReplyErrorFormat (s : Sds)
  | addReplyStatusLength (s : Sds)
  | addReplyLongLong (ll : ℤ)
  | addReplyMultiBulkLen (length : ℕ)
  | addReplyBulk (obj : Obj)
  | addReplyBulkCBuffer (p : Sds)
  | addReplyBulkCString (s : Option Sds)
  | addReplyBulkLongLong (ll : ℤ)
deriving DecidableEq

def Call.run (c : Client) : Call → Client
  | .addReply obj => Networking.addReply slack c obj
  | .addReplyString s => Networking.addReplyString slack c s
  | .addReplyErrorLength s => Networking.addReplyErrorLength slack c s
  | .addReplyErrorFormat s => Networking.addReplyErrorFormat slack c s
  | .addReplyStatusLength s => Networking.addReplyStatusLength slack c s
  | .addReplyLongLong ll => Networking.addReplyLongLong slack c ll
  | .addReplyMultiBulkLen length => Networking.addReplyMultiBulkLen slack c length
  | .addReplyBulk obj => Networking.addReplyBulk slack c obj
  | .addReplyBulkCBuffer p => Networking.addReplyBulkCBuffer slack c p
  | .addReplyBulkCString s => Networking.addReplyBulkCString slack c s
  | .addReplyBulkLongLong ll => Networking.addReplyBulkLongLong slack c ll

/-! ### Lengths that come late -/

/-- `addDeferredMultiBulkLength`, with the node it returns. -/
def addDeferredMultiBulkLength (c : Client) : Option ℕ × Client :=
  match prepareClientToWrite c with
  | none => (none, c)
  | some c => (some c.mallocs, { c with reply := c.reply ++ [⟨c.mallocs, none⟩], mallocs := c.mallocs + 1 })

/-- The text of the length of an array. -/
def lenstr (length : ℤ) : Sds := 42 :: ll2string length ++ crlf

/-- Puts the length in front of the bytes of the next block, if there is a next block and
it has the room. -/
def Block.glue (s : Sds) (next : Block) : Option Block :=
  if h : s.length ≤ next.size - next.used.length ∧ next.used.length < PROTO_REPLY_CHUNK_BYTES * 4 then
    some ⟨next.size, s ++ next.used, by have := next.fits; rw [List.length_append]; omega⟩
  else none

def setDeferredMultiBulkLength (c : Client) (node : Option ℕ) (length : ℤ) : Except Abort Client :=
  match node with
  | none => .ok c
  | some addr =>
    let before := c.reply.takeWhile (·.addr ≠ addr)
    match c.reply.dropWhile (·.addr ≠ addr) with
    | [] => .error .null
    | ⟨_, some _⟩ :: _ => .error .assert
    | ⟨_, none⟩ :: after =>
      let glued : Option (List ReplyNode) :=
        match after with
        | ⟨addr', some next⟩ :: after' => (next.glue (lenstr length)).map fun b => ⟨addr', some b⟩ :: after'
        | _ => none
      match glued with
      | some after => .ok { c with reply := before ++ after }
      | none =>
        let size := (lenstr length).length + slack c.mallocs
        .ok { c with
          reply := before ++ ⟨addr, some ⟨size, lenstr length, by omega⟩⟩ :: after
          replyBytes := c.replyBytes + size
          mallocs := c.mallocs + 1 }

/-! ### Writing to the socket -/

/-- What `write` answers: it took at most `n` bytes, the socket is full (`EAGAIN`), or
another error. -/
inductive WriteResult
  | wrote (n : ℕ)
  | again
  | failed
deriving DecidableEq

/-- A call of `write`, and whether the memory in use is under `maxmemory` after it. -/
structure Write where
  result : WriteResult
  underMaxmemory : Bool := true
deriving DecidableEq

/-- The turns of the loop of `writeToClient` that free empty blocks. The head of the list is
read before its block is: a placeholder there is a null pointer. -/
def freeEmpty : List ReplyNode → ℕ → Except Abort (List ReplyNode × ℕ)
  | [], n => .ok ([], n)
  | ⟨_, none⟩ :: _, _ => .error .null
  | ⟨addr, some o⟩ :: reply, n =>
    if o.used = [] then freeEmpty reply (n - o.size) else .ok (⟨addr, some o⟩ :: reply, n)

/-- The first thing to send: the buffer, or the first block that is not empty. -/
def toHead (c : Client) : Except Abort Client :=
  if c.buf ≠ [] then .ok c
  else do
    let (reply, n) ← freeEmpty c.reply c.replyBytes
    .ok { c with reply := reply, replyBytes := n }

/-- One `write` that takes `n` bytes, or what is left of the buffer or of the first block. -/
def writeHead (c : Client) (n : ℕ) : Except Abort (Client × Sds) :=
  if c.buf ≠ [] then
    let out := (c.buf.drop c.sentlen).take n
    let sentlen := c.sentlen + out.length
    if out = [] then .ok (c, [])
    else if sentlen = c.buf.length then .ok ({ c with buf := [], room := by decide, sentlen := 0 }, out)
    else .ok ({ c with sentlen := sentlen }, out)
  else
    match c.reply with
    | ⟨_, some o⟩ :: reply =>
      let out := (o.used.drop c.sentlen).take n
      let sentlen := c.sentlen + out.length
      if out = [] then .ok (c, [])
      else if sentlen = o.used.length then
        if reply = [] ∧ c.replyBytes - o.size ≠ 0 then .error .assert
        else .ok ({ c with reply := reply, replyBytes := c.replyBytes - o.size, sentlen := 0 }, out)
      else .ok ({ c with sentlen := sentlen }, out)
    | _ => .error .null

/-- The loop of `writeToClient`: the client, what was written, and whether `write` failed.
Where the answers of the socket end it is full. -/
def writeLoop : List Write → ℕ → Client → Except Abort (Client × Sds × Bool)
  | [], _, c => do
    let c ← toHead c
    .ok (c, [], false)
  | w :: ws, totwritten, c => do
    let c ← toHead c
    if !clientHasPendingReplies c then .ok (c, [], false)
    else
      match w.result with
      | .again => .ok (c, [], false)
      | .failed => .ok (c, [], true)
      | .wrote n => do
        let (c, out) ← writeHead c n
        if out = [] then .ok (c, [], false)
        else
          let totwritten := totwritten + out.length
          if NET_MAX_WRITES_PER_EVENT < totwritten ∧ w.underMaxmemory ∧ !c.flags.slave then .ok (c, out, false)
          else do
            let (c, more, failed) ← writeLoop ws totwritten c
            .ok (c, out ++ more, failed)

/-- `writeToClient`, with the bytes it wrote; no client stands for `C_ERR`, when the client
has been freed. -/
def writeToClient (c : Client) (ws : List Write) : Except Abort (Option Client × Sds) := do
  let (c, out, failed) ← writeLoop ws 0 c
  if failed then .ok (none, out)
  else if !clientHasPendingReplies c then
    if c.flags.closeAfterReply then .ok (none, out) else .ok (some { c with sentlen := 0 }, out)
  else .ok (some c, out)

/-! ### Commands and their replies -/

/-- The reply calls of a command in turn, the deferred lengths nested, and the changes that
the command makes to the flags of its client in between. -/
inductive Replies
  | done
  | call (k : Call) (rest : Replies)
  | deferred (body : Replies) (length : ℤ) (rest : Replies)
  | become (flags : Flags) (rest : Replies)
deriving DecidableEq

/-- A command makes its reply calls. -/
def Replies.run : Replies → Client → Except Abort Client
  | .done, c => .ok c
  | .call k rest, c => rest.run (k.run slack c)
  | .deferred body length rest, c => do
    let (node, c) := addDeferredMultiBulkLength c
    let c ← body.run c
    let c ← setDeferredMultiBulkLength slack c node length
    rest.run c
  | .become flags rest, c => rest.run { c with flags := flags }

inductive Event
  | command (r : Replies)
  | writeToClient (ws : List Write)
deriving DecidableEq

/-- Commands and writes in turn, until the client is freed, with what was written. -/
def serve : Client → List Event → Except Abort (Option Client × Sds)
  | c, [] => .ok (some c, [])
  | c, .command r :: es => do
    let c ← r.run slack c
    serve c es
  | c, .writeToClient ws :: es => do
    match ← Networking.writeToClient c ws with
    | (none, out) => .ok (none, out)
    | (some c, out) => do
      let (c, more) ← serve c es
      .ok (c, out ++ more)

end Alloc

/-- `addReplyHelp`: the line about the command, one line a subcommand, and their number. -/
def addReplyHelp (cmd : Sds) (help : List Sds) : Replies :=
  .deferred
    (.call (.addReplyStatusLength (cmd ++ sds " <subcommand> arg arg ... arg. Subcommands are:"))
      (help.foldr (fun line rest => .call (.addReplyStatusLength line) rest) .done))
    (help.length + 1) .done

end RedisZk.Networking
