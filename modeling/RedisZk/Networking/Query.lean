/-
# Requests of a client

The bytes read from a client are gathered in its query buffer, of which the first `qbPos` are
parsed; what is known of the command that is being read is in five more fields. A command
that is complete is handed to `processCommand`. Of a master, the bytes of the commands that
are applied go on to the backlog and to the sub-replicas.

What the rest of the server makes of a command is the parameter `answer`, of the commands
handed so far. The conditions under which the server puts a client off (paused, blocked, a
busy script) are a number of turns after which the loop stops.

Key definitions: `QueryClient`, `processInlineBuffer`, `processMultibulkBuffer`,
`processInputBuffer`, `Conn`, `processInputBufferAndReplicate`, `readQueryFromClient`, `receive`.
-/
import RedisZk.Networking.Reply

namespace RedisZk.Networking

open Streams (Sds lpStringToInt64)

def PROTO_IOBUF_LEN : ℕ := 1024 * 16
def PROTO_INLINE_MAX_SIZE : ℕ := 1024 * 64
def PROTO_MBULK_BIG_ARG : ℕ := 1024 * 32

/-- `strchr`: where a character is first, before the first null. -/
def strchr : Sds → Fin 256 → Option ℕ
  | [], _ => none
  | x :: s, ch => if x = ch then some 0 else if x = 0 then none else (strchr s ch).map (· + 1)

/-- `string2ll`, of which `lpStringToInt64` is a copy. -/
def string2ll (s : Sds) : Option ℤ := lpStringToInt64 s

/-! ### Splitting a line -/

def isspace (ch : Fin 256) : Bool := ch = 32 || (9 ≤ ch && ch ≤ 13)

def isHexDigit (ch : Fin 256) : Bool := (48 ≤ ch && ch ≤ 57) || (97 ≤ ch && ch ≤ 102) || (65 ≤ ch && ch ≤ 70)

def hexDigitToInt (ch : Fin 256) : ℕ :=
  if 48 ≤ ch ∧ ch ≤ 57 then ch.val - 48
  else if 97 ≤ ch ∧ ch ≤ 102 then ch.val - 87
  else if 65 ≤ ch ∧ ch ≤ 70 then ch.val - 55
  else 0

/-- The character an escape stands for between double quotes. -/
def unescape (ch : Fin 256) : Fin 256 :=
  if ch = 110 then 10
  else if ch = 114 then 13
  else if ch = 116 then 9
  else if ch = 98 then 8
  else if ch = 97 then 7
  else ch

/-- Where `sdssplitargs` is: between tokens, in a token, or between quotes. -/
inductive Quoting
  | blank
  | plain
  | inq
  | insq
deriving DecidableEq

/-- The loops of `sdssplitargs` from `p` on, with the vector and the token so far. The line
has no null character. -/
def splitArgs : Quoting → List Sds → Sds → Sds → Option (List Sds)
  | .blank, argv, _, [] => some argv
  | .blank, argv, _, ch :: p =>
    if isspace ch then splitArgs .blank argv [] p
    else if ch = 34 then splitArgs .inq argv [] p
    else if ch = 39 then splitArgs .insq argv [] p
    else splitArgs .plain argv [ch] p
  | .plain, argv, current, [] => some (argv ++ [current])
  | .plain, argv, current, ch :: p =>
    if ch = 32 ∨ ch = 10 ∨ ch = 13 ∨ ch = 9 then splitArgs .blank (argv ++ [current]) [] p
    else if ch = 34 then splitArgs .inq argv current p
    else if ch = 39 then splitArgs .insq argv current p
    else splitArgs .plain argv (current ++ [ch]) p
  | .inq, _, _, [] => none
  | .inq, argv, current, 92 :: 120 :: h :: l :: p =>
    if isHexDigit h && isHexDigit l then
      splitArgs .inq argv (current ++ [Fin.ofNat 256 (hexDigitToInt h * 16 + hexDigitToInt l)]) p
    else splitArgs .inq argv (current ++ [unescape 120]) (h :: l :: p)
  | .inq, argv, current, 92 :: ch :: p => splitArgs .inq argv (current ++ [unescape ch]) p
  | .inq, argv, current, ch :: p =>
    if ch = 34 then
      if (p.head?).any fun next => !isspace next then none else splitArgs .blank (argv ++ [current]) [] p
    else splitArgs .inq argv (current ++ [ch]) p
  | .insq, _, _, [] => none
  | .insq, argv, current, 92 :: 39 :: p => splitArgs .insq argv (current ++ [39]) p
  | .insq, argv, current, ch :: p =>
    if ch = 39 then
      if (p.head?).any fun next => !isspace next then none else splitArgs .blank (argv ++ [current]) [] p
    else splitArgs .insq argv (current ++ [ch]) p

def sdssplitargs (line : Sds) : Option (List Sds) := splitArgs .blank [] [] line

/-! ### The client -/

/-- The limits of the configuration; `protoMaxBulkLen` is a `long long`. -/
structure Config where
  protoMaxBulkLen : ℕ
  clientMaxQuerybufLen : ℕ
  fits : protoMaxBulkLen < 2 ^ 63 := by decide

inductive ReqType
  | inline
  | multibulk
deriving DecidableEq

/-- What of a client its requests go through. No `reqtype` and no `bulklen` stand for 0 and
-1; `closing` for `CLIENT_CLOSE_AFTER_REPLY` or `CLIENT_CLOSE_ASAP`; `handed` are the
argument vectors given to `processCommand`, and `errors` the protocol errors replied. -/
structure QueryClient where
  master : Bool := false
  multi : Bool := false
  closing : Bool := false
  freed : Bool := false
  querybuf : Sds := []
  qbPos : ℕ := 0
  reqtype : Option ReqType := none
  argv : List Sds := []
  multibulklen : ℕ := 0
  bulklen : Option ℕ := none
  reploff : ℤ := 0
  readReploff : ℤ := 0
  handed : List (List Sds) := []
  errors : List Sds := []
deriving DecidableEq

/-- `C_OK` and `C_ERR`. -/
inductive Status
  | ok
  | err
deriving DecidableEq

/-- The bytes that are not parsed yet. -/
def QueryClient.rest (c : QueryClient) : Sds := c.querybuf.drop c.qbPos

/-- A reply with an error, and `setProtocolError`. -/
def QueryClient.fail (c : QueryClient) (err : Sds) : QueryClient :=
  { c with errors := c.errors ++ [err], closing := true }

def resetClient (c : QueryClient) : QueryClient :=
  { c with reqtype := none, argv := [], multibulklen := 0, bulklen := none }

/-! ### The two protocols -/

/-- The length of a line up to a newline at `newline`, less a carriage return before it. -/
def lineLen (s : Sds) (newline : ℕ) : ℕ :=
  if newline ≠ 0 ∧ s[newline - 1]? = some 13 then newline - 1 else newline

def processInlineBuffer (c : QueryClient) : Status × QueryClient :=
  match strchr c.rest 10 with
  | none =>
    if PROTO_INLINE_MAX_SIZE < c.rest.length then (.err, c.fail (sds "Protocol error: too big inline request"))
    else (.err, c)
  | some newline =>
    match sdssplitargs (c.rest.take (lineLen c.rest newline)) with
    | none => (.err, c.fail (sds "Protocol error: unbalanced quotes in request"))
    | some argv => (.ok, { c with qbPos := c.qbPos + (newline + 1), argv := argv })

/-- The number of a line that starts with one more character. -/
def lineNumber (s : Sds) (newline : ℕ) : Option ℤ := string2ll ((s.take newline).drop 1)

/-- What becomes of a step of `processMultibulkBuffer`: it goes on, or it returns. -/
inductive Bulk
  | more (c : QueryClient)
  | stop (status : Status) (c : QueryClient)

/-- The multi bulk length. -/
def readCount (c : QueryClient) : Except Abort Bulk :=
  if c.argv ≠ [] then .error .assert
  else
    match strchr c.rest 13 with
    | none =>
      if PROTO_INLINE_MAX_SIZE < c.rest.length then
        .ok (.stop .err (c.fail (sds "Protocol error: too big mbulk count string")))
      else .ok (.stop .err c)
    | some newline =>
      if c.rest.length < newline + 2 then .ok (.stop .err c)
      else if c.rest.head? ≠ some 42 then .error .assert
      else
        match lineNumber c.rest newline with
        | none => .ok (.stop .err (c.fail (sds "Protocol error: invalid multibulk length")))
        | some ll =>
          if ll > 1024 * 1024 then .ok (.stop .err (c.fail (sds "Protocol error: invalid multibulk length")))
          else if ll ≤ 0 then .ok (.stop .ok { c with qbPos := c.qbPos + (newline + 2) })
          else .ok (.more { c with qbPos := c.qbPos + (newline + 2), multibulklen := ll.toNat })

variable (cfg : Config)

/-- The length of an argument; the buffer is trimmed where the argument is large and all
that is there is of it. -/
def readBulkLen (c : QueryClient) : Bulk :=
  match strchr c.rest 13 with
  | none =>
    if PROTO_INLINE_MAX_SIZE < c.rest.length then
      .stop .err (c.fail (sds "Protocol error: too big bulk count string"))
    else .stop .err c
  | some newline =>
    if c.rest.length < newline + 2 then .stop .err c
    else if c.rest.head? ≠ some 36 then
      .stop .err (c.fail (sds "Protocol error: expected '$', got '" ++ c.rest.take 1 ++ sds "'"))
    else
      match lineNumber c.rest newline with
      | none => .stop .err (c.fail (sds "Protocol error: invalid bulk length"))
      | some ll =>
        if ll < 0 ∨ ll > cfg.protoMaxBulkLen then .stop .err (c.fail (sds "Protocol error: invalid bulk length"))
        else
          let len := ll.toNat
          let c := { c with qbPos := c.qbPos + (newline + 2), bulklen := some len }
          if PROTO_MBULK_BIG_ARG ≤ len ∧ c.querybuf.length - c.qbPos ≤ len + 2 then
            .more { c with querybuf := c.rest, qbPos := 0 }
          else .more c

/-- An argument that is all there. Where it is large and alone in the buffer the buffer
becomes the argument, and the client gets a new one. -/
def readBulk (c : QueryClient) (len : ℕ) : QueryClient :=
  if c.qbPos = 0 ∧ PROTO_MBULK_BIG_ARG ≤ len ∧ c.querybuf.length = len + 2 then
    { c with argv := c.argv ++ [c.querybuf.take len], querybuf := [], bulklen := none }
  else
    { c with argv := c.argv ++ [c.rest.take len], qbPos := c.qbPos + (len + 2), bulklen := none }

/-- The loop over the arguments that are missing. -/
def readArgs : ℕ → QueryClient → Status × QueryClient
  | 0, c => (.ok, c)
  | n + 1, c =>
    match (if c.bulklen = none then readBulkLen cfg c else .more c) with
    | .stop status c => (status, c)
    | .more c =>
      match c.bulklen with
      | none => (.err, c)
      | some len =>
        if c.rest.length < len + 2 then (.err, c)
        else readArgs n { readBulk c len with multibulklen := n }

def processMultibulkBuffer (c : QueryClient) : Except Abort (Status × QueryClient) :=
  if c.multibulklen = 0 then do
    match ← readCount c with
    | .stop status c => .ok (status, c)
    | .more c => .ok (readArgs cfg c.multibulklen c)
  else .ok (readArgs cfg c.multibulklen c)

/-! ### Commands -/

/-- What the rest of the server does with a command: answers it with an error before it is
executed, has the client closed later, or frees it. -/
structure After where
  refused : Bool := false
  closing : Bool := false
  freed : Bool := false

def tolower (ch : Fin 256) : Fin 256 := if 65 ≤ ch ∧ ch ≤ 90 then ch + 32 else ch

/-- The name of a command, in lower case. -/
def commandName (argv : List Sds) : Sds := (argv.headD []).map tolower

/-- The flag `CLIENT_MULTI` after a command is executed. The three commands have no
arguments. -/
def multiAfter (multi : Bool) (argv : List Sds) : Bool :=
  if argv.length ≠ 1 then multi
  else if commandName argv = sds "multi" then true
  else if commandName argv = sds "exec" ∨ commandName argv = sds "discard" then false
  else multi

variable (answer : List (List Sds) → After)

def processCommand (c : QueryClient) : Status × QueryClient :=
  let c := { c with handed := c.handed ++ [c.argv] }
  if commandName c.argv = sds "quit" then (.err, { c with closing := true })
  else
    let after := answer c.handed
    if after.freed then (.err, { c with freed := true })
    else
      (.ok, { c with
        closing := c.closing || after.closing
        multi := if after.refused then c.multi else multiAfter c.multi c.argv })

/-- What the loop of `processInputBuffer` does with a command that is complete. -/
def runCommand (c : QueryClient) : QueryClient :=
  if c.argv = [] then resetClient c
  else
    match processCommand answer c with
    | (.ok, c) =>
      resetClient { c with
        reploff := if c.master ∧ !c.multi then c.readReploff - c.querybuf.length + c.qbPos else c.reploff }
    | (.err, c) => c

/-- One of the two protocols. -/
def processRequest (c : QueryClient) : ReqType → Except Abort (Status × QueryClient)
  | .inline => .ok (processInlineBuffer c)
  | .multibulk => processMultibulkBuffer cfg c

/-- At most `n` turns of the loop of `processInputBuffer`. -/
def processInputLoop : ℕ → QueryClient → Except Abort QueryClient
  | 0, c => .ok c
  | n + 1, c =>
    if c.querybuf.length ≤ c.qbPos then .ok c
    else if c.closing then .ok c
    else do
      let reqtype := c.reqtype.getD (if c.rest.head? = some 42 then .multibulk else .inline)
      let c := { c with reqtype := some reqtype }
      let (status, c) ← processRequest cfg c reqtype
      if status = .err then .ok c
      else
        let c := runCommand answer c
        if c.freed then .ok c else processInputLoop n c

/-- `processInputBuffer`, put off after some turns, or not. Every turn parses a byte, so the
loop without a limit is one with a limit that it does not reach. -/
def processInputBuffer (turns : Option ℕ) (c : QueryClient) : Except Abort QueryClient := do
  let c ← processInputLoop cfg answer (turns.getD (c.rest.length + 1)) c
  if c.freed then .ok c else .ok { c with querybuf := c.rest, qbPos := 0 }

/-! ### The stream of a master -/

/-- A sub-replica: whether it waits for a dump to start, and the bytes it has been sent. -/
structure SubReplica where
  waiting : Bool
  received : Sds
deriving DecidableEq

/-- What of the server the replication stream goes to: the bytes that were given to the
backlog, if there is one, the sub-replicas, and the offset. -/
structure Repl where
  replBacklog : Option Sds := none
  slaves : List SubReplica := []
  masterReplOffset : ℤ := 0
deriving DecidableEq

def feedReplicationBacklog (s : Repl) (backlog buf : Sds) : Repl :=
  { s with replBacklog := some (backlog ++ buf), masterReplOffset := s.masterReplOffset + buf.length }

def replicationFeedSlavesFromMasterStream (s : Repl) (buf : Sds) : Repl :=
  let s :=
    match s.replBacklog with
    | none => s
    | some backlog => feedReplicationBacklog s backlog buf
  { s with slaves := s.slaves.map fun slave =>
    if slave.waiting then slave else { slave with received := slave.received ++ buf } }

/-- A connection: the client, its `pending_querybuf`, which the parser does not look at, the
bytes on their way to it, and the server. `limited` says that the client was freed for the
length of its query buffer. -/
structure Conn where
  client : QueryClient
  pendingQuerybuf : Sds := []
  incoming : Sds := []
  repl : Repl := {}
  limited : Bool := false
deriving DecidableEq

def processInputBufferAndReplicate (turns : Option ℕ) (k : Conn) : Except Abort Conn :=
  if !k.client.master then do
    let c ← processInputBuffer cfg answer turns k.client
    .ok { k with client := c }
  else do
    let prevOffset := k.client.reploff
    let c ← processInputBuffer cfg answer turns k.client
    let applied := (c.reploff - prevOffset).toNat
    if applied = 0 then .ok { k with client := c }
    else
      .ok { k with
        client := c
        pendingQuerybuf := k.pendingQuerybuf.drop applied
        repl := replicationFeedSlavesFromMasterStream k.repl (k.pendingQuerybuf.take applied) }

/-! ### Reading -/

/-- How much is asked for of the socket. -/
def readlen (c : QueryClient) : ℕ :=
  match c.bulklen with
  | some len =>
    if c.reqtype = some .multibulk ∧ c.multibulklen ≠ 0 ∧ PROTO_MBULK_BIG_ARG ≤ len ∧
        c.querybuf.length < len + 2 then
      min PROTO_IOBUF_LEN (len + 2 - c.querybuf.length)
    else PROTO_IOBUF_LEN
  | none => PROTO_IOBUF_LEN

/-- `readQueryFromClient`, when the socket has `n` bytes to read; none to read is `EAGAIN`. -/
def readQueryFromClient (n : ℕ) (turns : Option ℕ) (k : Conn) : Except Abort Conn :=
  let data := k.incoming.take (min n (readlen k.client))
  if data = [] then .ok k
  else
    let k := { k with
      client := { k.client with
        querybuf := k.client.querybuf ++ data
        readReploff := if k.client.master then k.client.readReploff + data.length else k.client.readReploff }
      pendingQuerybuf := if k.client.master then k.pendingQuerybuf ++ data else k.pendingQuerybuf
      incoming := k.incoming.drop data.length }
    if cfg.clientMaxQuerybufLen < k.client.querybuf.length then .ok { k with limited := true }
    else processInputBufferAndReplicate cfg answer turns k

/-- The socket has bytes to read, or the server takes up again a client that it put off. -/
inductive Arrival
  | read (n : ℕ) (turns : Option ℕ)
  | resume (turns : Option ℕ)
deriving DecidableEq

/-- A client that is freed is not there any more. -/
def arrive (k : Conn) (e : Arrival) : Except Abort Conn :=
  if k.limited || k.client.freed then .ok k
  else
    match e with
    | .read n turns => readQueryFromClient cfg answer n turns k
    | .resume turns => processInputBufferAndReplicate cfg answer turns k

/-- Arrivals in turn. -/
def receive : Conn → List Arrival → Except Abort Conn
  | k, [] => .ok k
  | k, e :: es => do
    let k ← arrive cfg answer k e
    receive k es

end RedisZk.Networking
