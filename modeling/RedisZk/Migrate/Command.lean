/-
# MIGRATE

Keys are sent to another instance by RESTORE commands, one for each that is there, in one write,
and of the keys whose replies are no errors the local copies are deleted; the command is then
rewritten to a DEL of these. The names and the objects of the keys are in two arrays. If the
connection breaks before any of this is answered the command tries once more.

A key may expire while it waits for its turn: the time at which the command was called decides
which keys are there at the start, the clock which of them are left out of what is sent.

Key definitions: `Server`, `Link`, `restoreLoop`, `syncReadLine`, `repliesLoop`, `tryAgain`,
`migrateCommand`.
-/
import RedisZk.Keyspace.Db
import RedisZk.Networking.Chunks

namespace RedisZk.Migrate

open Streams (Sds ll2string)
open Networking (sds crlf encode tolower)
open Keyspace (Db getExpire dbDelete)

def MIGRATE_SOCKET_CACHE_ITEMS : ℕ := 64

variable {σ : Type}

/-! ### Keys -/

structure Server (σ : Type) where
  db : Db σ
  /-- The time that stands still in a command. -/
  mstime : ℤ
  loading : Bool := false
  /-- Whether there is a `masterhost`. -/
  masterhost : Bool := false
  cluster_enabled : Bool := false
  lazyfree_lazy_expire : Bool := false
  /-- The cached sockets, by address, with their `last_dbid`. -/
  migrate_cached_sockets : List (Sds × ℤ) := []
  dirty : ℕ := 0
  /-- What went to the file and to the replicas. -/
  propagated : List (List Sds) := []

def keyIsExpired (s : Server σ) (key : Sds) : Bool :=
  if getExpire s.db key < 0 then false
  else if s.loading then false
  else decide (s.mstime > getExpire s.db key)

def propagateExpire (s : Server σ) (key : Sds) : Server σ :=
  { s with propagated := s.propagated ++ [[sds (if s.lazyfree_lazy_expire then "UNLINK" else "DEL"), key]] }

/-- Whether the key is expired, and what is left. -/
def expireIfNeeded (s : Server σ) (key : Sds) : Bool × Server σ :=
  if keyIsExpired s key then
    if s.masterhost then (true, s)
    else (true, { propagateExpire s key with db := dbDelete s.db key })
  else (false, s)

/-- `lookupKeyRead`, in a command that is not flagged as read-only. -/
def lookupKeyRead (s : Server σ) (key : Sds) : Option σ × Server σ :=
  let (expired, s) := expireIfNeeded s key
  if expired && !s.masterhost then (none, s) else (s.db.dict key, s)

/-- The keys that are there, with their objects. -/
def lookupLoop : List Sds → Server σ → List (Sds × σ) × Server σ
  | [], s => ([], s)
  | key :: keys, s =>
    match lookupKeyRead s key with
    | (some o, s) => ((key, o) :: (lookupLoop keys s).1, (lookupLoop keys s).2)
    | (none, s) => lookupLoop keys s

/-! ### Options -/

structure Options where
  copy : Bool := false
  replace : Bool := false
  password : Option Sds := none
  keys : List Sds
  dbid : ℤ
  timeout : ℤ

def syntaxerr : Sds := sds "-ERR syntax error\r\n"

/-- A text up to its first null. -/
def cstring (s : Sds) : Sds := s.takeWhile (· ≠ 0)

def strcasecmp (arg : Sds) (name : String) : Bool := (cstring arg).map tolower = sds name

/-- `addReplyErrorFormat`, of a text that does not begin with a minus. -/
def errorReply (text : Sds) : Sds := sds "-ERR " ++ text.map (fun c => if c = 13 ∨ c = 10 then 32 else c) ++ crlf

/-- The arguments from the sixth on; the keys are those after KEYS or the third argument. -/
def parseLoop (third : Sds) : List Sds → Options → Except Sds Options
  | [], o => .ok o
  | arg :: args, o =>
    if strcasecmp arg "copy" then parseLoop third args { o with copy := true }
    else if strcasecmp arg "replace" then parseLoop third args { o with replace := true }
    else if strcasecmp arg "auth" then
      match args with
      | [] => .error syntaxerr
      | password :: args => parseLoop third args { o with password := some password }
    else if strcasecmp arg "keys" then
      if third ≠ [] then
        .error (errorReply (sds "When using MIGRATE KEYS option, the key argument must be set to the empty string"))
      else .ok { o with keys := args }
    else .error syntaxerr

def notInteger : Sds := errorReply (sds "value is not an integer or out of range")

/-- MIGRATE host port key dbid timeout, and options. -/
def parseOptions (argv : List Sds) : Except Sds Options := do
  let third := argv.getD 3 []
  let o ← parseLoop third (argv.drop 6) { keys := [third], dbid := 0, timeout := 0 }
  let timeout ← (Networking.string2ll (argv.getD 5 [])).elim (.error notInteger) .ok
  let dbid ← (Networking.string2ll (argv.getD 4 [])).elim (.error notInteger) .ok
  .ok { o with dbid, timeout := if timeout ≤ 0 then 1000 else timeout }

/-! ### Sockets -/

/-- What becomes of a connection that is not cached. -/
inductive Connect
  | connected
  | refused (neterr : Sds)
  | timedOut
deriving DecidableEq

/-- What a connection does in a try. -/
structure Link where
  connect : Connect
  /-- The bytes that it takes before a write fails. -/
  accepts : Option ℕ
  /-- Whether `errno` is `ETIMEDOUT` then. -/
  writeTimeout : Bool
  replies : Sds
  /-- Whether `errno` is `ETIMEDOUT` when there are no more replies. -/
  readTimeout : Bool
  /-- What `mstime()` returns at a key. -/
  clock : ℕ → ℤ
  /-- Which socket `dictGetRandomKey` finds. -/
  random : ℕ := 0

def socketName (host port : Sds) : Sds := host ++ sds ":" ++ port

/-- The `last_dbid` of the socket. -/
def migrateGetSocket (host port : Sds) (link : Link) (s : Server σ) : Except Sds (ℤ × Server σ) :=
  match s.migrate_cached_sockets.lookup (socketName host port) with
  | some last_dbid => .ok (last_dbid, s)
  | none =>
    let cached := if s.migrate_cached_sockets.length = MIGRATE_SOCKET_CACHE_ITEMS then
      s.migrate_cached_sockets.eraseIdx link.random else s.migrate_cached_sockets
    match link.connect with
    | .refused neterr => .error (errorReply (sds "Can't connect to target node: " ++ cstring neterr))
    | .timedOut => .error (sds "-IOERR error or timeout connecting to the client\r\n")
    | .connected => .ok (-1, { s with migrate_cached_sockets := (socketName host port, -1) :: cached })

def migrateCloseSocket (host port : Sds) (s : Server σ) : Server σ :=
  { s with migrate_cached_sockets := s.migrate_cached_sockets.filter fun c => c.1 ≠ socketName host port }

def setLastDbid (host port : Sds) (last_dbid : ℤ) (s : Server σ) : Server σ :=
  { s with migrate_cached_sockets :=
      s.migrate_cached_sockets.map fun c => if c.1 = socketName host port then (c.1, last_dbid) else c }

def syncWrite (link : Link) (pos size : ℕ) : Bool :=
  match link.accepts with
  | none => true
  | some n => pos + size ≤ n

/-- The command is written in chunks of 64K. -/
def writeLoop (link : Link) (len : ℕ) : ℕ → ℕ → Bool
  | 0, _ => true
  | n + 1, pos =>
    let towrite := len - pos
    if towrite = 0 then true
    else
      let towrite := if towrite > 64 * 1024 then 64 * 1024 else towrite
      if syncWrite link pos towrite then writeLoop link len n (pos + towrite) else false

/-- The bytes up to a line feed, or as many as there is room for, and what follows. -/
def syncReadLineLoop : ℕ → Sds → Option (Sds × Bool × Sds)
  | 0, s => some ([], false, s)
  | _ + 1, [] => none
  | n + 1, c :: s =>
    if c = 10 then some ([], true, s)
    else (syncReadLineLoop n s).map fun r => (c :: r.1, r.2)

/-- The number of bytes, the text, and what follows. -/
def syncReadLine (size : ℕ) (s : Sds) : Option (ℕ × Sds × Sds) :=
  (syncReadLineLoop (size - 1) s).map fun (text, ended, rest) =>
    (text.length, if ended && text.getLast? = some 13 then text.dropLast else text, rest)

/-- A reply and what follows, or whether the time is over. -/
def readReply (link : Link) (s : Sds) : Except Bool (Sds × Sds) :=
  match syncReadLine 1024 s with
  | none => .error link.readTimeout
  | some (nread, text, rest) => if nread = 0 then .error false else .ok (text, rest)

/-- The reply to a command that may have been sent. -/
def readIf (sent : Bool) (link : Link) (s : Sds) : Except Bool (Option Sds × Sds) :=
  if sent then (readReply link s).map fun (text, rest) => (some text, rest) else .ok (none, s)

/-! ### Sending -/

/-- A RESTORE command, and the time at which it was made. -/
structure Restore where
  key : Sds
  ttl : ℤ
  payload : Sds
  now : ℤ
deriving DecidableEq

def Restore.argv (asking replace : Bool) (r : Restore) : List Sds :=
  [sds (if asking then "RESTORE-ASKING" else "RESTORE"), r.key, ll2string r.ttl, r.payload] ++
    if replace then [sds "REPLACE"] else []

/-- Whether a key that expires at `expireat` has expired. -/
def leftOut (expireat now : ℤ) : Bool := expireat ≠ -1 ∧ expireat - now < 0

/-- The time that is left to a key. -/
def timeLeft (expireat now : ℤ) : ℤ :=
  if expireat ≠ -1 then
    if expireat - now < 1 then 1 else expireat - now
  else 0

variable (createDumpPayload : σ → Sds → Sds)

/-- The commands for the names in `kv`, with the objects in `ov`, from the `j`-th on. The names of
those that are sent are what is left in `kv`. -/
def restoreLoop (db : Db σ) (clock : ℕ → ℤ) : ℕ → List Sds → List σ → List Restore
  | _, [], _ => []
  | _, _ :: _, [] => []
  | j, key :: kv, o :: ov =>
    let expireat := getExpire db key
    if leftOut expireat (clock j) then restoreLoop db clock (j + 1) kv ov
    else ⟨key, timeLeft expireat (clock j), createDumpPayload o key, clock j⟩ :: restoreLoop db clock (j + 1) kv ov

/-! ### Replies -/

/-- What has come of the replies. -/
structure Replies (σ : Type) where
  server : Server σ
  /-- The error of the target that is passed on. -/
  error : Option Sds := none
  /-- The keys that are deleted, in `newargv`. -/
  deleted : List Sds := []
  read : ℕ := 0

def isError (reply : Option Sds) : Bool := reply.bind List.head? = some 45

/-- The error among the replies to AUTH, to SELECT and to RESTORE. -/
def errorOf (buf0 buf1 : Option Sds) (buf2 : Sds) : Option Sds :=
  if isError buf0 then buf0
  else if isError buf1 then buf1
  else if isError (some buf2) then some buf2
  else none

/-- The replies to the RESTORE commands; there may be an error of the socket, of which is said
whether it is a timeout. -/
def repliesLoop (host port : Sds) (copy : Bool) (link : Link) (buf0 buf1 : Option Sds) :
    List Sds → Sds → Replies σ → Option Bool × Replies σ
  | [], _, r => (none, r)
  | key :: kv, s, r =>
    match readReply link s with
    | .error timeout => (some timeout, r)
    | .ok (buf2, rest) =>
      match errorOf buf0 buf1 buf2 with
      | some errbuf =>
        if r.error.isNone then
          repliesLoop host port copy link buf0 buf1 kv rest
            { r with
              error := some (errorReply (sds "Target instance replied with error: " ++ cstring (errbuf.drop 1)))
              server := setLastDbid host port (-1) r.server
              read := r.read + 1 }
        else repliesLoop host port copy link buf0 buf1 kv rest { r with read := r.read + 1 }
      | none =>
        if copy then repliesLoop host port copy link buf0 buf1 kv rest { r with read := r.read + 1 }
        else
          repliesLoop host port copy link buf0 buf1 kv rest
            { r with
              server := { r.server with db := dbDelete r.server.db key, dirty := r.server.dirty + 1 }
              deleted := r.deleted ++ [key]
              read := r.read + 1 }

/-! ### The command -/

/-- The server, the command of the client, and what the client is answered. -/
structure State (σ : Type) where
  server : Server σ
  argv : List Sds
  reply : Sds := []

/-- What is sent in a try: which keys there are then, and what is sent on which connection. -/
structure Sent (σ : Type) where
  db : Db σ
  link : Link
  /-- Whether AUTH and SELECT come first. -/
  auth : Bool
  select : Bool
  restores : List Restore

/-- An error of the socket: whether it was in writing, whether it is a timeout, and whether another
try is allowed. -/
structure SocketError where
  write_error : Bool
  timeout : Bool
  may_retry : Bool

/-- What a try comes to. -/
structure Try (σ : Type) where
  state : State σ
  sent : List (Sent σ) := []
  error : Option SocketError := none

def cmdBytes (s : Server σ) (o : Options) (select : Bool) (restores : List Restore) : Sds :=
  (o.password.elim [] fun password => encode [sds "AUTH", password]) ++
    (if select then encode [sds "SELECT", ll2string o.dbid] else []) ++
    restores.flatMap fun r => encode (r.argv s.cluster_enabled o.replace)

/-- From `try_again` on. -/
def tryAgain (host port : Sds) (o : Options) (may_retry : Bool) (link : Link) (kv : List Sds) (ov : List σ)
    (st : State σ) : Try σ :=
  match migrateGetSocket host port link st.server with
  | .error text => { state := { st with reply := st.reply ++ text } }
  | .ok (last_dbid, server) =>
    let auth := o.password.isSome
    let select : Bool := last_dbid ≠ o.dbid
    let restores := restoreLoop createDumpPayload server.db link.clock 0 kv ov
    let cmd := cmdBytes server o select restores
    let sent := [⟨server.db, link, auth, select, restores⟩]
    if !writeLoop link cmd.length (cmd.length + 1) 0 then
      { state := { st with server }, sent, error := some ⟨true, link.writeTimeout, may_retry⟩ }
    else
      match readIf auth link link.replies with
      | .error timeout => { state := { st with server }, sent, error := some ⟨false, timeout, may_retry⟩ }
      | .ok (buf0, s) =>
        match readIf select link s with
        | .error timeout => { state := { st with server }, sent, error := some ⟨false, timeout, may_retry⟩ }
        | .ok (buf1, s) =>
          let (socket_error, r) := repliesLoop host port o.copy link buf0 buf1 (restores.map Restore.key) s { server }
          if r.error = none ∧ socket_error = some false ∧ r.read = 0 ∧ may_retry then
            { state := { st with server := r.server }, sent, error := some ⟨false, false, may_retry⟩ }
          else
            let server := if socket_error.isSome then migrateCloseSocket host port r.server else r.server
            let argv := if !o.copy && r.deleted ≠ [] then sds "DEL" :: r.deleted else st.argv
            match r.error, socket_error with
            | none, some timeout => { state := { st with server, argv }, sent, error := some ⟨false, timeout, false⟩ }
            | none, none =>
              { state :=
                  { st with server := setLastDbid host port o.dbid server, argv, reply := st.reply ++ sds "+OK\r\n" }
                sent }
            | some text, _ => { state := { st with server, argv, reply := st.reply ++ text }, sent }

def ioError (write_error : Bool) : Sds :=
  sds (if write_error then "-IOERR error or timeout writing to target instance\r\n"
    else "-IOERR error or timeout reading to target instance\r\n")

/-- One try or two, and what each has sent. -/
def tries (host port : Sds) (o : Options) (link link' : Link) (found : List (Sds × σ)) (st : State σ) :
    State σ × List (Sent σ) :=
  let t := tryAgain createDumpPayload host port o true link (found.map Prod.fst) (found.map Prod.snd) st
  match t.error with
  | none => (t.state, t.sent)
  | some e =>
    let server := migrateCloseSocket host port t.state.server
    if !e.timeout && e.may_retry then
      -- What was sent is what is left of the names; the objects are those of the first try.
      let kv := t.sent.flatMap fun sent => sent.restores.map Restore.key
      let t' := tryAgain createDumpPayload host port o false link' kv (found.map Prod.snd) { t.state with server }
      match t'.error with
      | none => (t'.state, t.sent ++ t'.sent)
      | some e =>
        ({ t'.state with
            server := migrateCloseSocket host port t'.state.server
            reply := t'.state.reply ++ ioError e.write_error }, t.sent ++ t'.sent)
    else ({ t.state with server, reply := t.state.reply ++ ioError e.write_error }, t.sent)

def migrateCommand (link link' : Link) (st : State σ) : State σ × List (Sent σ) :=
  match parseOptions st.argv with
  | .error text => ({ st with reply := text }, [])
  | .ok o =>
    let (found, server) := lookupLoop o.keys st.server
    if found = [] then ({ st with server, reply := sds "+NOKEY\r\n" }, [])
    else tries createDumpPayload (st.argv.getD 1 []) (st.argv.getD 2 []) o link link' found { st with server }

/-- A call of the command, before which nothing is counted. -/
def call (link link' : Link) (argv : List Sds) (s : Server σ) : State σ × List (Sent σ) :=
  migrateCommand createDumpPayload link link' { server := { s with dirty := 0, propagated := [] }, argv }

/-- What is propagated of a call. -/
def propagated (st : State σ) : List (List Sds) :=
  st.server.propagated ++ if st.server.dirty > 0 then [st.argv] else []

end RedisZk.Migrate
