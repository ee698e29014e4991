/-
# The append only file

What is fed to the append only file is written as multi bulk requests, with the expiring
commands translated. Loading reads the file command by command and runs each in the context
of a client of its own, where `MULTI` queues what follows up to `EXEC`; the offset of the last
command that was read is kept, and the one before the last `MULTI`, to cut the file at.

What a command does to the data is left open: the data is what the commands executed make of
it, so the memory is told by these. The loader of a dump in front of the commands is the
parameter `rdbLoadRio`, which gives what is behind the dump, or exits.

Key definitions: `feedAppendOnlyFile`, `readCommand`, `loadCommand`, `loadAppendOnlyFile`.
-/
import RedisZk.Networking.Chunks

namespace RedisZk.Aof

open Streams (Sds ll2string)
open Networking (sds encode isspace commandName Abort)

/-! ### Numbers -/

def isdigit (c : Fin 256) : Bool := 48 ≤ c.val && c.val ≤ 57

def LONG_MAX : ℤ := 2 ^ 63 - 1

/-- A sign before the digits. -/
def sign : Sds → Bool × Sds
  | 45 :: s => (true, s)
  | 43 :: s => (false, s)
  | s => (false, s)

/-- `strtol` and `strtoll` to base 10. -/
def strtol (s : Sds) : ℤ :=
  let (negative, s) := sign (s.dropWhile isspace)
  let v : ℤ := Decimal.value 0 (s.takeWhile isdigit)
  if negative then max (-LONG_MAX - 1) (-v) else min LONG_MAX v

/-- A signed number of `2 * half` values. -/
def wrap (half : ℤ) (v : ℤ) : ℤ := (v + half) % (2 * half) - half

def atoi (s : Sds) : ℤ := wrap (2 ^ 31) (strtol s)

/-! ### Writing -/

/-- The commands of `redisCommandTable`. -/
def redisCommandTable : List String :=
  ["module", "get", "set", "setnx", "setex", "psetex", "append", "strlen", "del", "unlink", "exists",
   "setbit", "getbit", "bitfield", "setrange", "getrange", "substr", "incr", "decr", "mget", "rpush",
   "lpush", "rpushx", "lpushx", "linsert", "rpop", "lpop", "brpop", "brpoplpush", "blpop", "llen", "lindex",
   "lset", "lrange", "ltrim", "lrem", "rpoplpush", "sadd", "srem", "smove", "sismember", "scard", "spop",
   "srandmember", "sinter", "sinterstore", "sunion", "sunionstore", "sdiff", "sdiffstore", "smembers",
   "sscan", "zadd", "zincrby", "zrem", "zremrangebyscore", "zremrangebyrank", "zremrangebylex",
   "zunionstore", "zinterstore", "zrange", "zrangebyscore", "zrevrangebyscore", "zrangebylex",
   "zrevrangebylex", "zcount", "zlexcount", "zrevrange", "zcard", "zscore", "zrank", "zrevrank", "zscan",
   "zpopmin", "zpopmax", "bzpopmin", "bzpopmax", "hset", "hsetnx", "hget", "hmset", "hmget", "hincrby",
   "hincrbyfloat", "hdel", "hlen", "hstrlen", "hkeys", "hvals", "hgetall", "hexists", "hscan", "incrby",
   "decrby", "incrbyfloat", "getset", "mset", "msetnx", "randomkey", "select", "swapdb", "move", "rename",
   "renamenx", "expire", "expireat", "pexpire", "pexpireat", "keys", "scan", "dbsize", "auth", "ping",
   "echo", "save", "bgsave", "bgrewriteaof", "shutdown", "lastsave", "type", "multi", "exec", "discard",
   "sync", "psync", "replconf", "flushdb", "flushall", "sort", "info", "monitor", "ttl", "touch", "pttl",
   "persist", "slaveof", "replicaof", "role", "debug", "config", "subscribe", "unsubscribe", "psubscribe",
   "punsubscribe", "publish", "pubsub", "watch", "unwatch", "cluster", "restore", "restore-asking",
   "migrate", "asking", "readonly", "readwrite", "dump", "object", "memory", "client", "eval", "evalsha",
   "slowlog", "script", "time", "bitop", "bitcount", "bitpos", "wait", "command", "geoadd", "georadius",
   "georadius_ro", "georadiusbymember", "georadiusbymember_ro", "geohash", "geopos", "geodist", "pfselftest",
   "pfadd", "pfcount", "pfmerge", "pfdebug", "xadd", "xrange", "xrevrange", "xlen", "xread", "xreadgroup",
   "xgroup", "xsetid", "xack", "xpending", "xclaim", "xinfo", "xdel", "xtrim", "post", "host:", "latency",
   "lolwut"]

def lookupCommand (argv : List Sds) : Bool := (redisCommandTable.map sds).contains (commandName argv)

/-- A command that is fed, at a time in milliseconds. -/
structure Fed where
  now : ℤ
  dictid : ℕ
  argv : List Sds
deriving DecidableEq

def Fed.arg (f : Fed) (j : ℕ) : Sds := f.argv.getD j []

/-- `catAppendOnlyExpireAtCommand`, for a command with the name `cmd`. -/
def expireAtCommand (now : ℤ) (cmd key seconds : Sds) : List Sds :=
  let when := strtol seconds
  let when := if cmd = sds "expire" ∨ cmd = sds "setex" ∨ cmd = sds "expireat" then wrap (2 ^ 63) (when * 1000) else when
  let when :=
    if cmd = sds "expire" ∨ cmd = sds "pexpire" ∨ cmd = sds "setex" ∨ cmd = sds "psetex" then wrap (2 ^ 63) (when + now)
    else when
  [sds "PEXPIREAT", key, ll2string when]

/-- `strcasecmp` of an argument, which ends at its first NUL, with a name in lower case. -/
def named (name arg : Sds) : Bool := (arg.takeWhile (· ≠ 0)).map Networking.tolower = name

/-- The argument after the last `name` from the fourth argument of `SET` on. -/
def optionArg (name : Sds) (argv : List Sds) : Option Sds :=
  ((List.range argv.length).filter fun i => 3 ≤ i && named name (argv.getD i [])).getLast?.map fun i => argv.getD (i + 1) []

/-- The commands that `feedAppendOnlyFile` writes for one. -/
def translate (f : Fed) : Except Abort (List (List Sds)) :=
  let cmd := commandName f.argv
  if cmd = sds "expire" ∨ cmd = sds "pexpire" ∨ cmd = sds "expireat" then
    .ok [expireAtCommand f.now cmd (f.arg 1) (f.arg 2)]
  else if cmd = sds "setex" ∨ cmd = sds "psetex" then
    .ok [[sds "SET", f.arg 1, f.arg 3], expireAtCommand f.now cmd (f.arg 1) (f.arg 2)]
  else if cmd = sds "set" ∧ 3 < f.argv.length then
    match optionArg (sds "ex") f.argv, optionArg (sds "px") f.argv with
    | some _, some _ => .error .assert
    | some ex, none => .ok [f.argv.take 3, expireAtCommand f.now (sds "expire") (f.arg 1) ex]
    | none, some px => .ok [f.argv.take 3, expireAtCommand f.now (sds "pexpire") (f.arg 1) px]
    | none, none => .ok [f.argv.take 3]
  else .ok [f.argv]

/-- `server.aof_buf`, and `server.aof_selected_db`. -/
structure AofBuf where
  selectedDb : Option ℕ := none
  buf : Sds := []
deriving DecidableEq

/-- The commands that are written for one, with `SELECT`. -/
def written (selectedDb : Option ℕ) (f : Fed) : Except Abort (List (List Sds)) := do
  let cmds ← translate f
  .ok (if selectedDb = some f.dictid then cmds else [sds "SELECT", ll2string f.dictid] :: cmds)

def feedAppendOnlyFile (a : AofBuf) (f : Fed) : Except Abort AofBuf := do
  let cmds ← written a.selectedDb f
  .ok { selectedDb := some f.dictid, buf := a.buf ++ cmds.flatMap encode }

/-- Commands fed in turn. -/
def feedAll : AofBuf → List Fed → Except Abort AofBuf
  | a, [] => .ok a
  | a, f :: fs => do
    let a ← feedAppendOnlyFile a f
    feedAll a fs

/-- The commands written for them. -/
def writtenAll : Option ℕ → List Fed → Except Abort (List (List Sds))
  | _, [] => .ok []
  | selectedDb, f :: fs => do
    let cmds ← written selectedDb f
    let rest ← writtenAll (some f.dictid) fs
    .ok (cmds ++ rest)

/-! ### Reading -/

/-- The file ends too early, or the server exits. -/
inductive ReadError
  | short
  | exit
deriving DecidableEq

/-- `fgets` with a buffer of 128 characters. -/
def fgets (s : Sds) : Option (Sds × Sds) :=
  if s = [] then none
  else
    let n := min 127 ((s.takeWhile (· ≠ 10)).length + 1)
    some (s.take n, s.drop n)

/-- The arguments that are missing. -/
def readArgs : ℕ → Sds → Except ReadError (List Sds × Sds)
  | 0, s => .ok ([], s)
  | n + 1, s =>
    match fgets s with
    | none => .error .short
    | some (line, s) =>
      if line.head? ≠ some 36 then .error .exit
      else
        let len := (strtol (line.drop 1) % 2 ^ 64).toNat
        if s.length < len then .error .short
        else if s.length < len + 2 then .error .short
        else do
          let (argv, rest) ← readArgs n (s.drop (len + 2))
          .ok (s.take len :: argv, rest)

/-- The next command of the file; none where it ends. A line without a second character is
too short where the file ends with it, otherwise the server exits. -/
def readCommand (s : Sds) : Except ReadError (Option (List Sds × Sds)) :=
  match fgets s with
  | none => .ok none
  | some (line, s) =>
    if line.head? ≠ some 42 then .error .exit
    else if line.getD 1 0 = 0 then (if 10 ∉ line ∧ line.length < 127 then .error .short else .error .exit)
    else if atoi (line.drop 1) < 1 then .error .exit
    else do
      let r ← readArgs (atoi (line.drop 1)).toNat s
      .ok (some r)

/-! ### Loading -/

/-- What is in memory: whether a dump was loaded, and the commands that were executed. -/
structure Memory where
  preamble : Bool := false
  executed : List (List Sds) := []
deriving DecidableEq

/-- The client of the loader, and its two offsets. -/
structure Loading where
  memory : Memory := {}
  multi : Bool := false
  queued : List (List Sds) := []
  validUpTo : ℕ := 0
  validBeforeMulti : ℕ := 0
deriving DecidableEq

def Memory.execute (m : Memory) (cmds : List (List Sds)) : Memory := { m with executed := m.executed ++ cmds }

/-- A command is queued or run; `EXEC` runs those that are queued. -/
def loadCommand (argv : List Sds) (l : Loading) : Loading :=
  let l := if commandName argv = sds "multi" then { l with validBeforeMulti := l.validUpTo } else l
  if l.multi && commandName argv ≠ sds "exec" then { l with queued := l.queued ++ [argv] }
  else if commandName argv = sds "multi" then { l with multi := true }
  else if commandName argv = sds "exec" then
    if l.multi then { l with memory := l.memory.execute l.queued, multi := false, queued := [] } else l
  else { l with memory := l.memory.execute [argv] }

/-- How the loop over the file ends. -/
inductive Stop
  | eof (l : Loading)
  | short (l : Loading)
  | exit
deriving DecidableEq

/-- At most `n` turns of the loop, on the rest `s` of a file of `size` bytes. -/
def loadLoop (aofLoadTruncated : Bool) (size : ℕ) : ℕ → Sds → Loading → Stop
  | 0, _, _ => .exit
  | n + 1, s, l =>
    match readCommand s with
    | .error .short => .short l
    | .error .exit => .exit
    | .ok none => .eof l
    | .ok (some (argv, rest)) =>
      if !lookupCommand argv then .exit
      else
        let l := loadCommand argv l
        loadLoop aofLoadTruncated size n rest
          (if aofLoadTruncated then { l with validUpTo := size - rest.length } else l)

/-- `uxeof`: the file is cut, or the server exits. -/
def uxeof (aofLoadTruncated : Bool) (file : Sds) (memory : Memory) (validUpTo : ℕ) : Option (Memory × Sds) :=
  if aofLoadTruncated then some (memory, file.take validUpTo) else none

/-- After the loop: an open transaction is reverted. -/
def finish (aofLoadTruncated : Bool) (file : Sds) : Stop → Option (Memory × Sds)
  | .exit => none
  | .eof l => if !l.multi then some (l.memory, file) else uxeof aofLoadTruncated file l.memory l.validBeforeMulti
  | .short l => uxeof aofLoadTruncated file l.memory l.validUpTo

/-- What is in memory, and the file as it is left; none when the server exits. Every command
takes a byte, so the loop ends. -/
def loadAppendOnlyFile (rdbLoadRio : Sds → Option Sds) (aofLoadTruncated : Bool) (file : Sds) : Option (Memory × Sds) :=
  if file = [] then some ({}, file)
  else
    let start : Option (Loading × Sds) :=
      if file.take 5 ≠ sds "REDIS" then some ({}, file)
      else (rdbLoadRio file).map fun rest => ({ memory := { preamble := true } }, rest)
    match start with
    | none => none
    | some (l, rest) =>
      finish aofLoadTruncated file (loadLoop aofLoadTruncated file.length (rest.length + 1) rest l)

end RedisZk.Aof
