/-
# Commands that write into a value

Eleven commands that create or change the value of one key: HSET, HSETNX, HINCRBY, HINCRBYFLOAT, SADD, ZADD,
ZINCRBY, SETRANGE, APPEND, LINSERT and LSET, with their tests of the arguments in the order of the source. A
command may reply before it looks at the key, otherwise it works on what it finds: it replies, and may leave
a value under the key. An object that is created and filled is added as it is at the end of the command.

Strings, sets, sorted sets and lists are values without an encoding. The arithmetic and the texts of `double`
and `long double` are those of a parameter.

Key definitions: `Floats`, `Value`, `Work`, `hincrbyfloatCommand`, `zaddGenericCommand`, `command`, `execute`.
-/
import RedisZk.Expires.Commands
import RedisZk.Hashes.Commands
import RedisZk.Migrate.Command
import RedisZk.Strings.Splice

namespace RedisZk.Writes

open Streams (Sds)
open Networking (sds isspace)
open Util (string2ll)
open Migrate (strcasecmp)
open Hashes (Hash Object)
open Expires (Server Stop lookupKeyWrite)
open Strings (sdsnewlen sdsgrowzero copyTo toLongLong checkStringLength)

variable {D L : Type}

/-! ### Numbers with a point -/

/-- What `strtod` and `strtold` give: the value, how much of the text was read, whether the value is out of range (`ERANGE`
with one of the extreme values or 0), and whether the text is invalid (`EINVAL`). -/
structure Parsed (F : Type) where
  value : F
  consumed : ℕ
  outOfRange : Bool
  einval : Bool

/-- `double` is `D`, and `long double` is `L`. -/
structure Floats (D L : Type) where
  strtod : Sds → Parsed D
  isnan : D → Bool
  add : D → D → D
  eq : D → D → Bool
  strtold : Sds → Parsed L
  isnanL : L → Bool
  isinfL : L → Bool
  addL : L → L → L
  ofLongLong : ℤ → L
  ld2string : L → Sds

variable (fl : Floats D L)

/-- The whole text is a number, and it is not NaN. -/
def wholeNumber {F : Type} (p : Parsed F) (isnan : F → Bool) (s : Sds) : Option F :=
  if s = [] ∨ isspace (s.headD 0) = true ∨ p.consumed ≠ s.length ∨ p.outOfRange = true ∨ isnan p.value = true then none else some p.value

def getDoubleFromObject (s : Sds) : Option D := wholeNumber (fl.strtod s) fl.isnan s

def getLongDoubleFromObject (s : Sds) : Option L := wholeNumber (fl.strtold s) fl.isnanL s

def MAX_LONG_DOUBLE_CHARS : ℕ := 5 * 1024

def string2ld (s : Sds) : Option L :=
  if s.length ≥ MAX_LONG_DOUBLE_CHARS then none
  else
    let p := fl.strtold s
    if isspace (s.getD 0 0) = true ∨ s.getD p.consumed 0 ≠ 0 ∨ p.outOfRange = true ∨ p.einval = true ∨ fl.isnanL p.value = true then none
    else some p.value

/-! ### Values and replies -/

inductive Value (D : Type)
  | string (s : Sds)
  | hash (o : Hash)
  | set (members : List Sds)
  | zset (scores : List (Sds × D))
  | list (l : List Sds)
  /-- A stream, or a type of a module. -/
  | other

inductive Reply (D : Type)
  | err (text : String)
  | int (n : ℤ)
  | bulk (s : Sds)
  | nullbulk
  | ok
  | double (d : D)

def Reply.isErr : Reply D → Bool
  | .err _ => true
  | _ => false

/-- What a command does with the value it finds: the reply, and the value it leaves if it adds or writes one. None where
the server ends. -/
abbrev Work (D : Type) := Option (Value D) → Option (Reply D × Option (Value D))

/-- A reply before the key is looked up, or the work. -/
abbrev Plan (D : Type) := Except (Reply D) (Work D)

/-- The thresholds of `server`. -/
structure Env where
  config : Expires.Config
  hash : Hashes.Config

def wrongtype : Reply D := .err Hashes.wrongtypeerr

def syntaxerr : Reply D := .err "-ERR syntax error"

def floatErr : Reply D := .err "-ERR value is not a valid float"

def integerErr : Reply D := .err "-ERR value is not an integer or out of range"

def arg (argv : List Sds) (j : ℕ) : Sds := argv.getD j []

/-! ### Hashes -/

def toObject : Value D → Object
  | .hash o => .hash o
  | _ => .other

def hashReply : Hashes.Reply → Reply D
  | .err text => .err (if text.startsWith "-" then text else "-ERR " ++ text)
  | .int n => .int n
  | .bulk s => .bulk s
  | _ => .nullbulk

/-- The work of a command on a hash. -/
def hashWork (f : Option Object → Option (Hashes.Reply × Option Object)) : Work D := fun o =>
  (f (o.map toObject)).map fun r =>
    (hashReply r.1, match r.2 with
      | some (.hash h) => some (.hash h)
      | _ => none)

/-- HMSET is the same command, and its second letter is no S. -/
def hsetCommand (env : Env) (argv : List Sds) : Plan D :=
  if argv.length % 2 = 1 then .error (.err "-ERR wrong number of arguments for HMSET")
  else
    .ok fun o => (hashWork (fun object => Hashes.hsetCommand env.hash object (argv.drop 2)) o).map fun r =>
      (if r.1.isErr || (arg argv 0).getD 1 0 = 115 || (arg argv 0).getD 1 0 = 83 then r.1 else .ok, r.2)

def hsetnxCommand (env : Env) (argv : List Sds) : Plan D :=
  .ok (hashWork fun object => Hashes.hsetnxCommand env.hash object (arg argv 2) (arg argv 3))

def hincrbyCommand (env : Env) (argv : List Sds) : Plan D :=
  match string2ll (arg argv 3) with
  | none => .error integerErr
  | some _ => .ok (hashWork fun object => Hashes.hincrbyCommand env.hash object (arg argv 2) (arg argv 3))

/-- The number of a value, 0 if there is none. -/
def hashFloat : Option Ziplist.Value → Option L
  | some (.str vstr) => string2ld fl vstr
  | some (.int ll) => some (fl.ofLongLong ll)
  | none => some (fl.ofLongLong 0)

/-- The hash is created before the sum is tested. -/
def incrementFloat (config : Hashes.Config) (field : Sds) (incr : L) (key : Option Object) : Option (Hashes.Reply × Option Object) :=
  match Hashes.hashTypeLookupWriteOrCreate key with
  | none => some (.err Hashes.wrongtypeerr, key)
  | some o =>
    match hashFloat fl (Hashes.hashTypeGetValue o field) with
    | none => some (.err "hash value is not a float", some (.hash o))
    | some value =>
      let value := fl.addL value incr
      if fl.isnanL value || fl.isinfL value then some (.err "increment would produce NaN or Infinity", some (.hash o))
      else
        (Hashes.hashTypeSet config o field (fl.ld2string value)).map fun r => (.bulk (fl.ld2string value), some (.hash r.1))

def hincrbyfloatCommand (env : Env) (argv : List Sds) : Plan D :=
  match getLongDoubleFromObject fl (arg argv 3) with
  | none => .error floatErr
  | some incr => .ok (hashWork (incrementFloat fl env.hash (arg argv 2) incr))

/-! ### Sets -/

/-- The members of SADD, and how many are new. -/
def saddLoop : List Sds → List Sds → List Sds × ℕ
  | members, [] => (members, 0)
  | members, ele :: eles =>
    if ele ∈ members then saddLoop members eles
    else
      let (members, added) := saddLoop (members ++ [ele]) eles
      (members, added + 1)

def saddCommand (argv : List Sds) : Plan D :=
  .ok fun o =>
    match o with
    | none => some (.int (saddLoop [] (argv.drop 2)).2, some (.set (saddLoop [] (argv.drop 2)).1))
    | some (.set members) => some (.int (saddLoop members (argv.drop 2)).2, some (.set (saddLoop members (argv.drop 2)).1))
    | some _ => some (wrongtype, none)

/-! ### Sorted sets -/

structure ZaddFlags where
  nx : Bool
  xx : Bool
  ch : Bool
  incr : Bool

/-- The options, and the arguments behind them. -/
def zaddOptions : List Sds → ZaddFlags → ZaddFlags × List Sds
  | [], flags => (flags, [])
  | opt :: args, flags =>
    if strcasecmp opt "nx" then zaddOptions args { flags with nx := true }
    else if strcasecmp opt "xx" then zaddOptions args { flags with xx := true }
    else if strcasecmp opt "ch" then zaddOptions args { flags with ch := true }
    else if strcasecmp opt "incr" then zaddOptions args { flags with incr := true }
    else (flags, opt :: args)

/-- The pairs of a score and an element; none for a score that is no number. -/
def zaddScores : List Sds → Option (List (D × Sds))
  | score :: ele :: args => (getDoubleFromObject fl score).bind fun score => (zaddScores args).map fun pairs => (score, ele) :: pairs
  | _ => some []

/-- What `zsetAdd` did: the sorted set, its flags, and the new score if it is set. -/
structure ZaddResult (D : Type) where
  scores : List (Sds × D)
  added : Bool
  updated : Bool
  nop : Bool
  newscore : Option D

/-- None for a score that is not a number. -/
def zsetAdd (flags : ZaddFlags) (scores : List (Sds × D)) (score : D) (ele : Sds) : Option (ZaddResult D) :=
  if fl.isnan score then none
  else
    match scores.lookup ele with
    | some curscore =>
      if flags.nx then some ⟨scores, false, false, true, none⟩
      else
        let score := if flags.incr then fl.add score curscore else score
        if flags.incr && fl.isnan score then none
        else
          let newscore := if flags.incr then some score else none
          if fl.eq score curscore then some ⟨scores, false, false, false, newscore⟩
          else some ⟨scores.map fun e => if e.1 = ele then (e.1, score) else e, false, true, false, newscore⟩
    | none =>
      if flags.xx then some ⟨scores, false, false, true, none⟩
      else some ⟨scores ++ [(ele, score)], true, false, false, some score⟩

/-- The counters of `zaddGenericCommand`, and whether it ended at a score that is not a number. -/
structure ZaddState (D : Type) where
  scores : List (Sds × D)
  added : ℕ
  updated : ℕ
  processed : ℕ
  score : Option D
  nan : Bool

def zaddLoop (flags : ZaddFlags) : List (D × Sds) → ZaddState D → ZaddState D
  | [], z => z
  | (score, ele) :: pairs, z =>
    match zsetAdd fl flags z.scores score ele with
    | none => { z with nan := true }
    | some r =>
      zaddLoop flags pairs
        { scores := r.scores, added := z.added + r.added.toNat, updated := z.updated + r.updated.toNat,
          processed := z.processed + (!r.nop).toNat, score := r.newscore, nan := false }

def zaddReply (flags : ZaddFlags) (z : ZaddState D) : Reply D :=
  if flags.incr then
    match z.processed, z.score with
    | 0, _ => .nullbulk
    | _, some score => .double score
    | _, none => .nullbulk
  else .int (if flags.ch then z.added + z.updated else z.added)

/-- The loop over the pairs on a sorted set, which may be new. -/
def zaddOn (flags : ZaddFlags) (pairs : List (D × Sds)) (scores : List (Sds × D)) : Reply D × Option (Value D) :=
  let z := zaddLoop fl flags pairs ⟨scores, 0, 0, 0, none, false⟩
  (if z.nan then .err "-ERR resulting score is not a number (NaN)" else zaddReply flags z, some (.zset z.scores))

def zaddGenericCommand (argv : List Sds) (flags : ZaddFlags) : Plan D :=
  let (flags, args) := zaddOptions (argv.drop 2) flags
  if args.length % 2 = 1 ∨ args = [] then .error syntaxerr
  else if flags.nx && flags.xx then .error (.err "-ERR XX and NX options at the same time are not compatible")
  else if flags.incr && decide (args.length / 2 > 1) then .error (.err "-ERR INCR option supports a single increment-element pair")
  else
    match zaddScores fl args with
    | none => .error floatErr
    | some pairs =>
      .ok fun o =>
        match o with
        | none => if flags.xx then some (zaddReply flags ⟨[], 0, 0, 0, none, false⟩, none) else some (zaddOn fl flags pairs [])
        | some (.zset scores) => some (zaddOn fl flags pairs scores)
        | some _ => some (wrongtype, none)

/-! ### Strings -/

def lengthErr : Reply D := .err "-ERR string exceeds maximum allowed size (512MB)"

def writeRange (offset size : ℕ) (value s : Sds) : Option (Reply D × Option (Value D)) :=
  (sdsgrowzero s size).map fun s => (.int (copyTo s offset value).length, some (.string (copyTo s offset value)))

def setrangeCommand (argv : List Sds) : Plan D :=
  let value := arg argv 3
  match string2ll (arg argv 2) with
  | none => .error integerErr
  | some offset =>
    if offset < 0 then .error (.err "-ERR offset is out of range")
    else
      let size : ℕ := (offset.toNat + value.length) % 2 ^ 64
      .ok fun o =>
        match o with
        | none =>
          if value = [] then some (.int 0, none)
          else if checkStringLength (toLongLong size) = false then some (lengthErr, none)
          else (sdsnewlen size).bind (writeRange offset.toNat size value)
        | some (.string s) =>
          if value = [] then some (.int s.length, none)
          else if checkStringLength (toLongLong size) = false then some (lengthErr, none)
          else writeRange offset.toNat size value s
        | some _ => some (wrongtype, none)

def appendCommand (argv : List Sds) : Plan D :=
  let append := arg argv 2
  .ok fun o =>
    match o with
    | none => some (.int append.length, some (.string append))
    | some (.string s) =>
      if checkStringLength (toLongLong ((s.length + append.length) % 2 ^ 64)) = false then some (lengthErr, none)
      else some (.int (s ++ append).length, some (.string (s ++ append)))
    | some _ => some (wrongtype, none)

/-! ### Lists -/

/-- The list with a value next to the first pivot, if there is one. -/
def insertAt (after : Bool) (pivot value : Sds) : List Sds → Option (List Sds)
  | [] => none
  | x :: l => if x = pivot then some (if after then x :: value :: l else value :: x :: l) else (insertAt after pivot value l).map (x :: ·)

def linsertCommand (argv : List Sds) : Plan D :=
  if strcasecmp (arg argv 2) "after" = false ∧ strcasecmp (arg argv 2) "before" = false then .error syntaxerr
  else
    .ok fun o =>
      match o with
      | none => some (.int 0, none)
      | some (.list l) =>
        match insertAt (strcasecmp (arg argv 2) "after") (arg argv 3) (arg argv 4) l with
        | none => some (.int (-1), none)
        | some l => some (.int l.length, some (.list l))
      | some _ => some (wrongtype, none)

/-- The position of an index, which is counted from the tail when it is negative. -/
def position (index : ℤ) (len : ℕ) : Option ℕ :=
  let i := if index < 0 then len + index else index
  if 0 ≤ i ∧ i < len then some i.toNat else none

def lsetCommand (argv : List Sds) : Plan D :=
  .ok fun o =>
    match o with
    | none => some (.err "-ERR no such key", none)
    | some (.list l) =>
      match string2ll (arg argv 2) with
      | none => some (integerErr, none)
      | some index =>
        match position index l.length with
        | none => some (.err "-ERR index out of range", none)
        | some i => some (.ok, some (.list (l.set i (arg argv 3))))
    | some _ => some (wrongtype, none)

/-! ### Calls -/

inductive Name
  | hset | hsetnx | hincrby | hincrbyfloat | sadd | zadd | zincrby | setrange | append | linsert | lset
deriving DecidableEq

def Name.text : Name → String
  | .hset => "hset"
  | .hsetnx => "hsetnx"
  | .hincrby => "hincrby"
  | .hincrbyfloat => "hincrbyfloat"
  | .sadd => "sadd"
  | .zadd => "zadd"
  | .zincrby => "zincrby"
  | .setrange => "setrange"
  | .append => "append"
  | .linsert => "linsert"
  | .lset => "lset"

/-- The arity in `redisCommandTable`, negative for a least number of arguments. -/
def Name.arity : Name → ℤ
  | .hset | .zadd => -4
  | .sadd => -3
  | .append => 3
  | .hsetnx | .hincrby | .hincrbyfloat | .zincrby | .setrange | .lset => 4
  | .linsert => 5

def command (env : Env) (argv : List Sds) : Name → Plan D
  | .hset => hsetCommand env argv
  | .hsetnx => hsetnxCommand env argv
  | .hincrby => hincrbyCommand env argv
  | .hincrbyfloat => hincrbyfloatCommand fl env argv
  | .sadd => saddCommand argv
  | .zadd => zaddGenericCommand fl argv ⟨false, false, false, false⟩
  | .zincrby => zaddGenericCommand fl argv ⟨false, false, false, true⟩
  | .setrange => setrangeCommand argv
  | .append => appendCommand argv
  | .linsert => linsertCommand argv
  | .lset => lsetCommand argv

/-- The server ends by an assertion, or as there is no memory. -/
inductive Failure
  | stop (stop : Stop)
  | memory

/-- The key is looked up, and what the work leaves is added or written. -/
def onKey (config : Expires.Config) (s : Server (Value D)) (j : ℕ) (key : Sds) (f : Work D) : Except Failure (Server (Value D) × Reply D) :=
  ((lookupKeyWrite config s j key).mapError Failure.stop).bind fun (s, o) =>
    match f o with
    | none => .error .memory
    | some (reply, none) => .ok (s, reply)
    | some (reply, some v) =>
      ((if o.isNone then Expires.dbAdd s j key v else Expires.dbOverwrite s j key v).mapError Failure.stop).map fun s => (s, reply)

/-- The test of the arity is that of `processCommand`. -/
def execute (env : Env) (s : Server (Value D)) (j : ℕ) (name : Name) (argv : List Sds) : Except Failure (Server (Value D) × Reply D) :=
  if (name.arity > 0 ∧ name.arity ≠ argv.length) ∨ (argv.length : ℤ) < -name.arity then
    .ok (s, .err ("-ERR wrong number of arguments for '" ++ name.text ++ "' command"))
  else
    match command fl env argv name with
    | .error reply => .ok (s, reply)
    | .ok f => onKey env.config s j (arg argv 1) f

end RedisZk.Writes
