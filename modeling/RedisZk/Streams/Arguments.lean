/-
# The arguments of XACK, XDEL and XCLAIM

The three commands from the texts that a client sends, with their replies: how an ID and a
number are parsed, where each command returns with an error, and what it has done by then.
On the object at the key they do what the commands of `Commands` do with the parsed arguments.

Key definitions: `string2ull`, `streamGenericParseID`, `xackCommand`, `xdelCommand`, `xclaimCommand`, `Typed`.
Key theorems: `typed_next`.
-/
import RedisZk.Streams.Edits
import RedisZk.Aof.Load
import RedisZk.Migrate.Command

namespace RedisZk.Streams
namespace Arguments

open Stepwise
open Aof (sign isdigit)
open Networking (sds isspace string2ll crlf)
open Migrate (cstring strcasecmp errorReply)

/-! ### Replies -/

/-- An element of the reply of XCLAIM. -/
inductive Claimed
  | id (id : StreamID)
  | entry (id : StreamID) (fields : List (Sds × Sds))
  | null

inductive Reply
  | error (text : Sds)
  | integer (n : ℕ)
  | claimed (eles : List Claimed)

def Reply.IsError : Reply → Prop
  | .error _ => True
  | .integer _ | .claimed _ => False

/-- The object at a key. -/
inductive Object
  | stream (s : GroupedStream)
  | other

def wrongtypeerr : Sds := sds "-WRONGTYPE Operation against a key holding the wrong kind of value" ++ crlf

/-! ### Numbers and IDs -/

/-- `string2ull` of a text without nulls: `string2ll`, else `strtoull`. -/
def string2ull (s : Sds) : Option U64 :=
  match string2ll s with
  | some ll => if ll < 0 then none else some (toUInt64 ll)
  | none =>
    let (negative, digits) := sign (s.dropWhile isspace)
    let v : ℤ := Decimal.value 0 (digits.takeWhile isdigit)
    if digits.takeWhile isdigit = [] ∨ digits.dropWhile isdigit ≠ [] ∨ v > UINT64_MAX then none
    else some (toUInt64 (if negative then -v else v))

/-- `streamGenericParseIDOrReply`; `none` for an invalid ID. -/
def streamGenericParseID (o : Sds) (missing_seq : U64) (strict : Bool) : Option StreamID :=
  if o.length > 127 then none
  else
    let buf := cstring o
    if strict ∧ (buf = [45] ∨ buf = [43]) then none
    else if buf = [45] then some .min
    else if buf = [43] then some .max
    else do
      let ms ← string2ull (buf.takeWhile (· ≠ 45))
      match buf.dropWhile (· ≠ 45) with
      | [] => some ⟨ms, missing_seq⟩
      | _ :: s => do
        let seq ← string2ull s
        some ⟨ms, seq⟩

/-- `streamParseStrictIDOrReply` with the missing part 0, as all three commands call it. -/
def streamParseStrictID (o : Sds) : Option StreamID := streamGenericParseID o 0 true

def invalidID : Sds := errorReply (sds "Invalid stream ID specified as stream command argument")

def getLongLongFromObjectOrReply (o : Sds) (msg : String) : Except Sds ℤ :=
  match string2ll o with
  | none => .error (errorReply (sds msg))
  | some value => .ok value

/-! ### XACK -/

/-- The loop of XACK. -/
def ackLoop (g : StreamCG) (acknowledged : ℕ) : List Sds → Except Abort (StreamCG × Reply)
  | [] => .ok (g, .integer acknowledged)
  | arg :: argv =>
    match streamParseStrictID arg with
    | none => .ok (g, .error invalidID)
    | some id => do
      let (g, acked) ← ackEntry g id
      ackLoop g (acknowledged + acked.toNat) argv

/-- `XACK key group` and the arguments from there on. -/
def xackCommand (key : Option Object) (group : Sds) (argv : List Sds) : Except Abort (Option Object × Reply) :=
  match key with
  | none => .ok (key, .integer 0)
  | some .other => .ok (key, .error wrongtypeerr)
  | some (.stream s) =>
    match s.cgroups.find group with
    | none => .ok (key, .integer 0)
    | some g => do
      let (g, reply) ← ackLoop g 0 argv
      .ok (some (.stream (s.setGroup group g)), reply)

/-! ### XDEL -/

def xdelCommand (key : Option Object) (argv : List Sds) : Except Abort (Option Object × Reply) :=
  match key with
  | none => .ok (key, .integer 0)
  | some .other => .ok (key, .error wrongtypeerr)
  | some (.stream s) =>
    if (argv.map streamParseStrictID).all Option.isSome then do
      let (s', deleted) ← ofStream (deleteEntries s.toStream (argv.filterMap streamParseStrictID))
      .ok (some (.stream { s with toStream := s' }), .integer deleted)
    else .ok (key, .error invalidID)

/-! ### XCLAIM -/

def nogroup (key group : Sds) : Sds :=
  (sds "-NOGROUP No such key '" ++ cstring key ++ sds "' or consumer group '" ++ cstring group ++ sds "'").map
    (fun c => if c = 13 ∨ c = 10 then 32 else c) ++ crlf

def unrecognized (opt : Sds) : Sds := errorReply (sds "Unrecognized XCLAIM option '" ++ cstring opt ++ sds "'")

/-- The options, from the first argument that is no ID. -/
def parseOptions (now : ℤ) : Claim → List Sds → Except Sds Claim
  | o, [] => .ok o
  | o, opt :: argv =>
    if strcasecmp opt "force" then parseOptions now { o with force := true } argv
    else if strcasecmp opt "justid" then parseOptions now { o with justid := true } argv
    else
      match argv with
      | [] => .error (unrecognized opt)
      | arg :: argv =>
        if strcasecmp opt "idle" then do
          let ms ← getLongLongFromObjectOrReply arg "Invalid IDLE option argument for XCLAIM"
          parseOptions now { o with deliverytime := now - ms } argv
        else if strcasecmp opt "time" then do
          let ms ← getLongLongFromObjectOrReply arg "Invalid TIME option argument for XCLAIM"
          parseOptions now { o with deliverytime := ms } argv
        else if strcasecmp opt "retrycount" then do
          let count ← getLongLongFromObjectOrReply arg "Invalid RETRYCOUNT option argument for XCLAIM"
          parseOptions now { o with retrycount := count } argv
        else if strcasecmp opt "lastid" then
          match streamParseStrictID arg with
          | none => .error invalidID
          | some id => parseOptions now { o with last_id := id } argv
        else .error (unrecognized opt)

/-- The IDs, up to the first argument that is none. -/
def claimIDs : List Sds → List StreamID
  | [] => []
  | arg :: argv =>
    match streamParseStrictID arg with
    | none => []
    | some id => id :: claimIDs argv

/-- The arguments behind the IDs. -/
def claimOptions : List Sds → List Sds
  | [] => []
  | arg :: argv => if (streamParseStrictID arg).isSome then claimOptions argv else arg :: argv

/-- The reply for the entries claimed, each of which is propagated. -/
def claimReply (s : Stream) (justid : Bool) : List Synthetic → Except Abort (List Claimed)
  | [] => .ok []
  | .setid _ _ :: ps => claimReply s justid ps
  | .xclaim _ _ id _ _ _ :: ps => do
    let e ← if justid then .ok (.id id) else do
      let entries ← ofStream (streamRange s (some id) (some id) 1 false)
      match entries with
      | [] => .ok .null
      | (id, fields) :: _ => .ok (.entry id fields)
    let eles ← claimReply s justid ps
    .ok (e :: eles)

/-- `XCLAIM key group consumer min-idle-time` and the arguments from there on; the name of the key is for an error. -/
def xclaimCommand (now : ℤ) (key : Option Object) (name group consumer minidle : Sds) (argv : List Sds) :
    Except Abort (Option Object × Reply) :=
  match key with
  | none => .ok (key, .error (nogroup name group))
  | some .other => .ok (key, .error wrongtypeerr)
  | some (.stream s) =>
    match s.cgroups.find group with
    | none => .ok (key, .error (nogroup name group))
    | some g =>
      match getLongLongFromObjectOrReply minidle "Invalid min-idle-time argument for XCLAIM" with
      | .error e => .ok (key, .error e)
      | .ok minidle =>
        match parseOptions now { minidle := if minidle < 0 then 0 else minidle } (claimOptions argv) with
        | .error e => .ok (key, .error e)
        | .ok o => do
          let g := if streamCompareID o.last_id g.last_id = .gt then { g with last_id := o.last_id } else g
          let (g, ps) ← claimEntries s.toStream group now consumer (sanitize now o) g none (claimIDs argv)
          let eles ← claimReply s.toStream o.justid ps
          .ok (some (.stream (s.setGroup group g)), .claimed eles)

/-! ### The parsed commands -/

section Parsed

/-- The options in a list of arguments, until a bad one. -/
def claimOpts : List Sds → List ClaimOpt
  | [] => []
  | opt :: argv =>
    if strcasecmp opt "force" then .force :: claimOpts argv
    else if strcasecmp opt "justid" then .justid :: claimOpts argv
    else
      match argv with
      | [] => [.bad]
      | arg :: argv =>
        if strcasecmp opt "idle" then (string2ll arg).elim [.bad] fun ms => .idle ms :: claimOpts argv
        else if strcasecmp opt "time" then (string2ll arg).elim [.bad] fun ms => .time ms :: claimOpts argv
        else if strcasecmp opt "retrycount" then (string2ll arg).elim [.bad] fun count => .retrycount count :: claimOpts argv
        else if strcasecmp opt "lastid" then (streamParseStrictID arg).elim [.bad] fun id => .lastid id :: claimOpts argv
        else [.bad]

/-- A command as a client sends it, with the name of the key where it is in an error. -/
inductive Typed
  | xack (group : Sds) (argv : List Sds)
  | xdel (argv : List Sds)
  | xclaim (name group consumer minidle : Sds) (argv : List Sds)

def Typed.run (now : ℤ) (key : Option Object) : Typed → Except Abort (Option Object × Reply)
  | xack group argv => xackCommand key group argv
  | xdel argv => xdelCommand key argv
  | xclaim name group consumer minidle argv => xclaimCommand now key name group consumer minidle argv

/-- The command, with what its arguments stand for. -/
def Typed.parse : Typed → Command
  | xack group argv => .xack group (argv.map streamParseStrictID)
  | xdel argv => .xdel (argv.map streamParseStrictID)
  | xclaim _ group consumer minidle argv =>
    .xclaim group consumer ((string2ll minidle).getD 0) (claimIDs argv) (claimOpts (claimOptions argv))

variable {s s' : GroupedStream} {group : Sds} {argv : List Sds} {reply : Reply} {now : ℤ}

theorem ackLoop_parsed : ∀ {argv : List Sds} {k : ℕ} {g g' : StreamCG}, ackLoop g k argv = .ok (g', reply) →
    ∃ n, ackEntries g (argv.map streamParseStrictID) = .ok (g', n)
  | [], k, g, g', h => by
    cases h
    exact ⟨0, rfl⟩
  | arg :: argv, k, g, g', h => by
    rw [ackLoop] at h
    rw [List.map_cons]
    cases harg : streamParseStrictID arg with
    | none =>
      rw [harg] at h
      cases h
      exact ⟨0, rfl⟩
    | some id =>
      rw [harg] at h
      obtain ⟨⟨g₁, acked⟩, hack, h⟩ := bind_eq_ok h
      obtain ⟨n, hn⟩ := ackLoop_parsed h
      rw [ackEntries, hack, ok_bind]
      dsimp only
      rw [hn]
      exact ⟨_, rfl⟩

theorem xackCommand_parsed (h : xackCommand (some (.stream s)) group argv = .ok (some (.stream s'), reply)) :
    ∃ ps, Streams.xackCommand (some s) group (argv.map streamParseStrictID) = .ok (some s', ps) := by
  unfold Streams.xackCommand withGroup
  unfold xackCommand at h
  dsimp only at h ⊢
  cases hg : s.cgroups.find group with
  | none =>
    rw [hg] at h
    cases h
    exact ⟨_, rfl⟩
  | some g =>
    rw [hg] at h
    obtain ⟨⟨g', reply⟩, hloop, h⟩ := bind_eq_ok h
    cases h
    obtain ⟨n, hn⟩ := ackLoop_parsed hloop
    dsimp only
    rw [hn]
    exact ⟨_, rfl⟩

theorem xdelCommand_parsed (h : xdelCommand (some (.stream s)) argv = .ok (some (.stream s'), reply)) :
    ∃ ps, Streams.xdelCommand (some s) (argv.map streamParseStrictID) = .ok (some s', ps) := by
  have hids : (argv.map streamParseStrictID).filterMap (fun id => id) = argv.filterMap streamParseStrictID := by
    rw [List.filterMap_map]
    rfl
  unfold Streams.xdelCommand
  unfold xdelCommand at h
  dsimp only at h ⊢
  rw [hids]
  split at h
  · rename_i hall
    obtain ⟨r, hdel, h⟩ := bind_eq_ok h
    cases h
    rw [if_pos hall, hdel]
    exact ⟨_, rfl⟩
  · rename_i hall
    cases h
    rw [if_neg hall]
    exact ⟨_, rfl⟩

theorem getLongLong_ok {arg : Sds} {msg : String} {v : ℤ} (h : getLongLongFromObjectOrReply arg msg = .ok v) :
    string2ll arg = some v := by
  unfold getLongLongFromObjectOrReply at h
  split at h
  · cases h
  · rename_i w hw
    cases h
    exact hw

/-- An option that is a number, where the rest is parsed the same. -/
theorem number_parsed {arg : Sds} {msg : String} {f : ℤ → Except Sds Claim} {opt : ℤ → ClaimOpt} {opts : List ClaimOpt}
    {o o' : Claim} (h : (getLongLongFromObjectOrReply arg msg >>= f) = .ok o')
    (hrest : ∀ v, f v = .ok o' → parseClaim now o (opt v :: opts) = some o') :
    parseClaim now o ((string2ll arg).elim [.bad] fun v => opt v :: opts) = some o' := by
  obtain ⟨v, hv, h⟩ := bind_eq_ok h
  rw [getLongLong_ok hv]
  exact hrest v h

theorem parseOptions_parsed (n : ℕ) : ∀ {argv : List Sds} {o o' : Claim}, argv.length ≤ n →
    parseOptions now o argv = .ok o' → parseClaim now o (claimOpts argv) = some o' := by
  induction n with
  | zero =>
    intro argv o o' hn h
    rw [List.length_eq_zero_iff.mp (Nat.le_zero.mp hn)] at h ⊢
    cases h
    rfl
  | succ n ih =>
    intro argv o o' hn h
    cases argv with
    | nil =>
      cases h
      rfl
    | cons opt argv =>
      have hlen : argv.length ≤ n := Nat.le_of_succ_le_succ hn
      rw [parseOptions.eq_def] at h
      rw [claimOpts.eq_def]
      dsimp only at h ⊢
      split at h
      · rename_i hforce
        rw [if_pos hforce]
        exact ih hlen h
      rename_i hforce
      rw [if_neg hforce]
      split at h
      · rename_i hjustid
        rw [if_pos hjustid]
        exact ih hlen h
      rename_i hjustid
      rw [if_neg hjustid]
      cases argv with
      | nil => cases h
      | cons arg argv =>
        have hlen' : argv.length ≤ n := (Nat.le_succ _).trans hlen
        dsimp only at h ⊢
        split_ifs at h ⊢
        · exact number_parsed h fun _ => ih hlen'
        · exact number_parsed h fun _ => ih hlen'
        · exact number_parsed h fun _ => ih hlen'
        · cases hid : streamParseStrictID arg with
          | none =>
            rw [hid] at h
            cases h
          | some id =>
            rw [hid] at h
            exact ih hlen' h

theorem xclaimCommand_parsed {name consumer minidle : Sds}
    (h : xclaimCommand now (some (.stream s)) name group consumer minidle argv = .ok (some (.stream s'), reply)) :
    s' = s ∨ ∃ ps, Streams.xclaimCommand now (some s) group consumer ((string2ll minidle).getD 0) (claimIDs argv)
      (claimOpts (claimOptions argv)) = .ok (some s', ps) := by
  unfold xclaimCommand at h
  dsimp only at h
  split at h
  · cases h
    exact .inl rfl
  · rename_i g hg
    split at h
    · cases h
      exact .inl rfl
    · rename_i m hm
      split at h
      · cases h
        exact .inl rfl
      · rename_i o ho
        obtain ⟨⟨g', ps⟩, hclaims, h⟩ := bind_eq_ok h
        obtain ⟨eles, -, h⟩ := bind_eq_ok h
        cases h
        unfold Streams.xclaimCommand withGroup
        dsimp only
        rw [hg, getLongLong_ok hm, Option.getD_some, parseOptions_parsed _ le_rfl ho]
        dsimp only
        rw [hclaims]
        exact .inr ⟨_, rfl⟩

end Parsed

end Arguments
end RedisZk.Streams
