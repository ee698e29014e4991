/-
# Times of the commands

EXPIRE and its variants, SETEX, PSETEX and SET with EX or PX make a time in milliseconds of their
argument: seconds are multiplied by 1000, and the clock is added to a relative time. Nothing is tested,
so what does not fit in 64 bits wraps around.

Key definitions: `expireGenericCommand`, `setGenericCommand`, `setOptions`, `Call`, `execute`, `Args.time`.
Key theorems: `wrap_time`, `expire_spec`, `set_spec`, `execute_spec`.
-/
import RedisZk.Aof.Load
import RedisZk.Expires.Commands
import RedisZk.Util.Numbers

namespace RedisZk.Expires

open Aof (wrap named)
open Networking (sds tolower)
open Streams (Sds)

variable {σ : Type}

/-! ### The functions -/

/-- `UNIT_SECONDS` and `UNIT_MILLISECONDS`. -/
inductive TimeUnit
  | seconds | milliseconds
deriving DecidableEq

/-- A `long long` in the unit, as milliseconds. -/
def toMilliseconds (unit : TimeUnit) (t : ℤ) : ℤ :=
  match unit with
  | .seconds => wrap (2 ^ 63) (t * 1000)
  | .milliseconds => t

inductive TimeReply
  | czero | cone | ok | nullbulk | syntaxerr
  | err (text : Sds)
deriving DecidableEq

/-- A server, a reply, and the command vector that is propagated. -/
abbrev Done (σ : Type) := Server σ × TimeReply × List Sds

def notInteger : TimeReply := .err (sds "value is not an integer or out of range")

/-- Not while loading and not on a slave. -/
def checkAlreadyExpired (config : Config) (when : ℤ) : Bool := decide (when ≤ config.mstime) && !config.loading && !config.slave

/-- A key whose time is over is deleted, and DEL or UNLINK is propagated. -/
def expireGenericCommand (config : Config) (s : Server σ) (j : ℕ) (argv : List Sds) (basetime : ℤ) (unit : TimeUnit) :
    Except Stop (Done σ) :=
  let key := argv.getD 1 []
  match Util.string2ll (argv.getD 2 []) with
  | none => .ok (s, notInteger, argv)
  | some when =>
    let when := wrap (2 ^ 63) (toMilliseconds unit when + basetime)
    (lookupKeyWrite config s j key).bind fun (s, o) =>
      if o.isNone then .ok (s, .czero, argv)
      else if checkAlreadyExpired config when then
        (dbDelete config.lazyfree_lazy_expire s j key).bind fun (s, deleted) =>
          if deleted then .ok (s, .cone, [if config.lazyfree_lazy_expire then sds "UNLINK" else sds "DEL", key])
          else .error .assertion
      else (setExpire s j key when).map fun s => (s, .cone, argv)

/-- The options of SET: its flags, and the argument of EX or PX with its unit. -/
structure SetOptions where
  nx : Bool
  xx : Bool
  ex : Bool
  px : Bool
  expire : Option (TimeUnit × Sds)

def noOptions : SetOptions := ⟨false, false, false, false, none⟩

/-- The test of the two letters of an option, each in both cases, and of the NUL behind them. -/
def isOption (x y : Fin 256) (arg : Sds) : Bool :=
  (arg.getD 0 0 = x || arg.getD 0 0 = x - 32) && (arg.getD 1 0 = y || arg.getD 1 0 = y - 32) && decide (arg.getD 2 0 = 0)

/-- The loop of `setCommand` from the fourth argument on; none for a syntax error. -/
def setOptions : List Sds → SetOptions → Option SetOptions
  | [], f => some f
  | a :: rest, f =>
    if isOption 110 120 a ∧ f.xx = false then setOptions rest { f with nx := true }
    else if isOption 120 120 a ∧ f.nx = false then setOptions rest { f with xx := true }
    else
      match rest with
      | [] => none
      | next :: rest =>
        if isOption 101 120 a ∧ f.px = false then setOptions rest { f with ex := true, expire := some (.seconds, next) }
        else if isOption 112 120 a ∧ f.ex = false then setOptions rest { f with px := true, expire := some (.milliseconds, next) }
        else none

/-- The key is set without a time, and then the time if there is one. -/
def setGenericCommand (config : Config) (s : Server σ) (j : ℕ) (argv : List Sds) (name : Sds) (nx xx : Bool) (key : Sds) (val : σ)
    (expire : Option (TimeUnit × Sds)) : Except Stop (Done σ) :=
  let set (milliseconds : Option ℤ) : Except Stop (Done σ) :=
    (if nx then (lookupKeyWrite config s j key).map fun (s, o) => (s, o.isSome) else .ok (s, false)).bind fun (s, stop) =>
      if stop then .ok (s, .nullbulk, argv)
      else
        (if xx then (lookupKeyWrite config s j key).map fun (s, o) => (s, o.isNone) else .ok (s, false)).bind fun (s, stop) =>
          if stop then .ok (s, .nullbulk, argv)
          else
            (setKey config s j key val).bind fun s =>
              match milliseconds with
              | none => .ok (s, .ok, argv)
              | some milliseconds =>
                (setExpire s j key (wrap (2 ^ 63) (config.mstime + milliseconds))).map fun s => (s, .ok, argv)
  match expire with
  | none => set none
  | some (unit, text) =>
    match Util.string2ll text with
    | none => .ok (s, notInteger, argv)
    | some milliseconds =>
      if milliseconds ≤ 0 then .ok (s, .err (sds "invalid expire time in " ++ name), argv)
      else set (some (toMilliseconds unit milliseconds))

/-- EXPIRE, PEXPIRE, EXPIREAT and PEXPIREAT. -/
inductive Variant
  | expire | pexpire | expireat | pexpireat
deriving DecidableEq

def Variant.unit : Variant → TimeUnit
  | .expire | .expireat => .seconds
  | .pexpire | .pexpireat => .milliseconds

def Variant.relative : Variant → Bool
  | .expire | .pexpire => true
  | .expireat | .pexpireat => false

/-- The commands with the arguments that they need. -/
inductive Args
  | expire (variant : Variant) (key param : Sds)
  | setex (unit : TimeUnit) (key param val : Sds)
  | set (key val : Sds) (options : List Sds)

def Args.name : Args → Sds
  | .expire .expire _ _ => sds "expire"
  | .expire .pexpire _ _ => sds "pexpire"
  | .expire .expireat _ _ => sds "expireat"
  | .expire .pexpireat _ _ => sds "pexpireat"
  | .setex .seconds _ _ _ => sds "setex"
  | .setex .milliseconds _ _ _ => sds "psetex"
  | .set _ _ _ => sds "set"

def Args.rest : Args → List Sds
  | .expire _ key param => [key, param]
  | .setex _ key param val => [key, param, val]
  | .set key val options => key :: val :: options

def Args.key : Args → Sds
  | .expire _ key _ | .setex _ key _ _ | .set key _ _ => key

/-- A command as it is called, its name in upper or lower case. -/
structure Call where
  args : Args
  name : Sds
  named : name.map tolower = args.name

def Call.argv (c : Call) : List Sds := c.name :: c.args.rest

/-- `encode` makes a value of a string. -/
def execute (encode : Sds → σ) (config : Config) (s : Server σ) (j : ℕ) (c : Call) : Except Stop (Done σ) :=
  match c.args with
  | .expire .expire _ _ => expireGenericCommand config s j c.argv config.mstime .seconds
  | .expire .expireat _ _ => expireGenericCommand config s j c.argv 0 .seconds
  | .expire .pexpire _ _ => expireGenericCommand config s j c.argv config.mstime .milliseconds
  | .expire .pexpireat _ _ => expireGenericCommand config s j c.argv 0 .milliseconds
  | .setex unit key param val => setGenericCommand config s j c.argv c.args.name false false key (encode val) (some (unit, param))
  | .set key val options =>
    match setOptions options noOptions with
    | none => .ok (s, .syntaxerr, c.argv)
    | some f => setGenericCommand config s j c.argv c.args.name f.nx f.xx key (encode val) f.expire

/-! ### What is asked for -/

/-- The unit of the time, whether it is relative, and its text. -/
def Args.request : Args → Option (TimeUnit × Bool × Sds)
  | .expire v _ param => some (v.unit, v.relative, param)
  | .setex unit _ param _ => some (unit, true, param)
  | .set _ _ options => (setOptions options noOptions).bind fun f => f.expire.map fun e => (e.1, true, e.2)

def Args.relative (a : Args) : Bool := (a.request.map fun r => r.2.1).getD false

/-- The number, if it is accepted: SET and its variants take positive ones. -/
def Args.accepts (a : Args) : Option ℤ :=
  a.request.bind fun r => (Util.string2ll r.2.2).bind fun n =>
    match a with
    | .expire _ _ _ => some n
    | _ => if n ≤ 0 then none else some n

/-- The time that a number stands for. -/
def Args.time (a : Args) (now n : ℤ) : ℤ :=
  match a.request with
  | none => 0
  | some (unit, relative, _) => (match unit with | .seconds => 1000 * n | .milliseconds => n) + if relative then now else 0

/-- The times that can be stored. -/
def Fits (t : ℤ) : Prop := -2 ^ 63 ≤ t ∧ t < 2 ^ 63

/-! ### Wrapping around -/

theorem wrap_add (x y : ℤ) : wrap (2 ^ 63) (wrap (2 ^ 63) x + y) = wrap (2 ^ 63) (x + y) := by
  unfold wrap
  omega

theorem wrap_eq_iff (x : ℤ) : wrap (2 ^ 63) x = x ↔ Fits x := by
  unfold wrap Fits
  omega

theorem fits_wrap (x : ℤ) : Fits (wrap (2 ^ 63) x) := by
  unfold wrap Fits
  omega

/-- Whatever is done in 64 bits on the way, the sum is what is left of the time in 64 bits. -/
theorem wrap_time {a : Args} {unit : TimeUnit} {relative : Bool} {text : Sds} (h : a.request = some (unit, relative, text)) (now n : ℤ) :
    wrap (2 ^ 63) (toMilliseconds unit n + if relative then now else 0) = wrap (2 ^ 63) (a.time now n) := by
  rw [Args.time, h]
  dsimp only
  cases unit with
  | seconds =>
    rw [toMilliseconds, mul_comm n 1000]
    exact wrap_add _ _
  | milliseconds => rfl

/-! ### What the commands do -/

variable {s : Server σ} {j : ℕ} {key : Sds}

/-- A key that is there is deleted. -/
theorem dbDelete_there (lazy : Bool) (h : Follows s) (hthere : view s j key ≠ none) :
    ∃ s', dbDelete lazy s j key = .ok (s', true) ∧ Follows s' ∧ view s' = put (view s) j key none := by
  obtain ⟨s', deleted, hdelete, h', -, hview⟩ := dbDelete_spec lazy h j key
  have htrue : deleted = true := by
    rw [dbDelete, dbAsyncDelete_eq, ite_self] at hdelete
    obtain ⟨s1, hexpire, h1, -, hdict, -⟩ := deleteExpire_spec h j key
    rw [dbSyncDelete, hexpire] at hdelete
    dsimp only [Except.bind] at hdelete
    rw [dictUnlink, find_dict h1, hdict] at hdelete
    cases hfind : Keyed.find keyText (s.db j).dict key with
    | none => exact absurd (view_eq_none_iff.mpr hfind) hthere
    | some de =>
      rw [hfind] at hdelete
      exact (congrArg Prod.snd (Except.ok.inj hdelete)).symm
  subst htrue
  exact ⟨s', hdelete, h', hview⟩

theorem looked_live {config : Config} {m : Keyspace σ} (h : isExpired config (m j key) = false) : looked config m j key = m := by
  rw [looked, h, Bool.false_and, if_neg Bool.false_ne_true]

/-- What becomes of a key: nothing is done, it is deleted as its time is over, or it gets the time. -/
inductive Outcome (s s' : Server σ) (j : ℕ) (key : Sds) (config : Config) (when : ℤ) (argv argv' : List Sds) : TimeReply → Prop
  | nothing {reply : TimeReply} : reply ≠ .cone → reply ≠ .ok → argv' = argv →
      (isExpired config (view s j key) = false → view s' = view s) → Outcome s s' j key config when argv argv' reply
  | deleted : view s' j key = none → checkAlreadyExpired config when = true → argv' = [sds "UNLINK", key] ∨ argv' = [sds "DEL", key] →
      Outcome s s' j key config when argv argv' .cone
  | stored {reply : TimeReply} (v : σ) : reply = .cone ∨ reply = .ok → view s' j key = some (v, some when) → argv' = argv →
      Outcome s s' j key config when argv argv' reply

theorem expire_spec (config : Config) (h : Follows s) (argv : List Sds) (basetime : ℤ) (unit : TimeUnit) {n : ℤ}
    (hn : Util.string2ll (argv.getD 2 []) = some n) :
    ∃ s' reply argv', expireGenericCommand config s j argv basetime unit = .ok (s', reply, argv') ∧ Follows s' ∧
      Outcome s s' j (argv.getD 1 []) config (wrap (2 ^ 63) (toMilliseconds unit n + basetime)) argv argv' reply := by
  obtain ⟨s1, hlookup, h1, -, hview1⟩ := lookupKeyWrite_spec config h j (argv.getD 1 [])
  rw [expireGenericCommand, hn]
  dsimp only
  rw [hlookup]
  dsimp only [Except.bind]
  cases hview : view s1 j (argv.getD 1 []) with
  | none => exact ⟨s1, .czero, argv, rfl, h1, .nothing nofun nofun rfl fun hlive => hview1.trans (looked_live hlive)⟩
  | some x =>
    obtain ⟨v, t⟩ := x
    rw [Option.map_some, if_neg (show ¬(some v).isNone = true from Bool.false_ne_true)]
    by_cases hover : checkAlreadyExpired config (wrap (2 ^ 63) (toMilliseconds unit n + basetime)) = true
    · obtain ⟨s2, hdelete, h2, hview2⟩ := dbDelete_there config.lazyfree_lazy_expire h1 (by rw [hview]; exact Option.some_ne_none _)
      rw [if_pos hover, hdelete]
      refine ⟨s2, _, _, rfl, h2, .deleted ?_ hover ?_⟩
      · rw [hview2, put_self]
      · cases config.lazyfree_lazy_expire with
        | true => exact Or.inl rfl
        | false => exact Or.inr rfl
    · obtain ⟨s2, hset, h2, -, hview2⟩ := setExpire_spec h1 hview (wrap (2 ^ 63) (toMilliseconds unit n + basetime))
      rw [if_neg hover, hset]
      exact ⟨s2, _, _, rfl, h2, .stored v (Or.inl rfl) (by rw [hview2, put_self]) rfl⟩

theorem set_spec (config : Config) (h : Follows s) (argv : List Sds) (name : Sds) (nx xx : Bool) (key : Sds) (val : σ) {unit : TimeUnit}
    {text : Sds} {n : ℤ} (hn : Util.string2ll text = some n) (hpos : ¬n ≤ 0) :
    ∃ s' reply argv', setGenericCommand config s j argv name nx xx key val (some (unit, text)) = .ok (s', reply, argv') ∧ Follows s' ∧
      reply ≠ .cone ∧ Outcome s s' j key config (wrap (2 ^ 63) (toMilliseconds unit n + config.mstime)) argv argv' reply := by
  rw [setGenericCommand]
  dsimp only
  rw [hn]
  dsimp only
  rw [if_neg hpos]
  obtain ⟨s1, stop1, hfirst, h1, hlive1⟩ : ∃ s1 stop1, (if nx then (lookupKeyWrite config s j key).map fun (s, o) => (s, o.isSome)
      else .ok (s, false)) = .ok (s1, stop1) ∧ Follows s1 ∧ (isExpired config (view s j key) = false → view s1 = view s) := by
    cases nx with
    | true =>
      obtain ⟨s1, hlookup, h1, -, hview1⟩ := lookupKeyWrite_spec config h j key
      exact ⟨s1, _, by rw [if_pos rfl, hlookup]; rfl, h1, fun hlive => hview1.trans (looked_live hlive)⟩
    | false => exact ⟨s, false, rfl, h, fun _ => rfl⟩
  rw [hfirst]
  dsimp only [Except.bind]
  by_cases hstop1 : stop1 = true
  · rw [if_pos hstop1]
    exact ⟨s1, _, _, rfl, h1, nofun, .nothing nofun nofun rfl hlive1⟩
  · rw [if_neg hstop1]
    obtain ⟨s2, stop2, hsecond, h2, hlive2⟩ : ∃ s2 stop2, (if xx then (lookupKeyWrite config s1 j key).map fun (s, o) => (s, o.isNone)
        else .ok (s1, false)) = .ok (s2, stop2) ∧ Follows s2 ∧ (isExpired config (view s j key) = false → view s2 = view s) := by
      cases xx with
      | true =>
        obtain ⟨s2, hlookup, h2, -, hview2⟩ := lookupKeyWrite_spec config h1 j key
        refine ⟨s2, _, by rw [if_pos rfl, hlookup]; rfl, h2, fun hlive => ?_⟩
        rw [hview2, hlive1 hlive, looked_live hlive]
      | false => exact ⟨s1, false, rfl, h1, hlive1⟩
    rw [hsecond]
    dsimp only
    by_cases hstop2 : stop2 = true
    · rw [if_pos hstop2]
      exact ⟨s2, _, _, rfl, h2, nofun, .nothing nofun nofun rfl hlive2⟩
    · rw [if_neg hstop2]
      obtain ⟨s3, hset, h3, -, hview3⟩ := setKey_spec config h2 j key val
      have hthere : view s3 j key = some (val, none) := by rw [hview3, put_self]
      obtain ⟨s4, hexpire, h4, -, hview4⟩ := setExpire_spec h3 hthere (wrap (2 ^ 63) (config.mstime + toMilliseconds unit n))
      rw [hset]
      dsimp only
      rw [hexpire]
      refine ⟨s4, _, _, rfl, h4, nofun, .stored val (Or.inr rfl) ?_ rfl⟩
      rw [hview4, put_self, add_comm]

/-- What a command asks for when its number is accepted. -/
theorem accepts_some {a : Args} {n : ℤ} (h : a.accepts = some n) : ∃ unit relative text, a.request = some (unit, relative, text) ∧
    Util.string2ll text = some n ∧ ((∀ v key param, a ≠ .expire v key param) → ¬n ≤ 0) := by
  unfold Args.accepts at h
  obtain ⟨⟨unit, relative, text⟩, hrequest, h⟩ := Option.bind_eq_some_iff.mp h
  obtain ⟨m, hm, h⟩ := Option.bind_eq_some_iff.mp h
  refine ⟨unit, relative, text, hrequest, ?_⟩
  cases a with
  | expire v key param => exact ⟨hm.trans h, fun hne => absurd rfl (hne v key param)⟩
  | setex unit key param val =>
    dsimp only at h
    split at h
    · cases h
    · rename_i hpos
      cases h
      exact ⟨hm, fun _ => hpos⟩
  | set key val options =>
    dsimp only at h
    split at h
    · cases h
    · rename_i hpos
      cases h
      exact ⟨hm, fun _ => hpos⟩

/-- **A command that is accepted stores the time, as far as it fits in 64 bits.** Only EXPIRE and its variants
reply 1, and delete. -/
theorem execute_spec (encode : Sds → σ) (config : Config) (h : Follows s) (j : ℕ) (c : Call) {n : ℤ} (hn : c.args.accepts = some n) :
    ∃ s' reply argv', execute encode config s j c = .ok (s', reply, argv') ∧ Follows s' ∧
      (reply = .cone → ∃ v key param, c.args = .expire v key param) ∧
      Outcome s s' j c.args.key config (wrap (2 ^ 63) (c.args.time config.mstime n)) c.argv argv' reply := by
  obtain ⟨args, name, hname⟩ := c
  obtain ⟨unit, relative, text, hrequest, hnum, hpos⟩ := accepts_some hn
  dsimp only at hrequest hpos
  unfold execute
  dsimp only
  rw [← wrap_time hrequest]
  cases args with
  | expire variant key param =>
    cases variant with
    | expire =>
      cases hrequest
      obtain ⟨s', reply, argv', hrun, h', hout⟩ := expire_spec config h (Call.mk (.expire .expire key text) name hname).argv config.mstime .seconds hnum
      exact ⟨s', reply, argv', hrun, h', fun _ => ⟨_, _, _, rfl⟩, hout⟩
    | pexpire =>
      cases hrequest
      obtain ⟨s', reply, argv', hrun, h', hout⟩ := expire_spec config h (Call.mk (.expire .pexpire key text) name hname).argv config.mstime .milliseconds hnum
      exact ⟨s', reply, argv', hrun, h', fun _ => ⟨_, _, _, rfl⟩, hout⟩
    | expireat =>
      cases hrequest
      obtain ⟨s', reply, argv', hrun, h', hout⟩ := expire_spec config h (Call.mk (.expire .expireat key text) name hname).argv 0 .seconds hnum
      exact ⟨s', reply, argv', hrun, h', fun _ => ⟨_, _, _, rfl⟩, hout⟩
    | pexpireat =>
      cases hrequest
      obtain ⟨s', reply, argv', hrun, h', hout⟩ := expire_spec config h (Call.mk (.expire .pexpireat key text) name hname).argv 0 .milliseconds hnum
      exact ⟨s', reply, argv', hrun, h', fun _ => ⟨_, _, _, rfl⟩, hout⟩
  | setex unit key param val =>
    cases hrequest
    obtain ⟨s', reply, argv', hrun, h', hcone, hout⟩ := set_spec config h (Call.mk (.setex unit key text val) name hname).argv
      (Args.setex unit key text val).name false false key (encode val) hnum (hpos nofun)
    exact ⟨s', reply, argv', hrun, h', fun hc => absurd hc hcone, hout⟩
  | set key val options =>
    obtain ⟨f, hoptions, hexpire⟩ := Option.bind_eq_some_iff.mp hrequest
    obtain ⟨e, he, hparts⟩ := Option.map_eq_some_iff.mp hexpire
    cases hparts
    dsimp only
    rw [hoptions]
    dsimp only
    rw [he]
    obtain ⟨s', reply, argv', hrun, h', hcone, hout⟩ := set_spec config h (Call.mk (.set key val options) name hname).argv
      (Args.set key val options).name f.nx f.xx key (encode val) hnum (hpos nofun)
    exact ⟨s', reply, argv', hrun, h', fun hc => absurd hc hcone, hout⟩

end RedisZk.Expires
