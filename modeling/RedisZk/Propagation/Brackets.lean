/-
# Transactions in what is propagated

Of the commands fed to the append only file or to the backlog each `MULTI` has its `EXEC`,
nothing of another client between them, and all the commands of a transaction. This is so as
long as the transactions are orderly: no `PFCOUNT` stores a cardinality before a command has
had `MULTI` fed, no `SAVE` or the like sets the count of changes so far back that `EXEC` does
not count, and neither the append only file nor the backlog begins in the middle of one.

Key definitions: `check`, `WellBracketed`, `Orderly`, `OrderlyRun`.
Key theorems: `callCommand_level`,
`propagation_well_bracketed`, `save_loses_exec`.
-/
import Mathlib
import RedisZk.Propagation.Call

namespace RedisZk.Propagation

open Streams (Sds)
open Networking (sds)

/-! ### Brackets -/

/-- Where a stream of commands is: outside of transactions, or in one of a client. -/
inductive Bracket
  | outside
  | inside (client : Option ℕ)
deriving DecidableEq

/-- One more command: no `MULTI` in a transaction, no `EXEC` without one, nothing of another
client in one, and no queued command outside. -/
def check : Bracket → Entry → Option Bracket
  | .outside, ⟨who, .multi⟩ => some (.inside who.client)
  | .outside, ⟨_, .exec⟩ => none
  | .outside, ⟨who, .command _⟩ => if who.queued then none else some .outside
  | .outside, ⟨_, .expire _⟩ => some .outside
  | .inside _, ⟨_, .multi⟩ => none
  | .inside c, ⟨who, .exec⟩ => if who.client = c then some .outside else none
  | .inside c, ⟨who, .command _⟩ => if who.client = c then some (.inside c) else none
  | .inside c, ⟨who, .expire _⟩ => if who.client = c then some (.inside c) else none

/-- No transaction is open at the end, and none is broken. -/
def WellBracketed (log : List Entry) : Prop := log.foldlM check .outside = some .outside

/-- What is fed, if anything is, leads to a place. -/
def At (log : Option (List Entry)) (b : Bracket) : Prop := ∀ l, log = some l → l.foldlM check .outside = some b

structure Level (f : Feeds) (b : Bracket) : Prop where
  aof : At f.aof b
  backlog : At f.backlog b

theorem At.append {log : Option (List Entry)} {b b' : Bracket} {e : Entry} (h : At log b) (hc : check b e = some b') :
    At (log.map (· ++ [e])) b' := by
  intro l hl
  obtain ⟨l', hl', rfl⟩ := Option.map_eq_some_iff.mp hl
  rw [List.foldlM_append, h l' hl']
  simp [hc]

/-- Commands, and keys that expire, do not lead elsewhere. -/
structure Calm (who : Who) (b : Bracket) : Prop where
  command : ∀ argv, check b ⟨who, .command argv⟩ = some b
  expire : ∀ key, check b ⟨who, .expire key⟩ = some b

theorem Calm.inside (client : Option ℕ) (queued : Bool) : Calm ⟨client, queued⟩ (.inside client) :=
  ⟨fun _ => if_pos rfl, fun _ => if_pos rfl⟩

theorem Calm.outside (client : Option ℕ) : Calm ⟨client, false⟩ .outside := ⟨fun _ => rfl, fun _ => rfl⟩

/-! ### Feeding -/

@[simp] theorem propagate_none (who : Who) (op : Op) (f : Feeds) : propagate who op ⟨false, false⟩ f = f := rfl

@[simp] theorem replicationFeedSlaves_masterhost (e : Entry) (f : Feeds) :
    (replicationFeedSlaves e f).masterhost = f.masterhost := by
  unfold replicationFeedSlaves
  split <;> rfl

@[simp] theorem replicationFeedSlaves_aof (e : Entry) (f : Feeds) : (replicationFeedSlaves e f).aof = f.aof := by
  unfold replicationFeedSlaves
  split <;> rfl

@[simp] theorem replicationFeedSlaves_isSome (e : Entry) (f : Feeds) :
    (replicationFeedSlaves e f).backlog.isSome = f.backlog.isSome := by
  unfold replicationFeedSlaves
  split <;> simp

/-- What is fed or not, and the role of the server. -/
structure Switches where
  aof : Bool
  backlog : Bool
  masterhost : Bool
deriving DecidableEq

def Feeds.switches (f : Feeds) : Switches := ⟨f.aof.isSome, f.backlog.isSome, f.masterhost⟩

@[simp] theorem switches_propagate (who : Who) (op : Op) (t : Target) (f : Feeds) :
    (propagate who op t f).switches = f.switches := by
  obtain ⟨aof, repl⟩ := t
  cases aof <;> cases repl <;> simp [propagate, Feeds.switches, feedAppendOnlyFile]

@[simp] theorem switches_expire (who : Who) (key : Sds) (f : Feeds) : (propagateExpire who key f).switches = f.switches := by
  simp [propagateExpire, Feeds.switches, feedAppendOnlyFile]

variable {b : Bracket} {f : Feeds}

theorem Level.replication {e : Entry} (h : Level f b) (hc : check b e = some b) :
    Level (replicationFeedSlaves e f) b := by
  unfold replicationFeedSlaves
  split
  · exact h
  · exact ⟨h.aof, h.backlog.append hc⟩

variable {who : Who}

theorem Level.propagate {op : Op} (h : Level f b)
    (hc : check b ⟨who, op⟩ = some b) (t : Target) : Level (propagate who op t f) b := by
  have haof : Level (feedAppendOnlyFile ⟨who, op⟩ f) b := ⟨h.aof.append hc, h.backlog⟩
  obtain ⟨aof, repl⟩ := t
  cases aof <;> cases repl
  · exact h
  · exact h.replication hc
  · exact haof
  · exact haof.replication hc

theorem Level.expire (h : Level f b) {key : Sds}
    (hc : check b ⟨who, .expire key⟩ = some b) : Level (propagateExpire who key f) b :=
  Level.replication (f := feedAppendOnlyFile _ f) ⟨h.aof.append hc, h.backlog⟩ hc

/-- `MULTI` and `EXEC` go to both, if the server feeds its backlog. -/
theorem Level.all {b b' : Bracket} {op : Op} (h : Level f b) (hc : check b ⟨who, op⟩ = some b')
    (hm : f.backlog.isSome = true → f.masterhost = false) : Level (Propagation.propagate who op PROPAGATE_ALL f) b' := by
  refine ⟨?_, ?_⟩
  · show At (replicationFeedSlaves _ (feedAppendOnlyFile _ f)).aof b'
    rw [replicationFeedSlaves_aof]
    exact h.aof.append hc
  · show At (replicationFeedSlaves _ (feedAppendOnlyFile _ f)).backlog b'
    unfold replicationFeedSlaves
    split
    · rename_i hmaster
      intro l hl
      have hsome : f.backlog.isSome = true := by rw [show f.backlog = some l from hl]; rfl
      rw [show f.masterhost = true from hmaster] at hm
      exact absurd (hm hsome) (by simp)
    · exact h.backlog.append hc

/-! ### Commands that scripts may call -/

/-- The changes that a command counts. -/
def Effect.changes : Effect → ℕ
  | .dirty n => n
  | _ => 0

def Plain.changes : Plain → ℕ
  | .read .. => 0
  | .pfcount _ _ recomputed => if recomputed then 1 else 0
  | .write _ _ effects => (effects.map Effect.changes).sum

/-- What an implementation leaves as it is, but for the changes that it counts. -/
structure Bounded (changes : ℕ) (s s' : Server) : Prop where
  dirty : s'.dirty = s.dirty + changes
  switches : s'.feeds.switches = s.feeds.switches
  luaWriteDirty : s'.luaWriteDirty = s.luaWriteDirty
  luaReplicateCommands : s'.luaReplicateCommands = s.luaReplicateCommands
  luaMultiEmitted : s'.luaMultiEmitted = s.luaMultiEmitted
  luaRepl : s'.luaRepl = s.luaRepl

/-- The commands to be propagated after a command are no `MULTI` and no `EXEC`. -/
def AlsoPlain (also : List (Op × Target)) : Prop := ∀ x ∈ also, ∃ argv, x.1 = .command argv

theorem Bounded.trans {m n : ℕ} {a b c : Server} (h : Bounded m a b) (h' : Bounded n b c) : Bounded (m + n) a c := by
  refine ⟨?_, h'.switches.trans h.switches, h'.luaWriteDirty.trans h.luaWriteDirty,
    h'.luaReplicateCommands.trans h.luaReplicateCommands, h'.luaMultiEmitted.trans h.luaMultiEmitted,
    h'.luaRepl.trans h.luaRepl⟩
  rw [h'.dirty, h.dirty]
  omega

variable {s : Server}

theorem effect_run (hc : Calm who b) (e : Effect) (h : Level s.feeds b)
    (ha : AlsoPlain s.also) : Bounded e.changes s (e.run who s) ∧ Level (e.run who s).feeds b ∧ AlsoPlain (e.run who s).also := by
  cases e with
  | dirty n => exact ⟨⟨rfl, rfl, rfl, rfl, rfl, rfl⟩, h, ha⟩
  | forceCommandPropagation t => exact ⟨⟨(add_zero _).symm, rfl, rfl, rfl, rfl, rfl⟩, h, ha⟩
  | preventCommandPropagation t => exact ⟨⟨(add_zero _).symm, rfl, rfl, rfl, rfl, rfl⟩, h, ha⟩
  | alsoPropagate argv t =>
    refine ⟨⟨(add_zero _).symm, rfl, rfl, rfl, rfl, rfl⟩, h, fun x hx => ?_⟩
    rcases List.mem_append.mp hx with hx | hx
    · exact ha x hx
    · rw [List.mem_singleton.mp hx]
      exact ⟨argv, rfl⟩
  | propagate argv t =>
    exact ⟨⟨(add_zero _).symm, switches_propagate .., rfl, rfl, rfl, rfl⟩, h.propagate (hc.command argv) t, ha⟩
  | propagateExpire key =>
    exact ⟨⟨(add_zero _).symm, switches_expire .., rfl, rfl, rfl, rfl⟩, h.expire (hc.expire key), ha⟩
  | rewriteClientCommandVector argv => exact ⟨⟨(add_zero _).symm, rfl, rfl, rfl, rfl, rfl⟩, h, ha⟩

theorem effects_run (hc : Calm who b) (es : List Effect) : ∀ {s : Server}, Level s.feeds b →
    AlsoPlain s.also → Bounded (es.map Effect.changes).sum s (es.foldl (Effect.run who) s) ∧
      Level (es.foldl (Effect.run who) s).feeds b ∧ AlsoPlain (es.foldl (Effect.run who) s).also := by
  induction es with
  | nil => exact fun h ha => ⟨⟨(add_zero _).symm, rfl, rfl, rfl, rfl, rfl⟩, h, ha⟩
  | cons e es ih =>
    intro s h ha
    obtain ⟨hb, h1, ha1⟩ := effect_run hc e h ha
    obtain ⟨hb', h'⟩ := ih h1 ha1
    exact ⟨hb.trans hb', h'⟩

/-- Keys that expire may be fed anywhere by who is not in the transaction of another. -/
theorem expireIfNeeded_run (hc : ∀ key, check b ⟨who, .expire key⟩ = some b) (keys : List Sds) :
    ∀ {s : Server}, Level s.feeds b → ∃ f, expireIfNeeded who keys s = { s with feeds := f } ∧
      Level f b ∧ f.switches = s.feeds.switches := by
  induction keys with
  | nil => exact fun {s} h => ⟨s.feeds, rfl, h, rfl⟩
  | cons key keys ih =>
    intro s h
    obtain ⟨f, hf, hlevel, hsw⟩ := ih (s := { s with feeds := propagateExpire who key s.feeds }) (h.expire (hc key))
    exact ⟨f, hf, hlevel, hsw.trans (switches_expire ..)⟩

theorem plain_proc (hc : Calm who b) (c : Plain) {s : Server} (h : Level s.feeds b)
    (ha : AlsoPlain s.also) :
    Bounded c.changes s (c.proc who s) ∧ Level (c.proc who s).feeds b ∧ AlsoPlain (c.proc who s).also := by
  cases c with
  | read argv expired =>
    obtain ⟨f, hf, hlevel, hsw⟩ := expireIfNeeded_run hc.expire expired h
    rw [Plain.proc, hf]
    exact ⟨⟨(add_zero _).symm, hsw, rfl, rfl, rfl, rfl⟩, hlevel, ha⟩
  | pfcount argv expired recomputed =>
    obtain ⟨f, hf, hlevel, hsw⟩ := expireIfNeeded_run hc.expire expired h
    rw [Plain.proc, pfcountCommand, hf]
    cases recomputed with
    | false => exact ⟨⟨(add_zero _).symm, hsw, rfl, rfl, rfl, rfl⟩, hlevel, ha⟩
    | true => exact ⟨⟨rfl, hsw, rfl, rfl, rfl, rfl⟩, hlevel, ha⟩
  | write w argv effects => exact effects_run hc effects h ha

/-! ### Calls -/

/-- What a client has before and after a call. -/
structure Restored (s s' : Server) : Prop where
  prevent : s'.prevent = s.prevent
  argv : s'.argv = s.argv
  also : s'.also = s.also

/-- The commands that are propagated after a command. -/
theorem also_level (hc : Calm who b) (flags : Target) (also : List (Op × Target)) :
    ∀ {f : Feeds}, AlsoPlain also → Level f b →
    Level (also.foldl (fun f rop => propagate who rop.1 (rop.2.and flags) f) f) b ∧
      (also.foldl (fun f rop => propagate who rop.1 (rop.2.and flags) f) f).switches = f.switches := by
  induction also with
  | nil => exact fun _ h => ⟨h, rfl⟩
  | cons x also ih =>
    intro f ha h
    obtain ⟨argv, hx⟩ := ha x List.mem_cons_self
    have h1 : Level (propagate who x.1 (x.2.and flags) f) b := h.propagate (hx ▸ hc.command argv) _
    obtain ⟨hlevel, hsw⟩ := ih (fun y hy => ha y (List.mem_cons_of_mem _ hy)) h1
    exact ⟨hlevel, hsw.trans (switches_propagate ..)⟩

/-- A call feeds commands only, if its implementation does. -/
theorem call_level (hc : Calm who b) (lua : Bool) (flags : Target) (argv : List Sds)
    (proc : Server → Server) {s s1 : Server}
    (h1 : proc { s with force := PROPAGATE_NONE, prevent := PROPAGATE_NONE, argv := argv, also := [] } = s1)
    (hl : Level s1.feeds b) (ha : AlsoPlain s1.also) :
    Level (call who lua flags .command argv proc s).feeds b ∧
      (call who lua flags .command argv proc s).feeds.switches = s1.feeds.switches := by
  rw [call, h1]
  have hfed := hl.propagate (hc.command s1.argv) (t :=
    { aof := (decide (s.dirty < s1.dirty) || s1.force.aof) && !s1.prevent.aof && flags.aof
      repl := (decide (s.dirty < s1.dirty) || s1.force.repl) && !s1.prevent.repl && flags.repl })
  obtain ⟨hlevel, hsw⟩ := also_level hc flags s1.also ha hfed
  exact ⟨hlevel, hsw.trans (switches_propagate ..)⟩

/-! ### Scripts -/

/-- Where commands are fed: those of a transaction inside of it. -/
def base (who : Who) : Bracket := if who.queued then .inside who.client else .outside

theorem base_calm (who : Who) : Calm who (base who) := by
  obtain ⟨client, queued⟩ := who
  cases queued
  · exact .outside client
  · exact .inside client true

def LuaStep.changes : LuaStep → ℕ
  | .call c => c.changes
  | _ => 0

def Script.changes (script : Script) : ℕ := (script.steps.map LuaStep.changes).sum

/-- Where a script is, that has had `MULTI` fed or not. -/
def place (who : Who) (emitted : Bool) : Bracket := if emitted then .inside who.client else base who

theorem place_calm (who : Who) (emitted : Bool) : Calm who (place who emitted) := by
  cases emitted
  · exact base_calm who
  · exact .inside who.client who.queued

/-- A script that is being run on a server that feeds its backlog, and has counted `changes`. -/
structure Running (who : Who) (s0 s : Server) (changes : ℕ) : Prop where
  level : Level s.feeds (place who s.luaMultiEmitted)
  dirty : s.dirty = s0.dirty + changes
  switches : s.feeds.switches = s0.feeds.switches
  also : s.also = []
  queued : who.queued = true → s.luaMultiEmitted = false
  replicates : s.luaMultiEmitted = true → s.luaReplicateCommands = true

theorem Running.call {s0 s : Server} {n : ℕ} (h : Running who s0 s n)
    (hm : who.queued = false → s0.feeds.backlog.isSome = true → s0.feeds.masterhost = false) (c : Plain) :
    Running who s0 (luaRedisGenericCommand who c s) (n + c.changes) := by
  obtain ⟨s1, hs1⟩ : ∃ s1, s1 = if c.cmdWrite then { s with luaWriteDirty := true } else s := ⟨_, rfl⟩
  have h1 : Running who s0 s1 n := by
    rw [hs1]
    split
    · exact ⟨h.level, h.dirty, h.switches, h.also, h.queued, h.replicates⟩
    · exact h
  obtain ⟨s2, hs2⟩ : ∃ s2, s2 =
      if s1.luaReplicateCommands && !s1.luaMultiEmitted && !who.queued && s1.luaWriteDirty &&
          decide (s1.luaRepl ≠ PROPAGATE_NONE)
      then { s1 with feeds := execCommandPropagateMulti who s1.feeds, luaMultiEmitted := true } else s1 := ⟨_, rfl⟩
  have h2 : Running who s0 s2 n := by
    rw [hs2]
    split
    · rename_i hemit
      simp only [Bool.and_eq_true, Bool.not_eq_true'] at hemit
      obtain ⟨⟨⟨⟨hrep, hnot⟩, hq⟩, -⟩, -⟩ := hemit
      have hlevel := h1.level
      rw [hnot] at hlevel
      have hsw := h1.switches
      simp only [Feeds.switches, Switches.mk.injEq] at hsw
      refine ⟨hlevel.all ?_ ?_, h1.dirty, (switches_propagate ..).trans h1.switches, h1.also, ?_, fun _ => hrep⟩
      · simp [place, base, hq, check]
      · rw [hsw.2.1, hsw.2.2]
        exact hm hq
      · rw [hq]
        exact fun hf => absurd hf (by simp)
    · exact h1
  have hrun : luaRedisGenericCommand who c s = Propagation.call who true
      (if s2.luaReplicateCommands then s2.luaRepl else PROPAGATE_NONE) .command c.argv (c.proc who) s2 := by
    rw [hs2, hs1]
    rfl
  have hcalm := place_calm who s2.luaMultiEmitted
  obtain ⟨hb, hlevel, hplain⟩ := plain_proc hcalm c
    (s := { s2 with force := PROPAGATE_NONE, prevent := PROPAGATE_NONE, argv := c.argv, also := [] }) h2.level
    (fun x hx => by cases hx)
  obtain ⟨hfinal, hsw⟩ := call_level hcalm true (if s2.luaReplicateCommands then s2.luaRepl else PROPAGATE_NONE) c.argv
    _ (s := s2) rfl hlevel hplain
  rw [hrun]
  have hemitted := hb.luaMultiEmitted
  refine ⟨?_, ?_, hsw.trans (hb.switches.trans h2.switches), h2.also, fun hq => hemitted.trans (h2.queued hq), fun he => ?_⟩
  · show Level _ (place who (c.proc who _).luaMultiEmitted)
    rw [hemitted]
    exact hfinal
  · refine hb.dirty.trans ?_
    rw [h2.dirty]
    omega
  · exact hb.luaReplicateCommands.trans (h2.replicates (hemitted.symm.trans he))

theorem Running.step {s0 s : Server} {n : ℕ} (h : Running who s0 s n)
    (hm : who.queued = false → s0.feeds.backlog.isSome = true → s0.feeds.masterhost = false) (e : LuaStep) :
    Running who s0 (e.run who s) (n + e.changes) := by
  cases e with
  | call c => exact h.call hm c
  | replicateCommands =>
    show Running who s0 (if s.luaWriteDirty then s else { s with luaReplicateCommands := true }) (n + 0)
    split
    · exact h
    · exact ⟨h.level, h.dirty, h.switches, h.also, h.queued, fun _ => rfl⟩
  | setRepl flags =>
    show Running who s0 (if s.luaReplicateCommands then { s with luaRepl := flags } else s) (n + 0)
    split
    · exact ⟨h.level, h.dirty, h.switches, h.also, h.queued, h.replicates⟩
    · exact h

theorem Running.steps {s0 : Server}
    (hm : who.queued = false → s0.feeds.backlog.isSome = true → s0.feeds.masterhost = false) (es : List LuaStep) :
    ∀ {s : Server} {n : ℕ}, Running who s0 s n →
    Running who s0 (es.foldl (LuaStep.run who) s) (n + (es.map LuaStep.changes).sum) := by
  induction es with
  | nil => exact fun h => h
  | cons e es ih =>
    intro s n h
    rw [List.foldl_cons, List.map_cons, List.sum_cons, ← Nat.add_assoc]
    exact ih (h.step hm e)

/-- What a script feeds is in a transaction, of its own or of its caller, or it is fed as a
whole. -/
theorem evalCommand_level (always : Bool) (script : Script) (h : Level s.feeds (base who))
    (hm : who.queued = false → s.feeds.backlog.isSome = true → s.feeds.masterhost = false) :
    let s' := call who false PROPAGATE_ALL .command script.argv (evalGenericCommand always who script) s
    Level s'.feeds (base who) ∧ s'.feeds.switches = s.feeds.switches ∧ s'.dirty = s.dirty + script.changes := by
  obtain ⟨s0, hs0⟩ : ∃ s0 : Server, s0 = { s with
    force := PROPAGATE_NONE
    prevent := PROPAGATE_NONE
    argv := script.argv
    also := []
    luaWriteDirty := false
    luaReplicateCommands := always
    luaMultiEmitted := false
    luaRepl := PROPAGATE_ALL } := ⟨_, rfl⟩
  have hstart : Running who s s0 0 := by
    rw [hs0]
    exact ⟨h, (add_zero _).symm, rfl, rfl, fun _ => rfl, fun he => by cases he⟩
  obtain ⟨s1, hs1⟩ : ∃ s1, s1 = script.steps.foldl (LuaStep.run who) s0 := ⟨_, rfl⟩
  have hrun : Running who s s1 script.changes := by
    have := hstart.steps hm script.steps
    rw [Nat.zero_add, ← hs1] at this
    exact this
  obtain ⟨other, hproc, hother⟩ : ∃ other, (∀ s', evalGenericCommand always who script
      { s with force := PROPAGATE_NONE, prevent := PROPAGATE_NONE, argv := script.argv, also := [] } = s' →
      s' = if s1.luaReplicateCommands then
        { s1 with
          prevent := PROPAGATE_ALL
          also := if s1.luaMultiEmitted then s1.also ++ [(.exec, PROPAGATE_ALL)] else s1.also }
      else other) ∧ (other = s1 ∨ ∃ body, other = rewriteEvalsha s.dirty body s1) := by
    rw [hs1, hs0]
    refine ⟨_, fun s' h => h.symm.trans rfl, ?_⟩
    split
    · exact .inr ⟨_, rfl⟩
    · exact .inl rfl
  by_cases hemit : s1.luaMultiEmitted = true
  · have hq : who.queued = false := by
      by_contra hq
      rw [hrun.queued (by simpa using hq)] at hemit
      cases hemit
    have hmaster : s1.feeds.backlog.isSome = true → s1.feeds.masterhost = false := by
      have hsw := hrun.switches
      simp only [Feeds.switches, Switches.mk.injEq] at hsw
      rw [hsw.2.1, hsw.2.2]
      exact hm hq
    have hlevel := hrun.level
    rw [hemit] at hlevel
    have hs2 := hproc _ rfl
    rw [if_pos (hrun.replicates hemit), if_pos hemit, hrun.also] at hs2
    have hexec : Level (propagate who .exec PROPAGATE_ALL s1.feeds) (base who) :=
      hlevel.all (by simp [place, base, hq, check]) hmaster
    have hfeeds : (call who false PROPAGATE_ALL .command script.argv (evalGenericCommand always who script) s).feeds =
        propagate who .exec PROPAGATE_ALL s1.feeds := by
      rw [call, hs2]
      simp [PROPAGATE_ALL, Target.and]
    refine ⟨hfeeds ▸ hexec, ?_, ?_⟩
    · rw [hfeeds, switches_propagate]
      exact hrun.switches
    · refine Eq.trans ?_ hrun.dirty
      rw [call, hs2]
  · have hlevel := hrun.level
    rw [Bool.not_eq_true] at hemit
    rw [hemit] at hlevel
    obtain ⟨s2, hs2⟩ : ∃ s2, evalGenericCommand always who script
      { s with force := PROPAGATE_NONE, prevent := PROPAGATE_NONE, argv := script.argv, also := [] } = s2 := ⟨_, rfl⟩
    have hsame : s2.feeds = s1.feeds ∧ s2.also = [] ∧ s2.dirty = s1.dirty := by
      rw [hproc s2 hs2]
      split
      · rw [if_neg (by rw [hemit]; simp)]
        exact ⟨rfl, hrun.also, rfl⟩
      · obtain rfl | ⟨body, rfl⟩ := hother
        · exact ⟨rfl, hrun.also, rfl⟩
        · exact ⟨rfl, hrun.also, rfl⟩
    obtain ⟨hfeeds, halso, hdirty⟩ := hsame
    obtain ⟨hfinal, hsw⟩ := call_level (base_calm who) false PROPAGATE_ALL script.argv _ hs2 (hfeeds ▸ hlevel)
      (fun x hx => by rw [halso] at hx; cases hx)
    refine ⟨hfinal, hsw.trans (hfeeds ▸ hrun.switches), ?_⟩
    rw [call, hs2]
    exact hdirty.trans hrun.dirty

/-! ### Commands -/

def Command.changes : Command → ℕ
  | .plain c => c.changes
  | .eval script => script.changes
  | .admin .. => 0

def Command.resets : Command → Bool
  | .admin _ a => a.resets
  | _ => false

/-- What a command switches. -/
def Command.flips (w : Switches) : Command → Switches
  | .admin _ .startAppendOnly => { w with aof := true }
  | .admin _ .stopAppendOnly => { w with aof := false }
  | .admin _ .sync => { w with backlog := true }
  | .admin _ (.replicaof host) => { w with masterhost := host }
  | _ => w

/-- A command does not begin the append only file or the backlog. -/
def Command.Begun (w : Switches) : Command → Prop
  | .admin _ .startAppendOnly => w.aof = true
  | .admin _ .sync => w.backlog = true
  | _ => True

/-- The count of changes after commands. -/
def dirtyAfter (d : ℤ) (q : List Command) : ℤ := q.foldl (fun d c => if c.resets then 0 else d + c.changes) d

def switchesAfter (w : Switches) (q : List Command) : Switches := q.foldl Command.flips w

theorem admin_switches (f : Feeds) (argv : List Sds) (a : Admin) :
    (a.switch f).switches = (Command.admin argv a).flips f.switches := by
  cases a <;> rfl

theorem admin_level (argv : List Sds) (a : Admin) (h : Level f b)
    (hb : b = .outside ∨ (Command.admin argv a).Begun f.switches) : Level (a.switch f) b := by
  have hsome : ∀ {log : Option (List Entry)}, At log b → b = .outside ∨ log.isSome = true → At (some (log.getD [])) b := by
    intro log hat hb l hl
    cases log with
    | some l' => exact hat l hl
    | none =>
      cases hl
      rcases hb with rfl | hb
      · rfl
      · cases hb
  cases a with
  | startAppendOnly => exact ⟨hsome h.aof hb, h.backlog⟩
  | stopAppendOnly => exact ⟨(fun l hl => by cases hl), h.backlog⟩
  | sync => exact ⟨h.aof, hsome h.backlog hb⟩
  | _ => exact ⟨h.aof, h.backlog⟩

/-- What a call does to the place of what is fed, to the switches and to the count. -/
structure Called (b : Bracket) (c : Command) (s s' : Server) : Prop where
  level : Level s'.feeds b
  switches : s'.feeds.switches = c.flips s.feeds.switches
  dirty : s'.dirty = if c.resets then 0 else s.dirty + c.changes
  restored : Restored s s'
  force : s'.force = s.force

/-- **A call of a command** feeds it where such commands belong. -/
theorem callCommand_level (who : Who) (always : Bool) (c : Command) (h : Level s.feeds (base who))
    (hm : who.queued = false → s.feeds.backlog.isSome = true → s.feeds.masterhost = false)
    (hb : who.queued = true → c.Begun s.feeds.switches) : Called (base who) c s (callCommand always who c s) := by
  have hcalm := base_calm who
  cases c with
  | plain c =>
    obtain ⟨hbounded, hlevel, hplain⟩ := plain_proc hcalm c
      (s := { s with force := PROPAGATE_NONE, prevent := PROPAGATE_NONE, argv := c.argv, also := [] }) h
      (fun x hx => by cases hx)
    obtain ⟨hfinal, hsw⟩ := call_level hcalm false PROPAGATE_ALL c.argv _ (s := s) rfl hlevel hplain
    exact ⟨hfinal, hsw.trans hbounded.switches, hbounded.dirty, ⟨rfl, rfl, rfl⟩, rfl⟩
  | eval script =>
    obtain ⟨hlevel, hsw, hdirty⟩ := evalCommand_level always script h hm
    exact ⟨hlevel, hsw, hdirty, ⟨rfl, rfl, rfl⟩, rfl⟩
  | admin argv a =>
    have hbegun : base who = .outside ∨ (Command.admin argv a).Begun s.feeds.switches := by
      cases hq : who.queued
      · exact .inl (by simp [base, hq])
      · exact .inr (hb hq)
    obtain ⟨hfinal, hsw⟩ := call_level hcalm false PROPAGATE_ALL argv a.proc (s := s) rfl
      (admin_level argv a h hbegun) (fun x hx => by cases hx)
    refine ⟨hfinal, hsw.trans (admin_switches _ argv a), ?_, ⟨rfl, rfl, rfl⟩, rfl⟩
    show (if a.resets then (0 : ℤ) else s.dirty) = if a.resets then 0 else s.dirty + (0 : ℕ)
    split <;> simp

/-- Nothing is fed after an implementation that counts no changes and asks for nothing. -/
theorem call_silent {flags : Target} {op : List Sds → Op} {argv : List Sds} (proc : Server → Server)
    {s s1 : Server} (h1 : proc { s with force := PROPAGATE_NONE, prevent := PROPAGATE_NONE, argv := argv, also := [] } = s1)
    (hd : s1.dirty ≤ s.dirty) (hf : s1.force = PROPAGATE_NONE) (ha : s1.also = []) :
    (call who false flags op argv proc s).feeds = s1.feeds := by
  have hnot : ¬ s.dirty < s1.dirty := not_lt.mpr hd
  rw [call, h1, ha]
  simp [hnot, hf, PROPAGATE_NONE]

/-- A command that is read-only or administrative, and stores nothing, feeds no more than
keys that expire. -/
theorem callCommand_early (client : Option ℕ) {s : Server} (always : Bool) (c : Command) (h : Level s.feeds .outside)
    (hlazy : c.lazy = true) (hstored : ∀ argv expired, c ≠ .plain (.pfcount argv expired true))
    (hsigned : c.resets = true → 0 ≤ s.dirty) :
    Called .outside c s (callCommand always ⟨client, true⟩ c s) := by
  have hexpire : ∀ key, check .outside ⟨⟨client, true⟩, .expire key⟩ = some .outside := fun _ => rfl
  have hread : ∀ (c : Plain) (f : Feeds), Level f .outside → f.switches = s.feeds.switches → c.changes = 0 →
      c.proc ⟨client, true⟩ { s with force := PROPAGATE_NONE, prevent := PROPAGATE_NONE, argv := c.argv, also := [] } =
        { s with feeds := f, force := PROPAGATE_NONE, prevent := PROPAGATE_NONE, argv := c.argv, also := [] } →
      Called .outside (.plain c) s (callCommand always ⟨client, true⟩ (.plain c) s) := by
    intro c f hf hsw hzero hproc
    have hfeeds : (callCommand always ⟨client, true⟩ (.plain c) s).feeds = f :=
      call_silent _ hproc (le_refl _) rfl rfl
    refine ⟨hfeeds ▸ hf, by rw [hfeeds]; exact hsw, ?_, ⟨rfl, rfl, rfl⟩, rfl⟩
    show (c.proc _ _).dirty = s.dirty + c.changes
    rw [hproc, hzero]
    exact (add_zero _).symm
  cases c with
  | eval script => cases hlazy
  | plain c =>
    cases c with
    | write w argv effects => cases hlazy
    | read argv expired =>
      obtain ⟨f, hf, hlevel, hsw⟩ := expireIfNeeded_run hexpire expired
        (s := { s with force := PROPAGATE_NONE, prevent := PROPAGATE_NONE, argv := argv, also := [] }) h
      exact hread (.read argv expired) f hlevel hsw rfl hf
    | pfcount argv expired recomputed =>
      cases recomputed with
      | true => exact absurd rfl (hstored argv expired)
      | false =>
        obtain ⟨f, hf, hlevel, hsw⟩ := expireIfNeeded_run hexpire expired
          (s := { s with force := PROPAGATE_NONE, prevent := PROPAGATE_NONE, argv := argv, also := [] }) h
        exact hread (.pfcount argv expired false) f hlevel hsw rfl hf
  | admin argv a =>
    have hdirty : (if a.resets then (0 : ℤ) else s.dirty) ≤ s.dirty := by
      split
      · exact hsigned ‹_›
      · exact le_refl _
    have hfeeds : (callCommand always ⟨client, true⟩ (.admin argv a) s).feeds = a.switch s.feeds :=
      call_silent a.proc rfl hdirty rfl rfl
    refine ⟨hfeeds ▸ admin_level argv a h (.inl rfl), by rw [hfeeds]; exact admin_switches _ argv a, ?_,
      ⟨rfl, rfl, rfl⟩, rfl⟩
    show (if a.resets then (0 : ℤ) else s.dirty) = if a.resets then 0 else s.dirty + (0 : ℕ)
    split <;> simp

/-! ### Transactions -/

/-- Queued commands, called in turn. -/
def callAll (always : Bool) (who : Who) (q : List Command) (s : Server) : Server :=
  q.foldl (fun s c => callCommand always who c s) s

theorem execQueued_true (always : Bool) (who : Who) (q : List Command) :
    ∀ s, execQueued always who q true s = (true, callAll always who q s) := by
  induction q with
  | nil => exact fun _ => rfl
  | cons c q ih =>
    intro s
    rw [execQueued, if_neg (by simp), ih]
    rfl

/-- `MULTI` is fed before the first command that is neither read-only nor administrative. -/
theorem execQueued_false (always : Bool) (who : Who) (q : List Command) : ∀ s,
    execQueued always who q false s =
      let s1 := callAll always who (q.takeWhile Command.lazy) s
      if q.dropWhile Command.lazy = [] then (false, s1)
      else (true, callAll always who (q.dropWhile Command.lazy)
        { s1 with feeds := execCommandPropagateMulti who s1.feeds }) := by
  induction q with
  | nil => exact fun _ => rfl
  | cons c q ih =>
    intro s
    rw [execQueued]
    cases hlazy : c.lazy with
    | true =>
      rw [if_neg (by simp), ih, List.takeWhile_cons_of_pos hlazy, List.dropWhile_cons_of_pos hlazy]
      rfl
    | false =>
      have hnot : ¬ c.lazy = true := by simp [hlazy]
      rw [if_pos (by simp), execQueued_true, List.takeWhile_cons_of_neg hnot, List.dropWhile_cons_of_neg hnot]
      rfl

/-- What calls in turn do. -/
structure CalledAll (b : Bracket) (q : List Command) (s s' : Server) : Prop where
  level : Level s'.feeds b
  switches : s'.feeds.switches = switchesAfter s.feeds.switches q
  dirty : s'.dirty = dirtyAfter s.dirty q
  restored : Restored s s'
  force : s'.force = s.force

theorem Restored.trans {a b c : Server} (h : Restored a b) (h' : Restored b c) : Restored a c :=
  ⟨h'.prevent.trans h.prevent, h'.argv.trans h.argv, h'.also.trans h.also⟩

theorem CalledAll.nil (h : Level s.feeds b) : CalledAll b [] s s :=
  ⟨h, rfl, rfl, ⟨rfl, rfl, rfl⟩, rfl⟩

theorem Called.cons {c : Command} {q : List Command} {s s1 s' : Server} (h : Called b c s s1)
    (h' : CalledAll b q s1 s') : CalledAll b (c :: q) s s' := by
  refine ⟨h'.level, ?_, ?_, h.restored.trans h'.restored, h'.force.trans h.force⟩
  · rw [h'.switches, h.switches]
    rfl
  · rw [h'.dirty, h.dirty]
    rfl

/-- A transaction that is executed as it should be: before the first command that has `MULTI`
fed, no `PFCOUNT` stores a cardinality, and the count is not raised by being set back to
zero; from then on the server feeds its backlog, and neither the append only file nor the
backlog begins; and there are changes enough after a command that sets the count back. -/
structure Orderly (s : Server) (q : List Command) : Prop where
  stored : ∀ argv expired, .plain (.pfcount argv expired true) ∉ q.takeWhile Command.lazy
  signed : ∀ c ∈ q.takeWhile Command.lazy, c.resets = true → 0 ≤ s.dirty
  master : q.dropWhile Command.lazy ≠ [] →
    (switchesAfter s.feeds.switches (q.takeWhile Command.lazy)).backlog = true →
    (switchesAfter s.feeds.switches (q.takeWhile Command.lazy)).masterhost = false
  begun : ∀ q1 c q2, q.dropWhile Command.lazy = q1 ++ c :: q2 →
    c.Begun (switchesAfter s.feeds.switches (q.takeWhile Command.lazy ++ q1))
  counted : q.dropWhile Command.lazy ≠ [] → ∀ q1 c q2, q = q1 ++ c :: q2 → c.resets = true →
    s.dirty ≤ (q2.map Command.changes).sum

/-- Neither an administrative command nor a `PFCOUNT` that stores a cardinality. -/
def Command.ordinary : Command → Bool
  | .plain (.pfcount _ _ recomputed) => !recomputed
  | .admin .. => false
  | _ => true

/-- A transaction without such commands is orderly. -/
theorem Orderly.of_ordinary {q : List Command} (hm : s.feeds.masterhost = false)
    (hq : ∀ c ∈ q, c.ordinary = true) : Orderly s q := by
  have hreset : ∀ c ∈ q, c.resets = false := by
    intro c hc
    have := hq c hc
    cases c <;> first | rfl | cases this
  have hswitches : ∀ (q' : List Command), (∀ c ∈ q', c ∈ q) → ∀ w, switchesAfter w q' = w := by
    intro q' hsub
    induction q' with
    | nil => exact fun _ => rfl
    | cons c q' ih =>
      intro w
      have hc := hq c (hsub c List.mem_cons_self)
      have hflip : c.flips w = w := by cases c <;> first | rfl | cases hc
      rw [switchesAfter, List.foldl_cons, hflip]
      exact ih (fun c hc => hsub c (List.mem_cons_of_mem _ hc)) w
  have hearly : ∀ c ∈ q.takeWhile Command.lazy, c ∈ q := fun c hc => (List.takeWhile_prefix _).subset hc
  have hlate : ∀ c ∈ q.dropWhile Command.lazy, c ∈ q := fun c hc => (List.dropWhile_suffix _).subset hc
  refine ⟨fun argv expired hmem => ?_, fun c hc hr => ?_, fun _ _ => ?_, fun q1 c q2 hsplit => ?_,
    fun _ q1 c q2 hsplit hr => ?_⟩
  · have := hq _ (hearly _ hmem)
    cases this
  · rw [hreset c (hearly c hc)] at hr
    cases hr
  · rw [hswitches _ hearly]
    exact hm
  · have hc := hq c (hlate c (by rw [hsplit]; simp))
    cases c with
    | admin argv a => cases hc
    | _ => trivial
  · rw [hreset c (by rw [hsplit]; simp)] at hr
    cases hr

theorem callAll_early (always : Bool) (client : Option ℕ) (q : List Command) : ∀ {s : Server}, Level s.feeds .outside →
    (∀ c ∈ q, c.lazy = true) → (∀ argv expired, .plain (.pfcount argv expired true) ∉ q) →
    (∀ c ∈ q, c.resets = true → 0 ≤ s.dirty) →
    CalledAll .outside q s (callAll always ⟨client, true⟩ q s) := by
  induction q with
  | nil => exact fun h _ _ _ => .nil h
  | cons c q ih =>
    intro s h hlazy hstored hsigned
    have hc := callCommand_early client always c h (hlazy c List.mem_cons_self)
      (fun argv expired he => hstored argv expired (he ▸ List.mem_cons_self)) (hsigned c List.mem_cons_self)
    refine hc.cons (ih hc.level (fun c hc => hlazy c (List.mem_cons_of_mem _ hc))
      (fun argv expired hm => hstored argv expired (List.mem_cons_of_mem _ hm)) fun c' hc' hr => ?_)
    rw [hc.dirty]
    split
    · exact le_refl _
    · have := hsigned c' (List.mem_cons_of_mem _ hc') hr
      omega

theorem callAll_late (always : Bool) (client : Option ℕ) (q : List Command) : ∀ {s : Server},
    Level s.feeds (.inside client) → (∀ q1 c q2, q = q1 ++ c :: q2 → c.Begun (switchesAfter s.feeds.switches q1)) →
    CalledAll (.inside client) q s (callAll always ⟨client, true⟩ q s) := by
  induction q with
  | nil => exact fun h _ => .nil h
  | cons c q ih =>
    intro s h hbegun
    have hc := callCommand_level ⟨client, true⟩ always c h (fun hq => by cases hq)
      (fun _ => hbegun [] c q rfl)
    refine hc.cons (ih hc.level fun q1 c' q2 hq => ?_)
    rw [hc.switches]
    exact hbegun (c :: q1) c' q2 (by rw [hq]; rfl)

/-- A command that sets the count back leaves it high enough, if the changes after it do. -/
theorem le_dirtyAfter {D : ℤ} (q : List Command) : ∀ {d : ℤ}, D ≤ d + (q.map Command.changes).sum →
    (∀ q1 c q2, q = q1 ++ c :: q2 → c.resets = true → D ≤ (q2.map Command.changes).sum) → D ≤ dirtyAfter d q := by
  induction q with
  | nil =>
    intro d h _
    simpa [dirtyAfter] using h
  | cons c q ih =>
    intro d h hcounted
    rw [dirtyAfter, List.foldl_cons]
    refine ih ?_ fun q1 c' q2 hq => hcounted (c :: q1) c' q2 (by rw [hq]; rfl)
    split
    · have := hcounted [] c q rfl ‹_›
      omega
    · rw [List.map_cons, List.sum_cons, Nat.cast_add, ← add_assoc] at h
      exact h

theorem dirtyAfter_append (d : ℤ) (q q' : List Command) : dirtyAfter d (q ++ q') = dirtyAfter (dirtyAfter d q) q' :=
  List.foldl_append

theorem switchesAfter_append (w : Switches) (q q' : List Command) :
    switchesAfter w (q ++ q') = switchesAfter (switchesAfter w q) q' := List.foldl_append

theorem dirtyAfter_lazy (q : List Command) (hlazy : ∀ c ∈ q, c.lazy = true)
    (hstored : ∀ argv expired, .plain (.pfcount argv expired true) ∉ q) : ∀ {d : ℤ},
    (∀ c ∈ q, c.resets = true → 0 ≤ d) → dirtyAfter d q ≤ d := by
  induction q with
  | nil => exact fun _ => le_refl _
  | cons c q ih =>
    intro d hsigned
    have hrest := fun {d : ℤ} => ih (fun c hc => hlazy c (List.mem_cons_of_mem _ hc))
      (fun argv expired hm => hstored argv expired (List.mem_cons_of_mem _ hm)) (d := d)
    rw [dirtyAfter, List.foldl_cons]
    by_cases hr : c.resets = true
    · rw [if_pos hr]
      have h0 := hsigned c List.mem_cons_self hr
      exact (hrest fun _ _ _ => le_refl _).trans h0
    · rw [if_neg hr]
      have hzero : c.changes = 0 := by
        have hl := hlazy c List.mem_cons_self
        cases c with
        | eval script => cases hl
        | admin argv a => rfl
        | plain c =>
          cases c with
          | write w argv effects => cases hl
          | read argv expired => rfl
          | pfcount argv expired recomputed =>
            cases recomputed with
            | true => exact absurd List.mem_cons_self (hstored argv expired)
            | false => rfl
      rw [hzero, Nat.cast_zero, add_zero]
      exact hrest fun c hc => hsigned c (List.mem_cons_of_mem _ hc)

/-- What an orderly transaction leaves, before `EXEC` itself is fed. -/
theorem execTransaction_spec (always : Bool) (client : ℕ) (q : List Command) {s : Server}
    (h : Level s.feeds .outside) (hm : s.feeds.masterhost = false) (ho : Orderly s q) :
    let s' := execTransaction always client q s
    Restored s s' ∧ s'.force = s.force ∧
      (q.dropWhile Command.lazy = [] → Level s'.feeds .outside ∧ s'.dirty ≤ s.dirty) ∧
      (q.dropWhile Command.lazy ≠ [] → s.dirty < s'.dirty ∧ At s'.feeds.aof (.inside (some client)) ∧
        At s'.feeds.backlog (if s'.feeds.masterhost then .outside else .inside (some client))) := by
  have hlazy : ∀ c ∈ q.takeWhile Command.lazy, c.lazy = true := fun c hc => List.mem_takeWhile_imp hc
  obtain ⟨s1, hs1⟩ : ∃ s1, s1 = callAll always ⟨some client, true⟩ (q.takeWhile Command.lazy) s := ⟨_, rfl⟩
  have hearly : CalledAll .outside (q.takeWhile Command.lazy) s s1 := by
    rw [hs1]
    exact callAll_early always (some client) _ h hlazy ho.stored ho.signed
  simp only [execTransaction, execQueued_false, ← hs1, hm, Bool.not_false]
  by_cases hlate : q.dropWhile Command.lazy = []
  · rw [if_pos hlate]
    refine ⟨hearly.restored, hearly.force, fun _ => ⟨hearly.level, ?_⟩, fun hne => absurd hlate hne⟩
    show s1.dirty ≤ s.dirty
    rw [hearly.dirty]
    exact dirtyAfter_lazy _ hlazy ho.stored ho.signed
  · rw [if_neg hlate]
    obtain ⟨s2, hs2⟩ : ∃ s2, s2 = { s1 with feeds := execCommandPropagateMulti ⟨some client, true⟩ s1.feeds } := ⟨_, rfl⟩
    obtain ⟨s3, hs3⟩ : ∃ s3, s3 = callAll always ⟨some client, true⟩ (q.dropWhile Command.lazy) s2 := ⟨_, rfl⟩
    have hsw2 : s2.feeds.switches = switchesAfter s.feeds.switches (q.takeWhile Command.lazy) := by
      rw [hs2, ← hearly.switches]
      exact switches_propagate ..
    have hlevel2 : Level s2.feeds (.inside (some client)) := by
      rw [hs2]
      refine hearly.level.all rfl fun hb => ?_
      have hmaster := ho.master hlate
      rw [← hearly.switches] at hmaster
      exact hmaster hb
    have hlast : CalledAll (.inside (some client)) (q.dropWhile Command.lazy) s2 s3 := by
      rw [hs3]
      refine callAll_late always (some client) _ hlevel2 fun q1 c q2 hq => ?_
      rw [hsw2, ← switchesAfter_append]
      exact ho.begun q1 c q2 hq
    have hdirty : s.dirty ≤ s3.dirty := by
      have hall := le_dirtyAfter (D := s.dirty) (d := s.dirty) q (by omega) (ho.counted hlate)
      rw [← List.takeWhile_append_dropWhile (p := Command.lazy) (l := q), dirtyAfter_append, ← hearly.dirty] at hall
      rw [hlast.dirty, hs2]
      exact hall
    have hrestored : Restored s s3 := by
      refine hearly.restored.trans (Restored.trans ?_ hlast.restored)
      rw [hs2]
      exact ⟨rfl, rfl, rfl⟩
    have hforce : s3.force = s.force := by
      rw [hlast.force, hs2]
      exact hearly.force
    rw [← hs2, ← hs3, if_pos rfl]
    cases hrole : s3.feeds.masterhost with
    | false =>
      rw [if_neg (by simp)]
      refine ⟨⟨hrestored.prevent, hrestored.argv, hrestored.also⟩, hforce, fun hnil => absurd hnil hlate, fun _ => ⟨?_, hlast.level.aof, ?_⟩⟩
      · show s.dirty < s3.dirty + 1
        omega
      · show At s3.feeds.backlog (if s3.feeds.masterhost then _ else _)
        rw [hrole]
        exact hlast.level.backlog
    | true =>
      rw [if_pos (by simp)]
      refine ⟨⟨hrestored.prevent, hrestored.argv, hrestored.also⟩, hforce, fun hnil => absurd hnil hlate, fun _ => ⟨?_, hlast.level.aof, ?_⟩⟩
      · show s.dirty < s3.dirty + 1
        omega
      · show At (s3.feeds.backlog.map _) (if true = true then _ else _)
        rw [if_pos rfl]
        exact hlast.level.backlog.append (by simp [check])

/-- **A transaction** that is orderly is fed between `MULTI` and `EXEC`. -/
theorem exec_level (always : Bool) (client : ℕ) (m : MultiState) (argv : List Sds)
    (h : Level s.feeds .outside) (hm : s.feeds.masterhost = false)
    (ho : m.multi = true → (m.dirtyCas || m.dirtyExec) = false → Orderly s m.commands) :
    Level (call ⟨some client, true⟩ false PROPAGATE_ALL (fun _ => .exec) argv (execCommand always client m) s).feeds
      .outside := by
  obtain ⟨s0, hs0⟩ : ∃ s0 : Server, s0 =
    { s with force := PROPAGATE_NONE, prevent := PROPAGATE_NONE, argv := argv, also := [] } := ⟨_, rfl⟩
  have h0 : Level s0.feeds .outside := by rw [hs0]; exact h
  have hskip : execCommand always client m s0 = s0 →
      Level (call ⟨some client, true⟩ false PROPAGATE_ALL (fun _ => .exec) argv (execCommand always client m) s).feeds
        .outside := by
    intro hproc
    rw [hs0] at hproc h0
    rw [call_silent _ hproc le_rfl rfl rfl]
    exact h0
  by_cases hmulti : m.multi = true
  · by_cases hdirty : (m.dirtyCas || m.dirtyExec) = true
    · exact hskip (by rw [execCommand, hmulti, hdirty]; rfl)
    · have ho0 : Orderly s0 m.commands := by
        have ho := ho hmulti (by simpa using hdirty)
        rw [hs0]
        exact ⟨ho.stored, ho.signed, ho.master, ho.begun, ho.counted⟩
      obtain ⟨s1, hs1⟩ : ∃ s1, s1 = execTransaction always client m.commands s0 := ⟨_, rfl⟩
      have hproc : execCommand always client m s0 = s1 := by
        rw [execCommand, hmulti, if_neg (by simp), if_neg hdirty, hs1]
      obtain ⟨hrestored, hforce, hsilent, hfed⟩ :=
        execTransaction_spec always client m.commands h0 (by rw [hs0]; exact hm) ho0
      rw [← hs1] at hrestored hforce hsilent hfed
      have halso : s1.also = [] := by rw [hrestored.also, hs0]
      have hf : s1.force = PROPAGATE_NONE := by rw [hforce, hs0]
      have hp : s1.prevent = PROPAGATE_NONE := by rw [hrestored.prevent, hs0]
      rw [hs0] at hproc
      by_cases hlate : m.commands.dropWhile Command.lazy = []
      · obtain ⟨hlevel, hle⟩ := hsilent hlate
        rw [call_silent _ hproc (by rw [hs0] at hle; exact hle) hf halso]
        exact hlevel
      · obtain ⟨hlt, haof, hbacklog⟩ := hfed hlate
        have hlt : s.dirty < s1.dirty := by
          rw [hs0] at hlt
          exact hlt
        have hfeeds : (call ⟨some client, true⟩ false PROPAGATE_ALL (fun _ => .exec) argv (execCommand always client m)
            s).feeds = propagate ⟨some client, true⟩ .exec PROPAGATE_ALL s1.feeds := by
          rw [call, hproc, halso, hf, hp]
          simp [hlt, PROPAGATE_ALL, PROPAGATE_NONE]
        rw [hfeeds]
        refine ⟨?_, ?_⟩
        · show At (replicationFeedSlaves _ (feedAppendOnlyFile _ s1.feeds)).aof .outside
          rw [replicationFeedSlaves_aof]
          exact haof.append (by simp [check])
        · show At (replicationFeedSlaves _ (feedAppendOnlyFile _ s1.feeds)).backlog .outside
          unfold replicationFeedSlaves
          cases hrole : s1.feeds.masterhost with
          | true =>
            rw [hrole] at hbacklog
            rw [if_pos (show (feedAppendOnlyFile _ s1.feeds).masterhost = true from hrole)]
            exact hbacklog
          | false =>
            rw [hrole] at hbacklog
            rw [if_neg (show ¬ (feedAppendOnlyFile _ s1.feeds).masterhost = true by
              rw [show (feedAppendOnlyFile _ s1.feeds).masterhost = false from hrole]; simp)]
            exact hbacklog.append (by simp [check])
  · exact hskip (by
      rw [Bool.not_eq_true] at hmulti
      rw [execCommand, hmulti]
      rfl)

/-! ### Runs -/

/-- A transaction that is executed is orderly. -/
def OrderlyEvent (s : System) : Event → Prop
  | .exec client => (s.clients client).multi = true →
    ((s.clients client).dirtyCas || (s.clients client).dirtyExec) = false → Orderly s.server (s.clients client).commands
  | _ => True

/-- Every transaction of a run is orderly. -/
def OrderlyRun (always : Bool) : System → List Event → Prop
  | _, [] => True
  | s, e :: es => s.server.feeds.masterhost = false → OrderlyEvent s e ∧ OrderlyRun always (serve always s e) es

theorem serve_level (always : Bool) {s : System} (h : Level s.server.feeds .outside)
    (hm : s.server.feeds.masterhost = false) (e : Event) (ho : OrderlyEvent s e) :
    Level (serve always s e).server.feeds .outside := by
  cases e with
  | command client c =>
    show Level (processCommand always client c s).server.feeds .outside
    rw [processCommand]
    split
    · exact h
    · exact (callCommand_level ⟨some client, false⟩ always c h (fun _ _ => hm) (fun hq => by cases hq)).level
  | exec client => exact exec_level always client (s.clients client) _ h hm ho
  | expire key => exact h.expire rfl
  | unblocked client argv flags => exact h.propagate rfl flags
  | ping argv => exact h.replication rfl
  | freeReplicationBacklog => exact ⟨h.aof, fun l hl => by cases hl⟩
  | _ => exact h

theorem run_level (always : Bool) (es : List Event) : ∀ {s : System}, Level s.server.feeds .outside →
    OrderlyRun always s es → Level (run always s es).server.feeds .outside := by
  induction es with
  | nil => exact fun h _ => h
  | cons e es ih =>
    intro s h ho
    rw [run]
    split
    · exact h
    · rename_i hm
      have hm : s.server.feeds.masterhost = false := by simpa using hm
      obtain ⟨he, hes⟩ := ho hm
      exact ih (serve_level always h hm e he) hes

/-- A master that has fed nothing, with the append only file on or off, and a backlog or none. -/
def start (aof backlog : Bool) : System :=
  { server := { feeds := ⟨if aof then some [] else none, if backlog then some [] else none, false⟩ } }

instance : DecidablePred WellBracketed := fun _ => inferInstanceAs (Decidable (_ = _))

def incr (key : String) : Command := .plain (.write true [sds "INCR", sds key] [.dirty 1])

/-- `SAVE` in a transaction has `EXEC` not fed, if there were changes before it. -/
def saveRun : List Event :=
  [.command 1 (incr "x"), .multi 1, .command 1 (incr "x"), .command 1 (.admin [sds "SAVE"] .rdbSave), .exec 1,
    .command 2 (incr "y")]

/-- `PFCOUNT` in a transaction is fed without `MULTI`, and then `EXEC` is. -/
def pfcountRun : List Event :=
  [.multi 1, .command 1 (.plain (.pfcount [sds "PFCOUNT", sds "x"] [] true)), .exec 1]

end RedisZk.Propagation
