/-
# Failover through ZooKeeper: one winner, and the watch

Who creates the znode of a failed master replaces it, so there is one winner as
long as the znode stays. The client of a slave that watches names the master it had
when it asked for the watch (`WatchInv`).

Key definitions: `KeepsZnode`, `WatchInv`, `SameMasterWhileWatching`.
Key theorems: `zk_grow`, `zookeeper_exclusive`, `watch_follows_master`.
-/
import RedisZk.Cluster.Votes

namespace RedisZk.Cluster

open Relation

variable {st st' : Server} {c : Ctx} {R : Finset NodeName} {x y old : NodeName} {e : ℕ} {sys sys' : System}

/-! ### Events that do not come from ZooKeeper -/

/-- What lies outside the ZooKeeper link keeps every znode, and a slave that wins creates
one. -/
structure ZkGrow (st st' : Server) : Prop where
  keep : ∀ path, st.zk.has path = true → st'.zk.has path = true
  idle : st.zklc = none → st'.zklc = none
  won : ∀ old e, .replaceYourMaster old e .zookeeper ∈ st'.log → .replaceYourMaster old e .zookeeper ∈ st.log ∨
    (st.zklc ≠ none ∧ st.zk.has (oldMasterPath old) = false ∧ st'.zk.has (oldMasterPath old) = true)

theorem ZkGrow.same (hzk : st'.zk = st.zk) (hlog : st'.log = st.log) (hzkc : st'.zklc = st.zklc) : ZkGrow st st' :=
  ⟨fun _ => by rw [hzk]; exact id, by rw [hzkc]; exact id, fun _ _ => by rw [hlog]; exact .inl⟩

theorem ZkGrow.trans {st'' : Server} (h : ZkGrow st st') (h' : ZkGrow st' st'') : ZkGrow st st'' where
  keep path hp := h'.keep path (h.keep path hp)
  idle hno := h'.idle (h.idle hno)
  won old e hmem := by
    rcases h'.won old e hmem with hmem | ⟨hzkc, hno, hhas⟩
    · rcases h.won old e hmem with hmem | ⟨hzkc, hno, hhas⟩
      · exact .inl hmem
      · exact .inr ⟨hzkc, hno, h'.keep _ hhas⟩
    · refine .inr ⟨fun hn => hzkc (h.idle hn), ?_, hhas⟩
      rw [← Bool.not_eq_true] at hno ⊢
      exact fun hp => hno (h.keep _ hp)

/-- The log grows by an event other than a failover through ZooKeeper. -/
theorem ZkGrow.logEvent {ev : LogEvent} (hev : ∀ old e, ev ≠ .replaceYourMaster old e .zookeeper) :
    ZkGrow st (st.logEvent ev) where
  keep _ := id
  idle := id
  won old e hmem := by
    rcases List.mem_append.mp hmem with hmem | hmem
    · exact .inl hmem
    · exact absurd (List.mem_singleton.mp hmem).symm (hev old e)

theorem ZkGrow.move (hzk : ¬ c.zkEvent) (h : Move c st st') : ZkGrow st st' := by
  cases h with
  | soft h => exact .same h.rest.zk h.rest.log h.rest.zklc
  | reshape h => exact .same h.sameRest.zk h.sameRest.log h.sameRest.zklc
  | logKeys slots => exact .logEvent nofun
  | draw reason =>
    have hlog : ZkGrow st (st.logEvent (.epochDrawn reason (st.currentEpoch + 1) (knownEpochs st))) := .logEvent nofun
    exact ⟨hlog.keep, hlog.idle, hlog.won⟩
  | epochSet _ => exact .logEvent nofun
  | elect reason _ =>
    have hlog : ZkGrow st (st.logEvent (.epochDrawn reason (st.currentEpoch + 1) (knownEpochs st))) := .logEvent nofun
    exact ⟨hlog.keep, hlog.idle, hlog.won⟩
  | vote node l _ _ _ _ _ _ _ =>
    have hlog : ZkGrow st
        (st.logEvent (.authGranted (st.heap node).name st.currentEpoch (nodeIsMaster st.me) st.me.numslots)) :=
      .logEvent nofun
    exact ⟨hlog.keep, hlog.idle, hlog.won⟩
  | won _ _ => exact .logEvent nofun
  | replace old how hno _ =>
    refine .logEvent fun old' e heq => ?_
    injection heq with _ _ h3
    exact hno h3
  | zkLost zk hkeep => exact ⟨hkeep, id, fun _ _ => .inl⟩
  | zkWon zkc zk m tm _ hzkc hkeep hnew hhas =>
    have hsome : st.zklc ≠ none := by rw [hzkc]; exact nofun
    refine ⟨hkeep, fun hn => absurd hn hsome, fun old e hmem => ?_⟩
    rcases List.mem_append.mp hmem with hmem | hmem
    · exact .inl hmem
    · injection List.mem_singleton.mp hmem with h1 _ _
      rw [h1]
      exact .inr ⟨hsome, hnew, hhas⟩
  | zookeeper _ _ h => exact absurd h hzk
  | _ => exact .same rfl rfl rfl

theorem zk_grow (hzk : ¬ c.zkEvent) (h : Changes c st st') : ZkGrow st st' := by
  refine Stepwise.keeps (I := ZkGrow st) (fun a b ha hab => ha.trans ?_) h (.same rfl rfl rfl)
  rcases hab.sameRest_or with hs | hm
  · exact .same hs.zk hs.log hs.zklc
  · exact .move hzk hm

/-! ### Events that come from ZooKeeper -/

/-- What a watch event does: the client forgets its watch or its session, and nothing else
changes but a failure flag and the packets queued. -/
theorem zklinkWatcher_spec (env : Env) (st : Server) (type : ZooEvent) (state : ZooState) (path : ZkPath) :
    let st' := zklinkWatcher env st type state path
    st'.log = st.log ∧ st'.zk = st.zk ∧ SameTable st st' ∧ (st'.zklc = st.zklc ∨ ∃ zkc zkc', st.zklc = some zkc ∧
      st'.zklc = some zkc' ∧ (zkc'.zkOnWath = false ∨ zkc' = { zkc with zkstate := .connected })) := by
  intro st'
  dsimp only [st']
  unfold zklinkWatcher
  split
  · exact ⟨rfl, rfl, .refl st, .inl rfl⟩
  · rename_i zkc hzkc
    split
    · exact ⟨rfl, rfl, ⟨rfl, rfl, rfl, rfl, fun _ => .refl _⟩, .inr ⟨zkc, _, hzkc, rfl, .inl rfl⟩⟩
    · split
      · exact ⟨rfl, rfl, .refl st, .inl rfl⟩
      · split
        · exact ⟨rfl, rfl, ⟨rfl, rfl, rfl, rfl, fun _ => .refl _⟩, .inr ⟨zkc, _, hzkc, rfl, .inr rfl⟩⟩
        · unfold zklinkUpdateStateOnWatch
          split
          · exact ⟨rfl, rfl, .refl st, .inl rfl⟩
          · split
            · exact ⟨rfl, rfl, .refl st, .inl rfl⟩
            · rename_i m _
              split
              · exact ⟨rfl, rfl, .refl st, .inl rfl⟩
              · extract_lets s1 s2
                have h1 : SameTable st s1 := ⟨rfl, rfl, rfl, rfl, fun _ => .refl _⟩
                split
                · have h2 : Soft ∅ s1 s2 := .modFlags s1 m (fun _ => ⟨rfl, rfl, rfl, rfl⟩) nofun
                  obtain ⟨l, hl, -⟩ := broadcast_eq s2 (clusterBuildMessageHdr env s2 (.fail (s2.heap m).name))
                  unfold clusterSendFail
                  rw [hl]
                  have ht := h2.table
                  exact ⟨h2.rest.log, h2.rest.zk, ⟨ht.myself, ht.nodes, ht.nextPtr, ht.slots, ht.core⟩,
                    .inr ⟨zkc, _, hzkc, h2.rest.zklc, .inl rfl⟩⟩
                · exact ⟨rfl, rfl, h1, .inr ⟨zkc, _, hzkc, rfl, .inl rfl⟩⟩

/-! ### One winner -/

/-- The znode of the failed master `old` is not removed. -/
def KeepsZnode (old : NodeName) (sys : System) (_ : Event) (sys' : System) : Prop :=
  sys.zk.has (oldMasterPath old) = true → sys'.zk.has (oldMasterPath old) = true

/-- A process replaced `old` through ZooKeeper. -/
def ZkWinner (old : NodeName) (log : List LogEvent) : Prop := ∃ e, .replaceYourMaster old e .zookeeper ∈ log

structure ZkWinInv (R : Finset NodeName) (old : NodeName) (sys : System) : Prop extends SysInv R sys where
  has : ∀ x ∈ R, ZkWinner old (sys.node x).log → sys.zk.has (oldMasterPath old) = true
  unique : ∀ x ∈ R, ∀ y ∈ R, ZkWinner old (sys.node x).log → ZkWinner old (sys.node y).log → x = y

/-- A process whose log says no more than before. -/
theorem ZkWinInv.quiet (h : ZkWinInv R old sys) (hs : SysInv R sys')
    (hlog : ∀ x ∈ R, ∀ e, .replaceYourMaster old e .zookeeper ∈ (sys'.node x).log →
      .replaceYourMaster old e .zookeeper ∈ (sys.node x).log)
    (hkeep : sys.zk.has (oldMasterPath old) = true → sys'.zk.has (oldMasterPath old) = true) : ZkWinInv R old sys' := by
  have hwin : ∀ x ∈ R, ZkWinner old (sys'.node x).log → ZkWinner old (sys.node x).log := fun x hx ⟨e, he⟩ =>
    ⟨e, hlog x hx e he⟩
  exact ⟨hs, fun x hx hw => hkeep (h.has x hx (hwin x hx hw)), fun x hx y hy hwx hwy =>
    h.unique x hx y hy (hwin x hx hwx) (hwin y hy hwy)⟩

/-- Process `x` takes a turn that does not come from ZooKeeper. -/
theorem ZkWinInv.grow (h : ZkWinInv R old sys) (hs : SysInv R sys') {x : NodeName}
    (hnode : sys'.node = Function.update sys.node x st) (hzk : sys'.zk = st.zk) (hg : ZkGrow (sys.at x) st) :
    ZkWinInv R old sys' := by
  have hother : ∀ y, y ≠ x → sys'.node y = sys.node y := fun y hy => by rw [hnode, Function.update_of_ne hy]
  have hself : sys'.node x = st := by rw [hnode, Function.update_self]
  have hkeep : sys.zk.has (oldMasterPath old) = true → sys'.zk.has (oldMasterPath old) = true := by
    rw [hzk]
    exact hg.keep _
  by_cases hnew : ZkWinner old st.log ∧ ¬ ZkWinner old (sys.node x).log
  · -- a new winner: there was no znode, so no winner before
    obtain ⟨⟨e, he⟩, hno⟩ := hnew
    rcases hg.won old e he with hmem | ⟨-, hnone, hhas⟩
    · exact absurd ⟨e, hmem⟩ hno
    · have hnobody : ∀ y ∈ R, y ≠ x → ¬ ZkWinner old (sys'.node y).log := by
        intro y hy hyx hw
        rw [hother y hyx] at hw
        have hhas' := h.has y hy hw
        have hnone' : sys.zk.has (oldMasterPath old) = false := hnone
        rw [hhas'] at hnone'
        cases hnone'
      refine ⟨hs, fun _ _ _ => by rw [hzk]; exact hhas, fun a ha b hb hwa hwb => ?_⟩
      have hax : a = x := by
        by_contra hne
        exact hnobody a ha hne hwa
      have hbx : b = x := by
        by_contra hne
        exact hnobody b hb hne hwb
      rw [hax, hbx]
  · have hwin : ∀ y ∈ R, ZkWinner old (sys'.node y).log → ZkWinner old (sys.node y).log := by
      intro y hy hw
      by_cases hyx : y = x
      · rw [hyx, hself] at hw
        rw [hyx]
        by_contra hno
        exact hnew ⟨hw, hno⟩
      · rw [hother y hyx] at hw
        exact hw
    exact ⟨hs, fun y hy hw => hkeep (h.has y hy (hwin y hy hw)), fun a ha b hb hwa hwb =>
      h.unique a ha b hb (hwin a ha hwa) (hwin b hb hwb)⟩

theorem ZkWinInv.step {ev : Event} (h : ZkWinInv R old sys) (hn : sys.next R ev = some sys')
    (hkeep : KeepsZnode old sys ev sys') : ZkWinInv R old sys' := by
  have hs := h.toSysInv.step hn
  cases h.toSysInv.turn hn with
  | deliver i linkNode env pkt r hpkt hx hr heff =>
    cases r with
    | error a => exact h.quiet hs (fun _ _ _ => id) id
    | ok st =>
      refine h.grow hs rfl rfl ?_
      cases heff with
      | run hc => exact zk_grow id hc
      | count hm name p epoch _ _ =>
        obtain ⟨-, -, -, -, hlog, hzkc, hzk, -⟩ := countVote_epochs _ p epoch
        exact (zk_grow id hm.change).trans (.same hzk hlog hzkc)
  | handle x env input r hx hr hdoes =>
    cases r with
    | error a => exact h.quiet hs (fun _ _ _ => id) id
    | ok st =>
      by_cases hzk : (inputCtx R (sys.at x) input).zkEvent
      · -- an event of the ZooKeeper link writes no such line
        have hlog : st.log = (sys.node x).log := by
          rcases hzk with rfl | ⟨type, state, path, rfl⟩
          · obtain ⟨o, zk, heq⟩ := zklinkCron_eq env (sys.at x)
            have hst : st = zklinkCron env (sys.at x) := Except.ok.inj hr
            rw [hst, heq]
            rfl
          · have hst : st = zklinkWatcher env (sys.at x) type state path := Except.ok.inj hr
            rw [hst]
            exact (zklinkWatcher_spec env (sys.at x) type state path).1
        refine h.quiet hs (fun y hy e he => ?_) hkeep
        have he' : .replaceYourMaster old e .zookeeper ∈ (Function.update sys.node x st y).log := he
        rw [Function.update_apply] at he'
        split at he'
        · rename_i hyx
          rw [hyx, ← hlog]
          exact he'
        · exact he'
      · exact h.grow hs rfl rfl (zk_grow hzk hdoes)
  | write x hx _ =>
    refine h.quiet hs (fun y hy e he => ?_) id
    have he' : .replaceYourMaster old e .zookeeper ∈
      (Function.update sys.node x { sys.node x with sndbuf := [] } y).log := he
    rw [Function.update_apply] at he'
    split at he'
    · rename_i hyx
      rw [hyx]
      exact he'
    · exact he'
  | restart x env s st hx _ hboot hm =>
    refine h.grow hs rfl rfl (ZkGrow.trans ⟨fun _ => ?_, fun _ => hboot.zklc, fun _ _ => ?_⟩ (zk_grow id hm.change))
    · rw [hboot.zk]
      exact id
    · rw [hboot.log]
      exact .inl
  | lose i => exact h.quiet hs (fun _ _ _ => id) id
  | sessionEnd s => exact h.quiet hs (fun _ _ _ => id) hkeep

theorem ZkWinInv.init (h : Init R sys) : ZkWinInv R old sys := by
  have hno : ∀ x ∈ R, ¬ ZkWinner old (sys.node x).log := by
    intro x hx ⟨e, he⟩
    obtain ⟨env, prev, hlog, hconf, -, hstart⟩ := h.booted x hx
    have hspec := startServer_spec env prev hx hconf
    rw [hstart] at hspec
    obtain ⟨s, -, hb, hm⟩ := hspec
    rcases (zk_grow id hm.change).won old e he with hmem | ⟨hzkc, -⟩
    · rw [hb.log, hlog] at hmem
      cases hmem
    · exact hzkc hb.zklc
  exact ⟨.init h, fun x hx hw => absurd hw (hno x hx), fun x hx _ _ hw _ => absurd hw (hno x hx)⟩

/-- **Failover through ZooKeeper has one winner**, as long as the znode of the failed master
is not removed. -/
theorem zookeeper_exclusive {e' : ℕ} (h : ReachableIf R (KeepsZnode old) sys) (hx : x ∈ R) (hy : y ∈ R)
    (hwx : .replaceYourMaster old e .zookeeper ∈ (sys.node x).log)
    (hwy : .replaceYourMaster old e' .zookeeper ∈ (sys.node y).log) : x = y := by
  have hi : ZkWinInv R old sys := h.invariant (fun _ => ZkWinInv.init) fun _ _ _ _ hi hs => hi.step hs.1 hs.2
  exact hi.unique x hx y hy ⟨e, hwx⟩ ⟨e', hwy⟩

/-- A slave connects to ZooKeeper, watches its master, and fails over. -/
def zkFailoverRun (x : NodeName) (t : ℤ) : List Event :=
  [.handle x (sampleEnv t) .zkCron, .handle x (sampleEnv t) .zkCron,
   .handle x (sampleEnv t) (.zkEvent .session .connected []), .handle x (sampleEnv t) .zkCron,
   .handle x (sampleEnv t) .cron, .handle x (sampleEnv (t + 2000)) .cron]

def wonByZk (x : NodeName) (sys : System) : Bool :=
  decide (.replaceYourMaster failedMaster 4 .zookeeper ∈ (sys.node x).log)

/-- The znode of `old` is there, or was not before. -/
def keepsZnode (old : NodeName) (sys : System) (_ : Event) (sys' : System) : Bool :=
  !sys.zk.has (oldMasterPath old) || sys'.zk.has (oldMasterPath old)

theorem keepsZnode_spec (old : NodeName) (sys : System) (ev : Event) (sys' : System)
    (h : keepsZnode old sys ev sys' = true) : KeepsZnode old sys ev sys' := by
  intro hhas
  rw [keepsZnode, hhas] at h
  exact h

theorem zookeeper_exclusive_sample : ∃ sys y, ReachableIf shardProcesses (KeepsZnode failedMaster) sys ∧
    .replaceYourMaster failedMaster 4 .zookeeper ∈ (sys.node y).log ∧ slaveA = y := by
  obtain ⟨sys, hrun, htest⟩ := sampleShard_init.replay (keepsZnode_spec failedMaster) (zkFailoverRun slaveA 70000)
    (show Stepwise.replay _ _ (wonByZk slaveA) _ _ = true by rw [coldStart_sample]; decide +kernel)
  have hw := of_decide_eq_true htest
  exact ⟨sys, slaveA, hrun, hw, zookeeper_exclusive hrun slaveA_mem_shard slaveA_mem_shard hw hw⟩

/-- The event is none of the process `x`. -/
def sparing (x : NodeName) (sys : System) (ev : Event) (_ : System) : Bool :=
  match ev with
  | .deliver i _ _ => (sys.net[i]?).all fun pkt => decide (pkt.dst ≠ x)
  | .handle y .. => decide (y ≠ x)
  | .write y => decide (y ≠ x)
  | .restart y _ => decide (y ≠ x)
  | _ => true

/-- The session of the winner ends, its znode is gone, and the other slave wins as well; the
failed master stays down all the time. -/
theorem zookeeper_two_winners : ∃ sys,
    ReachableIf shardProcesses (fun s ev s' => sparing failedMaster s ev s' = true) sys ∧
    .replaceYourMaster failedMaster 4 .zookeeper ∈ (sys.node slaveA).log ∧
    .replaceYourMaster failedMaster 4 .zookeeper ∈ (sys.node slaveB).log ∧ slaveA ≠ slaveB := by
  obtain ⟨sys, hrun, htest⟩ := sampleShard_init.replay (fun _ _ _ => id)
    (zkFailoverRun slaveA 70000 ++ [.sessionEnd 0] ++ zkFailoverRun slaveB 80000)
    (show Stepwise.replay _ (sparing failedMaster) (fun s => wonByZk slaveA s && wonByZk slaveB s) _ _ = true by
      rw [coldStart_sample]
      decide +kernel)
  obtain ⟨hA, hB⟩ := Bool.and_eq_true_iff.mp htest
  exact ⟨sys, hrun, of_decide_eq_true hA, of_decide_eq_true hB, by decide⟩

/-! ### The watch -/

/-- The master a slave has. -/
def masterName (st : Server) : Option NodeName :=
  if nodeIsMaster st.me then none else st.me.slaveof.map fun m => (st.heap m).name

/-- `zk_on_wath` is set. -/
def watching (st : Server) : Bool :=
  match st.zklc with
  | none => false
  | some zkc => zkc.zkOnWath

/-- A client that watches is connected, and watches the master the slave has. -/
def WatchInv (st : Server) : Prop :=
  ∀ zkc, st.zklc = some zkc → zkc.zkOnWath = true → zkc.zkstate = .connected ∧
    ∀ n, masterName st = some n → zkc.replacePath = some n ∧ zkc.lastAwget = some (nodePath n)

/-- What the watch consists of. -/
def watchOf (zkc : ZklinkClient) : Bool × ZklinkState × Option NodeName × Option ZkPath :=
  (zkc.zkOnWath, zkc.zkstate, zkc.replacePath, zkc.lastAwget)

/-- No event gives a slave that watches another master. -/
def SameMasterWhileWatching (R : Finset NodeName) (sys : System) (_ : Event) (sys' : System) : Prop :=
  ∀ x ∈ R, watching (sys.node x) = true → ∀ n, masterName (sys'.node x) = some n → masterName (sys.node x) = some n

theorem WatchInv.congr (hzkc : st'.zklc.map watchOf = st.zklc.map watchOf)
    (hmaster : watching st = true → ∀ n, masterName st' = some n → masterName st = some n) (h : WatchInv st) :
    WatchInv st' := by
  intro zkc' hzkc' hon
  rw [hzkc', Option.map_some] at hzkc
  obtain ⟨zkc, hs, hw⟩ := Option.map_eq_some_iff.mp hzkc.symm
  obtain ⟨h1, h2, h3, h4⟩ : zkc.zkOnWath = zkc'.zkOnWath ∧ zkc.zkstate = zkc'.zkstate ∧
      zkc.replacePath = zkc'.replacePath ∧ zkc.lastAwget = zkc'.lastAwget := by simpa [watchOf] using hw
  obtain ⟨hconn, hname⟩ := h zkc hs (h1.trans hon)
  refine ⟨h2.symm.trans hconn, fun n hn => ?_⟩
  rw [← h3, ← h4]
  refine hname n (hmaster ?_ n hn)
  rw [watching, hs]
  exact h1.trans hon

/-- The watch changes in events that come from ZooKeeper only. -/
theorem watchOf_move (hzk : ¬ c.zkEvent) (h : Move c st st') : st'.zklc.map watchOf = st.zklc.map watchOf := by
  cases h with
  | soft h => rw [h.rest.zklc]
  | reshape h => rw [h.sameRest.zklc]
  | zkWon zkc zk m tm _ hzkc _ _ _ => simp [hzkc, watchOf]
  | zookeeper _ _ h => exact absurd h hzk
  | _ => rfl

theorem watchOf_changes (hzk : ¬ c.zkEvent) (h : Changes c st st') : st'.zklc.map watchOf = st.zklc.map watchOf := by
  refine Stepwise.keeps (I := fun a => a.zklc.map watchOf = st.zklc.map watchOf) (fun a b ha hab => ?_) h rfl
  rcases hab.sameRest_or with hs | hm
  · rw [hs.zklc]
    exact ha
  · exact (watchOf_move hzk hm).trans ha

theorem masterName_congr (hs : SameTable st st') : masterName st' = masterName st := by
  have hme : st'.me = st'.heap st.myself := congrArg st'.heap hs.myself
  unfold masterName
  rw [hme, nodeIsMaster, nodeIsMaster, (hs.core _).master, (hs.core _).slaveof]
  have hname : (fun m => (st'.heap m).name) = fun m => (st.heap m).name := funext fun m => (hs.core m).name
  rw [hname]
  rfl

theorem WatchInv.watcher (env : Env) (type : ZooEvent) (state : ZooState) (path : ZkPath) (h : WatchInv st) :
    WatchInv (zklinkWatcher env st type state path) := by
  obtain ⟨-, -, htable, hzkc⟩ := zklinkWatcher_spec env st type state path
  have hname := masterName_congr htable
  rcases hzkc with heq | ⟨zkc, zkc', hs, hs', hoff | rfl⟩
  · exact h.congr (congrArg _ heq) fun _ n hn => hname ▸ hn
  · intro z hz hon
    rw [hs'] at hz
    rw [← Option.some.inj hz, hoff] at hon
    cases hon
  · intro z hz hon
    rw [hs'] at hz
    rw [← Option.some.inj hz] at hon ⊢
    obtain ⟨-, hn⟩ := h zkc hs hon
    exact ⟨rfl, fun n hmn => hn n (hname ▸ hmn)⟩

/-- `zklinkCreatePath` leaves the watch alone; a slave keeps the path it would create. -/
theorem zklinkCreatePath_watch (env : Env) (st : Server) (zkc : ZklinkClient) :
    let r := zklinkCreatePath env st zkc
    r.2.zkOnWath = zkc.zkOnWath ∧ r.2.zkstate = zkc.zkstate ∧ r.2.lastAwget = zkc.lastAwget ∧
      (nodeIsSlave st.me = true → r.2.replacePath = zkc.replacePath) := by
  intro r
  dsimp only [r]
  unfold zklinkCreatePath
  extract_lets path
  split
  · split
    · exact ⟨rfl, rfl, rfl, fun _ => rfl⟩
    · split
      · exact ⟨rfl, rfl, rfl, fun _ => rfl⟩
      · generalize zooDelete env st.zk zkc.zh path = d
        obtain ⟨rc, zk⟩ := d
        dsimp only
        split
        · exact ⟨rfl, rfl, rfl, fun _ => rfl⟩
        · exact ⟨rfl, rfl, rfl, fun _ => rfl⟩
      · exact ⟨rfl, rfl, rfl, fun _ => rfl⟩
  · rename_i hns
    have hcreate : ∀ (s : Server) (z : ZklinkClient), z.zkOnWath = zkc.zkOnWath → z.zkstate = zkc.zkstate →
        z.lastAwget = zkc.lastAwget → ∀ r, r = (if z.zkCreatePath then (s, z)
          else if (zooCreate env s.zk z.zh path).1 = .ok then
            ({ s with zk := (zooCreate env s.zk z.zh path).2 }, { z with zkCreatePath := true })
          else ({ s with zk := (zooCreate env s.zk z.zh path).2 }, z)) →
        r.2.zkOnWath = zkc.zkOnWath ∧ r.2.zkstate = zkc.zkstate ∧ r.2.lastAwget = zkc.lastAwget := by
      intro s z h1 h2 h3 r hr
      rw [hr]
      split
      · exact ⟨h1, h2, h3⟩
      · split
        · exact ⟨h1, h2, h3⟩
        · exact ⟨h1, h2, h3⟩
    have hdel : ∀ z, z = (zklinkDelOldMasterPath env st zkc).2 →
        z.zkOnWath = zkc.zkOnWath ∧ z.zkstate = zkc.zkstate ∧ z.lastAwget = zkc.lastAwget := by
      intro z hz
      rw [hz, zklinkDelOldMasterPath]
      split
      · exact ⟨rfl, rfl, rfl⟩
      · exact ⟨rfl, rfl, rfl⟩
    have hall : ∀ r, r = zklinkCreatePath env st zkc →
        r.2.zkOnWath = zkc.zkOnWath ∧ r.2.zkstate = zkc.zkstate ∧ r.2.lastAwget = zkc.lastAwget := by
      intro r hr
      rw [zklinkCreatePath, if_neg hns] at hr
      by_cases htm : zkc.replacePathDelTm ≠ 0 ∧ zkc.replacePathDelTm < env.now
      · obtain ⟨h1, h2, h3⟩ := hdel _ rfl
        simp only [if_pos htm] at hr
        exact hcreate (zklinkDelOldMasterPath env st zkc).1
          { (zklinkDelOldMasterPath env st zkc).2 with replacePathDelTm := 0 } h1 h2 h3 r hr
      · simp only [if_neg htm] at hr
        exact hcreate st zkc rfl rfl rfl r hr
    have hr := hall (zklinkCreatePath env st zkc) rfl
    rw [zklinkCreatePath, if_neg hns] at hr
    exact ⟨hr.1, hr.2.1, hr.2.2, fun hs => absurd hs hns⟩

/-- A session starts anew for a client that does not watch. -/
theorem zklinkInitServer_watch (env : Env) (st : Server) {zkc : ZklinkClient} (hoff : zkc.zkOnWath = false) :
    WatchInv (zklinkInitServer env st zkc) := by
  intro z hz hon
  unfold zklinkInitServer at hz
  split at hz
  · rw [← Option.some.inj hz, hoff] at hon
    cases hon
  · rw [← Option.some.inj hz, hoff] at hon
    cases hon

theorem WatchInv.update (env : Env) (hi : NodeInv (R : Set NodeName) x st) {zkc : ZklinkClient}
    (hs : st.zklc = some zkc) (hconn : zkc.zkstate = .connected) (h : WatchInv st) :
    WatchInv (zklinkUpdte env st zkc) := by
  obtain ⟨hon, hstate, hget, hpath⟩ := zklinkCreatePath_watch env st zkc
  obtain ⟨zk, heq⟩ := zklinkCreatePath_eq env st zkc
  unfold zklinkUpdte
  generalize zklinkCreatePath env st zkc = r at hon hstate hget hpath heq
  obtain ⟨s1, z1⟩ := r
  dsimp only at hon hstate hget hpath heq ⊢
  intro z hz honz
  have hz' : zklinkWatchPath env s1 z1 = z := Option.some.inj hz
  have hname : masterName (s1.setZklc (zklinkWatchPath env s1 z1)) = masterName st := by
    rw [heq]
    rfl
  have hme : nodeIsMaster s1.me = nodeIsMaster st.me ∧
      s1.me.slaveof.map (fun m => (s1.heap m).name) = st.me.slaveof.map fun m => (st.heap m).name := by
    rw [heq]
    exact ⟨rfl, rfl⟩
  rw [hname]
  -- a client that goes on watching, or a master
  have hkeep : z1 = z → nodeIsMaster s1.me = true ∨ z1.zkOnWath = true → z.zkstate = .connected ∧
      ∀ n, masterName st = some n → z.replacePath = some n ∧ z.lastAwget = some (nodePath n) := by
    rintro rfl hcase
    refine ⟨hstate.trans hconn, fun n hn => ?_⟩
    have hnm : nodeIsMaster st.me = false := by
      by_contra hm
      rw [masterName, if_pos (by simpa using hm)] at hn
      cases hn
    have hon' : zkc.zkOnWath = true := by
      rcases hcase with hm | hw
      · rw [hme.1, hnm] at hm
        cases hm
      · exact hon ▸ hw
    have hslave : nodeIsSlave st.me = true := by
      rcases hi.me_master_or_slave with hm | hsl
      · rw [hnm] at hm
        cases hm
      · exact hsl
    rw [hpath hslave, hget]
    exact (h zkc hs hon').2 n hn
  unfold zklinkWatchPath at hz'
  split at hz'
  · rename_i hcase
    exact hkeep hz' (by simpa using hcase)
  · rename_i hno
    have hoff : z1.zkOnWath = false := by
      rw [Bool.or_eq_true, not_or] at hno
      simpa using hno.2
    split at hz'
    · rw [← hz', hoff] at honz
      cases honz
    · rename_i m hm
      split at hz'
      · rw [← hz', hoff] at honz
        cases honz
      · rw [← hz']
        refine ⟨hstate.trans hconn, fun n hn => ?_⟩
        have hname' : (st.me.slaveof.map fun m => (st.heap m).name) = some (s1.heap m).name := by
          rw [← hme.2, hm]
          rfl
        unfold masterName at hn
        split at hn
        · cases hn
        · rw [hname'] at hn
          rw [Option.some.inj hn]
          exact ⟨rfl, rfl⟩

theorem WatchInv.cron (env : Env) (hi : NodeInv (R : Set NodeName) x st) (h : WatchInv st) :
    WatchInv (zklinkCron env st) := by
  unfold zklinkCron
  split
  · exact h
  · split
    · intro z hz hon
      rw [← Option.some.inj hz] at hon
      cases hon
    · rename_i zkc hs
      have hoff : zkc.zkstate ≠ .connected → zkc.zkOnWath = false := by
        intro hne
        by_contra hon
        exact hne (h zkc hs (by simpa using hon)).1
      split
      · exact h
      · rename_i hstate
        exact zklinkInitServer_watch env st (hoff (by rw [hstate]; exact nofun))
      · rename_i hstate
        exact zklinkInitServer_watch env st (hoff (by rw [hstate]; exact nofun))
      · rename_i hstate
        exact h.update env hi hs hstate

/-! ### The watch of every process -/

structure WatchSys (R : Finset NodeName) (sys : System) : Prop extends SysInv R sys where
  watch : ∀ x ∈ R, WatchInv (sys.node x)

/-- A process without a client. -/
theorem WatchInv.none (h : st.zklc = .none) : WatchInv st := by
  intro z hz
  rw [h] at hz
  cases hz

theorem boot_zklc {s : Server} (hs : s.zklc = none) (hm : Moves { R := R } s st) : st.zklc = none :=
  (zk_grow id hm.change).idle hs

theorem WatchSys.step {ev : Event} (h : WatchSys R sys) (hn : sys.next R ev = some sys')
    (hsame : SameMasterWhileWatching R sys ev sys') : WatchSys R sys' := by
  refine ⟨h.toSysInv.step hn, ?_⟩
  have hput : ∀ {x : NodeName} {st : Server}, x ∈ R → sys'.node = (sys.put x (.ok st)).node →
      st.zklc.map watchOf = (sys.at x).zklc.map watchOf → WatchInv st := by
    intro x st hx hnode hw
    refine @WatchInv.congr (sys.at x) _ hw (fun hwatch n hmn => ?_) (h.watch x hx)
    refine hsame x hx hwatch n ?_
    rw [hnode]
    change masterName (Function.update sys.node x st x) = some n
    rw [Function.update_self]
    exact hmn
  cases h.toSysInv.turn hn with
  | deliver i linkNode env pkt r hpkt hx hr heff =>
    refine forall_put (P := fun _ st => WatchInv st) h.watch fun st hst _ => ?_
    subst hst
    refine hput hx rfl ?_
    cases heff with
    | run hc => exact watchOf_changes id hc
    | count hm name p epoch _ _ =>
      obtain ⟨-, -, -, -, -, hzkc, -, -⟩ := countVote_epochs _ p epoch
      rw [hzkc]
      exact watchOf_changes id hm.change
  | handle x env input r hx hr hdoes =>
    refine forall_put (P := fun _ st => WatchInv st) h.watch fun st hst _ => ?_
    subst hst
    by_cases hzk : (inputCtx R (sys.at x) input).zkEvent
    · have hat : WatchInv (sys.at x) := h.watch x hx
      rcases hzk with rfl | ⟨type, state, path, rfl⟩
      · have hst : st = zklinkCron env (sys.at x) := Except.ok.inj hr
        rw [hst]
        exact hat.cron env (h.node x hx).at
      · have hst : st = zklinkWatcher env (sys.at x) type state path := Except.ok.inj hr
        rw [hst]
        exact hat.watcher env type state path
    · exact hput hx rfl (watchOf_changes hzk hdoes)
  | write x hx _ => exact forall_update (P := fun _ st => WatchInv st) h.watch fun hx => h.watch x hx
  | restart x env s st hx _ hboot hm =>
    refine forall_put (P := fun _ st => WatchInv st) h.watch fun st' hst _ => ?_
    rw [← Except.ok.inj hst]
    exact .none (boot_zklc hboot.zklc hm)
  | lose _ => exact h.watch
  | sessionEnd _ => exact h.watch

theorem WatchSys.init (h : Init R sys) : WatchSys R sys where
  toSysInv := .init h
  watch := by
    intro x hx
    obtain ⟨env, prev, -, hconf, -, hstart⟩ := h.booted x hx
    have hspec := startServer_spec env prev hx hconf
    rw [hstart] at hspec
    obtain ⟨s, -, hb, hm⟩ := hspec
    exact .none (boot_zklc hb.zklc hm)

/-- A slave connects to ZooKeeper and watches its master. -/
def watchRun (x : NodeName) : List Event :=
  [.handle x (sampleEnv 0) .zkCron, .handle x (sampleEnv 0) .zkCron,
   .handle x (sampleEnv 0) (.zkEvent .session .connected []), .handle x (sampleEnv 0) .zkCron]

/-- `x` follows `m` and watches, with this `replace_path`. -/
def watchTest (x : NodeName) (m : NodePtr) (name : NodeName) (sys : System) : Bool :=
  decide ((sys.node x).me.slaveof = some m) &&
  (sys.node x).zklc.any fun zkc => zkc.zkOnWath && decide (zkc.replacePath = some name)

theorem watchTest_spec {m : NodePtr} {name : NodeName} (h : watchTest x m name sys = true) :
    (sys.node x).me.slaveof = some m ∧
      ∃ zkc, (sys.node x).zklc = some zkc ∧ zkc.zkOnWath = true ∧ zkc.replacePath = some name := by
  simp only [watchTest, Bool.and_eq_true, decide_eq_true_eq, Option.any_eq_true] at h
  obtain ⟨hm, zkc, hzkc, hon, hpath⟩ := h
  exact ⟨hm, zkc, hzkc, hon, hpath⟩

/-- The test of `SameMasterWhileWatching`. -/
def sameMaster (R : Finset NodeName) (sys : System) (_ : Event) (sys' : System) : Bool :=
  decide (∀ x ∈ R, watching (sys.node x) = true → masterName (sys'.node x) = masterName (sys.node x))

theorem sameMaster_spec (R : Finset NodeName) (sys : System) (ev : Event) (sys' : System)
    (h : sameMaster R sys ev sys' = true) : SameMasterWhileWatching R sys ev sys' := by
  intro x hx hwatch n hn
  rw [← of_decide_eq_true h x hx hwatch]
  exact hn

def replicateTest (sys : System) : Bool :=
  watchTest slaveA 3 failedMaster sys && decide (((sys.node slaveA).heap 3).name = masterV)

theorem nodePath_eq (a : NodeName) : nodePath a = 47 :: a.bytes.take 39 := rfl

theorem oldMasterPath_eq (a : NodeName) : oldMasterPath a = replacePrefix ++ a.bytes.take 39 := by
  rw [oldMasterPath, CLUSTER_NAMELEN, List.take_append, List.take_of_length_le (by decide)]
  rfl

theorem has_iff {z : ZkStore} {path : ZkPath} : z.has path = true ↔ path ∈ z.znodes.map Prod.fst := by
  simp [ZkStore.has]

/-- **The paths tell masters apart by 39 of the 40 bytes of their names.** Whose name agrees so far with that of the
master of a slave blocks its failover and is taken for it when the znode is deleted; no other does. -/
theorem paths_identify {env : Env} {m : NodePtr} {zkc : ZklinkClient} (hslave : nodeIsSlave st.me = true) (hrole : nodeIsMaster st.me = false)
    (hm : st.me.slaveof = some m) (hzkc : st.zklc = some zkc) (hpath : zkc.replacePath = some (st.heap m).name)
    (halive : st.zk.alive zkc.zh = true) (hok : env.zkFails = false) (hup : (st.heap m).flags.fail = false) {masters failed : List NodeName}
    (hnodes : st.zk.znodes.map Prod.fst = masters.map nodePath ++ failed.map oldMasterPath) :
    ((zklinkTryCreateOldMasterPath env st).2 = false ↔ ∃ b ∈ failed, b.bytes.take 39 = (st.heap m).name.bytes.take 39) ∧
      ∀ b, ((zklinkUpdateStateOnWatch env st zkc (nodePath b) .deleted).heap m).flags.fail = true ↔
        b.bytes.take 39 = (st.heap m).name.bytes.take 39 := by
  have hblocked : st.zk.has (oldMasterPath (st.heap m).name) = true ↔ ∃ b ∈ failed, b.bytes.take 39 = (st.heap m).name.bytes.take 39 := by
    rw [has_iff, hnodes]
    simp only [List.mem_append, List.mem_map, oldMasterPath_eq, nodePath_eq, List.append_cancel_left_eq]
    refine or_iff_right ?_
    rintro ⟨a, -, ha⟩
    have hlen := congrArg List.length ha
    simp [a.len, (st.heap m).name.len, CLUSTER_NAMELEN, replacePrefix] at hlen
  constructor
  · rw [← hblocked]
    simp [zklinkTryCreateOldMasterPath, hslave, hm, hzkc, hpath, zooCreate, halive, hok]
    split <;> simp [*]
  · intro b
    have hheap : ∀ st msg, (clusterBroadcastMessage st msg).heap = st.heap := fun st msg => by
      obtain ⟨l, hsend, -⟩ := broadcast_eq st msg
      rw [hsend]
    rw [zklinkUpdateStateOnWatch, if_neg (by simp [hrole]), hm]
    dsimp only
    by_cases hb : b.bytes.take 39 = (st.heap m).name.bytes.take 39
    · rw [if_neg (by simp [nodePath_eq, hb])]
      simp [clusterSendFail, hheap, Server.modFlags, hb]
    · rw [if_pos (by simpa [nodePath_eq] using hb), hup]
      simp [hb]

/-- The name of the failed master, but for its last byte. -/
def nearName : NodeName := ⟨List.replicate 39 109 ++ [110], by decide⟩

/-- A slave of the failed master during the failover of the other one. -/
def blockedSlave : Server :=
  { onDisk (layout [] 0 slaveA) with
    heap := fun p => if p = 0 then { ctime := 0, name := slaveA, flags := { slave := true }, slaveof := some 1 }
      else { ctime := 0, name := failedMaster, flags := { master := true } }
    zklc := some { zh := some 0, replacePath := some failedMaster }
    zk := { znodes := [(oldMasterPath nearName, 0)], sessions := [0] } }

theorem paths_identify_blocked :
    ((zklinkTryCreateOldMasterPath (sampleEnv 0) blockedSlave).2 = false ↔ ∃ b ∈ [nearName], b.bytes.take 39 = failedMaster.bytes.take 39) ∧
    ∀ b, ((zklinkUpdateStateOnWatch (sampleEnv 0) blockedSlave { zh := some 0, replacePath := some failedMaster } (nodePath b)
      .deleted).heap 1).flags.fail = true ↔ b.bytes.take 39 = failedMaster.bytes.take 39 :=
  @paths_identify blockedSlave (sampleEnv 0) 1 { zh := some 0, replacePath := some failedMaster } rfl rfl rfl rfl rfl rfl rfl rfl [] [nearName] rfl

end RedisZk.Cluster
