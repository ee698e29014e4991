/-
# The timers, as runs of steps

`clusterCron`, `clusterBeforeSleep` and the two entry points of the ZooKeeper
link. The loop of the cron that reconnects the links frees nodes whose
handshake timed out while it walks over the table, so it needs that the nodes
still to come are still there (`cronReconnect_within`).

Key definitions: `ConnectOK`.
Key theorems: `clusterCron_does`, `clusterBeforeSleep_does`, `zklinkCron_moves`, `zklinkWatcher_moves`.
-/
import RedisZk.Cluster.PacketSteps

namespace RedisZk.Cluster

open Relation
open Stepwise (Within)

variable {st st' st'' : Server} {c : Ctx} {R : Set NodeName} {x : NodeName}

/-! ### Links -/

/-- A connection to the address of a node named after a process reaches that process. -/
def ConnectOK (R : Set NodeName) (st : Server) (env : Env) (p : NodePtr) : Prop :=
  ∀ peer, env.connect p = some peer → (st.heap p).name ∈ R → peer = (st.heap p).name

variable {p : NodePtr}

theorem Soft.newLink (st : Server) (l : ClusterLink) (hne : p ≠ st.myself)
    (hpeer : (st.heap p).name ∈ R → l.peer = (st.heap p).name) :
    Soft R st (st.modNode p fun n => { n with link := some l }) where
  table := by
    refine ⟨rfl, rfl, rfl, rfl, fun q => ?_⟩
    rw [modNode_heap]
    split
    · rename_i e
      rw [e]
      exact .of_eq rfl
    · exact .refl _
  rest := ⟨rfl, rfl, rfl, rfl, rfl, rfl, rfl, rfl, rfl, rfl, rfl, id⟩
  edges := by
    refine ⟨fun q k hk => ?_, fun _ _ => .inl, fun _ _ => .inl, fun hp => ?_⟩
    · rw [modNode_heap] at hk
      split at hk
      · rename_i e
        rw [e, ← Option.some.inj hk]
        exact .inr ⟨hne, hpeer⟩
      · exact .inl hk
    · rwa [modNode_heap_ne hne.symm] at hp

theorem clusterSendPing_frame {α : Type*} (env : Env) (st : Server) (peer : NodeName) (linkNode : Option NodePtr)
    (type : PingType) (φ : ClusterNode → α) (h : ∀ n t, φ { n with pingSent := t } = φ n) (q : NodePtr) :
    φ ((clusterSendPing env st peer linkNode type).heap q) = φ (st.heap q) := by
  unfold clusterSendPing
  extract_lets s1
  change φ (s1.heap q) = _
  dsimp only [s1]
  split
  · exact modNode_field φ (fun n => h n _) st _ q
  · rfl

theorem cronConnect_moves (env : Env) (hi : NodeInv c.R x st) (hne : p ≠ st.myself)
    (hconn : ConnectOK c.R st env p) :
    Moves c st (cronConnect env st p) ∧ ∀ q, ((cronConnect env st p).heap q).slaveof = (st.heap q).slaveof := by
  unfold cronConnect
  split
  · refine ⟨Soft.moves (.modData st p fun n => ?_), fun q => ?_⟩
    · exact ⟨.of_eq rfl, rfl, rfl⟩
    · refine modNode_field ClusterNode.slaveof ?_ st p q
      exact fun _ => rfl
  · rename_i peer hpeer
    extract_lets old s1 s2
    have h1 : Soft c.R st s1 := .newLink st _ hne fun h => hconn peer hpeer h
    have h2 : Moves c s1 s2 := clusterSendPing_moves (hi.moves h1.moves) env _ _ _
    have h3 : Soft c.R s2 (s2.modNode p fun n =>
        { n with pingSent := if old ≠ 0 then old else n.pingSent, flags := { n.flags with meet := false } }) :=
      .modNode s2 p ⟨rfl, rfl, rfl, rfl, rfl, rfl, rfl, rfl, rfl, rfl⟩ (.inl rfl) .inl
    refine ⟨(h1.moves.trans h2).trans h3.moves, fun q => ?_⟩
    have e1 : (s1.heap q).slaveof = (st.heap q).slaveof := (h1.table.core q).slaveof
    have e2 : (s2.heap q).slaveof = (s1.heap q).slaveof :=
      clusterSendPing_frame env s1 _ _ _ ClusterNode.slaveof (fun _ _ => rfl) q
    exact (h3.table.core q).slaveof.trans (e2.trans e1)

/-- One turn of the first loop: the node may be freed, no other one is. -/
theorem cronReconnectNode_within (env : Env) (hi : NodeInv c.R x st) (hp : p ∈ st.nodes)
    (hconn : ConnectOK c.R st env p) (hmaster : st.me.slaveof = none ∨ st.me.slaveof = c.master) :
    Within (Trims c st p) (fun _ => False) (cronReconnectNode env st p) := by
  have hself : Trims c st p st := ⟨.refl, rfl, fun _ hq _ => hq, fun _ _ => rfl, .inr rfl⟩
  unfold cronReconnectNode
  extract_lets n s1
  split
  · exact hself
  · rename_i hflags
    have hne : p ≠ st.myself := by
      intro e
      have hmy : n.flags.myself = true := (hi.table.myself_iff p hp).mpr e
      simp [hmy] at hflags
    have h1 : Soft c.R st s1 := .ite (fun _ => .of_eq rfl id) fun _ => .refl st
    have hheap : s1.heap = st.heap := by
      dsimp only [s1]
      split <;> rfl
    have hme : s1.me.slaveof = st.me.slaveof := by rw [Server.me, h1.table.myself, hheap, Server.me]
    have hp1 : p ∈ s1.nodes := h1.moves.mem hp
    have hkeep : ∀ s2, Trims c s1 p s2 → Trims c st p s2 := fun s2 h2 =>
      ⟨h1.moves.change.trans h2.changes, h2.myself.trans h1.table.myself,
        fun q hq hqp => h2.nodes q (h1.moves.mem hq) hqp,
        fun q hq => (h2.name q (h1.moves.mem hq)).trans (h1.table.core q).name, hme ▸ h2.slaveof⟩
    have hi1 := hi.moves h1.moves
    split
    · rename_i hexp
      refine Within.mono (clusterDelNode_within env hi1 hp1 (h1.table.myself ▸ hne) fun hso => ?_) hkeep fun _ => id
      rw [hme] at hso
      have hh : nodeInHandshake (s1.heap p) = true := by
        rw [handshakeExpired, Bool.and_eq_true] at hexp
        rw [hheap]
        exact hexp.1
      rcases hmaster with h | h
      · rw [h] at hso
        cases hso
      · exact ⟨hh, h.symm.trans hso⟩
    · split
      · have hconn1 : ConnectOK c.R s1 env p := by
          unfold ConnectOK
          rw [hheap]
          exact hconn
        obtain ⟨h2, hso⟩ := cronConnect_moves env hi1 (h1.table.myself ▸ hne) hconn1
        refine hkeep _ ⟨h2.change, h2.grows.myself, fun q hq _ => h2.mem hq, fun q hq => h2.name hi1 hq, .inr ?_⟩
        rw [Server.me, h2.grows.myself, hso, Server.me]
      · exact hkeep _ ⟨.refl, rfl, fun _ hq _ => hq, fun _ _ => rfl, .inr rfl⟩

/-- The first loop: every turn finds its node still in the table. -/
theorem cronReconnect_within (env : Env) (hi : NodeInv c.R x st) (hconn : ∀ p ∈ st.nodes, ConnectOK c.R st env p)
    (hmaster : st.me.slaveof = none ∨ st.me.slaveof = c.master) :
    Within (Changes c st) (fun _ => False) (st.nodes.foldlM (cronReconnectNode env) st) := by
  have hloop := Within.foldlM_pending (E := fun _ => False) (f := cronReconnectNode env)
    (Q := fun b => Changes c st b ∧ (b.me.slaveof = none ∨ b.me.slaveof = c.master))
    (G := fun p b => p ∈ b.nodes ∧ ConnectOK c.R b env p) st.nodes st hi.table.nodup ⟨.refl, hmaster⟩
    (fun p hp => ⟨hp, hconn p hp⟩) ?_
  · exact Within.mono hloop (fun _ h => h.1) fun _ => id
  · intro b ⟨hb, hm⟩ p _ ⟨hp, hc⟩
    refine Within.mono (cronReconnectNode_within env (hi.changes hb) hp hc hm) (fun b' h => ?_) fun _ => id
    refine ⟨⟨hb.trans h.changes, ?_⟩, fun q hne ⟨hq, hcq⟩ => ⟨h.nodes q hq hne, ?_⟩⟩
    · rcases h.slaveof with h' | h'
      · exact .inl h'
      · rw [h']
        exact hm
    · unfold ConnectOK
      rw [h.name q hq]
      exact hcq

/-! ### Pings and failure detection -/

theorem cronPingRandom_moves (env : Env) (hi : NodeInv c.R x st) : Moves c st (cronPingRandom env st) := by
  unfold cronPingRandom
  refine .ite (fun _ => .refl) fun _ => ?_
  extract_lets picks candidates oldest
  cases oldest with
  | none => exact .refl
  | some p =>
    dsimp only
    split
    · exact .refl
    · exact clusterSendPing_moves hi env _ _ _

theorem cronFlagFailing_moves (env : Env) (hi : NodeInv c.R x st) (hne : p ≠ st.myself) :
    Moves c st (cronFlagFailing env st p) := by
  unfold cronFlagFailing
  extract_lets fail s1
  have h1 : Soft c.R st s1 := .modFlags st p (fun g => by split <;> exact ⟨rfl, rfl, rfl, rfl⟩) fun _ => .inr hne
  exact .ite (fun _ => h1.moves.trans (clusterSendFail_moves (hi.moves h1.moves) env _)) fun _ => h1.moves

theorem cronTimeout_moves (env : Env) (hi : NodeInv c.R x st) (hne : p ≠ st.myself) (n : ClusterNode) :
    Moves c st (cronCheckFailing.cronTimeout env p st n).1 := by
  unfold cronCheckFailing.cronTimeout
  split
  · exact .refl
  · split
    · exact cronFlagFailing_moves env hi hne
    · exact .refl

theorem cronCheckFailing_moves (env : Env) (hi : NodeInv c.R x st) (hne : p ≠ st.myself) :
    Moves c st (cronCheckFailing env st p).1 := by
  unfold cronCheckFailing
  extract_lets n half stale s1
  have h1 : Soft c.R st s1 := by
    refine .ite (fun _ => ?_) fun _ => .refl st
    exact .modNode st p ⟨rfl, rfl, rfl, rfl, rfl, rfl, rfl, rfl, rfl, rfl⟩ (.inr rfl) .inl
  have hi1 := hi.moves h1.moves
  have hne1 : p ≠ s1.myself := h1.table.myself ▸ hne
  have htime := cronTimeout_moves env hi1 hne1 n
  refine h1.moves.trans ?_
  split
  · rename_i l _
    have hping := clusterSendPing_moves hi1 env l.peer (some p) .ping
    split
    · exact hping
    · split
      · exact hping
      · exact htime
  · exact htime

theorem cronCheckNode_moves (env : Env) {s : CronScan} (hi : NodeInv c.R x s.st) (hp : p ∈ s.st.nodes) :
    Moves c s.st (cronCheckNode env s p).st := by
  unfold cronCheckNode
  extract_lets n okslaves s1
  split
  · exact .refl
  · rename_i hflags
    have hne : p ≠ s.st.myself := by
      intro e
      have hmy : n.flags.myself = true := (hi.table.myself_iff p hp).mpr e
      simp [hmy] at hflags
    have hst : s1.st = s.st := by
      dsimp only [s1]
      split <;> rfl
    have h := cronCheckFailing_moves env hi hne
    rw [← hst] at h ⊢
    exact h

/-! ### `clusterCron` and `clusterBeforeSleep` -/

theorem cronSlave_does (env : Env) {s : CronScan} (hi : NodeInv c.R x s.st) : Does c s.st (cronSlave env s) := by
  unfold cronSlave
  extract_lets s1 s2 rest
  have h1 : Soft c.R s.st s1 := manualFailoverCheckTimeout_soft env s.st
  have h2 : Soft c.R s1 s2 := clusterHandleManualFailover_soft env s1
  split
  · have hi2 := hi.moves (h1.trans h2).moves
    refine Stepwise.Does.trans (h1.trans h2).moves (Within.ite_bind (fun _ => Stepwise.Does.ok .refl)
      (fun _ => clusterHandleSlaveFailover_does env hi2) fun b (hb : Moves c s2 b) => Stepwise.Does.trans hb ?_)
    exact .ite (clusterHandleSlaveMigration_does env (hi2.moves hb) _) (Stepwise.Does.ok .refl)
  · exact Stepwise.Does.ok h1.moves

theorem clusterCron_does (env : Env) (hi : NodeInv c.R x st) (hconn : ∀ p ∈ st.nodes, ConnectOK c.R st env p)
    (hmaster : c.master = st.me.slaveof) : DoesChange c st (clusterCron env st) := by
  unfold clusterCron
  extract_lets s1
  have h1 : Soft c.R st s1 := clusterUpdateMyselfFlags_soft env st
  have h2 : Soft c.R s1 { s1 with statsPfailNodes := 0 } := .of_eq rfl id
  have h12 := (h1.trans h2).moves
  have hi2 := hi.moves h12
  have hme : ({ s1 with statsPfailNodes := 0 } : Server).me.slaveof = st.me.slaveof := by
    rw [Server.me, (h1.trans h2).table.myself, ((h1.trans h2).table.core _).slaveof, Server.me]
  have hloop := cronReconnect_within (c := c) env hi2 (fun p hp => by
    unfold ConnectOK
    rw [((h1.trans h2).table.core p).name]
    exact hconn p ((h1.trans h2).table.nodes ▸ hp)) (.inr (hme.trans hmaster.symm))
  refine Stepwise.Does.trans h12.change (Within.bind (Within.mono hloop (fun _ => id) fun _ h => h.elim) fun b hb => ?_)
  refine Stepwise.Does.trans hb (Does.change ?_)
  have hib := hi2.changes hb
  extract_lets s3 s4
  have h3 : Moves c b s3 := cronPingRandom_moves env hib
  have h4 : Moves c s3 s4.st := by
    refine Stepwise.foldl_invariant (Q := fun s : CronScan => Moves c s3 s.st) s3.nodes ⟨s3, 0, 0, 0, false⟩ .refl ?_
    intro s hs p hp
    exact hs.trans (cronCheckNode_moves env ((hib.moves h3).moves hs) (hs.mem hp))
  refine Stepwise.Does.trans (h3.trans h4) (Stepwise.Does.bind (cronSlave_does env ((hib.moves h3).moves h4))
    fun b' _ => Stepwise.Does.ok ?_)
  exact Moves.ite (fun _ => (clusterUpdateState_soft env b').moves) fun _ => .refl

theorem clusterBeforeSleep_does (env : Env) (hi : NodeInv c.R x st) : Does c st (clusterBeforeSleep env st) := by
  unfold clusterBeforeSleep
  extract_lets rest
  refine Within.ite_bind (fun _ => clusterHandleSlaveFailover_does env hi) (fun _ => Stepwise.Does.ok .refl)
    fun b (hb : Moves c st b) => Stepwise.Does.trans hb ?_
  dsimp -zeta only [rest]
  extract_lets s1 s2
  have h1 : Moves c b s1 := .ite (fun _ => (clusterUpdateState_soft env b).moves) fun _ => .refl
  have h2 : Moves c s1 s2 := .ite (fun _ => clusterSaveConfig_moves s1 _) fun _ => .refl
  have hsave : s2.todo.saveConfig = false := by
    dsimp only [s2]
    split
    · rfl
    · rename_i h
      simpa using h
  have h3 : Soft c.R s2 { s2 with todo := {} } := .of_eq rfl fun h => by simp [hsave] at h
  exact Stepwise.Does.ok ((h1.trans h2).trans h3.moves)

/-! ### The ZooKeeper link -/

theorem zklinkInitServer_eq (env : Env) (st : Server) (zkc : ZklinkClient) :
    ∃ o zk, zklinkInitServer env st zkc = { st with zklc := o, zk := zk } := by
  unfold zklinkInitServer
  extract_lets z
  split
  · exact ⟨_, _, rfl⟩
  · exact ⟨_, _, rfl⟩

theorem zklinkDelOldMasterPath_eq (env : Env) (st : Server) (zkc : ZklinkClient) :
    ∃ zk, (zklinkDelOldMasterPath env st zkc).1 = { st with zk := zk } := by
  unfold zklinkDelOldMasterPath
  split
  · exact ⟨st.zk, rfl⟩
  · exact ⟨_, rfl⟩

theorem zklinkCreatePath_eq (env : Env) (st : Server) (zkc : ZklinkClient) :
    ∃ zk, (zklinkCreatePath env st zkc).1 = { st with zk := zk } := by
  unfold zklinkCreatePath
  extract_lets path
  split
  · split
    · exact ⟨st.zk, rfl⟩
    · split
      · exact ⟨st.zk, rfl⟩
      · generalize zooDelete env st.zk zkc.zh path = r
        obtain ⟨rc, zk⟩ := r
        dsimp only
        split
        · exact ⟨zk, rfl⟩
        · exact ⟨zk, rfl⟩
      · exact ⟨st.zk, rfl⟩
  · have hcreate : ∀ (zk : ZkStore) (zkc : ZklinkClient), ∃ zk', (if zkc.zkCreatePath then ({ st with zk := zk }, zkc)
        else if (zooCreate env zk zkc.zh path).1 = .ok then
          ({ st with zk := (zooCreate env zk zkc.zh path).2 }, { zkc with zkCreatePath := true })
        else ({ st with zk := (zooCreate env zk zkc.zh path).2 }, zkc)).1 = { st with zk := zk' } := by
      intro zk zkc
      split
      · exact ⟨zk, rfl⟩
      · split
        · exact ⟨_, rfl⟩
        · exact ⟨_, rfl⟩
    by_cases htm : zkc.replacePathDelTm ≠ 0 ∧ zkc.replacePathDelTm < env.now
    · obtain ⟨zk, hs⟩ := zklinkDelOldMasterPath_eq env st zkc
      simp only [if_pos htm]
      rw [hs]
      exact hcreate zk { (zklinkDelOldMasterPath env st zkc).2 with replacePathDelTm := 0 }
    · simp only [if_neg htm]
      exact hcreate st.zk zkc

/-- The cron of the ZooKeeper link writes the client and the store only. -/
theorem zklinkCron_eq (env : Env) (st : Server) : ∃ o zk, zklinkCron env st = { st with zklc := o, zk := zk } := by
  unfold zklinkCron
  split
  · exact ⟨st.zklc, st.zk, rfl⟩
  · split
    · exact ⟨_, st.zk, rfl⟩
    · rename_i zkc _
      split
      · exact ⟨st.zklc, st.zk, rfl⟩
      · exact zklinkInitServer_eq env st zkc
      · exact zklinkInitServer_eq env st zkc
      · obtain ⟨zk, hs⟩ := zklinkCreatePath_eq env st zkc
        unfold zklinkUpdte
        generalize zklinkCreatePath env st zkc = r at hs
        obtain ⟨s1, zkc1⟩ := r
        dsimp only at hs ⊢
        rw [hs]
        exact ⟨_, zk, rfl⟩

theorem zklinkCron_moves (env : Env) (st : Server) (hzk : c.zkEvent) : Moves c st (zklinkCron env st) := by
  obtain ⟨o, zk, heq⟩ := zklinkCron_eq env st
  rw [heq]
  exact .single (.zookeeper st o zk hzk)

theorem setZklc_moves (st : Server) (zkc : ZklinkClient) (hzk : c.zkEvent) : Moves c st (st.setZklc zkc) :=
  .single (.zookeeper st (some zkc) st.zk hzk)

theorem zklinkWatcher_moves (env : Env) (hi : NodeInv c.R x st) (hzk : c.zkEvent) (type : ZooEvent) (state : ZooState)
    (path : ZkPath) : Moves c st (zklinkWatcher env st type state path) := by
  unfold zklinkWatcher
  split
  · exact .refl
  · rename_i zkc _
    refine .ite (fun _ => setZklc_moves st _ hzk) fun _ => .ite (fun _ => .refl) fun _ =>
      .ite (fun _ => setZklc_moves st _ hzk) fun _ => ?_
    unfold zklinkUpdateStateOnWatch
    refine .ite (fun _ => .refl) fun _ => ?_
    split
    · exact .refl
    · rename_i m _
      refine .ite (fun _ => .refl) fun _ => ?_
      extract_lets s1 s2
      have h1 : Moves c st s1 := setZklc_moves st _ hzk
      refine .ite (fun _ => ?_) fun _ => h1
      have h2 : Soft c.R s1 s2 := .modFlags s1 m (fun _ => ⟨rfl, rfl, rfl, rfl⟩) nofun
      exact (h1.trans h2.moves).trans (clusterSendFail_moves (hi.moves (h1.trans h2.moves)) env _)

end RedisZk.Cluster
