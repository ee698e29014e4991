/-
# The invariant of the cluster

In every reachable state every process is in a good state (`NodeInv`), and the
packets that left a process are packets a correct process sends. What a process
does with an event is a run of steps whose circumstances (`packetCtx`,
`inputCtx`) the event decides, or the count of one vote (`Effect`); with this,
invariants that follow are proved for the kinds of steps, not for the events.

Key definitions: `Effect`, `SysInv`.
Key theorems: `deliver_effect`, `input_effect`, `startServer_spec`, `SysInv.reachable`.
-/
import RedisZk.Cluster.System

namespace RedisZk.Cluster

open Relation
open Stepwise (Within)

variable {st st' : Server} {c : Ctx} {R : Finset NodeName} {x : NodeName} {sys sys' : System}

/-! ### What a process does with an event -/

/-- The outcome of an event at a process: a run of steps, an abort with its cause, or
the count of the vote the event brought. -/
inductive Effect (c : Ctx) (st : Server) : Except Abort Server → Prop
  | run {st' : Server} (h : Changes c st st') : Effect c st (.ok st')
  | fail {e : Abort} (h : Stepwise.Fails (Change c) Cause st e) : Effect c st (.error e)
  | count {s : Server} (h : Moves c st s) (name : NodeName) (p : NodePtr) (epoch : ℕ) (hread : HeaderRead st s name p)
      (hack : c.ack = some (name, epoch)) : Effect c st (.ok (countVote s p epoch))

theorem Effect.of_does {r : Except Abort Server} (h : DoesChange c st r) : Effect c st r := by
  cases r with
  | ok st' => exact .run h
  | error e => exact .fail h

theorem Effect.of_moves (h : Moves c st st') : Effect c st (.ok st') := .run h.change

theorem countVote_congr (s : Server) (p : NodePtr) (epoch : ℕ) :
    SameTable s (countVote s p epoch) ∧ Edges (R : Set NodeName) s (countVote s p epoch) ∧
      (countVote s p epoch).sndbuf = s.sndbuf ∧ (countVote s p epoch).conf = s.conf := by
  unfold countVote
  extract_lets n
  split
  · exact ⟨⟨rfl, rfl, rfl, rfl, fun _ => .refl _⟩, ⟨fun _ _ => .inl, fun _ _ => .inl, fun _ _ => .inl, id⟩, rfl, rfl⟩
  · exact ⟨.refl s, .refl s, rfl, rfl⟩

theorem countVote_epochs (s : Server) (p : NodePtr) (epoch : ℕ) :
    (countVote s p epoch).currentEpoch = s.currentEpoch ∧ (countVote s p epoch).lastVoteEpoch = s.lastVoteEpoch ∧
      (countVote s p epoch).failoverAuthEpoch = s.failoverAuthEpoch ∧
      (countVote s p epoch).failoverAuthSent = s.failoverAuthSent ∧ (countVote s p epoch).log = s.log ∧
      (countVote s p epoch).zklc = s.zklc ∧ (countVote s p epoch).zk = s.zk ∧
      (countVote s p epoch).todo.saveConfig = s.todo.saveConfig := by
  unfold countVote
  extract_lets n
  split
  · exact ⟨rfl, rfl, rfl, rfl, rfl, rfl, rfl, by simp [clusterDoBeforeSleep]⟩
  · exact ⟨rfl, rfl, rfl, rfl, rfl, rfl, rfl, rfl⟩

theorem Effect.nodeInv (h : Effect c st (.ok st')) (hR : c.R = R) (hi : NodeInv (R : Set NodeName) x st) :
    NodeInv (R : Set NodeName) x st' := by
  cases h with
  | run h =>
    rw [← hR] at hi ⊢
    exact hi.changes h
  | count h name p epoch _ _ =>
    rw [← hR] at hi ⊢
    obtain ⟨hs, he, hbuf, hconf⟩ := countVote_congr (R := R) _ p epoch
    rw [← hR] at he
    obtain ⟨hcur, -, hauth, -⟩ := countVote_epochs _ p epoch
    exact (hi.moves h).congr hs he hcur hauth (fun m hm => hbuf ▸ hm) hconf

/-! ### The circumstances of an event -/

def packetCtx (R : Finset NodeName) (st : Server) (msg : ClusterMsg) : Ctx where
  R := R
  request := if isAuthRequest msg then some (msg.sender, msg.currentEpoch) else none
  ack := if isAuthAck msg then some (msg.sender, msg.currentEpoch) else none
  master := st.me.slaveof
  selfDemote := msg.sender = st.me.name ∧ msg.slaveof ≠ none ∧ nodeIsMaster st.me = true

def inputCtx (R : Finset NodeName) (st : Server) (input : Input) : Ctx where
  R := R
  master := st.me.slaveof
  slaveSlots := (∃ slots, input = .command (.addslots slots)) ∧ nodeIsMaster st.me = false
  zkEvent := input = .zkCron ∨ ∃ type state path, input = .zkEvent type state path

theorem envOK_connect {env : Env} (h : envOK R st env = true) :
    env.randomName ∉ R ∧ ∀ p ∈ st.nodes, ConnectOK (R : Set NodeName) st env p := by
  unfold envOK at h
  rw [Bool.and_eq_true, decide_eq_true_eq, List.all_eq_true] at h
  refine ⟨h.1, fun p hp peer hpeer hR => ?_⟩
  have hp' := h.2 p hp
  rw [hpeer, decide_eq_true_eq] at hp'
  exact hp' hR

theorem deliver_effect {env : Env} {pkt : Packet} {linkNode : Option NodePtr} (hi : NodeInv (R : Set NodeName) x st)
    (hsrc : pkt.src ∈ R) (hmsg : MsgOK (R : Set NodeName) pkt.src pkt.msg) (henv : envOK R st env = true)
    (hlink : linkOK st pkt linkNode = true) :
    Effect (packetCtx R st pkt.msg) st (clusterProcessPacket env st pkt.src linkNode pkt.msg) := by
  have hsender := hmsg.sender
  have hok : PacketOK (packetCtx R st pkt.msg) x st env linkNode pkt.msg := by
    refine ⟨hsender.symm ▸ hmsg, ?_, (envOK_connect henv).1, rfl, fun p hp => ?_, fun h => if_pos h, fun h hso hm => ?_⟩
    · rw [hsender]
      exact hsrc
    · rw [hp, linkOK, Bool.and_eq_true, Bool.and_eq_true, decide_eq_true_eq] at hlink
      obtain ⟨⟨hmem, hpong⟩, hpeer⟩ := hlink
      refine ⟨hmem, ?_, ?_⟩
      · unfold isPong at hpong
        split at hpong
        · exact ⟨_, by assumption⟩
        · cases hpong
      · split at hpeer
        · cases hpeer
        · rename_i l hl
          exact ⟨l, hl, by rw [hsender]; simpa using hpeer⟩
    · exact ⟨h.trans hi.table.me_name.symm, hso, hm⟩
  by_cases hack : isAuthAck pkt.msg = true
  · obtain ⟨s1, hm, heq | ⟨p, hread, heq⟩⟩ := clusterProcessPacket_ack env hi pkt.src hok hack
    · rw [heq]
      exact .of_moves hm
    · rw [heq]
      exact .count hm _ p _ hread (if_pos hack)
  · exact .of_does (clusterProcessPacket_does env hi pkt.src hok (by simpa using hack))

theorem input_effect {env : Env} (hi : NodeInv (R : Set NodeName) x st) (henv : envOK R st env = true)
    (input : Input) : DoesChange (inputCtx R st input) st (handleInput env st input) := by
  obtain ⟨hrandom, hconn⟩ := envOK_connect henv
  cases input with
  | cron => exact clusterCron_does env hi hconn rfl
  | beforeSleep => exact (clusterBeforeSleep_does env hi).change
  | command cmd =>
    have hok : CommandOK (inputCtx R st (.command cmd)) st env cmd := by
      refine ⟨hrandom, fun slots h => ?_⟩
      by_cases hm : nodeIsMaster st.me = true
      · exact .inl hm
      · exact .inr ⟨⟨slots, by rw [h]⟩, by simpa using hm⟩
    have hdoes := clusterCommand_does env hi cmd hok
    change DoesChange _ st ((clusterCommand env st cmd).map Prod.fst)
    cases hr : clusterCommand env st cmd with
    | ok o =>
      rw [hr] at hdoes
      exact hdoes
    | error e =>
      rw [hr] at hdoes
      exact hdoes
  | publish => exact Stepwise.Does.ok (clusterPropagatePublish_moves hi env).change
  | linkError p => exact Stepwise.Does.ok (freeClusterLink_soft st p).moves.change
  | zkCron =>
    have hzk : (inputCtx R st .zkCron).zkEvent := .inl rfl
    exact Stepwise.Does.ok (zklinkCron_moves env st hzk).change
  | zkEvent type state path =>
    have hzk : (inputCtx R st (.zkEvent type state path)).zkEvent := .inr ⟨type, state, path, rfl⟩
    exact Stepwise.Does.ok (zklinkWatcher_moves env hi hzk type state path).change

/-- A process that starts takes inert steps after nodes.conf is loaded. -/
theorem startServer_spec (env : Env) (prev : Server) (hx : x ∈ R) (hconf : ConfOK (R : Set NodeName) x prev.conf) :
    Within (fun st => ∃ s, NodeInv (R : Set NodeName) x s ∧ Booted prev s ∧ Moves { R := R } s st) (fun _ => False)
      (startServer env prev) := by
  unfold startServer
  refine Within.bind (clusterInit_inv env prev hx hconf) fun s ⟨hi, hb⟩ => ?_
  exact ⟨s, hi, hb, verifyClusterConfigWithData_moves (c := { R := R }) env hi⟩

/-! ### The invariant -/

structure SysInv (R : Finset NodeName) (sys : System) : Prop where
  node : ∀ x ∈ R, NodeInv (R : Set NodeName) x (sys.node x)
  wire : ∀ pkt ∈ sys.wire, pkt.src ∈ R ∧ MsgOK (R : Set NodeName) pkt.src pkt.msg
  net : ∀ pkt ∈ sys.net, pkt ∈ sys.wire

/-- The invariant does not see the ZooKeeper service. -/
theorem NodeInv.at {R : Set NodeName} (h : NodeInv R x (sys.node x)) : NodeInv R x (sys.at x) :=
  h.congr ⟨rfl, rfl, rfl, rfl, fun _ => .refl _⟩ ⟨fun _ _ => .inl, fun _ _ => .inl, fun _ _ => .inl, id⟩ rfl rfl
    (fun _ => id) rfl

/-- What an event does to the cluster. -/
inductive Turn (R : Finset NodeName) (sys : System) : Event → System → Prop
  | deliver (i : ℕ) (linkNode : Option NodePtr) (env : Env) (pkt : Packet) (r : Except Abort Server)
      (hpkt : sys.net[i]? = some pkt) (hx : pkt.dst ∈ R)
      (hr : r = clusterProcessPacket env (sys.at pkt.dst) pkt.src linkNode pkt.msg)
      (heff : Effect (packetCtx R (sys.at pkt.dst) pkt.msg) (sys.at pkt.dst) r) :
      Turn R sys (.deliver i linkNode env) { sys.put pkt.dst r with net := sys.net.eraseIdx i }
  | handle (x : NodeName) (env : Env) (input : Input) (r : Except Abort Server) (hx : x ∈ R)
      (hr : r = handleInput env (sys.at x) input)
      (hdoes : DoesChange (inputCtx R (sys.at x) input) (sys.at x) r) :
      Turn R sys (.handle x env input) (sys.put x r)
  | write (x : NodeName) (hx : x ∈ R) (hsave : (sys.node x).todo.saveConfig = false) :
      Turn R sys (.write x) { sys with
        node := Function.update sys.node x { sys.node x with sndbuf := [] }
        net := sys.net ++ sys.queued x
        wire := sys.wire ++ sys.queued x }
  | restart (x : NodeName) (env : Env) (s st : Server) (hx : x ∈ R) (hs : NodeInv (R : Set NodeName) x s)
      (hboot : Booted (sys.at x) s) (hm : Moves { R := R } s st) :
      Turn R sys (.restart x env) (sys.put x (.ok st))
  | lose (i : ℕ) : Turn R sys (.lose i) { sys with net := sys.net.eraseIdx i }
  | sessionEnd (s : SessionId) : Turn R sys (.sessionEnd s) { sys with zk := sys.zk.endSession s }

theorem SysInv.turn {e : Event} (h : SysInv R sys) (hn : sys.next R e = some sys') : Turn R sys e sys' := by
  cases e with
  | deliver i linkNode env =>
    rw [System.next] at hn
    split at hn
    · cases hn
    · rename_i pkt hpkt
      dsimp only at hn
      split at hn
      · rename_i hcond
        obtain ⟨hx, -, henv, hlink⟩ := hcond
        obtain ⟨hsrc, hmsg⟩ := h.wire pkt (h.net pkt (List.mem_of_getElem? hpkt))
        rw [← Option.some.inj hn]
        exact .deliver i linkNode env pkt _ hpkt hx rfl (deliver_effect (h.node _ hx).at hsrc hmsg henv hlink)
      · cases hn
  | handle x env input =>
    rw [System.next] at hn
    split at hn
    · rename_i hcond
      rw [← Option.some.inj hn]
      exact .handle x env input _ hcond.1 rfl (input_effect (h.node _ hcond.1).at hcond.2.2 input)
    · cases hn
  | write x =>
    rw [System.next] at hn
    split at hn
    · rename_i hcond
      rw [← Option.some.inj hn]
      exact .write x hcond.1 hcond.2.2
    · cases hn
  | restart x env =>
    rw [System.next] at hn
    split at hn
    · rename_i hx
      have hspec := startServer_spec env (sys.at x) hx (h.node x hx).conf
      rw [← Option.some.inj hn]
      cases hr : startServer env (sys.at x) with
      | ok st =>
        rw [hr] at hspec
        obtain ⟨s, hs, hboot, hm⟩ := hspec
        exact .restart x env s st hx hs hboot hm
      | error e =>
        rw [hr] at hspec
        exact hspec.elim
    · cases hn
  | lose i =>
    rw [← Option.some.inj hn]
    exact .lose i
  | sessionEnd s =>
    rw [← Option.some.inj hn]
    exact .sessionEnd s

/-- An update at one process. -/
theorem forall_update {P : NodeName → Server → Prop} {f : NodeName → Server} {x : NodeName} {st : Server}
    (h : ∀ y ∈ R, P y (f y)) (hst : x ∈ R → P x st) : ∀ y ∈ R, P y (Function.update f x st y) := by
  intro y hy
  rw [Function.update_apply]
  split
  · rename_i e
    rw [e] at hy ⊢
    exact hst hy
  · exact h y hy

theorem forall_put {P : NodeName → Server → Prop} {r : Except Abort Server} (h : ∀ y ∈ R, P y (sys.node y))
    (hr : ∀ st, r = .ok st → x ∈ R → P x st) : ∀ y ∈ R, P y ((sys.put x r).node y) := by
  cases r with
  | ok st => exact forall_update h fun hx => hr st rfl hx
  | error e => exact h

theorem SysInv.put {r : Except Abort Server} (h : SysInv R sys)
    (hr : ∀ st, r = .ok st → NodeInv (R : Set NodeName) x st) : SysInv R (sys.put x r) := by
  cases r with
  | ok st => exact ⟨forall_update h.node fun _ => hr st rfl, h.wire, h.net⟩
  | error e => exact ⟨h.node, h.wire, h.net⟩

/-- Fewer packets in flight. -/
theorem SysInv.lessNet {net : List Packet} (h : SysInv R sys) (hnet : ∀ pkt ∈ net, pkt ∈ sys.net) :
    SysInv R { sys with net := net } :=
  ⟨h.node, h.wire, fun pkt hp => h.net pkt (hnet pkt hp)⟩

theorem SysInv.step {e : Event} (h : SysInv R sys) (hn : sys.next R e = some sys') : SysInv R sys' := by
  cases h.turn hn with
  | deliver i linkNode env pkt r hpkt hx hr heff =>
    have hput : SysInv R (sys.put pkt.dst r) := by
      refine h.put fun st hst => ?_
      rw [hst] at heff
      exact heff.nodeInv rfl (h.node _ hx).at
    refine hput.lessNet fun p hp => ?_
    rw [System.put_net]
    exact List.mem_of_mem_eraseIdx hp
  | handle x env input r hx hr hdoes =>
    refine h.put fun st hst => ?_
    rw [hst] at hdoes
    exact (h.node _ hx).at.changes hdoes
  | write x hx hsave =>
    have hq : ∀ pkt ∈ sys.queued x, pkt.src ∈ R ∧ MsgOK (R : Set NodeName) pkt.src pkt.msg := by
      intro pkt hp
      obtain ⟨m, hm, rfl⟩ := List.mem_map.mp hp
      exact ⟨hx, (h.node x hx).msgs m hm⟩
    refine ⟨forall_update h.node fun hx => ?_, fun pkt hp => ?_, fun pkt hp => ?_⟩
    · exact (h.node x hx).congr ⟨rfl, rfl, rfl, rfl, fun _ => .refl _⟩
        ⟨fun _ _ => .inl, fun _ _ => .inl, fun _ _ => .inl, id⟩ rfl rfl (by simp) rfl
    · rcases List.mem_append.mp hp with hp | hp
      · exact h.wire pkt hp
      · exact hq pkt hp
    · rcases List.mem_append.mp hp with hp | hp
      · exact List.mem_append_left _ (h.net pkt hp)
      · exact List.mem_append_right _ hp
  | restart x env s st hx hs hboot hm =>
    refine h.put fun st' hst => ?_
    rw [← Except.ok.inj hst]
    exact hs.moves hm
  | lose i => exact ⟨h.node, h.wire, fun pkt hp => h.net pkt (List.mem_of_mem_eraseIdx hp)⟩
  | sessionEnd s => exact ⟨h.node, h.wire, h.net⟩

theorem SysInv.init (h : Init R sys) : SysInv R sys where
  node := by
    intro x hx
    obtain ⟨env, prev, -, hconf, -, hstart⟩ := h.booted x hx
    have hspec := startServer_spec env prev hx hconf
    rw [hstart] at hspec
    obtain ⟨s, hs, -, hm⟩ := hspec
    exact hs.moves hm
  wire := by simp [h.wire]
  net := by simp [h.net]

/-- **In every reachable state every process is in a good state.** -/
theorem SysInv.reachable {P : System → Event → System → Prop} (h : ReachableIf R P sys) : SysInv R sys :=
  h.invariant (fun _ => SysInv.init) fun _ _ _ _ hi hs => hi.step hs.1

end RedisZk.Cluster
