/-
# Elections: the votes counted, and who wins

A slave counts ACKs while its election runs, and an ACK that is counted belongs to
the election that runs (`CountInv`). This fails at one place only: `countVote` does
not ask whether an election runs, and an ACK that comes after the next attempt was
scheduled is counted for an election that has not begun (`staleAck`). In runs without
such an ACK every election is won by votes given for it, and two majorities of the
masters have a voter in common, who votes once an epoch.

Key definitions: `AckArrived`, `CountInv`, `staleAck`, `NoStaleAck`, `ElectionInv`.
Key theorems: `ElectionInv.reachable`, `electionWon_votes`, `failover_unique`.
-/
import Mathlib
import RedisZk.Cluster.Votes
import RedisZk.Lib.Quorum

namespace RedisZk.Cluster

open Relation

variable {st st' : Server} {c : Ctx} {R : Finset NodeName} {x v : NodeName} {e : ℕ} {sys sys' : System}

/-! ### ACKs that arrived -/

/-- An ACK of `v` to `x` for the epoch `e`. -/
def IsAckFor (v x : NodeName) (e : ℕ) (pkt : Packet) : Prop :=
  pkt.src = v ∧ pkt.dst = x ∧ isAuthAck pkt.msg = true ∧ pkt.msg.currentEpoch = e

/-- An ACK of `v` to `x` for the epoch `e` left `v` and is no more in flight. -/
def AckArrived (sys : System) (x v : NodeName) (e : ℕ) : Prop :=
  (∃ pkt ∈ sys.wire, IsAckFor v x e pkt) ∧ ∀ pkt ∈ sys.net, ¬ IsAckFor v x e pkt

/-- No epoch has two ACKs of one process. -/
theorem VoteInv.ack_once (h : VoteInv (sys.sentBy v) (sys.node v)) (e : ℕ) :
    sys.wire.countP (fun pkt => decide (pkt.src = v) && (isAuthAck pkt.msg && decide (pkt.msg.currentEpoch = e))) ≤ 1 := by
  have hinc := h.increasing
  rw [ackEpochs_append] at hinc
  have hnd : (ackEpochs (sys.sentBy v)).Nodup := (List.pairwise_append.mp hinc).1.imp fun hlt => hlt.ne
  have hcount := List.nodup_iff_count_le_one.mp hnd e
  have heq : (ackEpochs (sys.sentBy v)).count e =
      sys.wire.countP (fun pkt => decide (pkt.src = v) && (isAuthAck pkt.msg && decide (pkt.msg.currentEpoch = e))) := by
    rw [ackEpochs, System.sentBy, List.count_eq_countP, List.countP_map, List.countP_filter, List.countP_map,
      List.countP_filter]
    refine List.countP_congr fun pkt _ => ?_
    simp [and_comm, and_left_comm]
  omega

/-- The ACK that is delivered was the only one in flight. -/
theorem ack_delivered {i : ℕ} {pkt : Packet} (h : VoteInv (sys.sentBy v) (sys.node v)) (hnet : List.Subperm sys.net sys.wire)
    (hpkt : sys.net[i]? = some pkt) (hack : IsAckFor v x e pkt) :
    ∀ p ∈ sys.net.eraseIdx i, ¬ IsAckFor v x e p := by
  obtain ⟨hi, hget⟩ := List.getElem?_eq_some_iff.mp hpkt
  have hle := (hnet.countP_le _).trans (h.ack_once e)
  rw [← (List.getElem_cons_eraseIdx_perm hi).countP_eq, List.countP_cons, hget, if_pos (by
    obtain ⟨h1, -, h3, h4⟩ := hack
    simp [h1, h3, h4])] at hle
  have hzero := Nat.le_zero.mp (Nat.le_of_add_le_add_right hle)
  rw [List.countP_eq_zero] at hzero
  intro p hp ⟨h1, _, h3, h4⟩
  exact hzero p hp (by simp [h1, h3, h4])

/-- An ACK that arrived is not sent again. -/
theorem AckArrived.turn {ev : Event} (hb : BallotInv R sys) (ht : Turn R sys ev sys') (h : AckArrived sys x v e) :
    AckArrived sys' x v e := by
  obtain ⟨⟨pkt, hpkt, hack⟩, hnet⟩ := h
  refine ⟨⟨pkt, ht.wire hpkt, hack⟩, ?_⟩
  cases ht with
  | deliver i linkNode env pkt' r _ _ _ _ => exact fun p hp => hnet p (List.mem_of_mem_eraseIdx hp)
  | handle y env input r _ _ _ =>
    rw [System.put_net]
    exact hnet
  | write y hy _ =>
    intro p hp
    rcases List.mem_append.mp hp with hp | hp
    · exact hnet p hp
    · obtain ⟨m, hm, rfl⟩ := List.mem_map.mp hp
      rintro ⟨hv, -, hack', hepoch⟩
      have hv' : y = v := hv
      subst hv'
      have hinc := (hb.vote y hy).increasing
      rw [ackEpochs_append, List.pairwise_append] at hinc
      have hleft : e ∈ ackEpochs (sys.sentBy y) := by
        obtain ⟨hsrc, -, h3, h4⟩ := hack
        refine mem_ackEpochs.mpr ⟨(pkt.dst, pkt.msg), mem_sentBy.mpr ?_, h3, h4⟩
        rw [← hsrc]
        exact hpkt
      have hqueued : e ∈ ackEpochs (sys.node y).sndbuf := mem_ackEpochs.mpr ⟨m, hm, hack', hepoch⟩
      exact lt_irrefl e (hinc.2.2 e hleft e hqueued)
  | restart y env s st _ _ _ _ =>
    rw [System.put_net]
    exact hnet
  | lose i => exact fun p hp => hnet p (List.mem_of_mem_eraseIdx hp)
  | sessionEnd s => exact hnet

/-! ### The count -/

/-- What a slave counts: `acked v e` says that an ACK of `v` for the epoch `e` arrived. -/
structure CountInv (acked : NodeName → ℕ → Prop) (st : Server) : Prop where
  nodup : st.failoverAuthAcks.Nodup
  count : st.failoverAuthCount = st.failoverAuthAcks.length
  idle : st.failoverAuthSent = false → st.failoverAuthAcks = []
  running : st.failoverAuthSent = true → ∀ v ∈ st.failoverAuthAcks, acked v st.failoverAuthEpoch
  won : ∀ e k n acks, .electionWon e k n acks ∈ st.log →
    k = acks.length ∧ acks.Nodup ∧ neededQuorum n ≤ k ∧ ∀ v ∈ acks, acked v e
  replaced : ∀ old e, .replaceYourMaster old e .votes ∈ st.log → ∃ k n acks, .electionWon e k n acks ∈ st.log

variable {acked acked' : NodeName → ℕ → Prop}

theorem CountInv.mono (h : CountInv acked st) (hsub : ∀ v e, acked v e → acked' v e) : CountInv acked' st where
  nodup := h.nodup
  count := h.count
  idle := h.idle
  running hs v hv := hsub v _ (h.running hs v hv)
  won e k n acks hmem := by
    obtain ⟨hk, hnd, hq, hall⟩ := h.won e k n acks hmem
    exact ⟨hk, hnd, hq, fun v hv => hsub v e (hall v hv)⟩
  replaced := h.replaced

theorem CountInv.congr (h : CountInv acked st) (heq : st'.failoverAuthAcks = st.failoverAuthAcks ∧
    st'.failoverAuthCount = st.failoverAuthCount ∧ st'.failoverAuthSent = st.failoverAuthSent ∧
    st'.failoverAuthEpoch = st.failoverAuthEpoch ∧ st'.log = st.log) : CountInv acked st' := by
  obtain ⟨hacks, hcount, hsent, hepoch, hlog⟩ := heq
  constructor
  · rw [hacks]; exact h.nodup
  · rw [hacks, hcount]; exact h.count
  · rw [hacks, hsent]; exact h.idle
  · rw [hacks, hsent, hepoch]; exact h.running
  · rw [hlog]; exact h.won
  · rw [hlog]; exact h.replaced

theorem CountInv.same (hs : SameRest st st') (h : CountInv acked st) : CountInv acked st' :=
  h.congr ⟨hs.failoverAuthAcks, hs.failoverAuthCount, hs.failoverAuthSent, hs.failoverAuthEpoch, hs.log⟩

/-- A log event that says nothing of an election won by votes. -/
def Quiet : LogEvent → Prop
  | .electionWon .. => False
  | .replaceYourMaster _ _ .votes => False
  | _ => True

/-- The log grows by an event that says nothing of an election won by votes. -/
theorem CountInv.logEvent {ev : LogEvent} (hev : Quiet ev) (h : CountInv acked st) :
    CountInv acked (st.logEvent ev) where
  nodup := h.nodup
  count := h.count
  idle := h.idle
  running := h.running
  won e k n acks hmem := by
    rcases List.mem_append.mp hmem with hmem | hmem
    · exact h.won e k n acks hmem
    · rw [← List.mem_singleton.mp hmem] at hev
      exact hev.elim
  replaced old e hmem := by
    rcases List.mem_append.mp hmem with hmem | hmem
    · obtain ⟨k, n, acks, hwon⟩ := h.replaced old e hmem
      exact ⟨k, n, acks, List.mem_append_left _ hwon⟩
    · rw [← List.mem_singleton.mp hmem] at hev
      exact hev.elim

theorem CountInv.won_move (hs : st.failoverAuthSent = true) (hq : neededQuorum st.size ≤ st.failoverAuthCount)
    (h : CountInv acked st) : CountInv acked
      (st.logEvent (.electionWon st.failoverAuthEpoch st.failoverAuthCount st.size st.failoverAuthAcks)) where
  nodup := h.nodup
  count := h.count
  idle := h.idle
  running := h.running
  won e k n acks hmem := by
    rcases List.mem_append.mp hmem with hmem | hmem
    · exact h.won e k n acks hmem
    · have heq := List.mem_singleton.mp hmem
      injection heq with h1 h2 h3 h4
      rw [h1, h2, h3, h4]
      exact ⟨h.count, h.nodup, hq, h.running hs⟩
  replaced old e hmem := by
    rcases List.mem_append.mp hmem with hmem | hmem
    · obtain ⟨k, n, acks, hwon⟩ := h.replaced old e hmem
      exact ⟨k, n, acks, List.mem_append_left _ hwon⟩
    · cases List.mem_singleton.mp hmem

theorem CountInv.replace_move {old : NodeName} {how : FailoverBy}
    (hv : how = .votes → ∃ k n acks, .electionWon st.failoverAuthEpoch k n acks ∈ st.log) (h : CountInv acked st) :
    CountInv acked (st.logEvent (.replaceYourMaster old st.failoverAuthEpoch how)) where
  nodup := h.nodup
  count := h.count
  idle := h.idle
  running := h.running
  won e k n acks hmem := by
    rcases List.mem_append.mp hmem with hmem | hmem
    · exact h.won e k n acks hmem
    · cases List.mem_singleton.mp hmem
  replaced old' e hmem := by
    rcases List.mem_append.mp hmem with hmem | hmem
    · obtain ⟨k, n, acks, hwon⟩ := h.replaced old' e hmem
      exact ⟨k, n, acks, List.mem_append_left _ hwon⟩
    · have heq := List.mem_singleton.mp hmem
      injection heq with _ h2 h3
      obtain ⟨k, n, acks, hwon⟩ := hv h3.symm
      rw [h2]
      exact ⟨k, n, acks, List.mem_append_left _ hwon⟩

theorem CountInv.move (hm : Move c st st') (h : CountInv acked st) : CountInv acked st' := by
  cases hm with
  | soft hs => exact h.same hs.rest
  | reshape hr => exact h.same hr.sameRest
  | logKeys slots => exact h.logEvent trivial
  | draw reason =>
    have hlog : CountInv acked (st.logEvent (.epochDrawn reason (st.currentEpoch + 1) (knownEpochs st))) :=
      h.logEvent trivial
    exact hlog.congr ⟨rfl, rfl, rfl, rfl, rfl⟩
  | epochSet _ => exact h.logEvent trivial
  | schedule => exact ⟨List.nodup_nil, rfl, fun _ => rfl, nofun, h.won, h.replaced⟩
  | elect reason hs =>
    have hlog : CountInv acked (st.logEvent (.epochDrawn reason (st.currentEpoch + 1) (knownEpochs st))) :=
      h.logEvent trivial
    have hnil := h.idle hs
    refine ⟨h.nodup, h.count, nofun, fun _ v hv => ?_, hlog.won, hlog.replaced⟩
    have hv' : v ∈ st.failoverAuthAcks := hv
    rw [hnil] at hv'
    cases hv'
  | vote node l _ _ _ _ _ _ _ =>
    have hlog : CountInv acked
        (st.logEvent (.authGranted (st.heap node).name st.currentEpoch (nodeIsMaster st.me) st.me.numslots)) :=
      h.logEvent trivial
    exact hlog.congr ⟨rfl, rfl, rfl, rfl, rfl⟩
  | won hs hq => exact h.won_move hs hq
  | replace old how _ hv => exact h.replace_move hv
  | zkWon zkc zk m tm _ _ _ _ _ =>
    have hlog : CountInv acked (st.logEvent (.replaceYourMaster (st.heap m).name st.failoverAuthEpoch .zookeeper)) :=
      h.logEvent trivial
    exact hlog.congr ⟨rfl, rfl, rfl, rfl, rfl⟩
  | _ => exact h.congr ⟨rfl, rfl, rfl, rfl, rfl⟩

theorem CountInv.changes (hc : Changes c st st') (h : CountInv acked st) : CountInv acked st' := by
  refine Stepwise.keeps (I := CountInv acked) (fun a b ha hab => ?_) hc h
  rcases hab.sameRest_or with hs | hm
  · exact ha.same hs
  · exact ha.move hm

/-- An ACK for the election that runs, from a master that was not counted yet. -/
theorem CountInv.countVote {p : NodePtr} {epoch : ℕ} (h : CountInv acked st)
    (hnew : nodeIsMaster (st.heap p) = true ∧ (st.heap p).numslots > 0 ∧ epoch ≥ st.failoverAuthEpoch →
      st.failoverAuthSent = true ∧ (st.heap p).name ∉ st.failoverAuthAcks ∧
        acked (st.heap p).name st.failoverAuthEpoch) : CountInv acked (Cluster.countVote st p epoch) := by
  unfold Cluster.countVote
  extract_lets n
  split
  · rename_i hcond
    obtain ⟨hsent, hnotin, hacked⟩ := hnew hcond
    refine ⟨?_, ?_, fun hs => ?_, fun _ v hv => ?_, h.won, h.replaced⟩
    · change (st.failoverAuthAcks ++ [n.name]).Nodup
      rw [List.nodup_append]
      refine ⟨h.nodup, List.nodup_singleton _, fun a ha b hb => ?_⟩
      rw [List.mem_singleton.mp hb]
      exact fun heq => hnotin (heq ▸ ha)
    · change st.failoverAuthCount + 1 = (st.failoverAuthAcks ++ [n.name]).length
      rw [List.length_append, h.count]
      rfl
    · have hs' : st.failoverAuthSent = false := hs
      rw [hsent] at hs'
      cases hs'
    · rcases List.mem_append.mp hv with hv | hv
      · exact h.running hsent v hv
      · rw [List.mem_singleton.mp hv]
        exact hacked
  · exact h

/-! ### Runs in which no ACK is counted between two elections -/

/-- An ACK that `countVote` counts, and no election of this process runs. -/
def staleAck (st : Server) (hdr : ClusterMsg) : Bool :=
  isAuthAck hdr && !st.failoverAuthSent &&
    match clusterLookupNode st hdr.sender with
    | none => false
    | some p =>
      nodeIsMaster (st.heap p) && decide ((st.heap p).numslots > 0) && decide (hdr.currentEpoch ≥ st.failoverAuthEpoch)

def NoStaleAck (sys : System) (ev : Event) (_ : System) : Prop :=
  ∀ i linkNode env pkt, ev = .deliver i linkNode env → sys.net[i]? = some pkt →
    staleAck (sys.at pkt.dst) pkt.msg = false

structure ElectionInv (R : Finset NodeName) (sys : System) : Prop extends BallotInv R sys where
  inFlight : List.Subperm sys.net sys.wire
  count : ∀ x ∈ R, CountInv (AckArrived sys x) (sys.node x)

/-- The ACK that was asked for: its epoch is not above the one of the election that runs. -/
theorem ElectionInv.ack_epoch (h : ElectionInv R sys) {pkt : Packet} (hx : pkt.dst ∈ R) (hpkt : pkt ∈ sys.net)
    (hack : isAuthAck pkt.msg = true) {s : Server} (hm : Moves c (sys.at pkt.dst) s) (hR : c.R = R)
    (hsent : s.failoverAuthSent = true) : pkt.msg.currentEpoch ≤ s.failoverAuthEpoch := by
  have hw := h.net pkt hpkt
  obtain ⟨hasked, -⟩ := h.grant pkt.src (h.wire pkt hw).1 (pkt.dst, pkt.msg)
    (List.mem_append_left _ (mem_sentBy.mpr hw)) hack
  have hreq := requestInv_process.changes trivial hR (h.node _ hx).at hm.change
    ((requestInv_process (R := R)).zk (h.request _ hx))
  refine hreq.election hsent _ ?_
  rw [requestEpochs_append]
  exact List.mem_append_left _ hasked

/-- The ACK being delivered is counted for the election it was given for, or not at all. -/
theorem ElectionInv.deliver (h : ElectionInv R sys) {i : ℕ} {linkNode : Option NodePtr} {env : Env} {pkt : Packet}
    (hpkt : sys.net[i]? = some pkt) (hx : pkt.dst ∈ R)
    (hcalm : staleAck (sys.at pkt.dst) pkt.msg = false)
    (ht : Turn R sys (.deliver i linkNode env) sys') (hnet : sys'.net = sys.net.eraseIdx i)
    (heff : Effect (packetCtx R (sys.at pkt.dst) pkt.msg) (sys.at pkt.dst) (.ok st)) :
    CountInv (AckArrived sys' pkt.dst) st := by
  have hmono : ∀ v e, AckArrived sys pkt.dst v e → AckArrived sys' pkt.dst v e := fun v e =>
    AckArrived.turn h.toBallotInv ht
  have hmem := List.mem_of_getElem? hpkt
  have hat : CountInv (AckArrived sys pkt.dst) (sys.at pkt.dst) := (h.count _ hx).congr ⟨rfl, rfl, rfl, rfl, rfl⟩
  cases heff with
  | run hc => exact (hat.changes hc).mono hmono
  | @count s hm name p epoch hread hack =>
    have hs := hat.changes hm.change
    have hack' : (if isAuthAck pkt.msg then some (pkt.msg.sender, pkt.msg.currentEpoch) else none) =
      some (name, epoch) := hack
    split at hack'
    · rename_i hisack
      obtain ⟨hname, hepoch⟩ : pkt.msg.sender = name ∧ pkt.msg.currentEpoch = epoch := by simpa using hack'
      subst hname hepoch
      obtain ⟨hsrc, hmsg⟩ := h.wire pkt (h.net pkt hmem)
      refine (hs.mono hmono).countVote fun ⟨hmaster, hnum, hge⟩ => ?_
      have hsent : s.failoverAuthSent = true := by
        rw [hread.master] at hmaster
        rw [hread.numslots] at hnum
        rw [hread.authEpoch] at hge
        rw [hread.authSent]
        by_contra hno
        simp [staleAck, hisack, hread.lookup, hmaster, hnum, hge, hno] at hcalm
      have heq : pkt.msg.currentEpoch = s.failoverAuthEpoch :=
        le_antisymm (h.ack_epoch hx hmem hisack hm rfl hsent) hge
      have hfor : IsAckFor pkt.src pkt.dst s.failoverAuthEpoch pkt := ⟨rfl, rfl, hisack, heq⟩
      rw [hread.name, hmsg.sender]
      refine ⟨hsent, fun hin => (hs.running hsent _ hin).2 pkt hmem hfor, ⟨pkt, ht.wire (h.net pkt hmem), hfor⟩, ?_⟩
      rw [hnet]
      exact ack_delivered (h.vote _ hsrc) h.inFlight hpkt hfor
    · cases hack'

theorem Turn.inFlight {ev : Event} (ht : Turn R sys ev sys') (h : List.Subperm sys.net sys.wire) :
    List.Subperm sys'.net sys'.wire := by
  cases ht with
  | deliver i linkNode env pkt r _ _ _ _ =>
    change List.Subperm (sys.net.eraseIdx i) (sys.put pkt.dst r).wire
    rw [System.put_wire]
    exact (List.eraseIdx_sublist _ _).subperm.trans h
  | handle x env input r _ _ _ =>
    rw [System.put_net, System.put_wire]
    exact h
  | write x _ _ => exact h.append (List.Subperm.refl _)
  | restart x env s st _ _ _ _ =>
    rw [System.put_net, System.put_wire]
    exact h
  | lose i => exact (List.eraseIdx_sublist _ _).subperm.trans h
  | sessionEnd s => exact h

theorem ElectionInv.step {ev : Event} (h : ElectionInv R sys) (hn : sys.next R ev = some sys')
    (hcalm : NoStaleAck sys ev sys') : ElectionInv R sys' := by
  have ht := h.toSysInv.turn hn
  have hold : ∀ y ∈ R, CountInv (AckArrived sys' y) (sys.node y) := fun y hy =>
    (h.count y hy).mono fun v e => AckArrived.turn h.toBallotInv ht
  refine ⟨h.toBallotInv.step hn, ht.inFlight h.inFlight, ?_⟩
  have ht' := ht
  cases ht with
  | deliver i linkNode env pkt r hpkt hx hr heff =>
    refine forall_put (P := fun y st => CountInv (AckArrived _ y) st) hold fun st hst _ => ?_
    rw [hst] at heff
    exact h.deliver hpkt hx (hcalm i linkNode env pkt rfl hpkt) ht' rfl heff
  | handle x env input r hx hr hdoes =>
    refine forall_put (P := fun y st => CountInv (AckArrived _ y) st) hold fun st hst _ => ?_
    rw [hst] at hdoes
    have hat : CountInv (AckArrived (sys.put x r) x) (sys.at x) := (hold x hx).congr ⟨rfl, rfl, rfl, rfl, rfl⟩
    exact hat.changes hdoes
  | write x hx _ =>
    exact forall_update (P := fun y st => CountInv (AckArrived _ y) st) hold fun hx =>
      (hold x hx).congr ⟨rfl, rfl, rfl, rfl, rfl⟩
  | restart x env s st hx hs hboot hm =>
    refine forall_put (P := fun y st => CountInv (AckArrived _ y) st) hold fun st' hst _ => ?_
    rw [← Except.ok.inj hst]
    have hlog : s.log = (sys.node x).log := hboot.log
    have hs : CountInv (AckArrived (sys.put x (.ok st)) x) s := by
      refine ⟨by simp [hboot.authAcks], by simp [hboot.authAcks, hboot.authCount], fun _ => hboot.authAcks,
        by simp [hboot.authSent], ?_, ?_⟩
      · rw [hlog]
        exact (hold x hx).won
      · rw [hlog]
        exact (hold x hx).replaced
    exact hs.changes hm.change
  | lose i => exact hold
  | sessionEnd s => exact hold

theorem ElectionInv.init (h : Init R sys) : ElectionInv R sys where
  toBallotInv := .init h
  inFlight := by simp [h.net, h.wire]
  count := by
    intro x hx
    obtain ⟨env, prev, hlog, hconf, -, hstart⟩ := h.booted x hx
    have hspec := startServer_spec env prev hx hconf
    rw [hstart] at hspec
    obtain ⟨s, -, hb, hm⟩ := hspec
    have hs : CountInv (AckArrived sys x) s :=
      ⟨by simp [hb.authAcks], by simp [hb.authAcks, hb.authCount], fun _ => hb.authAcks, by simp [hb.authSent],
        by simp [hb.log, hlog], by simp [hb.log, hlog]⟩
    exact hs.changes hm.change

theorem ElectionInv.reachable (h : ReachableIf R NoStaleAck sys) : ElectionInv R sys :=
  h.invariant (fun _ => ElectionInv.init) fun _ _ _ _ hi hs => hi.step hs.1 hs.2

/-! ### Who wins -/

theorem ElectionInv.won_votes (hi : ElectionInv R sys) (hx : x ∈ R) {k n : ℕ} {acks : List NodeName}
    (hwon : .electionWon e k n acks ∈ (sys.node x).log) :
    k = acks.length ∧ acks.Nodup ∧ ∀ v ∈ acks, v ∈ R ∧ Granted (sys.node v).log x e := by
  obtain ⟨hk, hnd, -, hall⟩ := (hi.count x hx).won e k n acks hwon
  refine ⟨hk, hnd, fun v hv => ?_⟩
  obtain ⟨⟨pkt, hpkt, hsrc, hdst, hack, hepoch⟩, -⟩ := hall v hv
  have hR := (hi.wire pkt hpkt).1
  rw [hsrc] at hR
  obtain ⟨-, hg⟩ := hi.grant v hR (pkt.dst, pkt.msg)
    (List.mem_append_left _ (mem_sentBy.mpr (by rw [← hsrc]; exact hpkt))) hack
  rw [hdst, hepoch] at hg
  exact ⟨hR, hg⟩

/-- The processes agree on the masters `V` that serve slots: every quorum was computed from
their number, and every ACK counted was one of theirs. -/
def AgreedOn (R V : Finset NodeName) (sys : System) : Prop :=
  ∀ x ∈ R, ∀ e k n acks, .electionWon e k n acks ∈ (sys.node x).log → n = V.card ∧ ∀ v ∈ acks, v ∈ V

/-- The test of `AgreedOn`. -/
def agreedLine (V : Finset NodeName) : LogEvent → Bool
  | .electionWon _ _ n acks => decide (n = V.card ∧ ∀ v ∈ acks, v ∈ V)
  | _ => true

theorem agreedOn_of_lines {V : Finset NodeName} (h : ∀ x ∈ R, ∀ ev ∈ (sys.node x).log, agreedLine V ev = true) :
    AgreedOn R V sys :=
  fun x hx _ _ _ _ hw => of_decide_eq_true (h x hx _ hw)

/-- Slave A asks the two voters, and both vote for it. -/
def votedRun : List Event :=
  [.handle masterV (sampleEnv 100) .cron, .handle masterW (sampleEnv 100) .cron,
   .handle slaveA (sampleEnv 70000) .cron, .handle slaveA (sampleEnv 72000) .cron,
   .handle slaveA (sampleEnv 72000) .beforeSleep, .write slaveA,
   .deliver 8 none (sampleEnv 72100), .deliver 7 none (sampleEnv 72100),
   .handle masterV (sampleEnv 72100) .beforeSleep, .write masterV,
   .handle masterW (sampleEnv 72100) .beforeSleep, .write masterW,
   .deliver 11 none (sampleEnv 72200), .deliver 15 none (sampleEnv 72200),
   .handle slaveA (sampleEnv 72200) .beforeSleep]

/-- The test of `NoStaleAck`. -/
def noStaleAck (sys : System) (ev : Event) (_ : System) : Bool :=
  match ev with
  | .deliver i _ _ => (sys.net[i]?).all fun pkt => !staleAck (sys.at pkt.dst) pkt.msg
  | _ => true

theorem noStaleAck_spec (sys : System) (ev : Event) (sys' : System) (h : noStaleAck sys ev sys' = true) :
    NoStaleAck sys ev sys' := by
  intro i linkNode env pkt hev hpkt
  rw [hev, noStaleAck, hpkt] at h
  simpa using h

/-- The voters of `votedRun` and the failed master. -/
def sampleMasters : Finset NodeName := {failedMaster, masterV, masterW}

theorem sampleMasters_card : sampleMasters.card = 3 := rfl

def votedTest (sys : System) : Bool :=
  decide (.electionWon 4 2 3 [masterV, masterW] ∈ (sys.node slaveA).log) &&
  decide (.replaceYourMaster failedMaster 4 .votes ∈ (sys.node slaveA).log) &&
  decide (∀ x ∈ clusterProcesses, ∀ ev ∈ (sys.node x).log, agreedLine sampleMasters ev = true)

theorem votedRun_reaches : ∃ sys, ReachableIf clusterProcesses NoStaleAck sys ∧ votedTest sys = true :=
  sampleCluster_init.replay noStaleAck_spec votedRun (by rw [coldStart_sample]; decide +kernel)

/-- Voter V votes for slave A, and its ACK is held back until slave A has scheduled its
next attempt; then V votes for this one too. -/
def staleRun : List Event :=
  [.handle masterV (sampleEnv 100) .cron,
   .handle slaveA (sampleEnv 70000) .cron, .handle slaveA (sampleEnv 72000) .cron,
   .handle slaveA (sampleEnv 72000) .beforeSleep, .write slaveA,
   .deliver 7 none (sampleEnv 72100), .handle masterV (sampleEnv 72100) .beforeSleep, .write masterV,
   -- the retry
   .handle slaveA (sampleEnv 132000) .cron, .deliver 12 none (sampleEnv 132100),
   .handle slaveA (sampleEnv 134000) .cron, .handle slaveA (sampleEnv 134000) .beforeSleep, .write slaveA,
   .deliver 18 none (sampleEnv 134100), .handle masterV (sampleEnv 134100) .beforeSleep, .write masterV,
   .deliver 19 none (sampleEnv 134200), .handle slaveA (sampleEnv 134200) .beforeSleep]

def staleTest (sys : System) : Bool :=
  decide (.electionWon 5 2 3 [masterV, masterV] ∈ (sys.node slaveA).log) &&
  decide (∀ x ∈ clusterProcesses, ∀ ev ∈ (sys.node x).log, agreedLine sampleMasters ev = true)

/-- A process gives no two ACKs for one epoch. -/
theorem VoteInv.ack_dst (h : VoteInv (sys.sentBy v) (sys.node v)) {y : NodeName} {p q : Packet} (hp : p ∈ sys.wire)
    (hq : q ∈ sys.wire) (hpa : IsAckFor v x e p) (hqa : IsAckFor v y e q) : x = y := by
  have hinc := h.increasing
  rw [ackEpochs_append] at hinc
  have hnd : (ackEpochs (sys.sentBy v)).Nodup := (List.pairwise_append.mp hinc).1.imp fun hlt => hlt.ne
  have hmem : ∀ {r : Packet} {z : NodeName}, r ∈ sys.wire → IsAckFor v z e r →
      (r.dst, r.msg) ∈ (sys.sentBy v).filter fun m => isAuthAck m.2 := by
    intro r z hr ⟨hsrc, _, hack, _⟩
    refine List.mem_filter.mpr ⟨mem_sentBy.mpr ?_, hack⟩
    rw [← hsrc]
    exact hr
  have heq := List.inj_on_of_nodup_map hnd (hmem hp hpa) (hmem hq hqa) (hpa.2.2.2.trans hqa.2.2.2.symm)
  rw [← hpa.2.1, ← hqa.2.1]
  exact congrArg Prod.fst heq

/-- **Two slaves of one master do not both replace it by votes of one epoch**, if there are
three masters that serve slots, or two and the master that is replaced does not vote
itself. -/
theorem failover_unique {V : Finset NodeName} {y old : NodeName} (h : ReachableIf R NoStaleAck sys)
    (hagree : AgreedOn R V sys) (hx : x ∈ R) (hy : y ∈ R)
    (hsize : 3 ≤ V.card ∨ V.card = 2 ∧ old ∈ V ∧ ∀ n, ¬ Granted (sys.node old).log n e)
    (hrx : .replaceYourMaster old e .votes ∈ (sys.node x).log)
    (hry : .replaceYourMaster old e .votes ∈ (sys.node y).log) : x = y := by
  have hi := ElectionInv.reachable h
  obtain ⟨kx, nx, ax, hwx⟩ := (hi.count x hx).replaced old e hrx
  obtain ⟨ky, ny, ay, hwy⟩ := (hi.count y hy).replaced old e hry
  obtain ⟨hkx, hndx, hqx, hallx⟩ := (hi.count x hx).won e kx nx ax hwx
  obtain ⟨hky, hndy, hqy, hally⟩ := (hi.count y hy).won e ky ny ay hwy
  obtain ⟨hnx, hVx⟩ := hagree x hx e kx nx ax hwx
  obtain ⟨hny, hVy⟩ := hagree y hy e ky ny ay hwy
  rw [hkx, hnx] at hqx
  rw [hky, hny] at hqy
  -- a voter of both elections
  obtain ⟨v, hvx, hvy⟩ : ∃ v, v ∈ ax ∧ v ∈ ay := by
    rcases hsize with h3 | ⟨h2, hold, hno⟩
    · have hq : neededQuorum V.card = V.card / 2 + 1 := if_neg (by omega)
      rw [hq] at hqx hqy
      exact Quorum.exists_common_voter_of_majority hndx hndy hVx hVy hqx hqy
    · rw [h2] at hqx hqy
      have herase : ∀ {z k n acks}, z ∈ R → .electionWon e k n acks ∈ (sys.node z).log → (∀ v ∈ acks, v ∈ V) →
          ∀ v ∈ acks, v ∈ V.erase old := by
        intro z k n acks hz hw hV v hv
        refine Finset.mem_erase.mpr ⟨?_, hV v hv⟩
        rintro rfl
        exact hno z ((hi.won_votes hz hw).2.2 v hv).2
      refine Quorum.exists_common_voter hndx hndy (herase hx hwx hVx) (herase hy hwy hVy) ?_
      rw [Finset.card_erase_of_mem hold, h2]
      have hx1 : 1 ≤ ax.length := hqx
      have hy1 : 1 ≤ ay.length := hqy
      omega
  obtain ⟨⟨p, hp, hpa⟩, -⟩ := hallx v hvx
  obtain ⟨⟨q, hq, hqa⟩, -⟩ := hally v hvy
  have hR := (hi.wire p hp).1
  rw [hpa.1] at hR
  exact (hi.vote v hR).ack_dst hp hq hpa hqa

theorem failover_unique_sample : ∃ sys y, ReachableIf clusterProcesses NoStaleAck sys ∧
    .replaceYourMaster failedMaster 4 .votes ∈ (sys.node y).log ∧ slaveA = y := by
  obtain ⟨sys, hrun, htest⟩ := votedRun_reaches
  simp only [votedTest, Bool.and_eq_true, decide_eq_true_eq] at htest
  exact ⟨sys, slaveA, hrun, htest.1.2,
    failover_unique hrun (agreedOn_of_lines htest.2) slaveA_mem slaveA_mem (.inl sampleMasters_card.ge) htest.1.2 htest.1.2⟩

/-- Each slave of the only master begins an election, and wins it with no vote. -/
def splitRun : List Event :=
  [.handle slaveA (sampleEnv 70000) .cron, .handle slaveA (sampleEnv 72000) .cron, .handle slaveA (sampleEnv 72001) .cron,
   .handle slaveB (sampleEnv 70000) .cron, .handle slaveB (sampleEnv 72000) .cron, .handle slaveB (sampleEnv 72001) .cron]

def splitTest (sys : System) : Bool :=
  decide (.replaceYourMaster failedMaster 4 .votes ∈ (sys.node slaveA).log) &&
  decide (.replaceYourMaster failedMaster 4 .votes ∈ (sys.node slaveB).log) &&
  decide (∀ x ∈ shardProcesses, (sys.node x).zklc = none) &&
  decide (∀ x ∈ shardProcesses, ∀ ev ∈ (sys.node x).log, agreedLine {failedMaster} ev = true)

/-- One master, without ZooKeeper, and both its slaves replace it in one epoch. -/
theorem failover_splits : ∃ sys, ReachableIf shardProcesses NoStaleAck sys ∧
    AgreedOn shardProcesses {failedMaster} sys ∧ (∀ x ∈ shardProcesses, (sys.node x).zklc = none) ∧
    .replaceYourMaster failedMaster 4 .votes ∈ (sys.node slaveA).log ∧
    .replaceYourMaster failedMaster 4 .votes ∈ (sys.node slaveB).log ∧ slaveA ≠ slaveB := by
  obtain ⟨sys, hrun, htest⟩ := sampleShard_init.replay noStaleAck_spec splitRun
    (show Stepwise.replay _ noStaleAck splitTest _ _ = true by rw [coldStart_sample]; decide +kernel)
  simp only [splitTest, Bool.and_eq_true, decide_eq_true_eq] at htest
  obtain ⟨⟨⟨hA, hB⟩, hzk⟩, hagree⟩ := htest
  exact ⟨sys, hrun, agreedOn_of_lines hagree, hzk, hA, hB, by decide⟩

end RedisZk.Cluster
