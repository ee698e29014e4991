/-
# Votes: at most one an epoch

A master votes when `lastVoteEpoch` is not `currentEpoch`, and nothing else is
tested. That no epoch gets two votes rests on the order of things: the vote
moves `lastVoteEpoch` to `currentEpoch`, `currentEpoch` never goes back, and both
are in nodes.conf before the ACK leaves the process (`VoteInv`). Requests leave
a process in the same way (`RequestInv`), and every ACK answers one
(`GrantInv`). All three are kept by every step of a handler, by the write
handlers and by a restart, and one rule lifts this to the cluster
(`ProcessInv.turn`).

Key definitions: `System.sentBy`, `ProcessInv`, `VoteInv`, `RequestInv`, `GrantInv`, `BallotInv`.
Key theorems: `ProcessInv.turn`, `BallotInv.reachable`, `authAck_increasing`.
-/
import RedisZk.Cluster.Safety

namespace RedisZk.Cluster

open Relation

variable {st st' : Server} {c : Ctx} {R : Finset NodeName} {x : NodeName} {sys sys' : System}
  {left l : List (NodeName × ClusterMsg)}

/-! ### What left a process -/

/-- The packets that left `x`, with their destinations, in the order they were queued. -/
def System.sentBy (sys : System) (x : NodeName) : List (NodeName × ClusterMsg) :=
  (sys.wire.filter fun pkt => decide (pkt.src = x)).map fun pkt => (pkt.dst, pkt.msg)

/-- The epochs of the votes among some packets. -/
def ackEpochs (l : List (NodeName × ClusterMsg)) : List ℕ :=
  (l.filter fun m => isAuthAck m.2).map fun m => m.2.currentEpoch

def requestEpochs (l : List (NodeName × ClusterMsg)) : List ℕ :=
  (l.filter fun m => isAuthRequest m.2).map fun m => m.2.currentEpoch

@[simp] theorem ackEpochs_append (l l' : List (NodeName × ClusterMsg)) :
    ackEpochs (l ++ l') = ackEpochs l ++ ackEpochs l' := by
  simp [ackEpochs]

@[simp] theorem requestEpochs_append (l l' : List (NodeName × ClusterMsg)) :
    requestEpochs (l ++ l') = requestEpochs l ++ requestEpochs l' := by
  simp [requestEpochs]

@[simp] theorem ackEpochs_nil : ackEpochs [] = [] := rfl

@[simp] theorem requestEpochs_nil : requestEpochs [] = [] := rfl

theorem mem_ackEpochs {e : ℕ} : e ∈ ackEpochs l ↔ ∃ m ∈ l, isAuthAck m.2 = true ∧ m.2.currentEpoch = e := by
  simp [ackEpochs, and_assoc]

theorem mem_requestEpochs {e : ℕ} :
    e ∈ requestEpochs l ↔ ∃ m ∈ l, isAuthRequest m.2 = true ∧ m.2.currentEpoch = e := by
  simp [requestEpochs, and_assoc]

theorem ackEpochs_eq_nil (h : ∀ m ∈ l, isAuthAck m.2 = false) : ackEpochs l = [] := by
  rw [ackEpochs, List.map_eq_nil_iff, List.filter_eq_nil_iff]
  intro m hm
  simp [h m hm]

theorem requestEpochs_eq_nil (h : ∀ m ∈ l, isAuthRequest m.2 = false) : requestEpochs l = [] := by
  rw [requestEpochs, List.map_eq_nil_iff, List.filter_eq_nil_iff]
  intro m hm
  simp [h m hm]

theorem not_request_of_ack {msg : ClusterMsg} (h : isAuthAck msg = true) : isAuthRequest msg = false := by
  unfold isAuthAck at h
  unfold isAuthRequest
  split at h
  · rename_i hd
    rw [hd]
  · cases h

theorem not_ack_of_request {msg : ClusterMsg} (h : isAuthRequest msg = true) : isAuthAck msg = false := by
  cases hack : isAuthAck msg
  · rfl
  · rw [not_request_of_ack hack] at h
    cases h

theorem mem_sentBy {m : NodeName × ClusterMsg} : m ∈ sys.sentBy x ↔ ⟨x, m.1, m.2⟩ ∈ sys.wire := by
  simp only [System.sentBy, List.mem_map, List.mem_filter, decide_eq_true_eq]
  constructor
  · rintro ⟨pkt, ⟨hpkt, rfl⟩, rfl⟩
    exact hpkt
  · intro h
    exact ⟨_, ⟨h, rfl⟩, rfl⟩

theorem sentBy_write (sys : System) (x y : NodeName) (sys' : System)
    (h : sys'.wire = sys.wire ++ sys.queued x) :
    sys'.sentBy y = if y = x then sys.sentBy x ++ (sys.node x).sndbuf else sys.sentBy y := by
  unfold System.sentBy
  rw [h, List.filter_append, List.map_append]
  split
  · rename_i e
    subst e
    have hall : (sys.queued y).filter (fun pkt => decide (pkt.src = y)) = sys.queued y := by
      refine List.filter_eq_self.mpr fun pkt hp => ?_
      obtain ⟨m, -, rfl⟩ := List.mem_map.mp hp
      exact decide_eq_true rfl
    rw [hall, System.queued, List.map_map]
    exact congrArg (_ ++ ·) (List.map_id _)
  · rename_i e
    have hnone : (sys.queued x).filter (fun pkt => decide (pkt.src = y)) = [] := by
      refine List.filter_eq_nil_iff.mpr fun pkt hp => ?_
      obtain ⟨m, -, rfl⟩ := List.mem_map.mp hp
      simpa using fun h => e h.symm
    rw [hnone, List.map_nil, List.append_nil]

/-! ### The rule for what a process keeps -/

theorem unlinked_rest (st : Server) (n : NodePtr) : SameRest st (unlinked st n) := by
  have hclear := (clearSlaveof_spec (st.heap n).slaves st).1.rest
  unfold unlinked
  extract_lets s1
  split
  · split
    · rename_i m _ _
      exact hclear.trans (Keeps.removeSlave s1 m n).rest
    · exact hclear
  · exact hclear

theorem freed_rest (st : Server) (n : NodePtr) : SameRest st (freed st n) := by
  have h := unlinked_rest st n
  exact ⟨h.1, h.2, h.3, h.4, h.5, h.6, h.7, h.8, h.9, h.10, h.11, h.12⟩

/-- A step changes nothing outside the table, or it is one of the calm ones. -/
theorem Change.sameRest_or (h : Change c st st') : SameRest st st' ∨ Move c st st' := by
  cases h with
  | calm h => exact .inr h
  | free p _ _ _ _ _ _ => exact .inl (freed_rest st p)
  | endHandshake p name flags _ _ _ _ _ _ _ =>
    exact .inl ⟨rfl, rfl, rfl, rfl, rfl, rfl, rfl, rfl, rfl, rfl, rfl, id⟩

/-- A property of one process and of the packets that left it that everything a process
does keeps. `C` is what the circumstances of its steps satisfy. -/
structure ProcessInv (R : Finset NodeName) (C : Ctx → Prop)
    (I : List (NodeName × ClusterMsg) → Server → Prop) : Prop where
  zk : ∀ {left st z}, I left st → I left { st with zk := z }
  same : ∀ {left st st'}, SameRest st st' → I left st → I left st'
  move : ∀ {c left st st' x}, C c → NodeInv (R : Set NodeName) x st → Move c st st' → I left st → I left st'
  count : ∀ {left st p epoch}, I left st → I left (countVote st p epoch)
  write : ∀ {left st}, st.todo.saveConfig = false → I left st → I (left ++ st.sndbuf) { st with sndbuf := [] }
  boot : ∀ {left prev st}, Booted prev st → I left prev → I left st
  first : ∀ {prev st}, Booted prev st → prev.log = [] → prev.conf.lastVoteEpoch ≤ prev.conf.currentEpoch → I [] st

variable {C : Ctx → Prop} {I : List (NodeName × ClusterMsg) → Server → Prop}

theorem ProcessInv.changes (hI : ProcessInv R C I) (hC : C c) (hR : c.R = R) (hi : NodeInv (R : Set NodeName) x st)
    (h : Changes c st st') (hl : I left st) : I left st' := by
  have hkeep : ∀ a b, (NodeInv (R : Set NodeName) x a ∧ I left a) → Change c a b →
      NodeInv (R : Set NodeName) x b ∧ I left b := by
    intro a b ⟨ha, hla⟩ hab
    constructor
    · rw [← hR] at ha ⊢
      exact ha.change hab
    · rcases hab.sameRest_or with hs | hm
      · exact hI.same hs hla
      · exact hI.move hC ha hm hla
  exact (Stepwise.keeps hkeep h ⟨hi, hl⟩).2

theorem ProcessInv.effect (hI : ProcessInv R C I) (hC : C c) (hR : c.R = R) (hi : NodeInv (R : Set NodeName) x st)
    (h : Effect c st (.ok st')) (hl : I left st) : I left st' := by
  cases h with
  | run h => exact hI.changes hC hR hi h hl
  | count h name p epoch _ _ => exact hI.count (hI.changes hC hR hi h.change hl)

/-- The circumstances of all steps the cluster can take now. -/
structure CtxOK (C : Ctx → Prop) (R : Finset NodeName) (sys : System) : Prop where
  packet : ∀ pkt ∈ sys.net, ∀ st, C (packetCtx R st pkt.msg)
  input : ∀ st input, C (inputCtx R st input)
  boot : C { R := R }

theorem sentBy_congr (h : sys'.wire = sys.wire) (x : NodeName) : sys'.sentBy x = sys.sentBy x := by
  unfold System.sentBy
  rw [h]

/-- **What everything a process does keeps, every event of the cluster keeps.** -/
theorem ProcessInv.turn {e : Event} (hI : ProcessInv R C I) (hC : CtxOK C R sys) (hsys : SysInv R sys)
    (h : ∀ y ∈ R, I (sys.sentBy y) (sys.node y)) (ht : Turn R sys e sys') :
    ∀ y ∈ R, I (sys'.sentBy y) (sys'.node y) := by
  cases ht with
  | deliver i linkNode env pkt r hpkt hx hr heff =>
    intro y hy
    change I ((sys.put pkt.dst r).sentBy y) ((sys.put pkt.dst r).node y)
    rw [sentBy_congr (System.put_wire sys pkt.dst r)]
    refine forall_put (P := fun y st => I (sys.sentBy y) st) h (fun st hst _ => ?_) y hy
    rw [hst] at heff
    exact hI.effect (hC.packet pkt (List.mem_of_getElem? hpkt) _) rfl (hsys.node _ hx).at heff (hI.zk (h _ hx))
  | handle x env input r hx hr hdoes =>
    intro y hy
    rw [sentBy_congr (System.put_wire sys x r)]
    refine forall_put (P := fun y st => I (sys.sentBy y) st) h (fun st hst _ => ?_) y hy
    rw [hst] at hdoes
    exact hI.changes (hC.input _ _) rfl (hsys.node _ hx).at hdoes (hI.zk (h _ hx))
  | write x hx hsave =>
    intro y hy
    rw [sentBy_write sys x y _ rfl]
    change I _ (Function.update sys.node x _ y)
    rw [Function.update_apply]
    split
    · exact hI.write hsave (h x hx)
    · exact h y hy
  | restart x env s st hx hs hboot hm =>
    intro y hy
    rw [sentBy_congr (System.put_wire sys x _)]
    refine forall_put (P := fun y st => I (sys.sentBy y) st) h (fun st' hst _ => ?_) y hy
    rw [← Except.ok.inj hst]
    exact hI.changes hC.boot rfl hs hm.change (hI.boot hboot (hI.zk (h _ hx)))
  | lose i => exact h
  | sessionEnd s => exact h

/-! ### Votes -/

/-- The votes of a process: their epochs, in the order they were given, increase. -/
structure VoteInv (left : List (NodeName × ClusterMsg)) (st : Server) : Prop where
  increasing : (ackEpochs (left ++ st.sndbuf)).Pairwise (· < ·)
  voted : ∀ e ∈ ackEpochs (left ++ st.sndbuf), e ≤ st.lastVoteEpoch
  epoch : st.lastVoteEpoch ≤ st.currentEpoch
  saved : ∀ e ∈ ackEpochs left, e ≤ st.conf.lastVoteEpoch
  queued : st.todo.saveConfig = false → ∀ e ∈ ackEpochs st.sndbuf, e ≤ st.conf.lastVoteEpoch
  conf : st.conf.lastVoteEpoch ≤ st.conf.currentEpoch

theorem VoteInv.same (hs : SameRest st st') (h : VoteInv left st) : VoteInv left st' where
  increasing := by rw [hs.sndbuf]; exact h.increasing
  voted := by rw [hs.sndbuf, hs.lastVoteEpoch]; exact h.voted
  epoch := by rw [hs.lastVoteEpoch, hs.currentEpoch]; exact h.epoch
  saved := by rw [hs.conf]; exact h.saved
  queued := by
    intro hsave
    rw [hs.sndbuf, hs.conf]
    refine h.queued ?_
    by_contra hne
    rw [hs.saveConfig (by simpa using hne)] at hsave
    cases hsave
  conf := by rw [hs.conf]; exact h.conf

/-- Packets that are no votes are queued. -/
theorem VoteInv.send (hl : ∀ m ∈ l, isAuthAck m.2 = false) (h : VoteInv left st) :
    VoteInv left { st with sndbuf := st.sndbuf ++ l } := by
  have heq : ∀ a : List (NodeName × ClusterMsg), ackEpochs (a ++ l) = ackEpochs a := by
    intro a
    rw [ackEpochs_append, ackEpochs_eq_nil hl, List.append_nil]
  refine ⟨?_, ?_, h.epoch, h.saved, ?_, h.conf⟩
  · rw [← List.append_assoc, heq]
    exact h.increasing
  · rw [← List.append_assoc, heq]
    exact h.voted
  · rw [heq]
    exact h.queued

/-- A vote is for an epoch above all votes so far. -/
theorem VoteInv.vote {node : NodePtr} (hlast : st.lastVoteEpoch ≠ st.currentEpoch)
    (hsave : st.todo.saveConfig = true)
    (hl : l = [] ∨ ∃ msg, l = [((st.heap node).name, msg)] ∧ isAuthAck msg = true ∧ msg.currentEpoch = st.currentEpoch)
    (h : VoteInv left st) : VoteInv left (castVote st node l) := by
  have hepochs : ∀ e ∈ ackEpochs l, e = st.currentEpoch := by
    intro e he
    obtain ⟨m, hm, -, rfl⟩ := mem_ackEpochs.mp he
    rcases hl with rfl | ⟨msg, rfl, -, hcur⟩
    · cases hm
    · rw [List.mem_singleton.mp hm]
      exact hcur
  have hone : (ackEpochs l).Pairwise (· < ·) := by
    rcases hl with rfl | ⟨msg, rfl, hack, -⟩
    · exact List.Pairwise.nil
    · simp [ackEpochs, hack]
  have hnew : st.lastVoteEpoch < st.currentEpoch := lt_of_le_of_ne h.epoch hlast
  have hbuf : ackEpochs (left ++ (castVote st node l).sndbuf) = ackEpochs (left ++ st.sndbuf) ++ ackEpochs l := by
    change ackEpochs (left ++ (st.sndbuf ++ l)) = _
    rw [← List.append_assoc, ackEpochs_append]
  refine ⟨?_, ?_, le_rfl, h.saved, ?_, h.conf⟩
  · rw [hbuf, List.pairwise_append]
    refine ⟨h.increasing, hone, fun a ha b hb => ?_⟩
    rw [hepochs b hb]
    exact (h.voted a ha).trans_lt hnew
  · rw [hbuf]
    intro e he
    change e ≤ st.currentEpoch
    rcases List.mem_append.mp he with he | he
    · exact (h.voted e he).trans h.epoch
    · exact (hepochs e he).le
  · intro hno
    have hno' : st.todo.saveConfig = false := hno
    rw [hsave] at hno'
    cases hno'

theorem VoteInv.save (b : Bool) (h : VoteInv left st) : VoteInv left (clusterSaveConfig st b) where
  increasing := h.increasing
  voted := h.voted
  epoch := h.epoch
  saved e he := h.voted e (by rw [ackEpochs_append]; exact List.mem_append_left _ he)
  queued _ e he := h.voted e (by rw [ackEpochs_append]; exact List.mem_append_right _ he)
  conf := h.epoch

theorem VoteInv.move (hm : Move c st st') (h : VoteInv left st) : VoteInv left st' := by
  cases hm with
  | soft hs => exact h.same hs.rest
  | reshape hr => exact h.same hr.sameRest
  | raise e he => exact ⟨h.increasing, h.voted, h.epoch.trans he, h.saved, h.queued, h.conf⟩
  | draw reason => exact ⟨h.increasing, h.voted, h.epoch.trans (Nat.le_succ _), h.saved, h.queued, h.conf⟩
  | elect reason _ =>
    exact ⟨h.increasing, h.voted, h.epoch.trans (Nat.le_succ _), h.saved,
      by simp [beginElection, clusterDoBeforeSleep], h.conf⟩
  | request l _ _ hl => exact h.send fun m hm => not_ack_of_request (hl m hm).2.1
  | vote node l _ _ _ hlast hsave _ hl =>
    refine h.vote hlast hsave (hl.imp_right ?_)
    rintro ⟨msg, hmsg, -, hack, hcur⟩
    exact ⟨msg, hmsg, hack, hcur⟩
  | send l hl => exact h.send fun m hm => (hl m hm).2.1
  | save b => exact h.save b
  | _ => exact ⟨h.increasing, h.voted, h.epoch, h.saved, h.queued, h.conf⟩

theorem voteInv_process : ProcessInv R (fun _ => True) VoteInv where
  zk h := ⟨h.increasing, h.voted, h.epoch, h.saved, h.queued, h.conf⟩
  same := VoteInv.same
  move _ _ := VoteInv.move
  count := by
    intro left st p epoch h
    obtain ⟨-, -, hbuf, hconf⟩ := countVote_congr (R := R) st p epoch
    obtain ⟨hcur, hlast, -, -, -, -, -, hsave⟩ := countVote_epochs st p epoch
    constructor
    · rw [hbuf]; exact h.increasing
    · rw [hbuf, hlast]; exact h.voted
    · rw [hlast, hcur]; exact h.epoch
    · rw [hconf]; exact h.saved
    · rw [hbuf, hconf, hsave]; exact h.queued
    · rw [hconf]; exact h.conf
  write := by
    intro left st hsave h
    refine ⟨?_, ?_, h.epoch, ?_, by simp, h.conf⟩
    · simpa using h.increasing
    · simpa using h.voted
    · intro e he
      rw [ackEpochs_append] at he
      rcases List.mem_append.mp he with he | he
      · exact h.saved e he
      · exact h.queued hsave e he
  boot := by
    intro left prev st hb h
    have hleft : (ackEpochs left).Pairwise (· < ·) := by
      have := h.increasing
      rw [ackEpochs_append] at this
      exact (List.pairwise_append.mp this).1
    constructor
    · rw [hb.sndbuf, List.append_nil]; exact hleft
    · rw [hb.sndbuf, List.append_nil, hb.lastVoteEpoch]; exact h.saved
    · rw [hb.lastVoteEpoch]; exact h.conf.trans hb.currentEpoch
    · rw [hb.conf]; exact h.saved
    · rw [hb.sndbuf]; simp
    · rw [hb.conf]; exact h.conf
  first := by
    intro prev st hb _ hepochs
    refine ⟨by simp [hb.sndbuf], by simp [hb.sndbuf], ?_, by simp, by simp [hb.sndbuf], by rw [hb.conf]; exact hepochs⟩
    rw [hb.lastVoteEpoch]
    exact hepochs.trans hb.currentEpoch

/-! ### Requests -/

/-- The requests of a process: none is above the epochs it knows, none that left is above
those it saved, and none is above the epoch of the election that runs. -/
structure RequestInv (left : List (NodeName × ClusterMsg)) (st : Server) : Prop where
  asked : ∀ e ∈ requestEpochs (left ++ st.sndbuf), e ≤ st.currentEpoch
  saved : ∀ e ∈ requestEpochs left, e ≤ st.conf.currentEpoch
  queued : st.todo.saveConfig = false → ∀ e ∈ requestEpochs st.sndbuf, e ≤ st.conf.currentEpoch
  election : st.failoverAuthSent = true → ∀ e ∈ requestEpochs (left ++ st.sndbuf), e ≤ st.failoverAuthEpoch

theorem RequestInv.same (hs : SameRest st st') (h : RequestInv left st) : RequestInv left st' where
  asked := by rw [hs.sndbuf, hs.currentEpoch]; exact h.asked
  saved := by rw [hs.conf]; exact h.saved
  queued := by
    intro hsave
    rw [hs.sndbuf, hs.conf]
    refine h.queued ?_
    by_contra hne
    rw [hs.saveConfig (by simpa using hne)] at hsave
    cases hsave
  election := by rw [hs.failoverAuthSent, hs.sndbuf, hs.failoverAuthEpoch]; exact h.election

/-- Packets that are no requests are queued. -/
theorem RequestInv.send (hl : ∀ m ∈ l, isAuthRequest m.2 = false) (h : RequestInv left st) :
    RequestInv left { st with sndbuf := st.sndbuf ++ l } := by
  have heq : ∀ a : List (NodeName × ClusterMsg), requestEpochs (a ++ l) = requestEpochs a := by
    intro a
    rw [requestEpochs_append, requestEpochs_eq_nil hl, List.append_nil]
  refine ⟨?_, h.saved, ?_, ?_⟩
  · rw [← List.append_assoc, heq]
    exact h.asked
  · rw [heq]
    exact h.queued
  · rw [← List.append_assoc, heq]
    exact h.election

/-- Requests for the election that runs are queued. -/
theorem RequestInv.request (hauth : st.failoverAuthEpoch ≤ st.currentEpoch) (hs : st.failoverAuthSent = true)
    (hsave : st.todo.saveConfig = true) (hl : ∀ m ∈ l, m.2.currentEpoch = st.failoverAuthEpoch)
    (h : RequestInv left st) : RequestInv left { st with sndbuf := st.sndbuf ++ l } := by
  have hall : ∀ e ∈ requestEpochs (left ++ (st.sndbuf ++ l)), e ≤ st.failoverAuthEpoch := by
    intro e he
    rw [← List.append_assoc, requestEpochs_append] at he
    rcases List.mem_append.mp he with he | he
    · exact h.election hs e he
    · obtain ⟨m, hm, -, rfl⟩ := mem_requestEpochs.mp he
      exact (hl m hm).le
  refine ⟨fun e he => (hall e he).trans hauth, h.saved, ?_, fun _ => hall⟩
  intro hno
  have hno' : st.todo.saveConfig = false := hno
  rw [hsave] at hno'
  cases hno'

theorem RequestInv.move (hi : NodeInv (R : Set NodeName) x st) (hm : Move c st st') (h : RequestInv left st) :
    RequestInv left st' := by
  cases hm with
  | soft hs => exact h.same hs.rest
  | reshape hr => exact h.same hr.sameRest
  | raise e he => exact ⟨fun e' he' => (h.asked e' he').trans he, h.saved, h.queued, h.election⟩
  | draw reason => exact ⟨fun e he => (h.asked e he).trans (Nat.le_succ _), h.saved, h.queued, h.election⟩
  | schedule => exact ⟨h.asked, h.saved, h.queued, nofun⟩
  | elect reason _ =>
    have hle : ∀ e ∈ requestEpochs (left ++ st.sndbuf), e ≤ st.currentEpoch + 1 := fun e he =>
      (h.asked e he).trans (Nat.le_succ _)
    exact ⟨hle, h.saved, by simp [beginElection, clusterDoBeforeSleep], fun _ => hle⟩
  | request l hs hsave hl => exact h.request hi.epochs.auth hs hsave fun m hm => (hl m hm).2.2
  | vote node l _ _ _ _ _ _ hl =>
    have hno : ∀ m ∈ l, isAuthRequest m.2 = false := by
      intro m hm
      rcases hl with rfl | ⟨msg, rfl, -, hack, -⟩
      · cases hm
      · rw [List.mem_singleton.mp hm]
        exact not_request_of_ack hack
    have h' := h.send hno
    exact ⟨h'.asked, h'.saved, h'.queued, h'.election⟩
  | send l hl => exact h.send fun m hm => (hl m hm).2.2
  | save b =>
    refine ⟨h.asked, fun e he => h.asked e ?_, fun _ e he => h.asked e ?_, h.election⟩
    · rw [requestEpochs_append]
      exact List.mem_append_left _ he
    · rw [requestEpochs_append]
      exact List.mem_append_right _ he
  | _ => exact ⟨h.asked, h.saved, h.queued, h.election⟩

theorem requestInv_process : ProcessInv R (fun _ => True) RequestInv where
  zk h := ⟨h.asked, h.saved, h.queued, h.election⟩
  same := RequestInv.same
  move _ := RequestInv.move
  count := by
    intro left st p epoch h
    obtain ⟨-, -, hbuf, hconf⟩ := countVote_congr (R := R) st p epoch
    obtain ⟨hcur, -, hauth, hsent, -, -, -, hsave⟩ := countVote_epochs st p epoch
    constructor
    · rw [hbuf, hcur]; exact h.asked
    · rw [hconf]; exact h.saved
    · rw [hbuf, hconf, hsave]; exact h.queued
    · rw [hsent, hbuf, hauth]; exact h.election
  write := by
    intro left st hsave h
    refine ⟨?_, ?_, by simp, ?_⟩
    · simpa using h.asked
    · intro e he
      rw [requestEpochs_append] at he
      rcases List.mem_append.mp he with he | he
      · exact h.saved e he
      · exact h.queued hsave e he
    · simpa using h.election
  boot := by
    intro left prev st hb h
    constructor
    · rw [hb.sndbuf, List.append_nil]
      exact fun e he => (h.saved e he).trans hb.currentEpoch
    · rw [hb.conf]; exact h.saved
    · rw [hb.sndbuf]; simp
    · rw [hb.authSent]; nofun
  first hb _ _ := ⟨by simp [hb.sndbuf], by simp, by simp [hb.sndbuf], by simp [hb.sndbuf]⟩

/-! ### Every vote answers a request -/

/-- The log says that the process voted for `n` as a master that serves slots. -/
def Granted (log : List LogEvent) (n : NodeName) (e : ℕ) : Prop :=
  ∃ numslots, numslots ≠ 0 ∧ .authGranted n e true numslots ∈ log

theorem Granted.mono {log log' : List LogEvent} {n : NodeName} {e : ℕ} (hsub : ∀ ev ∈ log, ev ∈ log')
    (h : Granted log n e) : Granted log' n e := by
  obtain ⟨k, hk, hmem⟩ := h
  exact ⟨k, hk, hsub _ hmem⟩

/-- Every vote goes to a process that asked for it, for the epoch it asked for, and is in
the log. `asked n e`: a request of `n` for the epoch `e` left. -/
def GrantInv (asked : NodeName → ℕ → Prop) (left : List (NodeName × ClusterMsg)) (st : Server) : Prop :=
  ∀ m ∈ left ++ st.sndbuf, isAuthAck m.2 = true →
    asked m.1 m.2.currentEpoch ∧ Granted st.log m.1 m.2.currentEpoch

variable {asked : NodeName → ℕ → Prop}

theorem GrantInv.grow (h : GrantInv asked left st) (hlog : ∀ ev ∈ st.log, ev ∈ st'.log)
    (hbuf : ∀ m ∈ st'.sndbuf, m ∈ st.sndbuf ∨ (isAuthAck m.2 = true →
      asked m.1 m.2.currentEpoch ∧ Granted st'.log m.1 m.2.currentEpoch)) : GrantInv asked left st' := by
  intro m hm hack
  have hold : m ∈ left ++ st.sndbuf → asked m.1 m.2.currentEpoch ∧ Granted st'.log m.1 m.2.currentEpoch :=
    fun hm => (h m hm hack).imp_right (Granted.mono hlog)
  rcases List.mem_append.mp hm with hm | hm
  · exact hold (List.mem_append_left _ hm)
  · rcases hbuf m hm with hm | hnew
    · exact hold (List.mem_append_right _ hm)
    · exact hnew hack

theorem GrantInv.send (hl : ∀ m ∈ l, isAuthAck m.2 = false) (h : GrantInv asked left st) :
    GrantInv asked left { st with sndbuf := st.sndbuf ++ l } := by
  refine h.grow (fun _ => id) fun m hm => (List.mem_append.mp hm).imp_right fun hm hack => ?_
  rw [hl m hm] at hack
  cases hack

theorem GrantInv.move (hc : ∀ n e, c.request = some (n, e) → asked n e) (hm : Move c st st')
    (h : GrantInv asked left st) : GrantInv asked left st' := by
  have hlog : ∀ ev ∈ st.log, ev ∈ st'.log := fun _ hev => hm.log.subset hev
  cases hm with
  | soft hs => exact h.grow hlog fun m hm => .inl (hs.rest.sndbuf ▸ hm)
  | reshape hr => exact h.grow hlog fun m hm => .inl (hr.sameRest.sndbuf ▸ hm)
  | request l _ _ hl => exact h.send fun m hm => not_ack_of_request (hl m hm).2.1
  | vote node l _ hme hslots _ _ hreq hl =>
    refine h.grow hlog fun m hm => (List.mem_append.mp hm).imp_right fun hm _ => ?_
    rcases hl with rfl | ⟨msg, rfl, -, -, hcur⟩
    · cases hm
    · rw [List.mem_singleton.mp hm, hcur]
      refine ⟨hc _ _ hreq, st.me.numslots, hslots, ?_⟩
      rw [← hme]
      exact List.mem_append_right _ List.mem_cons_self
  | send l hl => exact h.send fun m hm => (hl m hm).2.1
  | _ => exact h.grow hlog fun _ => .inl

theorem grantInv_process :
    ProcessInv R (fun c => ∀ n e, c.request = some (n, e) → asked n e) (GrantInv asked) where
  zk h := h
  same hs h := h.grow (fun _ hev => hs.log ▸ hev) fun _ hm => .inl (hs.sndbuf ▸ hm)
  move hc _ := GrantInv.move hc
  count := by
    intro left st p epoch h
    obtain ⟨-, -, hbuf, -⟩ := countVote_congr (R := R) st p epoch
    obtain ⟨-, -, -, -, hlog, -⟩ := countVote_epochs st p epoch
    exact h.grow (fun _ hev => hlog ▸ hev) fun _ hm => .inl (hbuf ▸ hm)
  write := by
    intro left st _ h m hm hack
    exact h m (by simpa using hm) hack
  boot := by
    intro left prev st hb h m hm hack
    rw [hb.sndbuf, List.append_nil] at hm
    rw [hb.log]
    exact h m (List.mem_append_left _ hm) hack
  first hb _ _ := by simp [GrantInv, hb.sndbuf]

/-! ### The votes of the cluster -/

structure BallotInv (R : Finset NodeName) (sys : System) : Prop extends SysInv R sys where
  vote : ∀ x ∈ R, VoteInv (sys.sentBy x) (sys.node x)
  request : ∀ x ∈ R, RequestInv (sys.sentBy x) (sys.node x)
  grant : ∀ x ∈ R, GrantInv (fun n e => e ∈ requestEpochs (sys.sentBy n)) (sys.sentBy x) (sys.node x)

theorem Turn.wire {e : Event} (h : Turn R sys e sys') {pkt : Packet} (hp : pkt ∈ sys.wire) : pkt ∈ sys'.wire := by
  cases h with
  | deliver i linkNode env pkt r _ _ _ _ =>
    change _ ∈ (sys.put pkt.dst r).wire
    rw [System.put_wire]
    exact hp
  | handle x env input r _ _ _ =>
    rw [System.put_wire]
    exact hp
  | write x _ _ => exact List.mem_append_left _ hp
  | restart x env s st _ _ _ _ =>
    rw [System.put_wire]
    exact hp
  | lose _ => exact hp
  | sessionEnd _ => exact hp

theorem Turn.sentBy {e : Event} (h : Turn R sys e sys') {m : NodeName × ClusterMsg} (hm : m ∈ sys.sentBy x) :
    m ∈ sys'.sentBy x :=
  mem_sentBy.mpr (h.wire (mem_sentBy.mp hm))

theorem CtxOK.of_true : CtxOK (fun _ => True) R sys := ⟨fun _ _ _ => trivial, fun _ _ => trivial, trivial⟩

/-- The request a process answers left its sender. -/
theorem SysInv.requested (h : SysInv R sys) :
    CtxOK (fun c => ∀ n e, c.request = some (n, e) → e ∈ requestEpochs (sys.sentBy n)) R sys where
  packet := by
    intro pkt hp st n e heq
    have hw := h.net pkt hp
    have heq' : (if isAuthRequest pkt.msg then some (pkt.msg.sender, pkt.msg.currentEpoch) else none) = some (n, e) := heq
    split at heq'
    · rename_i hreq
      obtain ⟨hn, he⟩ : pkt.msg.sender = n ∧ pkt.msg.currentEpoch = e := by simpa using heq'
      rw [← hn, (h.wire pkt hw).2.sender]
      exact mem_requestEpochs.mpr ⟨(pkt.dst, pkt.msg), mem_sentBy.mpr hw, hreq, he⟩
    · cases heq'
  input st input n e heq := by simp [inputCtx] at heq
  boot n e heq := by simp at heq

theorem BallotInv.step {e : Event} (h : BallotInv R sys) (hn : sys.next R e = some sys') : BallotInv R sys' := by
  have ht := h.toSysInv.turn hn
  refine ⟨h.toSysInv.step hn, voteInv_process.turn .of_true h.toSysInv h.vote ht,
    requestInv_process.turn .of_true h.toSysInv h.request ht, fun x hx m hm hack => ?_⟩
  obtain ⟨hasked, hgranted⟩ := grantInv_process.turn h.toSysInv.requested h.toSysInv h.grant ht x hx m hm hack
  obtain ⟨m', hm', hreq, he⟩ := mem_requestEpochs.mp hasked
  exact ⟨mem_requestEpochs.mpr ⟨m', ht.sentBy hm', hreq, he⟩, hgranted⟩

theorem sentBy_init (h : Init R sys) (x : NodeName) : sys.sentBy x = [] := by
  simp [System.sentBy, h.wire]

/-- It holds when the processes start for the first time. -/
theorem ProcessInv.init (hI : ProcessInv R C I) (hC : C { R := R }) (h : Init R sys) :
    ∀ x ∈ R, I (sys.sentBy x) (sys.node x) := by
  intro x hx
  obtain ⟨env, prev, hlog, hconf, hepochs, hstart⟩ := h.booted x hx
  have hspec := startServer_spec env prev hx hconf
  rw [hstart] at hspec
  obtain ⟨s, hs, hb, hm⟩ := hspec
  rw [sentBy_init h]
  exact hI.changes hC rfl hs hm.change (hI.first hb hlog hepochs)

theorem BallotInv.init (h : Init R sys) : BallotInv R sys :=
  ⟨.init h, voteInv_process.init trivial h, requestInv_process.init trivial h, grantInv_process.init nofun h⟩

theorem BallotInv.reachable (h : Reachable R sys) : BallotInv R sys :=
  h.invariant (fun _ => BallotInv.init) fun _ _ _ _ hi hs => hi.step hs.1

end RedisZk.Cluster
