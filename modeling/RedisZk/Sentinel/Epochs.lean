/-
# The epochs of a Sentinel

A run of one Sentinel, with any number of masters. What it votes in an epoch stays, its epochs
grow, and the address it names is that of the greatest configuration it has accepted, as long as
the steps are orderly: a promotion finds no newer configuration, a newer configuration does not
name the old address of a master whose failover has promoted a slave, what is known when the
process dies is in its file, and so on. The code does not see to that.

Key definitions: `Good`, `Advances`, `Turn`, `Orderly`, `Saved`, `Forward`.
Key theorems: `next_turn`, `epochs_move_forward`, `promotion_lowers_config_epoch`.
-/
import RedisZk.Sentinel.Shape

namespace RedisZk.Sentinel

open Streams (Sds)
open Networking (sds)

variable {n : ℕ} {numeric : Sds → Prop} {env : Env}

/-! ### Steps that change no configuration -/

structure Good (numeric : Sds → Prop) (s : State n) : Prop where
  shape : ∀ i, Shape numeric (s.masters i)
  led : ∀ i, (s.masters i).leader_epoch ≤ s.current_epoch

structure Advances (numeric : Sds → Prop) (s s' : State n) : Prop where
  current : s.current_epoch ≤ s'.current_epoch
  led : ∀ i, (s'.masters i).leader_epoch ≤ s'.current_epoch
  quiet : ∀ i, Quiet numeric (s.masters i) (s'.masters i)

variable {s' : State n}

theorem Advances.good (h : Advances numeric s s') : Good numeric s' :=
  ⟨fun i => (h.quiet i).shape, h.led⟩

variable {s : State n}

theorem Advances.refl (h : Good numeric s) : Advances numeric s s :=
  ⟨Nat.le_refl _, h.led, fun i => .refl (h.shape i)⟩

theorem Advances.trans {s s' s'' : State n} (h : Advances numeric s s') (h' : Advances numeric s' s'') :
    Advances numeric s s'' :=
  ⟨h.current.trans h'.current, h'.led, fun i => (h.quiet i).trans (h'.quiet i)⟩

theorem set_self (s : State n) (i : Fin n) (m : Master) : (s.set i m).masters i = m := Function.update_self ..

theorem set_ne (s : State n) {i j : Fin n} (m : Master) (h : j ≠ i) : (s.set i m).masters j = s.masters j :=
  Function.update_of_ne h ..

variable {m : Master}

theorem Advances.set (h : Good numeric s) {i : Fin n} (hq : Quiet numeric (s.masters i) m)
    (hled : m.leader_epoch ≤ s.current_epoch) : Advances numeric s (s.set i m) := by
  refine ⟨Nat.le_refl _, fun j => ?_, fun j => ?_⟩
  · by_cases hj : j = i
    · rw [hj, set_self]
      exact hled
    · rw [set_ne s m hj]
      exact h.led j
  · by_cases hj : j = i
    · rw [hj, set_self]
      exact hq
    · rw [set_ne s m hj]
      exact .refl (h.shape j)

/-- A step of a master that gives no vote. -/
theorem Advances.setMaster (h : Good numeric s) {i : Fin n} (hq : Quiet numeric (s.masters i) m)
    (hled : m.leader_epoch = (s.masters i).leader_epoch) : Advances numeric s (s.set i m) :=
  .set h hq (hled ▸ h.led i)

@[simp] theorem flush_masters (s : State n) : (sentinelFlushConfig s).masters = s.masters := by
  unfold sentinelFlushConfig
  split <;> rfl

@[simp] theorem flush_current_epoch (s : State n) : (sentinelFlushConfig s).current_epoch = s.current_epoch := by
  unfold sentinelFlushConfig
  split <;> rfl

theorem Advances.flush (h : Advances numeric s s') : Advances numeric s (sentinelFlushConfig s') := by
  refine ⟨?_, ?_, ?_⟩
  · rw [flush_current_epoch]
    exact h.current
  · rw [flush_current_epoch, flush_masters]
    exact h.led
  · rw [flush_masters]
    exact h.quiet

theorem Advances.raise (h : Good numeric s) {epoch : ℕ} (hle : s.current_epoch ≤ epoch) :
    Advances numeric s { s with current_epoch := epoch } :=
  ⟨hle, fun i => (h.led i).trans hle, fun i => .refl (h.shape i)⟩

theorem raiseEpoch_advances (h : Good numeric s) (epoch : ℕ) : Advances numeric s (raiseEpoch epoch s) := by
  rw [raiseEpoch]
  split
  · exact (Advances.raise h (by omega)).flush
  · exact .refl h

/-- A vote is given in a new epoch, which is the current one; what is reported is what is kept. -/
theorem voteLeader_advances (h : Good numeric s) (i : Fin n) (req_epoch : ℕ) (req_runid : Sds) :
    Advances numeric s (sentinelVoteLeader env i req_epoch req_runid s).2 ∧
    (sentinelVoteLeader env i req_epoch req_runid s).1 =
      (((sentinelVoteLeader env i req_epoch req_runid s).2.masters i).leader,
        ((sentinelVoteLeader env i req_epoch req_runid s).2.masters i).leader_epoch) := by
  refine ⟨?_, rfl⟩
  have h1 := raiseEpoch_advances h req_epoch
  have hle : req_epoch ≤ (raiseEpoch req_epoch s).current_epoch := by
    rw [raiseEpoch]
    split
    · rw [flush_current_epoch]
    · omega
  rw [sentinelVoteLeader]
  generalize raiseEpoch req_epoch s = s1 at h1 hle
  dsimp only
  split
  · have hcurrent : (s1.masters i).leader_epoch < s1.current_epoch := by omega
    refine (h1.trans (.set h1.good ?_ (Nat.le_refl _))).flush
    refine .of_eq (h1.good.shape i) rfl rfl rfl rfl rfl rfl ⟨hcurrent.le, fun heq => ?_⟩
    exact absurd (show s1.current_epoch = _ from heq) hcurrent.ne'
  · exact h1

theorem getLeader_advances (h : Good numeric s) (i : Fin n) (epoch : ℕ) :
    Advances numeric s (sentinelGetLeader env i epoch s).2 :=
  (voteLeader_advances h ..).1

theorem voteLeader_state (env : Env) (i : Fin n) (epoch : ℕ) (runid : Sds) (s : State n) :
    ((sentinelVoteLeader env i epoch runid s).2.masters i).failover_state = (s.masters i).failover_state ∧
    ((sentinelVoteLeader env i epoch runid s).2.masters i).failover_in_progress = (s.masters i).failover_in_progress := by
  have hraise : (raiseEpoch epoch s).masters = s.masters := by
    rw [raiseEpoch]
    split
    · rw [flush_masters]
    · rfl
  rw [sentinelVoteLeader]
  dsimp only
  split
  · rw [flush_masters, set_self, hraise]
    exact ⟨rfl, rfl⟩
  · rw [hraise]
    exact ⟨rfl, rfl⟩

theorem waitStart_advances (h : Good numeric s) {i : Fin n} (hstate : (s.masters i).failover_state = .wait_start)
    (hp : (s.masters i).failover_in_progress = true) : Advances numeric s (sentinelFailoverWaitStart env i s) := by
  have h1 : Advances numeric s (sentinelGetLeader env i (s.masters i).failover_epoch s).2 := getLeader_advances h ..
  obtain ⟨hs, hg⟩ : ((sentinelGetLeader env i (s.masters i).failover_epoch s).2.masters i).failover_state = _ ∧
    ((sentinelGetLeader env i (s.masters i).failover_epoch s).2.masters i).failover_in_progress = _ := voteLeader_state ..
  rw [hstate] at hs
  rw [hp] at hg
  rw [sentinelFailoverWaitStart]
  generalize sentinelGetLeader env i (s.masters i).failover_epoch s = leader at h1 hs hg
  obtain ⟨leader, s1⟩ := leader
  dsimp only at h1 hs hg ⊢
  have hshape := h1.good.shape i
  split
  · split
    · exact h1.trans (.setMaster h1.good (.abort hshape (by rw [hs]; decide)) rfl)
    · exact h1
  · refine h1.trans (.setMaster h1.good (.goOn hshape hg _ (fun _ => hshape.early (by rw [hs]; decide)) ?_) rfl)
    rw [hs]
    decide

theorem Shape.progress (h : Shape numeric m) (hstate : m.failover_state ≠ .none) : m.failover_in_progress = true := by
  by_contra hno
  exact hstate (h.idle (Bool.eq_false_of_not_eq_true hno))

theorem stateMachine_advances (h : Good numeric s) (i : Fin n) :
    Advances numeric s (sentinelFailoverStateMachine env i s) := by
  have hshape := h.shape i
  rw [sentinelFailoverStateMachine]
  split
  · exact .refl h
  · rename_i hp
    have hp : (s.masters i).failover_in_progress = true := by simpa using hp
    cases hstate : (s.masters i).failover_state with
    | none => exact .refl h
    | wait_start => exact waitStart_advances h hstate hp
    | select_slave =>
      refine .setMaster h (.select hshape hstate) ?_
      rw [sentinelFailoverSelectSlave]
      split <;> rfl
    | send_slaveof_noone =>
      dsimp only
      have hm : (s.masters i).failover_state.code < FailoverState.reconf_slaves.code := by rw [hstate]; decide
      rw [sentinelFailoverSendSlaveOfNoOne]
      split
      · split
        · exact .setMaster h (.abort hshape hm) rfl
        · exact .setMaster h (.refl hshape) rfl
      · split
        · exact .setMaster h (.goOn hshape hp _ (fun hlt => absurd hlt (by decide : ¬ 4 < 3)) (by rw [hstate]; decide)) rfl
        · exact .setMaster h (.refl hshape) rfl
    | wait_promotion =>
      dsimp only
      rw [sentinelFailoverWaitPromotion]
      split
      · exact .setMaster h (.abort hshape (by rw [hstate]; decide)) rfl
      · exact .setMaster h (.refl hshape) rfl
    | reconf_slaves =>
      refine .setMaster h (.detectEnd hshape hstate hp) ?_
      rw [sentinelFailoverDetectEnd]
      split
      · rfl
      · split
        · rfl
        · dsimp only
          split <;> rfl
    | update_config => exact .refl h

/-- An epoch is drawn, if there is one left. -/
theorem startFailover_advances (h : Good numeric s) {i : Fin n}
    (hidle : (s.masters i).failover_in_progress = false) (hlast : s.current_epoch + 1 < 2 ^ 64) :
    Advances numeric s (sentinelStartFailover env i s) := by
  rw [sentinelStartFailover, Nat.mod_eq_of_lt hlast]
  have h1 := Advances.raise h (Nat.le_succ s.current_epoch)
  exact h1.trans (.setMaster h1.good (.start (h1.good.shape i) hidle ..) rfl)

/-- The failover of a master is about to start. -/
def starts (env : Env) (i : Fin n) (s : State n) : Bool :=
  mayStart env (sentinelCheckObjectivelyDown (s.masters i))

theorem ask_quiet (h : Shape numeric m) (forced : Bool) (current_epoch : ℕ) (myid : Sds) :
    Quiet numeric m (sentinelAskMasterStateToOtherSentinels env forced current_epoch myid m).2 :=
  .of_eq h rfl rfl rfl rfl rfl rfl (.of_eq rfl (.inr rfl))

theorem actOn_advances (h : Good numeric s) {i : Fin n}
    (hlast : starts env i s = true → s.current_epoch + 1 < 2 ^ 64) : Advances numeric s (actOn env i s).1 := by
  have h1 : Advances numeric s (s.set i (sentinelCheckObjectivelyDown (s.masters i))) :=
    .setMaster h (.of_eq (h.shape i) rfl rfl rfl rfl rfl rfl (.of_eq rfl (.inr rfl))) rfl
  have hcurrent : (s.set i (sentinelCheckObjectivelyDown (s.masters i))).current_epoch = s.current_epoch := rfl
  rw [starts, ← set_self s i (sentinelCheckObjectivelyDown (s.masters i)), ← hcurrent] at hlast
  rw [actOn]
  generalize s.set i (sentinelCheckObjectivelyDown (s.masters i)) = s1 at h1 hlast
  have h2 : Advances numeric s (sentinelStartFailoverIfNeeded env i s1).2 := by
    rw [sentinelStartFailoverIfNeeded]
    split
    · rename_i hmay
      have hidle : (s1.masters i).failover_in_progress = false := by
        have := (Bool.and_eq_true_iff.mp (Bool.and_eq_true_iff.mp hmay).1).2
        exact Bool.not_eq_true' _ ▸ this
      exact h1.trans (startFailover_advances h1.good hidle (hlast hmay))
    · exact h1
  generalize sentinelStartFailoverIfNeeded env i s1 = started at h2
  obtain ⟨started, s2⟩ := started
  dsimp only at h2 ⊢
  have h3 : Advances numeric s (s2.set i (if started = true then
      sentinelAskMasterStateToOtherSentinels env true s2.current_epoch s2.myid (s2.masters i)
      else ([], s2.masters i)).2) := by
    split
    · exact h2.trans (.setMaster h2.good (ask_quiet (h2.good.shape i) ..) rfl)
    · exact h2.trans (.setMaster h2.good (.refl (h2.good.shape i)) rfl)
  generalize s2.set i _ = s3 at h3
  have h4 := h3.trans (@stateMachine_advances _ _ env _ h3.good i)
  generalize sentinelFailoverStateMachine env i s3 = s4 at h4
  exact h4.trans (.setMaster h4.good (ask_quiet (h4.good.shape i) ..) rfl)

theorem handleRedisInstance_advances (h : Good numeric s) {i : Fin n}
    (hlast : starts env i s = true → s.current_epoch + 1 < 2 ^ 64) :
    Advances numeric s (sentinelHandleRedisInstance env i s).1 := by
  rw [sentinelHandleRedisInstance]
  split
  · split
    · exact .refl h
    · have h' : Good numeric { s with tilt := false } := ⟨h.shape, h.led⟩
      obtain ⟨h1, h2, h3⟩ := @actOn_advances _ _ env _ h' i hlast
      exact ⟨h1, h2, h3⟩
  · exact actOn_advances h hlast

theorem failoverCommand_advances (h : Good numeric s) {name : Sds} (hlast : s.current_epoch + 1 < 2 ^ 64) :
    Advances numeric s (failoverCommand env name s) := by
  rw [failoverCommand]
  split
  · exact .refl h
  · rename_i i _
    split
    · exact .refl h
    · rename_i hp
      split
      · exact .refl h
      · have h1 := @startFailover_advances _ _ env _ h _ (Bool.eq_false_of_not_eq_true hp) hlast
        exact h1.trans (.setMaster h1.good (.of_eq (h1.good.shape i) rfl rfl rfl rfl rfl rfl (.of_eq rfl (.inr rfl))) rfl)

/-! ### Messages -/

/-- The masters differ in what is known of the other Sentinels alone. -/
structure SameButPeers (s s' : State n) : Prop where
  current : s'.current_epoch = s.current_epoch
  masters : ∀ j, ∃ sentinels, s'.masters j = { s.masters j with sentinels := sentinels }

theorem SameButPeers.refl (s : State n) : SameButPeers s s := ⟨rfl, fun _ => ⟨_, rfl⟩⟩

theorem SameButPeers.trans {s s' s'' : State n} (h : SameButPeers s s') (h' : SameButPeers s' s'') : SameButPeers s s'' := by
  refine ⟨h'.current.trans h.current, fun j => ?_⟩
  obtain ⟨l, hl⟩ := h.masters j
  obtain ⟨l', hl'⟩ := h'.masters j
  exact ⟨l', by rw [hl', hl]⟩

theorem SameButPeers.set (s : State n) (i : Fin n) (sentinels : List Peer) :
    SameButPeers s (s.set i { s.masters i with sentinels := sentinels }) := by
  refine ⟨rfl, fun j => ?_⟩
  by_cases hj : j = i
  · rw [hj, set_self]
    exact ⟨_, rfl⟩
  · rw [set_ne _ _ hj]
    exact ⟨_, rfl⟩

theorem SameButPeers.update (s : State n) (runid : Sds) (addr : SentinelAddr) :
    SameButPeers s (sentinelUpdateSentinelAddressInAllMasters runid addr s) :=
  ⟨rfl, fun _ => ⟨_, rfl⟩⟩

theorem SameButPeers.advances (h : SameButPeers s s') (hs : Good numeric s) : Advances numeric s s' := by
  refine ⟨h.current.ge, fun j => ?_, fun j => ?_⟩
  · obtain ⟨l, hl⟩ := h.masters j
    rw [hl, h.current]
    exact hs.led j
  · obtain ⟨l, hl⟩ := h.masters j
    rw [hl]
    exact .of_eq (hs.shape j) rfl rfl rfl rfl rfl rfl (.of_eq rfl (.inr rfl))

theorem knowSentinel_same (env : Env) (hello : Hello) (i : Fin n) (s : State n) :
    SameButPeers s (knowSentinel env hello i s).2 := by
  rw [knowSentinel]
  dsimp only
  split
  · exact .refl s
  · generalize (s.masters i).sentinels.any (·.runid = hello.runid) = removed
    generalize hs1 : (if removed = true then _ else _ : State n) = s1
    have h1 : SameButPeers s s1 := by
      rw [← hs1]
      split
      · exact .set s i _
      · split
        · exact .update s ..
        · exact .refl s
    split
    · exact h1
    · rename_i master hcreate
      have h2 : SameButPeers s (s1.set i master) := by
        obtain ⟨addr, -, hcreate⟩ := Option.bind_eq_some_iff.mp hcreate
        split at hcreate
        · cases hcreate
        · cases hcreate
          exact h1.trans (.set s1 i _)
      have hflush : ∀ s2, SameButPeers s s2 → SameButPeers s (sentinelFlushConfig s2) := fun s2 h =>
        ⟨by rw [flush_current_epoch, h.current], by rw [flush_masters]; exact h.masters⟩
      refine hflush _ ?_
      split
      · split
        · exact h2.trans (.update _ ..)
        · exact h2
      · exact h2

/-! ### Another address -/

theorem resetChange_spec (he : env.Lawful numeric) (s : State n) (i : Fin n) {ip : Sds} {port : ℤ}
    {a : SentinelAddr} (ha : createSentinelAddr env ip port = some a) :
    ∃ m, (sentinelResetMasterAndChangeAddress env i ip port s).masters = Function.update s.masters i m ∧
      (sentinelResetMasterAndChangeAddress env i ip port s).current_epoch = s.current_epoch ∧
      Shape numeric m ∧ sentinelGetCurrentMasterAddress m = a ∧ m.config_epoch = (s.masters i).config_epoch ∧
      Follows (s.masters i) m ∧ m.leader_epoch = (s.masters i).leader_epoch := by
  obtain ⟨m0, hm0⟩ : ∃ m0, m0 = { sentinelResetMaster true (s.masters i) with addr := a } := ⟨_, rfl⟩
  have hshape : Shape numeric m0 := by
    rw [hm0]
    exact .of_empty (valid_of_create he ha) rfl rfl rfl
  have hback : Quiet numeric m0 ((slavesBack (s.masters i) a).foldl (fun m a => (createSlave env a.ip a.port m).getD m) m0) ∧
      ((slavesBack (s.masters i) a).foldl (fun m a => (createSlave env a.ip a.port m).getD m) m0).leader_epoch =
        m0.leader_epoch := by
    refine Stepwise.foldl_invariant (Q := fun m => Quiet numeric m0 m ∧ m.leader_epoch = m0.leader_epoch) _ m0
      ⟨.refl hshape, rfl⟩ fun m hm addr _ => ?_
    cases hc : createSlave env addr.ip addr.port m with
    | none => exact hm
    | some m' =>
      refine ⟨hm.1.trans (.createSlave he hm.1.shape hc), ?_⟩
      obtain ⟨_, _, _, rfl⟩ := createSlave_eq_some hc
      exact hm.2
  rw [sentinelResetMasterAndChangeAddress, ha]
  dsimp only
  rw [← hm0]
  refine ⟨_, flush_masters _, flush_current_epoch _, hback.1.shape, ?_, ?_, ?_, ?_⟩
  · rw [hback.1.address, hm0]
    exact address_of_none rfl
  · rw [hback.1.config_epoch, hm0]
    rfl
  · refine Follows.trans ?_ hback.1.follows
    rw [hm0]
    exact .of_eq rfl (.inl rfl)
  · rw [hback.2, hm0]
    rfl

/-- A master is switched to its promoted slave, whose address is named already. -/
theorem switch_advances (he : env.Lawful numeric) (h : Good numeric s) {i : Fin n}
    (hstate : (s.masters i).failover_state = .update_config) :
    Advances numeric s (sentinelFailoverSwitchToPromotedSlave env i s) := by
  have hcurrent : ((s.masters i).promoted.map Slave.addr).getD (s.masters i).addr =
      sentinelGetCurrentMasterAddress (s.masters i) := by
    have hp := (h.shape i).progress (by rw [hstate]; decide)
    rw [sentinelGetCurrentMasterAddress]
    cases (s.masters i).promoted with
    | none => rfl
    | some slave => exact (if_pos ⟨hp, by rw [hstate]; decide⟩).symm
  rw [sentinelFailoverSwitchToPromotedSlave, hcurrent]
  obtain ⟨m, hm, hepoch, hshape, haddr, hconfig, hf, hled⟩ := resetChange_spec he s i (create_self he (h.shape i).current)
  refine ⟨hepoch.ge, fun j => ?_, fun j => ?_⟩
  · rw [hm, hepoch]
    by_cases hj : j = i
    · rw [hj, Function.update_self, hled]
      exact h.led i
    · rw [Function.update_of_ne hj]
      exact h.led j
  · rw [hm]
    by_cases hj : j = i
    · rw [hj, Function.update_self]
      exact ⟨hshape, hconfig, haddr, hf⟩
    · rw [Function.update_of_ne hj]
      exact .refl (h.shape j)

/-! ### What an event does -/

/-- The configurations accepted for a master. -/
def acceptedBy (i : Fin n) (out : List (Output n)) : List (ℕ × Option SentinelAddr) :=
  out.filterMap fun
    | .accept j config_epoch addr => if j = i then some (config_epoch, addr) else none
    | _ => none

/-- The votes reported for a master. -/
def votesBy (i : Fin n) (out : List (Output n)) : List (Sds × ℕ) :=
  out.filterMap fun
    | .reply (some j) _ (some leader) leader_epoch => if j = i then some (leader, leader_epoch) else none
    | _ => none

/-- A configuration that is accepted is not older than the one before, and its address is named. -/
structure Turn (numeric : Sds → Prop) (s : State n) (out : List (Output n)) (s' : State n) : Prop where
  current : s.current_epoch ≤ s'.current_epoch
  led : ∀ i, (s'.masters i).leader_epoch ≤ s'.current_epoch
  shape : ∀ i, Shape numeric (s'.masters i)
  follows : ∀ i, Follows (s.masters i) (s'.masters i)
  config : ∀ i, (acceptedBy i out = [] ∧ (s'.masters i).config_epoch = (s.masters i).config_epoch ∧
      sentinelGetCurrentMasterAddress (s'.masters i) = sentinelGetCurrentMasterAddress (s.masters i)) ∨
    (acceptedBy i out = [((s'.masters i).config_epoch, some (sentinelGetCurrentMasterAddress (s'.masters i)))] ∧
      (s.masters i).config_epoch ≤ (s'.masters i).config_epoch)
  votes : ∀ i, ∀ p ∈ votesBy i out, (s'.masters i).leader = some p.1 ∧ (s'.masters i).leader_epoch = p.2

variable {out : List (Output n)}

theorem Advances.turn (h : Advances numeric s s') (ha : ∀ i, acceptedBy i out = [])
    (hv : ∀ i, votesBy i out = []) : Turn numeric s out s' := by
  refine ⟨h.current, h.led, fun i => (h.quiet i).shape, fun i => (h.quiet i).follows,
    fun i => .inl ⟨ha i, (h.quiet i).config_epoch, (h.quiet i).address⟩, fun i p hp => ?_⟩
  rw [hv i] at hp
  cases hp

theorem Advances.turn_nil (h : Advances numeric s s') : Turn numeric s [] s' :=
  h.turn (fun _ => rfl) fun _ => rfl

/-- A new configuration of one master. -/
theorem Turn.accept {s s1 s' : State n} (h1 : Advances numeric s s1) {i : Fin n}
    (hm : s'.masters = Function.update s1.masters i m) (hcurrent : s'.current_epoch = s1.current_epoch)
    (hshape : Shape numeric m) (hf : Follows (s1.masters i) m) (hled : m.leader_epoch = (s1.masters i).leader_epoch)
    (hle : (s1.masters i).config_epoch ≤ m.config_epoch) :
    Turn numeric s [.accept i m.config_epoch (some (sentinelGetCurrentMasterAddress m))] s' := by
  have hself : s'.masters i = m := by rw [hm, Function.update_self]
  have hne : ∀ j, j ≠ i → s'.masters j = s1.masters j := fun j hj => by rw [hm, Function.update_of_ne hj]
  refine ⟨h1.current.trans hcurrent.ge, fun j => ?_, fun j => ?_, fun j => ?_, fun j => ?_, fun j p hp => ?_⟩
  · by_cases hj : j = i
    · rw [hj, hself, hled, hcurrent]
      exact h1.led i
    · rw [hne j hj, hcurrent]
      exact h1.led j
  · by_cases hj : j = i
    · rw [hj, hself]
      exact hshape
    · rw [hne j hj]
      exact (h1.quiet j).shape
  · by_cases hj : j = i
    · rw [hj, hself]
      exact (h1.quiet i).follows.trans hf
    · rw [hne j hj]
      exact (h1.quiet j).follows
  · by_cases hj : j = i
    · refine .inr ⟨?_, ?_⟩
      · rw [hj, hself]
        exact List.filterMap_cons_some (if_pos rfl)
      · rw [hj, hself, ← (h1.quiet i).config_epoch]
        exact hle
    · refine .inl ⟨List.filterMap_cons_none (if_neg (Ne.symm hj)), ?_⟩
      rw [hne j hj]
      exact ⟨(h1.quiet j).config_epoch, (h1.quiet j).address⟩
  · cases hp

/-! ### Orderly steps -/

/-- The file holds the epochs, and the address that is named. -/
structure Saved (s : State n) : Prop where
  current_epoch : s.file.current_epoch = s.current_epoch
  config_epoch : ∀ i, (s.file.masters i).config_epoch = (s.masters i).config_epoch
  leader_epoch : ∀ i, (s.file.masters i).leader_epoch = (s.masters i).leader_epoch
  addr : ∀ i, (s.file.masters i).addr = sentinelGetCurrentMasterAddress (s.masters i)

/-- What the code does not see to. -/
def Orderly (env : Env) (s : State n) : Event n → Prop
  -- A newer configuration can be resolved, and is not the old address of a master that has a new one.
  | .input (.hello h) => ∀ i, s.find (·.name = h.master_name) = some i → (knowSentinel env h i s).1 = true →
      (s.masters i).config_epoch < h.master_config_epoch →
      if differs h (s.masters i) then (createSentinelAddr env h.master_ip h.master_port).isSome
      else sentinelGetCurrentMasterAddress (s.masters i) = (s.masters i).addr
  -- A promotion finds no newer configuration.
  | .input (.info i (some name) info) => ∀ ri, (s.masters i).slave name = some ri →
      promotes s.tilt (s.masters i) ri info.role = true → (s.masters i).config_epoch ≤ (s.masters i).failover_epoch
  -- The epoch does not wrap around.
  | .input (.timer i) => starts env i s = true → s.current_epoch + 1 < 2 ^ 64
  | .input (.failover _) => s.current_epoch + 1 < 2 ^ 64
  -- The new address is not forgotten.
  | .input (.reset pattern) => ∀ i, pattern i = true → sentinelGetCurrentMasterAddress (s.masters i) = (s.masters i).addr
  | .input _ => True
  | .crash => Saved s

theorem hello_turn (he : env.Lawful numeric) (h : Good numeric s) {hello : Hello}
    (ho : Orderly env s (.input (.hello hello))) :
    Turn numeric s (sentinelProcessHelloMessage env hello s).2 (sentinelProcessHelloMessage env hello s).1 := by
  rw [sentinelProcessHelloMessage]
  split
  · exact (Advances.refl h).turn_nil
  · rename_i i hi
    have ho := ho i hi
    have hsame := knowSentinel_same env hello i s
    have h1 := hsame.advances h
    obtain ⟨l, hl⟩ := hsame.masters i
    generalize knowSentinel env hello i s = known at ho hsame h1 hl
    obtain ⟨si, s1⟩ := known
    dsimp only at ho h1 hl ⊢
    have h2 := h1.trans (raiseEpoch_advances h1.good hello.current_epoch)
    have hmasters : (raiseEpoch hello.current_epoch s1).masters = s1.masters := by
      rw [raiseEpoch]
      split
      · rw [flush_masters]
      · rfl
    generalize raiseEpoch hello.current_epoch s1 = s2 at h2 hmasters
    have hi2 : s2.masters i = { s.masters i with sentinels := l } := by rw [hmasters, hl]
    split
    · rename_i hnew
      obtain ⟨hsi, hnew⟩ := Bool.and_eq_true_iff.mp hnew
      have hnew : (s2.masters i).config_epoch < hello.master_config_epoch := of_decide_eq_true hnew
      have ho := ho hsi (by rw [hi2] at hnew; exact hnew)
      have hdiffers : differs hello (s.masters i) = differs hello (s2.masters i) := by rw [hi2]; rfl
      obtain ⟨m1, hm1⟩ : ∃ m1, m1 = { s2.masters i with config_epoch := hello.master_config_epoch } := ⟨_, rfl⟩
      have hself : (s2.set i m1).masters i = m1 := set_self ..
      have hq1 : Follows (s2.masters i) m1 := hm1 ▸ .of_eq rfl (.inr rfl)
      rw [← hm1, hself]
      have hshape : Shape numeric m1 := by
        have := h2.good.shape i
        rw [hm1]
        exact ⟨this.addr, this.slaves, this.names, this.promoted, this.pointer, this.early, this.idle⟩
      have hsame' : differs hello m1 = differs hello (s2.masters i) := by rw [hm1]; rfl
      split
      · rename_i hdiff
        rw [if_pos (by rw [hdiffers, ← hsame', hdiff])] at ho
        obtain ⟨a, ha⟩ := Option.isSome_iff_exists.mp ho
        obtain ⟨m, hm, hepoch, hs, haddr, hconfig, hf, hled⟩ := resetChange_spec he (s2.set i m1) i ha
        rw [hself] at hconfig hf hled
        have hconfig : m.config_epoch = hello.master_config_epoch := by rw [hconfig, hm1]
        rw [ha, ← haddr, ← hconfig]
        refine .accept h2 ?_ hepoch hs (hq1.trans hf) (by rw [hled, hm1]) (by rw [hconfig]; exact hnew.le)
        rw [hm]
        exact Function.update_idem ..
      · rename_i hdiff
        rw [if_neg (by rw [hdiffers, ← hsame']; exact hdiff)] at ho
        have haddr : sentinelGetCurrentMasterAddress m1 = m1.addr := by
          have := (h2.quiet i).address
          rw [hm1]
          show sentinelGetCurrentMasterAddress (s2.masters i) = (s2.masters i).addr
          rw [this, ho, hi2]
        have hconfig : m1.config_epoch = hello.master_config_epoch := by rw [hm1]
        rw [← haddr, ← hconfig]
        exact .accept h2 rfl rfl hshape hq1 (by rw [hm1]) (by rw [hconfig]; exact hnew.le)
    · exact h2.turn_nil

theorem addSlave_advances (he : env.Lawful numeric) (h : Good numeric s) (i : Fin n) (addr : Sds × ℤ) :
    Advances numeric s (addSlave env i s addr) := by
  rw [addSlave]
  split
  · rename_i m hm
    refine (Advances.setMaster h (.createSlave he (h.shape i) hm) ?_).flush
    obtain ⟨_, _, _, rfl⟩ := createSlave_eq_some hm
    rfl
  · exact .refl h

theorem info_turn (he : env.Lawful numeric) (h : Good numeric s) {i : Fin n} {ri : Option Sds} {info : Info}
    (ho : Orderly env s (.input (.info i ri info))) :
    Turn numeric s (sentinelRefreshInstanceInfo env i ri info s).2 (sentinelRefreshInstanceInfo env i ri info s).1 := by
  unfold sentinelRefreshInstanceInfo
  dsimp only
  split
  · refine Advances.turn_nil ?_
    exact Stepwise.foldl_invariant (Q := fun s' => Advances numeric s s') info.slaves s (.refl h) fun s' hs addr _ =>
      hs.trans (addSlave_advances he hs.good i addr)
  · rename_i name
    split
    · exact (Advances.refl h).turn_nil
    · rename_i slave hslave
      split
      · rename_i hpromotes
        have hle := ho slave hslave hpromotes
        rw [promotes] at hpromotes
        obtain ⟨hpromotes, hstate⟩ := Bool.and_eq_true_iff.mp hpromotes
        obtain ⟨hpromotes, hp⟩ := Bool.and_eq_true_iff.mp hpromotes
        obtain ⟨-, hpromoted⟩ := Bool.and_eq_true_iff.mp hpromotes
        have hshape := h.shape i
        have hpointer := hshape.promoted slave (slave_mem hslave) hpromoted
        rw [slave_name hslave] at hpointer
        obtain ⟨m, hm⟩ : ∃ m, m = { s.masters i with
            config_epoch := (s.masters i).failover_epoch
            failover_state := .reconf_slaves
            failover_state_change_time := env.mstime } := ⟨_, rfl⟩
        have hmshape : Shape numeric m := by
          rw [hm]
          refine ⟨hshape.addr, hshape.slaves, hshape.names, hshape.promoted, hshape.pointer,
            fun hlt => absurd hlt (by decide : ¬ 5 < 3), fun hidle => ?_⟩
          have hidle : (s.masters i).failover_in_progress = false := hidle
          rw [hp] at hidle
          cases hidle
        have haddr : sentinelGetCurrentMasterAddress m = slave.addr := by
          have hprom : m.promoted = some slave := by
            rw [hm]
            show (s.masters i).promoted_slave.bind (s.masters i).slave = _
            rw [hpointer]
            exact hslave
          have hside : FailoverState.reconf_slaves.code ≤ m.failover_state.code := by
            rw [hm]
          rw [sentinelGetCurrentMasterAddress, hprom]
          refine if_pos ⟨?_, hside⟩
          rw [hm]
          exact hp
        have hconfig : m.config_epoch = (s.masters i).failover_epoch := by rw [hm]
        rw [← hm, ← haddr, ← hconfig]
        refine .accept (.refl h) (flush_masters _) (flush_current_epoch _) hmshape ?_ ?_ (hconfig ▸ hle)
        · rw [hm]
          exact .of_eq rfl (.inr rfl)
        · rw [hm]
      · exact (Advances.refl h).turn_nil

theorem request_turn (h : Good numeric s) (ip : Sds) (port req_epoch : ℤ) (req_runid : Sds) :
    Turn numeric s (isMasterDownByAddr env ip port req_epoch req_runid s).2
      (isMasterDownByAddr env ip port req_epoch req_runid s).1 := by
  rw [isMasterDownByAddr]
  split
  · exact (Advances.refl h).turn_nil
  · split
    · exact (Advances.refl h).turn (fun _ => rfl) fun _ => rfl
    · rename_i i _
      dsimp only
      split
      · exact (Advances.refl h).turn (fun _ => rfl) fun _ => rfl
      · obtain ⟨hadv, hvote⟩ := @voteLeader_advances _ _ env _ h i (req_epoch % 2 ^ 64).toNat req_runid
        generalize sentinelVoteLeader env i (req_epoch % 2 ^ 64).toNat req_runid s = vote at hadv hvote
        obtain ⟨⟨leader, leader_epoch⟩, s'⟩ := vote
        dsimp only at hadv hvote
        obtain ⟨rfl, rfl⟩ := Prod.mk.inj hvote
        refine ⟨hadv.current, hadv.led, fun j => (hadv.quiet j).shape, fun j => (hadv.quiet j).follows,
          fun j => .inl ⟨rfl, (hadv.quiet j).config_epoch, (hadv.quiet j).address⟩, fun j p hp => ?_⟩
        dsimp only at hp
        rw [votesBy] at hp
        cases hleader : (s'.masters i).leader with
        | none =>
          rw [hleader] at hp
          cases hp
        | some leader =>
          rw [hleader] at hp
          obtain ⟨o, ho, heq⟩ := List.mem_filterMap.mp hp
          rcases List.mem_singleton.mp ho with rfl
          dsimp only at heq
          split at heq
          · rename_i hij
            cases heq
            rw [← hij]
            exact ⟨hleader, rfl⟩
          · cases heq

theorem reset_turn (h : Good numeric s) {pattern : Fin n → Bool}
    (ho : Orderly env s (.input (.reset pattern))) :
    Turn numeric s [] { s with masters := fun i => if pattern i then sentinelResetMaster false (s.masters i) else s.masters i } := by
  have hadv : Advances numeric s
      { s with masters := fun i => if pattern i then sentinelResetMaster false (s.masters i) else s.masters i } := by
    refine ⟨Nat.le_refl _, fun i => ?_, fun i => ?_⟩
    · dsimp only
      split
      · exact h.led i
      · exact h.led i
    · dsimp only
      split
      · rename_i hi
        refine ⟨.of_empty (h.shape i).addr rfl rfl rfl, rfl, ?_, .of_eq rfl (.inl rfl)⟩
        rw [ho i hi]
        exact address_of_none rfl
      · exact .refl (h.shape i)
  exact hadv.turn_nil

/-! ### Starting again -/

theorem loadMaster_spec (he : env.Lawful numeric) {c : MasterConfig} (h : loadMaster env c = some m) :
    Shape numeric m ∧ m.config_epoch = c.config_epoch ∧ m.leader_epoch = c.leader_epoch ∧ m.leader = none ∧
      createSentinelAddr env c.addr.ip c.addr.port = some (sentinelGetCurrentMasterAddress m) := by
  rw [loadMaster] at h
  split at h
  · cases h
  · obtain ⟨addr, haddr, h⟩ := Option.bind_eq_some_iff.mp h
    obtain ⟨m1, h1, h2⟩ := Option.bind_eq_some_iff.mp h
    obtain ⟨m0, hm0⟩ : ∃ m0 : Master, m0 =
        { name := c.name, addr := addr, quorum := c.quorum, config_epoch := c.config_epoch, leader_epoch := c.leader_epoch,
          down_after_period := c.down_after_period, failover_timeout := c.failover_timeout } := ⟨_, rfl⟩
    rw [← hm0] at h1
    have hshape : Shape numeric m0 := by
      rw [hm0]
      exact .of_empty (valid_of_create he haddr) rfl rfl rfl
    have hsame : Quiet numeric m0 m ∧ m.leader_epoch = m0.leader_epoch ∧ m.leader = m0.leader := by
      refine Stepwise.foldlM_invariant (Q := fun m => Quiet numeric m0 m ∧ m.leader_epoch = m0.leader_epoch ∧
        m.leader = m0.leader) (fun a p b ha hb => ?_) _ (Stepwise.foldlM_invariant (Q := fun m => Quiet numeric m0 m ∧
        m.leader_epoch = m0.leader_epoch ∧ m.leader = m0.leader) (fun a p b ha hb => ?_) _ ⟨.refl hshape, rfl, rfl⟩ h1) h2
      · obtain ⟨_, -, hb⟩ := Option.bind_eq_some_iff.mp hb
        split at hb
        · cases hb
        · cases hb
          exact ⟨ha.1.trans (.of_eq ha.1.shape rfl rfl rfl rfl rfl rfl (.of_eq rfl (.inr rfl))), ha.2⟩
      · have hq := Quiet.createSlave he ha.1.shape hb
        obtain ⟨_, _, _, rfl⟩ := createSlave_eq_some hb
        exact ⟨ha.1.trans hq, ha.2⟩
    obtain ⟨hq, hled, hleader⟩ := hsame
    refine ⟨hq.shape, ?_, ?_, ?_, ?_⟩
    · rw [hq.config_epoch, hm0]
    · rw [hled, hm0]
    · rw [hleader, hm0]
    · have hearly : m0.failover_state.code < FailoverState.reconf_slaves.code := by
        rw [hm0]
        exact (by decide : 0 < 5)
      rw [haddr, hq.address, address_of_early hearly, hm0]

theorem load_spec (he : env.Lawful numeric) {c : Config n} (h : sentinelHandleConfiguration env c = some s) :
    c.current_epoch ≤ s.current_epoch ∧ ∀ i, Shape numeric (s.masters i) ∧
      (s.masters i).config_epoch = (c.masters i).config_epoch ∧
      (s.masters i).leader_epoch = (c.masters i).leader_epoch ∧ (s.masters i).leader = none ∧
      createSentinelAddr env (c.masters i).addr.ip (c.masters i).addr.port =
        some (sentinelGetCurrentMasterAddress (s.masters i)) := by
  rw [sentinelHandleConfiguration] at h
  split at h
  · rename_i hall
    cases h
    exact ⟨le_max_left .., fun i => loadMaster_spec he (Option.some_get (hall i)).symm⟩
  · cases h

theorem crash_turn (he : env.Lawful numeric) (h : Good numeric s) (ho : Saved s)
    (hs : sentinelHandleConfiguration env s.file = some s') : Turn numeric s [] s' := by
  obtain ⟨hcurrent, hmasters⟩ := load_spec he hs
  have hcurrent : s.current_epoch ≤ s'.current_epoch := ho.current_epoch ▸ hcurrent
  refine Advances.turn_nil ⟨hcurrent, fun i => ?_, fun i => ?_⟩
  · obtain ⟨-, -, hled, -⟩ := hmasters i
    rw [hled, ho.leader_epoch i]
    exact (h.led i).trans hcurrent
  · obtain ⟨hshape, hconfig, hled, hleader, haddr⟩ := hmasters i
    rw [ho.addr i, create_self he (h.shape i).current] at haddr
    refine ⟨hshape, hconfig.trans (ho.config_epoch i), (Option.some.inj haddr).symm, .of_eq ?_ (.inl hleader)⟩
    rw [hled, ho.leader_epoch i]

/-- Requests, and the news of an election, are neither votes nor configurations. -/
theorem acts_silent (h : ∀ o ∈ out, (∃ i request, o = .ask i request) ∨ ∃ i epoch, o = .elected i epoch)
    (i : Fin n) : acceptedBy i out = [] ∧ votesBy i out = [] := by
  constructor
  · refine List.filterMap_eq_nil_iff.mpr fun o ho => ?_
    rcases h o ho with ⟨j, request, rfl⟩ | ⟨j, epoch, rfl⟩ <;> rfl
  · refine List.filterMap_eq_nil_iff.mpr fun o ho => ?_
    rcases h o ho with ⟨j, request, rfl⟩ | ⟨j, epoch, rfl⟩ <;> rfl

theorem mem_electedNow {i : Fin n} {o : Output n} (h : o ∈ electedNow i s s') :
    o = .elected i (s.masters i).failover_epoch ∧ (s.masters i).failover_state = .wait_start ∧
      (s'.masters i).failover_state = .select_slave := by
  rw [electedNow] at h
  split at h
  · rename_i hstates
    exact ⟨List.mem_singleton.mp h, hstates⟩
  · cases h

theorem actOn_acts (env : Env) (i : Fin n) (s : State n) :
    ∀ o ∈ (actOn env i s).2, (∃ i request, o = .ask i request) ∨ ∃ i epoch, o = .elected i epoch := by
  intro o ho
  rw [actOn] at ho
  dsimp only at ho
  rcases List.mem_append.mp ho with ho | ho
  · rcases List.mem_append.mp ho with ho | ho
    · obtain ⟨request, -, rfl⟩ := List.mem_map.mp ho
      exact .inl ⟨_, _, rfl⟩
    · exact .inr ⟨_, _, (mem_electedNow ho).1⟩
  · obtain ⟨request, -, rfl⟩ := List.mem_map.mp ho
    exact .inl ⟨_, _, rfl⟩

theorem timer_turn (h : Good numeric s) {i : Fin n} (ho : Orderly env s (.input (.timer i))) :
    Turn numeric s (sentinelHandleRedisInstance env i s).2 (sentinelHandleRedisInstance env i s).1 := by
  have hacts : ∀ o ∈ (sentinelHandleRedisInstance env i s).2,
      (∃ i request, o = .ask i request) ∨ ∃ i epoch, o = .elected i epoch := by
    rw [sentinelHandleRedisInstance]
    split
    · split
      · exact nofun
      · exact actOn_acts env i _
    · exact actOn_acts env i s
  exact (handleRedisInstance_advances h ho).turn (fun i => (acts_silent hacts i).1) fun i => (acts_silent hacts i).2

theorem input_turn (he : env.Lawful numeric) {i : Input n} (h : Good numeric s)
    (ho : Orderly env s (.input i)) : Turn numeric s (handle env s i).2 (handle env s i).1 := by
  have quiet : ∀ {i : Fin n} {m : Master}, Quiet numeric (s.masters i) m → m.leader_epoch = (s.masters i).leader_epoch →
      Advances numeric s (s.set i m) := fun hq hled => .setMaster h hq hled
  cases i with
  | request ip port req_epoch req_runid => exact request_turn h ip port req_epoch req_runid
  | reply i runid isdown leader leader_epoch =>
    refine Advances.turn_nil (quiet ?_ rfl)
    exact .of_eq (h.shape i) rfl rfl rfl rfl rfl rfl (.of_eq rfl (.inr rfl))
  | hello h' => exact hello_turn he h ho
  | info i ri info => exact info_turn he h ho
  | observe i o =>
    refine (quiet ?_ ?_).turn_nil
    · cases o with
      | master => exact .of_eq (h.shape i) rfl rfl rfl rfl rfl rfl (.of_eq rfl (.inr rfl))
      | slave => exact .setSlave (h.shape i) _ (fun _ => rfl) (fun _ => rfl) fun _ => rfl
      | sentinel => exact .of_eq (h.shape i) rfl rfl rfl rfl rfl rfl (.of_eq rfl (.inr rfl))
    · cases o <;> rfl
  | timer i => exact timer_turn h ho
  | switch i =>
    rw [handle]
    split
    · rename_i hstate
      exact (switch_advances he h hstate).turn_nil
    · exact (Advances.refl h).turn_nil
  | sendHello i => exact (Advances.refl h).turn (fun _ => rfl) fun _ => rfl
  | tilt => exact Turn.mk (Nat.le_refl _) h.led h.shape (fun _ => .of_eq rfl (.inr rfl)) (fun _ => .inl ⟨rfl, rfl, rfl⟩) nofun
  | reset pattern => exact reset_turn h ho
  | failover name => exact (failoverCommand_advances h ho).turn_nil
  | configure i quorum down_after_period failover_timeout =>
    refine Advances.turn_nil (Advances.flush (quiet ?_ rfl))
    exact .of_eq (h.shape i) rfl rfl rfl rfl rfl rfl (.of_eq rfl (.inr rfl))
  | flushconfig => exact (Advances.refl h).flush.turn_nil
  | disk writable =>
    exact Turn.mk (Nat.le_refl _) h.led h.shape (fun _ => .of_eq rfl (.inr rfl)) (fun _ => .inl ⟨rfl, rfl, rfl⟩) nofun

/-- What an orderly event does. -/
theorem next_turn (he : env.Lawful numeric) {e : Event n} (h : Good numeric s)
    (ho : Orderly env s e) (hs : e.next env s = some (s', out)) : Turn numeric s out s' := by
  cases e with
  | crash =>
    obtain ⟨s1, h1, heq⟩ := Option.map_eq_some_iff.mp hs
    cases heq
    exact crash_turn he h ho h1
  | input i =>
    have heq : handle env s i = (s', out) := Option.some.inj hs
    have := input_turn he h ho
    rwa [heq] at this

/-! ### Runs -/

/-- A Sentinel, and what it has said and accepted. -/
abbrev Trace (n : ℕ) := State n × List (Output n)

/-- The next state, with what is in `Env` at that time. -/
def Trace.next (x : Trace n) (e : Env × Event n) : Option (Trace n) :=
  (e.2.next e.1 x.1).map fun r => (r.1, x.2 ++ r.2)

/-- A Sentinel that has read its file; the configuration in it is accepted. -/
structure Init (numeric : Sds → Prop) (x : Trace n) : Prop where
  load : ∃ (env : Env) (c : Config n), env.Lawful numeric ∧ (∀ i, (c.masters i).leader_epoch ≤ c.current_epoch) ∧
    sentinelHandleConfiguration env c = some x.1
  accepted : x.2 = (List.finRange n).map fun i =>
    .accept i (x.1.masters i).config_epoch (some (sentinelGetCurrentMasterAddress (x.1.masters i)))

/-- Any event, and any event that is orderly. -/
abbrev Any (numeric : Sds → Prop) (_ : Trace n) (e : Env × Event n) (_ : Trace n) : Prop := e.1.Lawful numeric

abbrev InOrder (numeric : Sds → Prop) (x : Trace n) (e : Env × Event n) (_ : Trace n) : Prop :=
  e.1.Lawful numeric ∧ Orderly e.1 x.1 e.2

/-- One vote in an epoch, none above the current epoch, and the address of the greatest configuration. -/
structure Forward (x : Trace n) : Prop where
  voted : ∀ i, ∀ p ∈ votesBy i x.2, ∀ q ∈ votesBy i x.2, p.2 = q.2 → p.1 = q.1
  led : ∀ i, (x.1.masters i).leader_epoch ≤ x.1.current_epoch
  advertised : ∀ i, ((x.1.masters i).config_epoch, some (sentinelGetCurrentMasterAddress (x.1.masters i))) ∈ acceptedBy i x.2
  greatest : ∀ i, ∀ p ∈ acceptedBy i x.2, p.1 ≤ (x.1.masters i).config_epoch

structure Grown (x y : Trace n) : Prop where
  current_epoch : x.1.current_epoch ≤ y.1.current_epoch
  leader_epoch : ∀ i, (x.1.masters i).leader_epoch ≤ (y.1.masters i).leader_epoch
  config_epoch : ∀ i, (x.1.masters i).config_epoch ≤ (y.1.masters i).config_epoch

/-- What a run keeps: a vote that is reported is the last one, unless that is forgotten, or older. -/
structure Inv (numeric : Sds → Prop) (x : Trace n) : Prop where
  good : Good numeric x.1
  forward : Forward x
  last : ∀ i, ∀ p ∈ votesBy i x.2, p.2 ≤ (x.1.masters i).leader_epoch ∧
    (p.2 = (x.1.masters i).leader_epoch → (x.1.masters i).leader = none ∨ (x.1.masters i).leader = some p.1)

theorem Init.inv {x : Trace n} (h : Init numeric x) : Inv numeric x := by
  obtain ⟨env, c, he, hc, hload⟩ := h.load
  obtain ⟨hcurrent, hmasters⟩ := load_spec he hload
  have hled : ∀ i, (x.1.masters i).leader_epoch ≤ x.1.current_epoch := by
    intro i
    rw [(hmasters i).2.2.1]
    exact (hc i).trans hcurrent
  have hvotes : ∀ i, votesBy i x.2 = [] := by
    intro i
    rw [h.accepted, votesBy, List.filterMap_map]
    exact List.filterMap_eq_nil_iff.mpr fun _ _ => rfl
  have haccepted : ∀ i, ∀ p, p ∈ acceptedBy i x.2 ↔
      p = ((x.1.masters i).config_epoch, some (sentinelGetCurrentMasterAddress (x.1.masters i))) := by
    intro i p
    rw [h.accepted, acceptedBy, List.filterMap_map, List.mem_filterMap]
    constructor
    · rintro ⟨j, -, heq⟩
      change (if j = i then some _ else none) = some p at heq
      split at heq
      · rename_i hj
        rw [← hj]
        exact (Option.some.inj heq).symm
      · cases heq
    · rintro rfl
      exact ⟨i, List.mem_finRange i, if_pos rfl⟩
  refine ⟨⟨fun i => (hmasters i).1, hled⟩, ⟨fun i p hp => ?_, hled, fun i => (haccepted i _).mpr rfl, fun i p hp => ?_⟩,
    fun i p hp => ?_⟩
  · rw [hvotes i] at hp
    cases hp
  · rw [(haccepted i p).mp hp]
  · rw [hvotes i] at hp
    cases hp

theorem Turn.grown {x y : Trace n} (h : Turn numeric x.1 out y.1) : Grown x y :=
  ⟨h.current, fun i => (h.follows i).le, fun i => (h.config i).elim (fun h => h.2.1.ge) fun h => h.2⟩

theorem Inv.step {x y : Trace n} {e : Env × Event n} (h : Inv numeric x)
    (hs : Stepwise.Steps Trace.next (InOrder numeric) x e y) : Inv numeric y ∧ Grown x y := by
  obtain ⟨hnext, he, ho⟩ := hs
  obtain ⟨⟨s', out⟩, hnext, heq⟩ := Option.map_eq_some_iff.mp hnext
  have hturn : Turn numeric x.1 out s' := next_turn he h.good ho hnext
  cases heq
  have hvotes : ∀ i, votesBy i (x.2 ++ out) = votesBy i x.2 ++ votesBy i out := fun i => List.filterMap_append ..
  have haccepted : ∀ i, acceptedBy i (x.2 ++ out) = acceptedBy i x.2 ++ acceptedBy i out := fun i => List.filterMap_append ..
  -- A vote of the past that is of the epoch of the last one is that one.
  have hlast : ∀ i, ∀ p ∈ votesBy i x.2, p.2 ≤ (s'.masters i).leader_epoch ∧
      (p.2 = (s'.masters i).leader_epoch → (s'.masters i).leader = none ∨ (s'.masters i).leader = some p.1) := by
    intro i p hp
    obtain ⟨hle, hsame⟩ := h.last i p hp
    have hf := hturn.follows i
    refine ⟨hle.trans hf.le, fun heq => ?_⟩
    have hepoch : (s'.masters i).leader_epoch = (x.1.masters i).leader_epoch := Nat.le_antisymm (heq ▸ hle) hf.le
    rcases hf.leader hepoch with hnone | hold
    · exact .inl hnone
    · rw [hold]
      exact hsame (heq.trans hepoch)
  refine ⟨⟨⟨hturn.shape, hturn.led⟩, ⟨fun i p hp q hq hpq => ?_, hturn.led, fun i => ?_, fun i p hp => ?_⟩, fun i p hp => ?_⟩,
    hturn.grown⟩
  · have hnew : ∀ p ∈ votesBy i x.2, ∀ q ∈ votesBy i out, p.2 = q.2 → p.1 = q.1 := by
      intro p hp q hq hpq
      obtain ⟨hleader, hepoch⟩ := hturn.votes i q hq
      rcases (hlast i p hp).2 (hpq.trans hepoch.symm) with hnone | hsome
      · rw [hnone] at hleader
        cases hleader
      · rw [hsome] at hleader
        exact Option.some.inj hleader
    rw [hvotes i] at hp hq
    rcases List.mem_append.mp hp with hp | hp
    · rcases List.mem_append.mp hq with hq | hq
      · exact h.forward.voted i p hp q hq hpq
      · exact hnew p hp q hq hpq
    · rcases List.mem_append.mp hq with hq | hq
      · exact (hnew q hq p hp hpq.symm).symm
      · have h1 := (hturn.votes i p hp).1
        rw [(hturn.votes i q hq).1] at h1
        exact (Option.some.inj h1).symm
  · rw [haccepted i]
    rcases hturn.config i with ⟨hnil, hconfig, haddr⟩ | ⟨hone, -⟩
    · rw [hnil, List.append_nil]
      show ((s'.masters i).config_epoch, some (sentinelGetCurrentMasterAddress (s'.masters i))) ∈ _
      rw [hconfig, haddr]
      exact h.forward.advertised i
    · rw [hone]
      exact List.mem_append_right _ (List.mem_singleton_self _)
  · rw [haccepted i] at hp
    rcases List.mem_append.mp hp with hp | hp
    · exact (h.forward.greatest i p hp).trans (hturn.grown.config_epoch i)
    · rcases hturn.config i with ⟨hnil, -⟩ | ⟨hone, -⟩
      · rw [hnil] at hp
        cases hp
      · rw [hone] at hp
        rw [List.mem_singleton.mp hp]
  · rw [hvotes i] at hp
    rcases List.mem_append.mp hp with hp | hp
    · exact hlast i p hp
    · obtain ⟨hleader, hepoch⟩ := hturn.votes i p hp
      exact ⟨hepoch.ge, fun _ => .inr hleader⟩

/-- **Votes stay and epochs grow in an orderly run**, and the address named is the one of the
greatest configuration accepted. -/
theorem epochs_move_forward {x y : Trace n} (hx : Stepwise.Run (Init numeric) (Stepwise.Steps Trace.next (InOrder numeric)) x)
    (hy : Relation.ReflTransGen (fun x y => ∃ e, Stepwise.Steps Trace.next (InOrder numeric) x e y) x y) :
    Forward x ∧ Forward y ∧ Grown x y := by
  have hinv : Inv numeric x := hx.invariant (fun _ h => h.inv) fun _ _ _ _ h hs => (h.step hs).1
  have hgrown : Inv numeric y ∧ Grown x y := by
    induction hy with
    | refl => exact ⟨hinv, Nat.le_refl _, fun _ => Nat.le_refl _, fun _ => Nat.le_refl _⟩
    | tail _ hs ih =>
      obtain ⟨e, hs⟩ := hs
      obtain ⟨hinv', hgrown⟩ := ih.1.step hs
      exact ⟨hinv', ih.2.current_epoch.trans hgrown.current_epoch,
        fun i => (ih.2.leader_epoch i).trans (hgrown.leader_epoch i),
        fun i => (ih.2.config_epoch i).trans (hgrown.config_epoch i)⟩
  exact ⟨hinv.forward, hgrown.1.forward, hgrown.2⟩

/-! ### Runs on a Sentinel of one master -/

def master1 : SentinelAddr := ⟨sds "10.0.0.1", 6379⟩
def replica2 : SentinelAddr := ⟨sds "10.0.0.2", 6379⟩

def sampleEnv (mstime : ℤ) : Env where
  mstime := mstime
  desync := 0
  anetResolve := some
  walk := id
  sendSlaveOf := true

theorem sampleEnv_lawful (mstime : ℤ) : (sampleEnv mstime).Lawful fun _ => True :=
  ⟨fun _ _ _ => trivial, fun _ _ => rfl, fun _ => List.Perm.refl _⟩

/-- A file of an administrator, but for the slave in it. -/
def sampleConfig : Config 1 where
  myid := sds "s1"
  masters := fun _ =>
    { name := sds "mymaster", addr := master1, quorum := 1, down_after_period := 30000, failover_timeout := 180000
      config_epoch := 0, leader_epoch := 0, knownReplicas := [replica2], knownSentinels := [] }
  current_epoch := 0

theorem sampleConfig_loads : (sentinelHandleConfiguration (sampleEnv 0) sampleConfig).isSome = true := by decide

def sampleStart : Trace 1 :=
  let s := (sentinelHandleConfiguration (sampleEnv 0) sampleConfig).get sampleConfig_loads
  (s, (List.finRange 1).map fun i => .accept i (s.masters i).config_epoch (some (sentinelGetCurrentMasterAddress (s.masters i))))

theorem sampleStart_init : Init (fun _ => True) sampleStart := by
  exact ⟨⟨sampleEnv 0, sampleConfig, sampleEnv_lawful 0, fun _ => Nat.le_refl _, (Option.some_get sampleConfig_loads).symm⟩, rfl⟩

/-- The inputs one after another, each at its time. -/
def inputs (x : Trace n) : List (ℤ × Input n) → Trace n
  | [] => x
  | (t, i) :: l => inputs ((handle (sampleEnv t) x.1 i).1, x.2 ++ (handle (sampleEnv t) x.1 i).2) l

theorem inputs_step (x : Trace n) (t : ℤ) (i : Input n) :
    Stepwise.Steps Trace.next (Any fun _ => True) x (sampleEnv t, .input i) (inputs x [(t, i)]) :=
  ⟨rfl, sampleEnv_lawful t⟩

theorem inputs_run {x : Trace n} (l : List (ℤ × Input n))
    (h : Stepwise.Run (Init fun _ => True) (Stepwise.Steps Trace.next (Any fun _ => True)) x) :
    Stepwise.Run (Init fun _ => True) (Stepwise.Steps Trace.next (Any fun _ => True)) (inputs x l) := by
  induction l generalizing x with
  | nil => exact h
  | cons e l ih => exact ih (h.step (inputs_step x e.1 e.2))

def sampleVote (epoch : ℕ) (runid : String) : Input 1 := .request master1.ip master1.port epoch (sds runid)

theorem vote_step (x : Trace 1) (t : ℤ) (epoch : ℕ) (runid : String) :
    Stepwise.Steps Trace.next (InOrder fun _ => True) x (sampleEnv t, .input (sampleVote epoch runid))
      (inputs x [(t, sampleVote epoch runid)]) :=
  ⟨rfl, sampleEnv_lawful t, trivial⟩

/-- Two votes, in epochs 3 and 7. -/
theorem epochs_move_forward_votes :
    Grown (inputs sampleStart [(1, sampleVote 3 "s2")]) (inputs (inputs sampleStart [(1, sampleVote 3 "s2")]) [(2, sampleVote 7 "s3")]) ∧
    votesBy 0 (inputs (inputs sampleStart [(1, sampleVote 3 "s2")]) [(2, sampleVote 7 "s3")]).2 = [(sds "s2", 3), (sds "s3", 7)] :=
  ⟨(epochs_move_forward (.step (.start sampleStart_init) (vote_step sampleStart 1 3 "s2"))
    (.single ⟨_, vote_step _ 2 7 "s3"⟩)).2.2, by decide⟩

def sampleHello : Hello where
  ip := sds "10.0.0.9"
  port := 26379
  runid := sds "s2"
  current_epoch := 5
  master_name := sds "mymaster"
  master_ip := master1.ip
  master_port := master1.port
  master_config_epoch := 5

/-- The slave answers, the master is down, and a failover gets as far as waiting for the promotion;
then another Sentinel says that the master is what it is, in epoch 5. -/
def sampleInputs : List (ℤ × Input 1) :=
  [(400000, .observe 0 (.slave (anetFormatAddr replica2.ip replica2.port) false false false false 400000 100 0 none 400000 0)),
    (400000, .observe 0 (.master true 370000)), (400000, .timer 0), (400100, .timer 0), (400200, .timer 0),
    (400300, .hello sampleHello)]

/-- The slave is seen to be a master: the epoch of the failover is 1. -/
def samplePromotion : ℤ × Input 1 := (400400, .info 0 (some (anetFormatAddr replica2.ip replica2.port)) ⟨.master, []⟩)

/-- A promotion does not see that there is a newer configuration, and goes back to an old epoch. -/
theorem promotion_lowers_config_epoch :
    ∃ x y : Trace 1, Stepwise.Run (Init fun _ => True) (Stepwise.Steps Trace.next (Any fun _ => True)) x ∧
      (∃ e, Stepwise.Steps Trace.next (Any fun _ => True) x e y) ∧
      (x.1.masters 0).config_epoch = 5 ∧ (y.1.masters 0).config_epoch = 1 :=
  ⟨inputs sampleStart sampleInputs, inputs (inputs sampleStart sampleInputs) [samplePromotion],
    inputs_run _ (.start sampleStart_init), ⟨_, inputs_step _ samplePromotion.1 samplePromotion.2⟩,
    by decide, by decide⟩

end RedisZk.Sentinel
