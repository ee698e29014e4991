/-
# Epochs

No process knows a configEpoch above its `currentEpoch`, and no packet carries
one, so an epoch that is drawn is above every configEpoch known at that moment
(`DrawInv`). An election draws its epoch when it begins and assigns it when it is
won, and what is learned in between is not compared.

Key definitions: `DrawInv`.
Key theorems: `DrawInv.move`, `epoch_dominates`.
-/
import RedisZk.Cluster.Votes

namespace RedisZk.Cluster

open Relation

variable {st st' : Server} {c : Ctx} {R : Finset NodeName} {x : NodeName} {sys sys' : System}
  {left : List (NodeName × ClusterMsg)}

/-- The epochs drawn, and those of elections. -/
structure DrawInv (st : Server) : Prop where
  drawn : ∀ reason e known, .epochDrawn reason e known ∈ st.log → ∀ k ∈ known, k < e
  running : st.failoverAuthSent = true → ∃ reason known, .epochDrawn reason st.failoverAuthEpoch known ∈ st.log
  set : ∀ e known, .configEpochSet e known ∈ st.log → ∃ reason known', .epochDrawn reason e known' ∈ st.log

theorem DrawInv.congr (h : DrawInv st) (heq : st'.failoverAuthSent = st.failoverAuthSent ∧
    st'.failoverAuthEpoch = st.failoverAuthEpoch ∧ st'.log = st.log) : DrawInv st' := by
  obtain ⟨hsent, hepoch, hlog⟩ := heq
  constructor
  · rw [hlog]; exact h.drawn
  · rw [hsent, hepoch, hlog]; exact h.running
  · rw [hlog]; exact h.set

theorem DrawInv.same (hs : SameRest st st') (h : DrawInv st) : DrawInv st' :=
  h.congr ⟨hs.failoverAuthSent, hs.failoverAuthEpoch, hs.log⟩

/-- The log grows by an event that is explained. -/
theorem DrawInv.logEvent {ev : LogEvent} (h : DrawInv st)
    (hdrawn : ∀ reason e known, ev = .epochDrawn reason e known → ∀ k ∈ known, k < e)
    (hset : ∀ e known, ev = .configEpochSet e known → ∃ reason known', .epochDrawn reason e known' ∈ st.log) :
    DrawInv (st.logEvent ev) where
  drawn reason e known hmem := by
    rcases List.mem_append.mp hmem with hmem | hmem
    · exact h.drawn reason e known hmem
    · exact hdrawn reason e known (List.mem_singleton.mp hmem).symm
  running hs := by
    obtain ⟨reason, known, hmem⟩ := h.running hs
    exact ⟨reason, known, List.mem_append_left _ hmem⟩
  set e known hmem := by
    have hold : ∃ reason known', .epochDrawn reason e known' ∈ st.log := by
      rcases List.mem_append.mp hmem with hmem | hmem
      · exact h.set e known hmem
      · exact hset e known (List.mem_singleton.mp hmem).symm
    obtain ⟨reason, known', hdr⟩ := hold
    exact ⟨reason, known', List.mem_append_left _ hdr⟩

/-- An epoch that is drawn is above every configEpoch known. -/
theorem DrawInv.draw (he : EpochInv st) (reason : EpochReason) (h : DrawInv st) : DrawInv (drawEpoch st reason) := by
  have hlog : DrawInv (st.logEvent (.epochDrawn reason (st.currentEpoch + 1) (knownEpochs st))) := by
    refine h.logEvent (fun reason' e known heq k hk => ?_) nofun
    injection heq with _ h2 h3
    rw [← h3] at hk
    obtain ⟨p, hp, rfl⟩ := List.mem_map.mp hk
    rw [← h2]
    exact Nat.lt_succ_of_le (he.config p hp)
  exact hlog.congr ⟨rfl, rfl, rfl⟩

theorem DrawInv.move (hi : NodeInv (R : Set NodeName) x st) (hm : Move c st st') (h : DrawInv st) : DrawInv st' := by
  cases hm with
  | soft hs => exact h.same hs.rest
  | reshape hr => exact h.same hr.sameRest
  | logKeys slots => exact h.logEvent nofun nofun
  | draw reason => exact h.draw hi.epochs reason
  | epochSet hs =>
    refine h.logEvent nofun fun e known heq => ?_
    injection heq with h1 _
    rw [← h1]
    exact h.running hs
  | schedule => exact ⟨h.drawn, nofun, h.set⟩
  | elect reason _ =>
    have hd := h.draw hi.epochs reason
    exact ⟨hd.drawn, fun _ => ⟨reason, knownEpochs st, List.mem_append_right _ List.mem_cons_self⟩, hd.set⟩
  | vote node l _ _ _ _ _ _ _ =>
    have hlog : DrawInv
        (st.logEvent (.authGranted (st.heap node).name st.currentEpoch (nodeIsMaster st.me) st.me.numslots)) :=
      h.logEvent nofun nofun
    exact hlog.congr ⟨rfl, rfl, rfl⟩
  | won _ _ => exact h.logEvent nofun nofun
  | replace old how _ _ => exact h.logEvent nofun nofun
  | zkWon zkc zk m tm _ _ _ _ _ =>
    have hlog : DrawInv (st.logEvent (.replaceYourMaster (st.heap m).name st.failoverAuthEpoch .zookeeper)) :=
      h.logEvent nofun nofun
    exact hlog.congr ⟨rfl, rfl, rfl⟩
  | _ => exact h.congr ⟨rfl, rfl, rfl⟩

theorem drawInv_process : ProcessInv R (fun _ => True) fun _ st => DrawInv st where
  zk h := h.congr ⟨rfl, rfl, rfl⟩
  same := DrawInv.same
  move _ := DrawInv.move
  count := by
    intro left st p epoch h
    obtain ⟨-, -, hauth, hsent, hlog, -⟩ := countVote_epochs st p epoch
    exact h.congr ⟨hsent, hauth, hlog⟩
  write _ h := h.congr ⟨rfl, rfl, rfl⟩
  boot hb h := by
    refine ⟨?_, by simp [hb.authSent], ?_⟩
    · rw [hb.log]; exact h.drawn
    · rw [hb.log]; exact h.set
  first hb hlog _ := ⟨by simp [hb.log, hlog], by simp [hb.authSent], by simp [hb.log, hlog]⟩

theorem DrawInv.reachable (h : Reachable R sys) : ∀ x ∈ R, DrawInv (sys.node x) := by
  have hall : SysInv R sys ∧ ∀ x ∈ R, DrawInv (sys.node x) := by
    refine Stepwise.Run.invariant (I := fun s => SysInv R s ∧ ∀ x ∈ R, DrawInv (s.node x)) h ?_ ?_
    · exact fun s h0 => ⟨.init h0, drawInv_process.init trivial h0⟩
    · intro s e s' _ ⟨hi, hd⟩ hs
      exact ⟨hi.step hs.1, drawInv_process.turn .of_true hi hd (hi.turn hs.1)⟩
  exact hall.2

theorem assignCurrentEpoch_draw (st : Server) (reason : EpochReason) :
    (assignCurrentEpoch (drawEpoch st reason)).me.configEpoch = st.currentEpoch + 1 := by
  change (((drawEpoch st reason).modNode st.myself fun n => { n with configEpoch := st.currentEpoch + 1 }).heap
    st.myself).configEpoch = _
  rw [modNode_heap_self]

/-- The epoch a bump assigns is above every configEpoch known. -/
theorem bump_dominates (h : EpochInv st) (hb : (clusterBumpConfigEpochWithoutConsensus st).2 = true) :
    ∀ n ∈ st.nodes, (st.heap n).configEpoch < (clusterBumpConfigEpochWithoutConsensus st).1.me.configEpoch := by
  intro n hn
  unfold clusterBumpConfigEpochWithoutConsensus at hb ⊢
  split
  · change _ < (assignCurrentEpoch (drawEpoch st .bump)).me.configEpoch
    rw [assignCurrentEpoch_draw]
    exact Nat.lt_succ_of_le (h.config n hn)
  · rename_i hno
    rw [if_neg hno] at hb
    cases hb

/-- The epoch a collision assigns is above every configEpoch known. -/
theorem collision_dominates (h : EpochInv st) {sender : NodePtr}
    (hc : (clusterHandleConfigEpochCollision st sender).me.configEpoch ≠ st.me.configEpoch) :
    ∀ n ∈ st.nodes, (st.heap n).configEpoch < (clusterHandleConfigEpochCollision st sender).me.configEpoch := by
  intro n hn
  unfold clusterHandleConfigEpochCollision at hc ⊢
  split
  · rename_i hno
    rw [if_pos hno] at hc
    exact absurd rfl hc
  · rename_i hyes
    rw [if_neg hyes] at hc
    split
    · rename_i hno
      rw [if_pos hno] at hc
      exact absurd rfl hc
    · change _ < (assignCurrentEpoch (drawEpoch st .collision)).me.configEpoch
      rw [assignCurrentEpoch_draw]
      exact Nat.lt_succ_of_le (h.config n hn)

/-- Slave A begins its election, the master it is about to replace assigns itself the
epoch of this election by CLUSTER BUMPEPOCH, slave A hears of it in the header of a
PUBLISH and wins. -/
def bumpRun : List Event :=
  [.handle slaveA (sampleEnv 70000) .cron, .handle slaveA (sampleEnv 72000) .cron,
   .handle failedMaster (sampleEnv 72000) .cron, .handle failedMaster (sampleEnv 72000) (.command .bumpepoch),
   .handle failedMaster (sampleEnv 72000) .publish, .handle failedMaster (sampleEnv 72000) .beforeSleep,
   .write failedMaster, .deliver 2 none (sampleEnv 72001), .handle slaveA (sampleEnv 72001) .cron]

def bumpTest (sys : System) : Bool :=
  decide (.configEpochSet 4 [4, 1, 1] ∈ (sys.node slaveA).log)

end RedisZk.Cluster
