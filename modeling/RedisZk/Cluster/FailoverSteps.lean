/-
# Votes, elections and failovers as runs of moves

The functions of Failover: the vote of a master, the stages of an election,
with or without ZooKeeper, the replacement of the old master, and replica
migration.

Key definitions: `takeOver`.
Key theorems: `clusterSendFailoverAuthIfNeeded_moves`, `takeOver_does`, `zkFailover_does`,
`startElection_moves`, `winElection_does`, `clusterHandleSlaveFailover_does`,
`clusterHandleSlaveMigration_does`.
-/
import RedisZk.Cluster.ConfigSteps

namespace RedisZk.Cluster

open Relation
open Stepwise (Within)

variable {st st' st'' : Server} {c : Ctx} {R : Set NodeName} {x : NodeName}

/-! ### The vote -/

theorem grantFailoverAuth_moves (env : Env) (hi : NodeInv c.R x st) {node master : NodePtr} (hn : node ∈ st.nodes)
    (hR : (st.heap node).name ∈ c.R) (hme : nodeIsMaster st.me = true) (hslots : st.me.numslots ≠ 0)
    (hlast : st.lastVoteEpoch ≠ st.currentEpoch)
    (hreq : c.request = some ((st.heap node).name, st.currentEpoch)) :
    Moves c st (grantFailoverAuth env st node master) := by
  have hsoft : Soft c.R st (clusterDoBeforeSleep (st.modNode master fun n => { n with votedTime := env.now })
      { saveConfig := true, fsyncConfig := true }) := by
    refine Soft.trans (.modData st master fun n => ?_) (.doBeforeSleep _ _)
    exact ⟨.of_eq rfl, rfl, rfl⟩
  generalize hs : clusterDoBeforeSleep (st.modNode master fun n => { n with votedTime := env.now })
    { saveConfig := true, fsyncConfig := true } = s at hsoft
  have hi' := hi.moves hsoft.moves
  have hme' : SameCore st.me s.me := by
    rw [Server.me, Server.me, hsoft.table.myself]
    exact hsoft.table.core _
  have hname : (s.heap node).name = (st.heap node).name := (hsoft.table.core node).name
  have hns : node ∈ s.nodes := hsoft.moves.mem hn
  have hvote := fun l hl => Move.vote (c := c) s node l hns (by rw [nodeIsMaster, hme'.master]; exact hme)
    (by rw [hme'.numslots]; exact hslots) (by rw [hsoft.rest.lastVoteEpoch, hsoft.rest.currentEpoch]; exact hlast)
    (by rw [← hs]; simp [clusterDoBeforeSleep]) (by rw [hname, hsoft.rest.currentEpoch]; exact hreq) hl
  cases hlink : (s.heap node).link with
  | none =>
    have heq : grantFailoverAuth env st node master = castVote s node [] := by
      rw [castVote, List.append_nil, ← hs]
      rw [← hs] at hlink
      unfold grantFailoverAuth clusterSendFailoverAuth
      simp only [clusterDoBeforeSleep, Server.modNode] at hlink ⊢
      rw [hlink]
      rfl
    rw [heq]
    exact hsoft.moves.tail (hvote [] (.inl rfl))
  | some l =>
    have hpeer : l.peer = (s.heap node).name := (hi'.edges.link node hns l hlink).2 (by rw [hname]; exact hR)
    have heq : grantFailoverAuth env st node master =
        castVote s node [(l.peer, clusterBuildMessageHdr env s .failoverAuthAck)] := by
      rw [castVote, ← hs]
      rw [← hs] at hlink
      unfold grantFailoverAuth clusterSendFailoverAuth
      simp only [clusterDoBeforeSleep, Server.modNode] at hlink ⊢
      rw [hlink]
      rfl
    rw [heq, hpeer]
    refine hsoft.moves.tail (hvote _ (.inr ⟨_, rfl, ?_, rfl, rfl⟩))
    rw [hi'.table.me_name]
    exact header_ok hi' env _ trivial

/-- The vote, if it is given, answers the request being processed. -/
theorem clusterSendFailoverAuthIfNeeded_moves (env : Env) (hi : NodeInv c.R x st) {node : NodePtr}
    {request : ClusterMsg} (hn : node ∈ st.nodes) (hR : (st.heap node).name ∈ c.R)
    (hreq : c.request = some ((st.heap node).name, request.currentEpoch))
    (hle : request.currentEpoch ≤ st.currentEpoch) :
    Moves c st (clusterSendFailoverAuthIfNeeded env st node request) := by
  unfold clusterSendFailoverAuthIfNeeded
  split
  · exact .refl
  · rename_i hrole
    split
    · exact .refl
    · rename_i hlt
      have heq : request.currentEpoch = st.currentEpoch := by omega
      split
      · exact .refl
      · rename_i hlast
        split
        · exact .refl
        · split
          · exact .refl
          · split
            · exact .refl
            · split
              · refine grantFailoverAuth_moves env hi hn hR ?_ ?_ hlast (heq ▸ hreq)
                · exact hi.me_master_or_slave.resolve_right fun h => hrole (.inl h)
                · exact fun h => hrole (.inr h)
              · exact .refl

/-! ### The replacement of the old master -/

/-- `clusterFailoverReplaceYourMaster` after its checks. -/
def takeOver (env : Env) (st : Server) (oldmaster : NodePtr) : Except Abort Server := do
  let st := clusterSetNodeAsMaster st st.myself
  let st ← allSlots.foldlM (claimSlot oldmaster) st
  let st := clusterUpdateState env st
  let st := clusterSaveConfig st true
  let st := clusterBroadcastPong env st .all
  .ok (resetManualFailover st)

theorem clusterFailoverReplaceYourMaster_eq (env : Env) (st : Server) (how : FailoverBy) {m : NodePtr}
    (hm : st.me.slaveof = some m) (hnot : nodeIsMaster st.me = false) :
    clusterFailoverReplaceYourMaster env st how =
      takeOver env (st.logEvent (.replaceYourMaster (st.heap m).name st.failoverAuthEpoch how)) m := by
  unfold clusterFailoverReplaceYourMaster
  rw [hm]
  simp only [hnot, Bool.false_eq_true, ↓reduceIte]
  rfl

theorem setNodeAsMaster_master (st : Server) (n : NodePtr) :
    nodeIsMaster ((clusterSetNodeAsMaster st n).heap n) = true := by
  by_cases hm : nodeIsMaster (st.heap n) = true
  · rw [clusterSetNodeAsMaster, if_pos hm]
    exact hm
  · have h := congrArg NodeRole.master
      (setNodeAsMaster_role (Bool.not_eq_true _ ▸ hm : nodeIsMaster (st.heap n) = false) n)
    rw [if_pos rfl] at h
    exact h

theorem claimSlot_within (hi : NodeInv c.R x st) (hm : nodeIsMaster st.me = true) (old : NodePtr) (j : Slot) :
    Within (SlotRun c st) (fun _ => False) (claimSlot old st j) := by
  obtain ⟨s', heq, hrun⟩ := rebindSlot_within (c := c) hi hi.table.myself_mem j fun _ => .inl hm
  unfold claimSlot
  refine .ite ?_ (.refl st)
  rw [heq]
  obtain ⟨s, heq', -, hk, -⟩ := clusterDelSlot_spec (c := c) hi.slots j
  have : s' = s := Except.ok.inj (heq.symm.trans heq')
  subst this
  change SlotRun c st (clusterAddSlot s' s'.myself j)
  rw [hk.myself]
  exact hrun

theorem takeOver_does (env : Env) (hi : NodeInv c.R x st) (old : NodePtr) : Does c st (takeOver env st old) := by
  unfold takeOver
  have hmaster := clusterSetNodeAsMaster_moves (c := c) hi.table.myself_mem
  have hme : nodeIsMaster (clusterSetNodeAsMaster st st.myself).me = true := by
    rw [Server.me, (Keeps.setNodeAsMaster st st.myself).myself]
    exact setNodeAsMaster_master st st.myself
  dsimp only
  generalize clusterSetNodeAsMaster st st.myself = s1 at hmaster hme
  have hi1 := hi.moves hmaster
  have hloop : Within (SlotRun c s1) (fun _ => False) (allSlots.foldlM (claimSlot old) s1) :=
    slotLoop fun s hs j => claimSlot_within (hi1.moves hs.moves) (by rw [hs.keeps.me_master]; exact hme) old j
  refine Within.bind (Within.mono hloop (fun _ => id) fun _ h => h.elim) fun s2 hrun => ?_
  have h3 : Moves c st (clusterSaveConfig (clusterUpdateState env s2) true) :=
    ((hmaster.trans hrun.moves).trans (clusterUpdateState_soft env s2).moves).trans (clusterSaveConfig_moves _ _)
  exact (h3.trans (clusterBroadcastPong_moves (hi.moves h3) env _)).trans (resetManualFailover_soft _).moves

/-- Without ZooKeeper: an election won, or a takeover. -/
theorem clusterFailoverReplaceYourMaster_does (env : Env) (hi : NodeInv c.R x st) (how : FailoverBy)
    (hzk : how ≠ .zookeeper)
    (hv : how = .votes → ∃ k n acks, .electionWon st.failoverAuthEpoch k n acks ∈ st.log) :
    Does c st (clusterFailoverReplaceYourMaster env st how) := by
  cases hm : st.me.slaveof with
  | none =>
    unfold clusterFailoverReplaceYourMaster
    rw [hm]
    exact Stepwise.Does.ok .refl
  | some m =>
    rw [clusterFailoverReplaceYourMaster_eq env st how hm (hi.me_not_master (by simp [hm]))]
    have hlog : Moves c st (st.logEvent (.replaceYourMaster (st.heap m).name st.failoverAuthEpoch how)) :=
      .single (.replace st _ how hzk hv)
    exact Stepwise.Does.trans hlog (takeOver_does env (hi.moves hlog) m)

/-! ### The stages of an election -/

theorem clusterGetSlaveRank_ok (env : Env) (h : nodeIsSlave st.me = true) :
    ∃ rank, clusterGetSlaveRank env st = .ok rank := by
  unfold clusterGetSlaveRank
  rw [if_neg (by simp [h])]
  split <;> exact ⟨_, rfl⟩

theorem scheduleElection_does (env : Env) (hi : NodeInv c.R x st) (hslave : nodeIsSlave st.me = true) :
    Does c st (scheduleElection env st) := by
  unfold scheduleElection
  have htime : Soft c.R st { st with failoverAuthTime := env.now + 500 + (env.random % 500 : ℕ) } := .of_eq rfl id
  have hsched : Moves c st { st with
      failoverAuthTime := env.now + 500 + (env.random % 500 : ℕ)
      failoverAuthCount := 0, failoverAuthAcks := [], failoverAuthSent := false } := htime.moves.tail (.schedule _)
  generalize hs : ({ st with
      failoverAuthTime := env.now + 500 + (env.random % 500 : ℕ)
      failoverAuthCount := 0, failoverAuthAcks := [], failoverAuthSent := false } : Server) = s1 at hsched
  have hslave1 : nodeIsSlave s1.me = true := by
    rw [← hs]
    exact hslave
  obtain ⟨rank, hrank⟩ := clusterGetSlaveRank_ok env hslave1
  simp only [hrank]
  have hsoft : Soft c.R s1 { s1 with failoverAuthRank := rank, failoverAuthTime := s1.failoverAuthTime + rank * 1000 } :=
    .of_eq rfl id
  generalize hs2 : ({ s1 with
    failoverAuthRank := rank, failoverAuthTime := s1.failoverAuthTime + rank * 1000 } : Server) = s2 at hsoft
  have hsoft' : Soft c.R s1 (if s2.mfEnd ≠ 0 then
      clusterDoBeforeSleep { s2 with failoverAuthTime := env.now, failoverAuthRank := 0 } { handleFailover := true }
      else s2) := by
    refine hsoft.trans (.ite (fun _ => ?_) fun _ => .refl s2)
    refine Soft.trans ?_ (.doBeforeSleep _ _)
    exact .of_eq rfl id
  have hm := hsched.trans hsoft'.moves
  have hrun := hm.trans (clusterBroadcastPong_moves (hi.moves hm) env .localSlaves)
  rw [← hs2] at hrun
  exact hrun

/-- The rank only moves the time of the election. -/
theorem updateElectionRank_within {E : Abort → Prop} (env : Env) (hslave : nodeIsSlave st.me = true) :
    Within (Soft R st) E (updateElectionRank env st) := by
  obtain ⟨rank, hrank⟩ := clusterGetSlaveRank_ok env hslave
  unfold updateElectionRank
  refine .ite ?_ (Soft.refl st)
  rw [hrank]
  have hsoft : ∀ tm k, Soft R st { st with failoverAuthTime := tm, failoverAuthRank := k } :=
    fun _ _ => .of_eq rfl id
  exact Within.ite (hsoft _ _) (Soft.refl st)

theorem updateConfigEpochOfElection_moves (hi : NodeInv R x st) (hs : st.failoverAuthSent = true) :
    Moves c st (updateConfigEpochOfElection st) := by
  unfold updateConfigEpochOfElection
  split
  · have hlog : Moves c st (st.logEvent (.configEpochSet st.failoverAuthEpoch (knownEpochs st))) :=
      .single (.epochSet st hs)
    have hlearn := Reshape.learn (c := c) (st.logEvent (.configEpochSet st.failoverAuthEpoch (knownEpochs st)))
      st.myself st.failoverAuthEpoch hi.table.myself_mem hi.epochs.auth
    exact hlog.trans hlearn.moves
  · exact .refl

theorem beginElection_moves (reason : EpochReason) (hs : st.failoverAuthSent = false) :
    Moves c st (beginElection st reason) := .single (.elect st reason hs)

theorem startElection_moves (env : Env) (hi : NodeInv c.R x st) (hs : st.failoverAuthSent = false) :
    Moves c st (startElection env st) := by
  have hbegin := beginElection_moves (c := c) .election hs
  have hi1 := hi.moves hbegin
  unfold startElection clusterRequestFailoverAuth
  dsimp only
  obtain ⟨l, heq, hl⟩ := broadcast_eq { drawEpoch st .election with failoverAuthEpoch := st.currentEpoch + 1 }
    { clusterBuildMessageHdr env { drawEpoch st .election with failoverAuthEpoch := st.currentEpoch + 1 }
        .failoverAuthRequest with forceack := decide (st.mfEnd ≠ 0) }
  have hreq := Move.request (c := c) (beginElection st .election) l rfl (by simp [beginElection, clusterDoBeforeSleep]) (by
    intro m hm
    rw [hl m hm, hi1.table.me_name]
    have hok := header_ok hi1 env .failoverAuthRequest trivial
    exact ⟨⟨hok.sender, hok.role, hok.epoch, hok.data⟩, rfl, rfl⟩)
  have hfinal : clusterDoBeforeSleep
      { clusterBroadcastMessage { drawEpoch st .election with failoverAuthEpoch := st.currentEpoch + 1 }
          { clusterBuildMessageHdr env { drawEpoch st .election with failoverAuthEpoch := st.currentEpoch + 1 }
              .failoverAuthRequest with forceack := decide (st.mfEnd ≠ 0) } with failoverAuthSent := true }
      { saveConfig := true, updateState := true, fsyncConfig := true } =
      { beginElection st .election with sndbuf := (beginElection st .election).sndbuf ++ l } := by
    rw [heq]
    rfl
  exact hfinal ▸ hbegin.tail hreq

theorem winElection_does (env : Env) (hi : NodeInv c.R x st) (hs : st.failoverAuthSent = true)
    (hq : neededQuorum st.size ≤ st.failoverAuthCount) : Does c st (winElection env st) := by
  unfold winElection
  have hwon : Moves c st (st.logEvent
      (.electionWon st.failoverAuthEpoch st.failoverAuthCount st.size st.failoverAuthAcks)) :=
    .single (.won st hs hq)
  have hset := updateConfigEpochOfElection_moves (c := c) (hi.moves hwon) hs
  have hauth : (updateConfigEpochOfElection (st.logEvent (.electionWon st.failoverAuthEpoch st.failoverAuthCount
      st.size st.failoverAuthAcks))).failoverAuthEpoch = st.failoverAuthEpoch := by
    unfold updateConfigEpochOfElection
    split <;> rfl
  refine Stepwise.Does.trans (hwon.trans hset)
    (clusterFailoverReplaceYourMaster_does env (hi.moves (hwon.trans hset)) .votes nofun fun _ => ?_)
  rw [hauth]
  refine ⟨st.failoverAuthCount, st.size, st.failoverAuthAcks, hset.grows.log.subset ?_⟩
  exact List.mem_append_right _ (List.mem_singleton_self _)

/-! ### The race for the znode -/

/-- `zoo_create` removes nothing, and answers ZOK only for a new znode. -/
theorem zooCreate_spec (env : Env) (z : ZkStore) (zh : Option SessionId) (path : ZkPath) :
    (∀ p, z.has p = true → (zooCreate env z zh path).2.has p = true) ∧
    ((zooCreate env z zh path).1 = .ok → z.has path = false ∧ (zooCreate env z zh path).2.has path = true) := by
  have hadd : ∀ p, z.has p = true →
      ({ z with znodes := z.znodes ++ [(path, zh.getD 0)] } : ZkStore).has p = true := by
    intro p hp
    simp only [ZkStore.has, List.any_append, Bool.or_eq_true] at hp ⊢
    exact .inl hp
  unfold zooCreate
  dsimp only
  split
  · exact ⟨fun _ => id, nofun⟩
  · split
    · refine ⟨fun p hp => ?_, nofun⟩
      dsimp only
      split
      · exact hadd p hp
      · exact hp
    · split
      · exact ⟨fun _ => id, nofun⟩
      · rename_i hnot
        refine ⟨hadd, fun _ => ⟨by simpa using hnot, ?_⟩⟩
        simp [ZkStore.has]

/-- `zklinkTryCreateOldMasterPath`: the znode of the master, newly created, or nothing
but perhaps a znode. -/
theorem zklinkTryCreateOldMasterPath_cases (env : Env) (st : Server) :
    (∃ zk, zklinkTryCreateOldMasterPath env st = ({ st with zk := zk }, false) ∧
      ∀ path, st.zk.has path = true → zk.has path = true) ∨
    ∃ m zkc zk, st.me.slaveof = some m ∧ st.zklc = some zkc ∧
      zklinkTryCreateOldMasterPath env st = ({ st with
        zk := zk
        zklc := some { zkc with replacePathDelTm := env.now + ZK_DEL_REPLACE_PATH_DELAY } }, true) ∧
      (∀ path, st.zk.has path = true → zk.has path = true) ∧
      st.zk.has (oldMasterPath (st.heap m).name) = false ∧ zk.has (oldMasterPath (st.heap m).name) = true := by
  unfold zklinkTryCreateOldMasterPath
  split
  · exact .inl ⟨st.zk, rfl, fun _ => id⟩
  · split
    · exact .inl ⟨st.zk, rfl, fun _ => id⟩
    · exact .inl ⟨st.zk, rfl, fun _ => id⟩
    · rename_i m zkc hm hzkc
      split
      · exact .inl ⟨st.zk, rfl, fun _ => id⟩
      · rename_i path hpath
        split
        · exact .inl ⟨st.zk, rfl, fun _ => id⟩
        · rename_i hname
          have hname : path = (st.heap m).name := not_not.mp hname
          obtain ⟨hkeep, hok⟩ := zooCreate_spec env st.zk zkc.zh (oldMasterPath path)
          dsimp only
          split
          · exact .inl ⟨_, rfl, hkeep⟩
          · rename_i hrc
            obtain ⟨hnew, hhas⟩ := hok (not_not.mp hrc)
            rw [hname] at hnew hhas hkeep ⊢
            exact .inr ⟨m, zkc, _, hm, hzkc, rfl, hkeep, hnew, hhas⟩

/-- The race does not look at the election. -/
theorem zklinkTryCreateOldMasterPath_sent (env : Env) (st : Server) (sent : Bool) :
    zklinkTryCreateOldMasterPath env { st with failoverAuthSent := sent } =
      ({ (zklinkTryCreateOldMasterPath env st).1 with failoverAuthSent := sent },
        (zklinkTryCreateOldMasterPath env st).2) := by
  unfold zklinkTryCreateOldMasterPath Server.me
  dsimp only
  by_cases h : nodeIsSlave (st.heap st.myself) = false
  · rw [if_pos h, if_pos h]
  · rw [if_neg h, if_neg h]
    cases (st.heap st.myself).slaveof with
    | none => rfl
    | some m =>
      cases hz : st.zklc with
      | none => simp [hz]
      | some zkc =>
        dsimp only
        cases zkc.replacePath with
        | none => simp [hz]
        | some path =>
          dsimp only
          by_cases h' : path ≠ (st.heap m).name
          · rw [if_pos h', if_pos h']
            simp [hz]
          · rw [if_neg h', if_neg h']
            by_cases h'' : (zooCreate env st.zk zkc.zh (oldMasterPath path)).1 ≠ .ok
            · rw [if_pos h'', if_pos h'']
            · rw [if_neg h'', if_neg h'']
              rfl

theorem updateConfigEpochOfElection_zk (st : Server) (zk : ZkStore) (zklc : Option ZklinkClient) (e : LogEvent) :
    (updateConfigEpochOfElection { st with zk := zk, zklc := zklc }).logEvent e =
      { updateConfigEpochOfElection st with
        zk := zk
        zklc := zklc
        log := (updateConfigEpochOfElection st).log ++ [e] } := by
  unfold updateConfigEpochOfElection Server.me
  dsimp only
  by_cases h : (st.heap st.myself).configEpoch < st.failoverAuthEpoch
  · rw [if_pos h, if_pos h]
    rfl
  · rw [if_neg h, if_neg h]
    rfl

theorem updateConfigEpochOfElection_frame (st : Server) :
    (updateConfigEpochOfElection st).failoverAuthEpoch = st.failoverAuthEpoch ∧
      (updateConfigEpochOfElection st).zk = st.zk ∧ (updateConfigEpochOfElection st).zklc = st.zklc ∧
      (updateConfigEpochOfElection st).me.slaveof = st.me.slaveof ∧
      nodeIsMaster (updateConfigEpochOfElection st).me = nodeIsMaster st.me ∧
      ∀ p, ((updateConfigEpochOfElection st).heap p).name = (st.heap p).name := by
  unfold updateConfigEpochOfElection
  split
  · have hk := Keeps.learn st st.myself st.failoverAuthEpoch
    exact ⟨rfl, rfl, rfl, (hk.same st.myself).slaveof (by decide), (hk.same st.myself).master (by decide),
      fun p => (hk.same p).name⟩
  · exact ⟨rfl, rfl, rfl, rfl, rfl, fun _ => rfl⟩

/-- The state in which `zkFailover` runs the race. -/
def raceState (st : Server) : Server :=
  clusterDoBeforeSleep { drawEpoch st .zkElection with failoverAuthEpoch := st.currentEpoch + 1 }
    { saveConfig := true, updateState := true, fsyncConfig := true }

theorem zkFailover_does (env : Env) (hi : NodeInv c.R x st) (hm : st.me.slaveof ≠ none) :
    Does c st (zkFailover env st) := by
  unfold zkFailover
  by_cases hs : st.failoverAuthSent = true
  · rw [if_pos hs]
    exact Stepwise.Does.ok .refl
  rw [if_neg hs]
  have hs : st.failoverAuthSent = false := by simpa using hs
  have hbegin := beginElection_moves (c := c) .zkElection hs
  have hi1 := hi.moves hbegin
  -- the state of the source sets failover_auth_sent after the race, not before
  have hsent := zklinkTryCreateOldMasterPath_sent env (raceState st) true
  change zklinkTryCreateOldMasterPath env (beginElection st .zkElection) = _ at hsent
  change Does c st (if (zklinkTryCreateOldMasterPath env (raceState st)).2 = false
    then .ok { (zklinkTryCreateOldMasterPath env (raceState st)).1 with failoverAuthSent := true }
    else clusterFailoverReplaceYourMaster env (updateConfigEpochOfElection
      { (zklinkTryCreateOldMasterPath env (raceState st)).1 with failoverAuthSent := true }) .zookeeper)
  generalize zklinkTryCreateOldMasterPath env (raceState st) = r at hsent ⊢
  rcases zklinkTryCreateOldMasterPath_cases env (beginElection st .zkElection) with
    ⟨zk, heq, hkeep⟩ | ⟨m, zkc, zk, hslave, hzkc, heq, hkeep, hnew, hhas⟩
  · rw [heq] at hsent
    obtain ⟨h1, h2⟩ := Prod.ext_iff.mp hsent
    dsimp only at h1 h2
    rw [if_pos h2.symm, ← h1]
    exact Stepwise.Does.ok (hbegin.tail (.zkLost _ zk hkeep))
  · rw [heq] at hsent
    obtain ⟨h1, h2⟩ := Prod.ext_iff.mp hsent
    dsimp only at h1 h2
    rw [if_neg (by rw [← h2]; simp), ← h1]
    have hset := @updateConfigEpochOfElection_moves (beginElection st .zkElection) c _ _ hi1 rfl
    obtain ⟨hauth, hzk, hzklc, hso, hma, hname⟩ := updateConfigEpochOfElection_frame (beginElection st .zkElection)
    have hwon := Move.zkWon (c := c) (updateConfigEpochOfElection (beginElection st .zkElection)) zkc zk m
      (env.now + ZK_DEL_REPLACE_PATH_DELAY) (hso.trans hslave) (hzklc.trans hzkc) (by rw [hzk]; exact hkeep)
      (by rw [hzk, hname]; exact hnew) (by rw [hname]; exact hhas)
    rw [← updateConfigEpochOfElection_zk, hauth, hname] at hwon
    have hrun := (hbegin.trans hset).tail hwon
    obtain ⟨hauth', -, -, hso', hma', hname'⟩ := updateConfigEpochOfElection_frame
      { beginElection st .zkElection with
        zk := zk, zklc := some { zkc with replacePathDelTm := env.now + ZK_DEL_REPLACE_PATH_DELAY } }
    have hnot : nodeIsMaster (beginElection st .zkElection).me = false := hi.me_not_master hm
    rw [clusterFailoverReplaceYourMaster_eq env _ .zookeeper (hso'.trans hslave) (hma'.trans hnot), hauth', hname']
    exact Stepwise.Does.trans hrun (takeOver_does env (hi.moves hrun) m)

theorem clusterHandleSlaveFailover_does (env : Env) (hi : NodeInv c.R x st) :
    Does c st (clusterHandleSlaveFailover env st) := by
  have hsoft : Soft c.R st { st with todo := { st.todo with handleFailover := false } } := .of_eq rfl id
  have hi1 := hi.moves hsoft.moves
  unfold clusterHandleSlaveFailover
  refine Stepwise.Does.trans hsoft.moves ?_
  generalize hst : ({ st with todo := { st.todo with handleFailover := false } } : Server) = s at hi1
  rw [show st.failoverAuthTime = s.failoverAuthTime by rw [← hst], show st.mfEnd = s.mfEnd by rw [← hst],
    show st.mfCanStart = s.mfCanStart by rw [← hst]]
  dsimp only
  split
  · exact Stepwise.Does.ok (Soft.moves (.of_eq rfl id))
  · rename_i master hm
    have hme : s.me.slaveof ≠ none := by simp [hm]
    refine .ite (Stepwise.Does.ok (Soft.moves (.of_eq rfl id))) ?_
    refine .ite (Stepwise.Does.ok (Soft.moves (.of_eq rfl id))) ?_
    refine .ite (scheduleElection_does env hi1 (hi1.me_slave hme)) ?_
    refine Within.bind (updateElectionRank_within env (hi1.me_slave hme)) fun s2 (hrank : Soft c.R s s2) => ?_
    have hi2 := hi1.moves hrank.moves
    have hme2 : s2.me.slaveof ≠ none := by
      rw [Server.me, hrank.table.myself, (hrank.table.core _).slaveof]
      exact hme
    refine Stepwise.Does.trans hrank.moves ?_
    refine .ite (Stepwise.Does.ok (Soft.moves (.of_eq rfl id))) ?_
    refine .ite (Stepwise.Does.ok (Soft.moves (.of_eq rfl id))) ?_
    refine .ite (zkFailover_does env hi2 hme2) ?_
    by_cases hsent : s2.failoverAuthSent = false
    · rw [if_pos hsent]
      exact Stepwise.Does.ok (startElection_moves env hi2 hsent)
    · rw [if_neg hsent]
      by_cases hq : s2.failoverAuthCount ≥ neededQuorum s2.size
      · rw [if_pos hq]
        exact winElection_does env hi2 (by simpa using hsent) hq
      · rw [if_neg hq]
        exact Stepwise.Does.ok (Soft.moves (.of_eq rfl id))

/-! ### Replica migration and manual failover -/

/-- The scan finds a target that is in the table and no slave. -/
theorem migrationScanNode_step (env : Env) (k : ℕ) {s : MigrationScan} {p : NodePtr} (hp : p ∈ st.nodes)
    (hs : Soft R st s.st) (ht : ∀ q, s.target = some q → q ∈ st.nodes ∧ nodeIsSlave (st.heap q) = false) :
    Soft R st (migrationScanNode env k s p).st ∧
      ∀ q, (migrationScanNode env k s p).target = some q → q ∈ st.nodes ∧ nodeIsSlave (st.heap q) = false := by
  unfold migrationScanNode
  dsimp only
  refine ⟨hs.trans (.modNode s.st p ?_ (.inl rfl) fun h => .inl h), fun q hq => ?_⟩
  · exact .of_eq rfl
  · generalize (if nodeIsMaster (s.st.heap p) = true then clusterCountNonFailingSlaves s.st p else 0) = okslaves at hq
    split at hq
    · rename_i h
      rw [← Option.some.inj hq]
      refine ⟨hp, ?_⟩
      simp only [Bool.and_eq_true, Bool.not_eq_true'] at h
      have hslave := h.1.1.1.1.1
      rwa [nodeIsSlave, (hs.table.core p).slave] at hslave
    · exact ht q hq

theorem clusterHandleSlaveMigration_does (env : Env) (hi : NodeInv c.R x st) (k : ℕ) :
    Does c st (clusterHandleSlaveMigration env st k) := by
  unfold clusterHandleSlaveMigration
  refine .ite (Stepwise.Does.ok .refl) ?_
  split
  · exact Stepwise.Does.ok .refl
  · rename_i master hm
    have hme : st.me.slaveof ≠ none := by simp [hm]
    dsimp only
    refine .ite (Stepwise.Does.ok .refl) ?_
    have hscan := Stepwise.foldl_invariant
      (Q := fun s : MigrationScan => Soft c.R st s.st ∧
        ∀ q, s.target = some q → q ∈ st.nodes ∧ nodeIsSlave (st.heap q) = false)
      (f := migrationScanNode env k) st.nodes ⟨st, none, st.myself⟩ ⟨.refl st, nofun⟩
      fun s hs p hp => migrationScanNode_step env k hp hs.1 hs.2
    generalize st.nodes.foldl (migrationScanNode env k) ⟨st, none, st.myself⟩ = s at hscan ⊢
    obtain ⟨hsoft, htarget⟩ := hscan
    split
    · exact Stepwise.Does.ok hsoft.moves
    · rename_i target ht
      obtain ⟨hmem, hnot⟩ := htarget target ht
      refine .ite ?_ (Stepwise.Does.ok hsoft.moves)
      refine Stepwise.Does.trans hsoft.moves (clusterSetMaster_does (hsoft.moves.mem hmem) ?_ ?_)
      · rw [hsoft.table.myself]
        rintro rfl
        have := hi.me_slave hme
        rw [Server.me, hnot] at this
        cases this
      · intro h
        have hmaster := hi.me_not_master hme
        rw [nodeIsMaster, Server.me, hsoft.table.myself, (hsoft.table.core _).master] at h
        rw [nodeIsMaster, Server.me, h] at hmaster
        cases hmaster

theorem manualFailoverCheckTimeout_soft (env : Env) (st : Server) : Soft R st (manualFailoverCheckTimeout env st) :=
  .ite (fun _ => resetManualFailover_soft st) fun _ => .refl st

theorem clusterHandleManualFailover_soft (env : Env) (st : Server) :
    Soft R st (clusterHandleManualFailover env st) :=
  .ite (fun _ => .refl st) fun _ => .ite (fun _ => .of_eq rfl id) fun _ => .refl st

end RedisZk.Cluster
