/-
# Failover: cluster.c, "SLAVE node specific functions"

A slave whose master failed asks the masters for their vote
(`clusterHandleSlaveFailover`), a master grants it at most once an epoch
(`clusterSendFailoverAuthIfNeeded`), and the slave that has the quorum, or with
ZooKeeper the one that created the znode of the old master, takes over
(`clusterFailoverReplaceYourMaster`). Replica migration and the slave's side of
a manual failover are here too.

Key definitions: `clusterSendFailoverAuthIfNeeded`, `clusterHandleSlaveFailover`,
`clusterFailoverReplaceYourMaster`, `clusterHandleSlaveMigration`.
-/
import RedisZk.Cluster.Zklink

namespace RedisZk.Cluster

/-! ### The master's side of an election -/

/-- No claimed slot is served by a node with a greater configEpoch than the
request's. -/
def claimedSlotsUpToDate (st : Server) (claimed : Bitmap) (requestConfigEpoch : ℕ) : Bool :=
  allSlots.all fun j => !claimed j ||
    match st.slots j with
    | none => true
    | some n => decide ((st.heap n).configEpoch ≤ requestConfigEpoch)

/-- The vote: `lastVoteEpoch` moves and the ACK is queued. -/
def grantFailoverAuth (env : Env) (st : Server) (node master : NodePtr) : Server :=
  let st := { st with lastVoteEpoch := st.currentEpoch }
  let st := st.modNode master fun n => { n with votedTime := env.now }
  let st := clusterDoBeforeSleep st { saveConfig := true, fsyncConfig := true }
  let st := clusterSendFailoverAuth env st node
  st.logEvent (.authGranted (st.heap node).name st.currentEpoch (nodeIsMaster st.me) st.me.numslots)

/-- Vote for the node asking for our vote if there are the conditions. -/
def clusterSendFailoverAuthIfNeeded (env : Env) (st : Server) (node : NodePtr) (request : ClusterMsg) : Server :=
  if nodeIsSlave st.me = true ∨ st.me.numslots = 0 then st
  else if request.currentEpoch < st.currentEpoch then st
  -- I already voted for this epoch?
  else if st.lastVoteEpoch = st.currentEpoch then st
  else match (st.heap node).slaveof with
    | none => st
    | some master =>
      if nodeIsMaster (st.heap node) = true ∨
          (nodeFailed (st.heap master) = false ∧ request.forceack = false) then st
      else if env.now - (st.heap master).votedTime < env.clusterNodeTimeout * 2 then st
      else if claimedSlotsUpToDate st request.myslots request.configEpoch then
        grantFailoverAuth env st node master
      else st

/-! ### The slave's side -/

def clusterGetSlaveRank (env : Env) (st : Server) : Except Abort ℕ :=
  if nodeIsSlave st.me = false then .error .slaveRank
  else match st.me.slaveof with
    | none => .ok 0
    | some master => .ok ((st.heap master).slaves.countP fun q =>
        decide (q ≠ st.myself) && !nodeCantFailover (st.heap q) && decide ((st.heap q).replOffset > env.slaveOffset))

/-- Step 2 of `clusterFailoverReplaceYourMaster`: one slot of the old master. -/
def claimSlot (oldmaster : NodePtr) (st : Server) (j : Slot) : Except Abort Server :=
  if (st.heap oldmaster).slots j then do
    let st ← clusterDelSlot st j
    .ok (clusterAddSlot st st.myself j)
  else .ok st

/-- The final part of a failover. `how` is only logged. -/
def clusterFailoverReplaceYourMaster (env : Env) (st : Server) (how : FailoverBy) : Except Abort Server :=
  match st.me.slaveof with
  | none => .ok st
  | some oldmaster =>
    if nodeIsMaster st.me then .ok st
    else do
      let st := st.logEvent (.replaceYourMaster (st.heap oldmaster).name st.failoverAuthEpoch how)
      let st := clusterSetNodeAsMaster st st.myself
      let st ← allSlots.foldlM (claimSlot oldmaster) st
      let st := clusterUpdateState env st
      let st := clusterSaveConfig st true
      let st := clusterBroadcastPong env st .all
      .ok (resetManualFailover st)

/-- "If the previous failover attempt timedout and the retry time has elapsed, we can setup a new one." -/
def scheduleElection (env : Env) (st : Server) : Except Abort Server := do
  let st := { st with
    failoverAuthTime := env.now + 500 + (env.random % 500 : ℕ)
    failoverAuthCount := 0
    failoverAuthAcks := []
    failoverAuthSent := false }
  let rank ← clusterGetSlaveRank env st
  let st := { st with failoverAuthRank := rank, failoverAuthTime := st.failoverAuthTime + rank * 1000 }
  let st := if st.mfEnd ≠ 0 then
      clusterDoBeforeSleep { st with failoverAuthTime := env.now, failoverAuthRank := 0 } { handleFailover := true }
    else st
  .ok (clusterBroadcastPong env st .localSlaves)

/-- "Update the delay if our rank changed." -/
def updateElectionRank (env : Env) (st : Server) : Except Abort Server :=
  if st.failoverAuthSent = false ∧ st.mfEnd = 0 then do
    let newrank ← clusterGetSlaveRank env st
    if newrank > st.failoverAuthRank then
      .ok { st with
        failoverAuthTime := st.failoverAuthTime + ((newrank : ℤ) - st.failoverAuthRank) * 1000
        failoverAuthRank := newrank }
    else .ok st
  else .ok st

/-- "Update my configEpoch to the epoch of the election." -/
def updateConfigEpochOfElection (st : Server) : Server :=
  if st.me.configEpoch < st.failoverAuthEpoch then
    (st.modNode st.myself fun n => { n with configEpoch := st.failoverAuthEpoch }).logEvent
      (.configEpochSet st.failoverAuthEpoch (knownEpochs st))
  else st

/-- The zklc branch: the race for the znode of the old master. -/
def zkFailover (env : Env) (st : Server) : Except Abort Server :=
  if st.failoverAuthSent then .ok st
  else
    let st := drawEpoch st .zkElection
    let st := { st with failoverAuthEpoch := st.currentEpoch }
    let st := clusterDoBeforeSleep st { saveConfig := true, updateState := true, fsyncConfig := true }
    let (st, zkTry) := zklinkTryCreateOldMasterPath env st
    let st := { st with failoverAuthSent := true }
    if zkTry = false then .ok st
    else clusterFailoverReplaceYourMaster env (updateConfigEpochOfElection st) .zookeeper

/-- "Ask for votes if needed." -/
def startElection (env : Env) (st : Server) : Server :=
  let st := drawEpoch st .election
  let st := { st with failoverAuthEpoch := st.currentEpoch }
  let st := clusterRequestFailoverAuth env st
  let st := { st with failoverAuthSent := true }
  clusterDoBeforeSleep st { saveConfig := true, updateState := true, fsyncConfig := true }

/-- "We have the quorum, we can finally failover the master." -/
def winElection (env : Env) (st : Server) : Except Abort Server :=
  let st := st.logEvent (.electionWon st.failoverAuthEpoch st.failoverAuthCount st.size st.failoverAuthAcks)
  clusterFailoverReplaceYourMaster env (updateConfigEpochOfElection st) .votes

def clusterHandleSlaveFailover (env : Env) (st : Server) : Except Abort Server :=
  let authAge := env.now - st.failoverAuthTime
  let manualFailover : Bool := decide (st.mfEnd ≠ 0) && st.mfCanStart
  let authTimeout := max (env.clusterNodeTimeout * 2) 2000
  let authRetryTime := authTimeout * 2
  let st := { st with todo := { st.todo with handleFailover := false } }
  match st.me.slaveof with
  | none => .ok { st with cantFailoverReason := .none }
  | some master =>
    if nodeIsMaster st.me = true ∨ (nodeFailed (st.heap master) = false ∧ manualFailover = false) ∨
        (env.clusterSlaveNoFailover = true ∧ manualFailover = false) ∨ (st.heap master).numslots = 0 then
      .ok { st with cantFailoverReason := .none }
    else
      let dataAge := env.replDownSeconds * 1000
      let dataAge := if dataAge > env.clusterNodeTimeout then dataAge - env.clusterNodeTimeout else dataAge
      if env.clusterSlaveValidityFactor ≠ 0 ∧ manualFailover = false ∧
          dataAge > env.replPingSlavePeriod * 1000 + env.clusterNodeTimeout * env.clusterSlaveValidityFactor then
        .ok { st with cantFailoverReason := .dataAge }
      else if authAge > authRetryTime then scheduleElection env st
      else do
        let st ← updateElectionRank env st
        if env.now < st.failoverAuthTime then .ok { st with cantFailoverReason := .waitingDelay }
        else if authAge > authTimeout then .ok { st with cantFailoverReason := .expired }
        else if st.zklc.isSome then zkFailover env st
        else if st.failoverAuthSent = false then .ok (startElection env st)
        else if st.failoverAuthCount ≥ neededQuorum st.size then winElection env st
        else .ok { st with cantFailoverReason := .waitingVotes }

/-! ### Slave migration -/

def CLUSTER_SLAVE_MIGRATION_DELAY : ℤ := 5000

/-- The variables of the loop of `clusterHandleSlaveMigration` over the nodes. -/
structure MigrationScan where
  st : Server
  target : Option NodePtr
  candidate : NodePtr

def migrationScanNode (env : Env) (maxSlaves : ℕ) (s : MigrationScan) (p : NodePtr) : MigrationScan :=
  let node := s.st.heap p
  let okslaves := if nodeIsMaster node then clusterCountNonFailingSlaves s.st p else 0
  let orphaned : Bool := !nodeIsSlave node && !nodeFailed node && node.flags.migrateTo && decide (okslaves = 0)
  let target := if orphaned && s.target.isNone && decide (node.numslots > 0) then some p else s.target
  let st := s.st.modNode p fun n =>
    { n with orphanedTime := if orphaned then (if n.orphanedTime = 0 then env.now else n.orphanedTime) else 0 }
  let candidate := if okslaves = maxSlaves then
      node.slaves.foldl (fun c q => if NodeName.lt (st.heap q).name (st.heap c).name then q else c) s.candidate
    else s.candidate
  { st := st, target := target, candidate := candidate }

def clusterHandleSlaveMigration (env : Env) (st : Server) (maxSlaves : ℕ) : Except Abort Server :=
  if st.state ≠ .ok then .ok st
  else match st.me.slaveof with
    | none => .ok st
    | some mymaster =>
      let okslaves := (st.heap mymaster).slaves.countP fun q => !nodeFailed (st.heap q) && !nodeTimedOut (st.heap q)
      if okslaves ≤ env.clusterMigrationBarrier then .ok st
      else
        let s := st.nodes.foldl (migrationScanNode env maxSlaves) ⟨st, none, st.myself⟩
        match s.target with
        | none => .ok s.st
        | some target =>
          if s.candidate = s.st.myself ∧
              env.now - (s.st.heap target).orphanedTime > CLUSTER_SLAVE_MIGRATION_DELAY ∧
              env.moduleNoFailover = false then
            clusterSetMaster s.st target
          else .ok s.st

/-! ### Manual failover -/

def CLUSTER_MF_TIMEOUT : ℤ := 5000

def manualFailoverCheckTimeout (env : Env) (st : Server) : Server :=
  if st.mfEnd ≠ 0 ∧ st.mfEnd < env.now then resetManualFailover st else st

def clusterHandleManualFailover (env : Env) (st : Server) : Server :=
  if st.mfEnd = 0 ∨ st.mfCanStart = true ∨ st.mfMasterOffset = 0 then st
  else if st.mfMasterOffset = env.slaveOffset then { st with mfCanStart := true }
  else st

end RedisZk.Cluster
