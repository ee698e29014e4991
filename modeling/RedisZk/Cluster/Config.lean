/-
# Configuration: epochs, nodes.conf, roles and slot ownership

The functions of cluster.c that decide who is master of what: the config
epochs, saving and loading nodes.conf, the change of a node's role, the
rebinding of slots to a node with a newer configuration
(`clusterUpdateSlotsConfigWith`), and the evaluation of the cluster state with
the cluster size all quorums come from.

Key definitions: `neededQuorum`, `clusterSaveConfig`, `clusterLoadConfig`,
`clusterSetNodeAsMaster`, `clusterUpdateSlotsConfigWith`, `clusterSetMaster`,
`clusterUpdateState`.
-/
import RedisZk.Cluster.Message

namespace RedisZk.Cluster

/-- `needed_quorum`: a majority of the `size` masters, one less for clusters of one or
two masters (CLUSTER_REDUCE). -/
def neededQuorum (size : ℕ) : ℕ :=
  if size < 3 then size / 2 + 1 - 1 else size / 2 + 1

/-! ### nodes.conf -/

/-- The flags that have a name in nodes.conf. -/
def representClusterNodeFlags (flags : NodeFlags) : NodeFlags :=
  { flags with meet := false, migrateTo := false }

def clusterGenNodeDescription (st : Server) (node : NodePtr) : ConfLine :=
  let n := st.heap node
  { name := n.name
    ip := n.ip
    port := n.port
    cport := n.cport
    flags := representClusterNodeFlags n.flags
    master := n.slaveof.map fun m => (st.heap m).name
    pingSent := n.pingSent
    pongReceived := n.pongReceived
    configEpoch := n.configEpoch
    slots := allSlots.filter n.slots
    migrating := if n.flags.myself then
      allSlots.filterMap fun j => (st.migratingSlotsTo j).map fun q => (j, (st.heap q).name) else []
    importing := if n.flags.myself then
      allSlots.filterMap fun j => if (st.migratingSlotsTo j).isSome then none
        else (st.importingSlotsFrom j).map fun q => (j, (st.heap q).name) else [] }

/-- The description of the nodes, those in handshake excluded. -/
def clusterGenNodesDescription (st : Server) : List ConfLine :=
  (st.nodes.filter fun p => !nodeInHandshake (st.heap p)).map (clusterGenNodeDescription st)

/-- `clusterSaveConfigOrDie`: one `write` of the whole file. -/
def clusterSaveConfig (st : Server) (doFsync : Bool) : Server :=
  { st with
    todo := { st.todo with saveConfig := false, fsyncConfig := st.todo.fsyncConfig && !doFsync }
    conf := { lines := clusterGenNodesDescription st
              currentEpoch := st.currentEpoch
              lastVoteEpoch := st.lastVoteEpoch } }

/-! ### Config epochs -/

def clusterGetMaxEpoch (st : Server) : ℕ :=
  max ((st.nodes.map fun p => (st.heap p).configEpoch).foldl max 0) st.currentEpoch

/-- The configEpochs of the nodes known, for the log. -/
def knownEpochs (st : Server) : List ℕ := st.nodes.map fun p => (st.heap p).configEpoch

/-- `server.cluster->currentEpoch++`. -/
def drawEpoch (st : Server) (reason : EpochReason) : Server :=
  { st with
    currentEpoch := st.currentEpoch + 1
    log := st.log ++ [.epochDrawn reason (st.currentEpoch + 1) (knownEpochs st)] }

/-- `myself->configEpoch = server.cluster->currentEpoch`. -/
def assignCurrentEpoch (st : Server) : Server :=
  st.modNode st.myself fun n => { n with configEpoch := st.currentEpoch }

/-- The new state, and whether a new epoch was assigned (C_OK). -/
def clusterBumpConfigEpochWithoutConsensus (st : Server) : Server × Bool :=
  if st.me.configEpoch = 0 ∨ st.me.configEpoch ≠ clusterGetMaxEpoch st then
    let st := assignCurrentEpoch (drawEpoch st .bump)
    (clusterDoBeforeSleep st { saveConfig := true, fsyncConfig := true }, true)
  else (st, false)

def clusterHandleConfigEpochCollision (st : Server) (sender : NodePtr) : Server :=
  if (st.heap sender).configEpoch ≠ st.me.configEpoch ∨ nodeIsMaster (st.heap sender) = false ∨
      nodeIsMaster st.me = false then st
  else if NodeName.lt st.me.name (st.heap sender).name = false then st
  else clusterSaveConfig (assignCurrentEpoch (drawEpoch st .collision)) true

/-! ### Loading nodes.conf -/

def NodeFlags.or (a b : NodeFlags) : NodeFlags :=
  { master := a.master || b.master, slave := a.slave || b.slave, pfail := a.pfail || b.pfail
    fail := a.fail || b.fail, myself := a.myself || b.myself, handshake := a.handshake || b.handshake
    noaddr := a.noaddr || b.noaddr, meet := a.meet || b.meet, migrateTo := a.migrateTo || b.migrateTo
    nofailover := a.nofailover || b.nofailover }

/-- The node of that name, created with flags 0 if it does not exist. -/
def lookupOrCreateNode (env : Env) (st : Server) (name : NodeName) : Server × NodePtr :=
  match clusterLookupNode st name with
  | some n => (st, n)
  | none =>
    let (st, n) := createClusterNode env st (some name) {}
    (clusterAddNode st n, n)

def loadOpenSlot (env : Env) (migrating : Bool) (st : Server) (s : Slot × NodeName) : Server :=
  let (st, cn) := lookupOrCreateNode env st s.2
  if migrating then { st with migratingSlotsTo := Function.update st.migratingSlotsTo s.1 (some cn) }
  else { st with importingSlotsFrom := Function.update st.importingSlotsFrom s.1 (some cn) }

/-- Address and flags of a line, for the node it names. -/
def loadNodeFields (env : Env) (line : ConfLine) (n : ClusterNode) : ClusterNode :=
  { n with
    ip := line.ip
    port := line.port
    cport := line.cport
    flags := n.flags.or line.flags
    failTime := if line.flags.fail then env.now else n.failTime }

/-- The master field of a line. -/
def loadMaster (env : Env) (st : Server) (n : NodePtr) (master : Option NodeName) : Server :=
  match master with
  | none => st
  | some name =>
    let (st, m) := lookupOrCreateNode env st name
    clusterNodeAddSlave (st.modNode n fun x => { x with slaveof := some m }) m n

/-- Ping and pong times and the epoch of a line. -/
def loadNodeTimes (env : Env) (line : ConfLine) (n : ClusterNode) : ClusterNode :=
  { n with
    pingSent := if line.pingSent ≠ 0 then env.now else n.pingSent
    pongReceived := if line.pongReceived ≠ 0 then env.now else n.pongReceived
    configEpoch := line.configEpoch }

/-- One line of nodes.conf. The second component is `server.cluster->myself`, NULL
until the line with the `myself` flag is read. -/
def loadLine (env : Env) (acc : Server × Option NodePtr) (line : ConfLine) :
    Except Abort (Server × Option NodePtr) := do
  let (st, n) := lookupOrCreateNode env acc.1 line.name
  let st := st.modNode n (loadNodeFields env line)
  let my ← if line.flags.myself then
      (if acc.2.isSome then .error .confFormat else .ok (some n)) else .ok acc.2
  let st := loadMaster env st n line.master
  let st := st.modNode n (loadNodeTimes env line)
  let st := line.slots.foldl (fun st j => clusterAddSlot st n j) st
  let st := line.migrating.foldl (loadOpenSlot env true) st
  let st := line.importing.foldl (loadOpenSlot env false) st
  .ok (st, my)

/-- `clusterLoadConfig`, on the state `clusterInit` has prepared. -/
def clusterLoadConfig (env : Env) (st : Server) (conf : NodesConf) : Except Abort Server := do
  let st := { st with currentEpoch := conf.currentEpoch, lastVoteEpoch := conf.lastVoteEpoch }
  let (st, my) ← conf.lines.foldlM (loadLine env) (st, none)
  match my with
  | none => .error .confFormat
  | some n =>
    let st := { st with myself := n }
    .ok { st with currentEpoch := max (clusterGetMaxEpoch st) st.currentEpoch }

def clusterUpdateMyselfFlags (env : Env) (st : Server) : Server :=
  let st' := st.modFlags st.myself fun f => { f with nofailover := env.clusterSlaveNoFailover }
  if st.me.flags.nofailover = env.clusterSlaveNoFailover then st'
  else clusterDoBeforeSleep st' { saveConfig := true, updateState := true }

/-- The state `clusterInit` starts from: no node, no slot. `prev` supplies what is
not in the memory of the process: nodes.conf, the log file, ZooKeeper. -/
def freshServer (env : Env) (prev : Server) : Server :=
  { myself := 0
    heap := fun _ => { ctime := 0, name := env.randomName, flags := {} }
    nextPtr := 0
    nodes := []
    conf := prev.conf
    log := prev.log
    zk := prev.zk }

/-- `clusterInit` with a nodes.conf. -/
def clusterInit (env : Env) (prev : Server) : Except Abort Server := do
  let st ← clusterLoadConfig env (freshServer env prev) prev.conf
  let st := st.modNode st.myself fun n => { n with port := env.announcedPort, cport := env.announcedCport }
  .ok (clusterUpdateMyselfFlags env st)

/-- `verifyClusterConfigWithData`, after the keys are loaded. -/
def verifyClusterConfigWithData (env : Env) (st : Server) : Server :=
  if env.moduleNoRedirection || nodeIsSlave st.me then st
  else
    let fix (acc : Server × Bool) (j : Slot) : Server × Bool :=
      let st := acc.1
      if env.countKeysInSlot j = 0 ∨ st.slots j = some st.myself ∨ (st.importingSlotsFrom j).isSome = true then acc
      else match st.slots j with
        | none => (clusterAddSlot st st.myself j, true)
        | some n => ({ st with importingSlotsFrom := Function.update st.importingSlotsFrom j (some n) }, true)
    let (st, updateConfig) := allSlots.foldl fix (st, false)
    if updateConfig then clusterSaveConfig st true else st

/-! ### Manual failover state -/

def resetManualFailover (st : Server) : Server :=
  { st with mfEnd := 0, mfCanStart := false, mfSlave := none, mfMasterOffset := 0 }

/-! ### Roles and slots -/

def clusterSetNodeAsMaster (st : Server) (n : NodePtr) : Server :=
  if nodeIsMaster (st.heap n) then st
  else
    let st := match (st.heap n).slaveof with
      | none => st
      | some m =>
        let st := clusterNodeRemoveSlave st m n
        if n ≠ st.myself then st.modFlags n fun f => { f with migrateTo := true } else st
    let st := st.modNode n fun x =>
      { x with flags := { x.flags with slave := false, master := true }, slaveof := none }
    clusterDoBeforeSleep st { saveConfig := true, updateState := true }

/-- `clusterSetMaster(n)`: `n` becomes the master of this node. -/
def clusterSetMaster (st : Server) (n : NodePtr) : Except Abort Server :=
  if n = st.myself then .error .setMasterMyself
  else if st.me.numslots ≠ 0 then .error .setMasterSlots
  else
    let st :=
      if nodeIsMaster st.me then
        clusterCloseAllSlots (st.modFlags st.myself fun f =>
          { f with master := false, migrateTo := false, slave := true })
      else match st.me.slaveof with
        | some m => clusterNodeRemoveSlave st m st.myself
        | none => st
    let st := st.modNode st.myself fun x => { x with slaveof := some n }
    .ok (resetManualFailover (clusterNodeAddSlave st n st.myself))

/-- The local variables of the loop of `clusterUpdateSlotsConfigWith`: `newmaster`
is `sender` or NULL. -/
structure SlotScan where
  st : Server
  newmaster : Bool
  dirtySlots : List Slot

/-- One turn of the loop: slot `j`, claimed by `sender`. -/
def updateSlot (env : Env) (sender : NodePtr) (senderConfigEpoch : ℕ) (curmaster : Option NodePtr)
    (s : SlotScan) (j : Slot) : Except Abort SlotScan :=
  if s.st.slots j = some sender then .ok s
  else if (s.st.importingSlotsFrom j).isSome then .ok s
  else if (match s.st.slots j with
      | none => true
      | some n => decide ((s.st.heap n).configEpoch < senderConfigEpoch)) then do
    let dirty := if s.st.slots j = some s.st.myself ∧ env.countKeysInSlot j ≠ 0 ∧ sender ≠ s.st.myself
      then s.dirtySlots ++ [j] else s.dirtySlots
    let newmaster := s.newmaster || decide (s.st.slots j = curmaster)
    let st ← clusterDelSlot s.st j
    let st := clusterAddSlot st sender j
    .ok { st := clusterDoBeforeSleep st { saveConfig := true, updateState := true, fsyncConfig := true }
          newmaster := newmaster
          dirtySlots := dirty }
  else .ok s

/-- The loop over the claimed slots. -/
def updateSlots (env : Env) (st : Server) (sender : NodePtr) (senderConfigEpoch : ℕ) (slots : Bitmap)
    (curmaster : Option NodePtr) : Except Abort SlotScan :=
  allSlots.foldlM (fun s j => if slots j then updateSlot env sender senderConfigEpoch curmaster s j else .ok s)
    { st := st, newmaster := false, dirtySlots := [] }

/-- `nodeIsMaster(myself) ? myself : myself->slaveof` -/
def curMaster (st : Server) : Option NodePtr :=
  if nodeIsMaster st.me then some st.myself else st.me.slaveof

def clusterUpdateSlotsConfigWith (env : Env) (st : Server) (sender : NodePtr) (senderConfigEpoch : ℕ)
    (slots : Bitmap) : Except Abort Server :=
  let curmaster := curMaster st
  if sender = st.myself then .ok st
  else do
    let s ← updateSlots env st sender senderConfigEpoch slots curmaster
    if env.moduleNoRedirection then .ok s.st
    else if s.newmaster then
      match curmaster with
      | none => .error .nullCurmaster
      | some cm =>
        if (s.st.heap cm).numslots = 0 then do
          let st ← clusterSetMaster s.st sender
          .ok (clusterDoBeforeSleep st { saveConfig := true, updateState := true, fsyncConfig := true })
        else .ok (if s.dirtySlots = [] then s.st else s.st.logEvent (.delKeysInSlots s.dirtySlots))
    else .ok (if s.dirtySlots = [] then s.st else s.st.logEvent (.delKeysInSlots s.dirtySlots))

/-! ### Cluster state -/

def CLUSTER_MAX_REJOIN_DELAY : ℤ := 5000
def CLUSTER_MIN_REJOIN_DELAY : ℤ := 500
def CLUSTER_WRITABLE_DELAY : ℤ := 2000

/-- A node the cluster size counts: a master serving at least one slot. -/
def servesSlots (n : ClusterNode) : Bool := nodeIsMaster n && decide (n.numslots ≠ 0)

def clusterUpdateState (env : Env) (st : Server) : Server :=
  let st := { st with
    todo := { st.todo with updateState := false }
    firstCallTime := if st.firstCallTime = 0 then env.now else st.firstCallTime }
  if nodeIsMaster st.me = true ∧ st.state = .fail ∧ env.now - st.firstCallTime < CLUSTER_WRITABLE_DELAY then st
  else
    let covered := !env.clusterRequireFullCoverage || allSlots.all fun j =>
      match st.slots j with
      | none => false
      | some n => !nodeFailed (st.heap n)
    let size := st.nodes.countP fun p => servesSlots (st.heap p)
    let reachable := st.nodes.countP fun p =>
      servesSlots (st.heap p) && !(st.heap p).flags.fail && !(st.heap p).flags.pfail
    let minority : Bool := reachable < neededQuorum size
    let newState : ClusterHealth := if covered && !minority then .ok else .fail
    let st := { st with
      size := size
      amongMinorityTime := if minority then env.now else st.amongMinorityTime }
    if newState = st.state then st
    else
      let rejoinDelay := max (min env.clusterNodeTimeout CLUSTER_MAX_REJOIN_DELAY) CLUSTER_MIN_REJOIN_DELAY
      if newState = .ok ∧ nodeIsMaster st.me = true ∧ env.now - st.amongMinorityTime < rejoinDelay then st
      else { st with state := newState }

end RedisZk.Cluster
