/-
# The cluster cron and what runs before the event loop sleeps

`clusterCron`, called ten times a second: links, handshakes that time out,
failure detection (with the shortcuts of CLUSTER_REDUCE for clusters of one or
two masters), and the slave's failover and migration. `clusterBeforeSleep`
does what handlers asked for with `clusterDoBeforeSleep`; nodes.conf is saved
there. Taking `myself->ip` from the announce-ip option is left out.

Key definitions: `clusterCron`, `clusterBeforeSleep`.
-/
import RedisZk.Cluster.Packet

namespace RedisZk.Cluster

def handshakeTimeout (env : Env) : ℤ := max env.clusterNodeTimeout 1000

/-- "A Node in HANDSHAKE state has a limited lifespan". -/
def handshakeExpired (env : Env) (n : ClusterNode) : Bool :=
  nodeInHandshake n && decide (env.now - n.ctime > handshakeTimeout env)

/-- Connects to a node without a link. -/
def cronConnect (env : Env) (st : Server) (p : NodePtr) : Server :=
  match env.connect p with
  | none => st.modNode p fun n => { n with pingSent := if n.pingSent = 0 then env.now else n.pingSent }
  | some peer =>
    let oldPingSent := (st.heap p).pingSent
    let st := st.modNode p fun n => { n with link := some { ctime := env.now, peer := peer } }
    let st := clusterSendPing env st peer (some p) (if (st.heap p).flags.meet then .meet else .ping)
    st.modNode p fun n =>
      { n with pingSent := if oldPingSent ≠ 0 then oldPingSent else n.pingSent
               flags := { n.flags with meet := false } }

/-- "Check if we have disconnected nodes and re-establish the connection": one node. -/
def cronReconnectNode (env : Env) (st : Server) (p : NodePtr) : Except Abort Server :=
  let n := st.heap p
  if n.flags.myself || n.flags.noaddr then .ok st
  else
    let st := if n.flags.pfail then { st with statsPfailNodes := st.statsPfailNodes + 1 } else st
    if handshakeExpired env n then clusterDelNode env st p
    else if n.link.isNone then .ok (cronConnect env st p)
    else .ok st

/-- "Ping some random node 1 time every 10 iterations": the one with the oldest pong
among five random nodes. -/
def cronPingRandom (env : Env) (st : Server) : Server :=
  if env.cronIteration % 10 ≠ 0 then st
  else
    let picks := (env.randomKeys.filter fun p => decide (p ∈ st.nodes)).take 5
    let candidates := picks.filter fun p =>
      let n := st.heap p
      n.link.isSome && decide (n.pingSent = 0) && !n.flags.myself && !n.flags.handshake
    let oldest := candidates.foldl (fun (best : Option NodePtr) p =>
      match best with
      | none => some p
      | some b => if (st.heap b).pongReceived > (st.heap p).pongReceived then some p else best) none
    match oldest with
    | none => st
    | some p =>
      match (st.heap p).link with
      | none => st
      | some l => clusterSendPing env st l.peer (some p) .ping

/-- The counters of the second loop of `clusterCron`. -/
structure CronScan where
  st : Server
  orphanedMasters : ℕ := 0
  maxSlaves : ℕ := 0
  thisSlaves : ℕ := 0
  updateState : Bool := false

/-- "Timeout reached. Set the node as possibly failing if it is not already in this
state", or at once as failing in clusters of one master, or of two if this
node is a master (CLUSTER_REDUCE). -/
def cronFlagFailing (env : Env) (st : Server) (p : NodePtr) : Server :=
  let markNodeFail : Bool := decide (st.size = 1) || (decide (st.size = 2) && nodeIsMaster st.me)
  let st := st.modFlags p fun f =>
    if markNodeFail then { f with fail := true } else { f with pfail := true }
  if markNodeFail = true ∧ st.size > 1 then clusterSendFail env st (st.heap p).name else st

/-- The checks of the second loop once the orphaned masters are counted. -/
def cronCheckFailing (env : Env) (st : Server) (p : NodePtr) : Server × Bool :=
  let n := st.heap p
  let half := env.clusterNodeTimeout / 2
  let stale := match n.link with
    | none => false
    | some l => decide (env.now - l.ctime > env.clusterNodeTimeout) && decide (n.pingSent ≠ 0) &&
        decide (n.pongReceived < n.pingSent) && decide (env.now - n.pingSent > half) &&
        decide (env.now - n.dataReceived > half)
  let st := if stale then st.modNode p fun n => { n with link := none } else st
  match (st.heap p).link with
  | some l =>
    if n.pingSent = 0 ∧ env.now - n.pongReceived > half then (clusterSendPing env st l.peer (some p) .ping, false)
    else if st.mfEnd ≠ 0 ∧ nodeIsMaster st.me = true ∧ st.mfSlave = some p then
      (clusterSendPing env st l.peer (some p) .ping, false)
    else cronTimeout st n
  | none => cronTimeout st n
where
  cronTimeout (st : Server) (n : ClusterNode) : Server × Bool :=
    if n.pingSent = 0 then (st, false)
    else if min (env.now - n.pingSent) (env.now - n.dataReceived) > env.clusterNodeTimeout ∧
        n.flags.pfail = false ∧ n.flags.fail = false then
      (cronFlagFailing env st p, true)
    else (st, false)

def cronCheckNode (env : Env) (s : CronScan) (p : NodePtr) : CronScan :=
  let n := s.st.heap p
  if n.flags.myself || n.flags.noaddr || n.flags.handshake then s
  else
    let s := if nodeIsSlave s.st.me && nodeIsMaster n && !nodeFailed n then
        let okslaves := clusterCountNonFailingSlaves s.st p
        { s with
          orphanedMasters := if okslaves = 0 ∧ n.numslots > 0 ∧ n.flags.migrateTo = true then
            s.orphanedMasters + 1 else s.orphanedMasters
          maxSlaves := max s.maxSlaves okslaves
          thisSlaves := if s.st.me.slaveof = some p then okslaves else s.thisSlaves }
      else s
    let (st, changed) := cronCheckFailing env s.st p
    { s with st := st, updateState := s.updateState || changed }

/-- The slave's part at the end of the cron. -/
def cronSlave (env : Env) (s : CronScan) : Except Abort Server :=
  let st := manualFailoverCheckTimeout env s.st
  if nodeIsSlave st.me then do
    let st := clusterHandleManualFailover env st
    let st ← if env.moduleNoFailover then .ok st else clusterHandleSlaveFailover env st
    if s.orphanedMasters ≠ 0 ∧ s.maxSlaves ≥ 2 ∧ s.thisSlaves = s.maxSlaves then
      clusterHandleSlaveMigration env st s.maxSlaves
    else .ok st
  else .ok st

def clusterCron (env : Env) (st : Server) : Except Abort Server := do
  let st := clusterUpdateMyselfFlags env st
  let st ← st.nodes.foldlM (cronReconnectNode env) { st with statsPfailNodes := 0 }
  let st := cronPingRandom env st
  let s := st.nodes.foldl (cronCheckNode env) { st := st }
  let st ← cronSlave env s
  .ok (if s.updateState = true ∨ st.state = .fail then clusterUpdateState env st else st)

def clusterBeforeSleep (env : Env) (st : Server) : Except Abort Server := do
  let st ← if st.todo.handleFailover then clusterHandleSlaveFailover env st else .ok st
  let st := if st.todo.updateState then clusterUpdateState env st else st
  let st := if st.todo.saveConfig then clusterSaveConfig st st.todo.fsyncConfig else st
  .ok { st with todo := {} }

end RedisZk.Cluster
