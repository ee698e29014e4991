/-
# Sending packets: cluster.c, "CLUSTER messages exchange"

Every packet starts with the header `clusterBuildMessageHdr` fills from the
sender's state. A packet is queued on the link of the node it goes to
(`clusterSendMessage`) and reaches the process at the other end of that link;
without a link it is not sent at all.

Key definitions: `clusterBuildMessageHdr`, `clusterSendPing`,
`clusterBroadcastMessage`, `clusterRequestFailoverAuth`,
`clusterSendFailoverAuth`, `clusterSendUpdate`.
-/
import RedisZk.Cluster.Node

namespace RedisZk.Cluster

/-- Puts the packet in the send buffer of a link whose other end is `peer`. -/
def clusterSendMessage (st : Server) (peer : NodeName) (msg : ClusterMsg) : Server :=
  { st with sndbuf := st.sndbuf ++ [(peer, msg)] }

def clusterBroadcastMessage (st : Server) (msg : ClusterMsg) : Server :=
  st.nodes.foldl (fun st p =>
    match (st.heap p).link with
    | none => st
    | some l =>
      if (st.heap p).flags.myself || (st.heap p).flags.handshake then st
      else clusterSendMessage st l.peer msg) st

/-- The node whose slots and configEpoch the header carries: a slave sends its
master's. -/
def headerMaster (st : Server) : ClusterNode :=
  match st.me.slaveof with
  | some m => if nodeIsSlave st.me then st.heap m else st.me
  | none => st.me

def clusterBuildMessageHdr (env : Env) (st : Server) (data : MsgData) : ClusterMsg :=
  { sender := st.me.name
    currentEpoch := st.currentEpoch
    configEpoch := (headerMaster st).configEpoch
    offset := if nodeIsSlave st.me then env.slaveOffset else env.masterReplOffset
    myslots := (headerMaster st).slots
    slaveof := st.me.slaveof.map fun m => (st.heap m).name
    myip := env.clusterAnnounceIp
    port := env.announcedPort
    cport := env.announcedCport
    flags := st.me.flags
    paused := nodeIsMaster st.me && decide (st.mfEnd ≠ 0)
    forceack := false
    data := data }

/-! ### PING and PONG -/

def clusterSetGossipEntry (n : ClusterNode) : GossipEntry :=
  { nodename := n.name, pingSent := n.pingSent / 1000, pongReceived := n.pongReceived / 1000
    ip := n.ip, port := n.port, cport := n.cport, flags := n.flags }

/-- The loop of `clusterSendPing` over the nodes `dictGetRandomKey` returns, with
the entries added so far. -/
def gossipLoop (st : Server) (wanted : ℤ) : List NodePtr → ℤ → List GossipEntry → List GossipEntry
  | [], _, acc => acc
  | this :: rest, freshnodes, acc =>
    let n := st.heap this
    if freshnodes ≤ 0 ∨ wanted ≤ acc.length then acc
    else if this = st.myself ∨ n.flags.pfail = true then gossipLoop st wanted rest freshnodes acc
    else if n.flags.handshake || n.flags.noaddr || (n.link.isNone && n.numslots = 0) then
      gossipLoop st wanted rest (freshnodes - 1) acc
    else if acc.any fun g => g.nodename = n.name then gossipLoop st wanted rest freshnodes acc
    else gossipLoop st wanted rest (freshnodes - 1) (acc ++ [clusterSetGossipEntry n])

/-- The gossip section: random nodes, then the nodes in PFAIL state. -/
def gossipSection (env : Env) (st : Server) : List GossipEntry :=
  let size : ℤ := st.nodes.length
  let wanted := min (max (size / 10) 3) (size - 2)
  let picks := (env.randomKeys.filter fun p => decide (p ∈ st.nodes)).take (wanted * 3).toNat
  let pfail := st.nodes.filter fun p =>
    !(st.heap p).flags.handshake && !(st.heap p).flags.noaddr && (st.heap p).flags.pfail
  gossipLoop st wanted picks (size - 2) [] ++
    (pfail.take st.statsPfailNodes).map fun p => clusterSetGossipEntry (st.heap p)

/-- `clusterSendPing(link,type)`, the link being the one to `peer`, of node
`linkNode` if it is one this process opened. -/
def clusterSendPing (env : Env) (st : Server) (peer : NodeName) (linkNode : Option NodePtr)
    (type : PingType) : Server :=
  let st := match linkNode, type with
    | some p, .ping => st.modNode p fun n => { n with pingSent := env.now }
    | _, _ => st
  clusterSendMessage st peer (clusterBuildMessageHdr env st (.ping type (gossipSection env st)))

inductive BroadcastTarget
  | all | localSlaves
deriving DecidableEq

def clusterBroadcastPong (env : Env) (st : Server) (target : BroadcastTarget) : Server :=
  st.nodes.foldl (fun st p =>
    let n := st.heap p
    let localSlave := nodeIsSlave n && n.slaveof.isSome &&
      (decide (n.slaveof = some st.myself) || decide (n.slaveof = st.me.slaveof))
    match n.link with
    | none => st
    | some l =>
      if p = st.myself ∨ nodeInHandshake n = true then st
      else if target = .localSlaves ∧ localSlave = false then st
      else clusterSendPing env st l.peer (some p) .pong) st

/-! ### The other packets -/

def clusterSendFail (env : Env) (st : Server) (nodename : NodeName) : Server :=
  clusterBroadcastMessage st (clusterBuildMessageHdr env st (.fail nodename))

/-- `clusterSendUpdate(link,node)`: nothing happens without a link. -/
def clusterSendUpdate (env : Env) (st : Server) (link : Option ClusterLink) (node : NodePtr) : Server :=
  match link with
  | none => st
  | some l =>
    let n := st.heap node
    clusterSendMessage st l.peer (clusterBuildMessageHdr env st (.update n.name n.configEpoch n.slots))

def clusterPropagatePublish (env : Env) (st : Server) : Server :=
  clusterBroadcastMessage st (clusterBuildMessageHdr env st .publish)

def clusterRequestFailoverAuth (env : Env) (st : Server) : Server :=
  clusterBroadcastMessage st
    { clusterBuildMessageHdr env st .failoverAuthRequest with forceack := decide (st.mfEnd ≠ 0) }

def clusterSendFailoverAuth (env : Env) (st : Server) (node : NodePtr) : Server :=
  match (st.heap node).link with
  | none => st
  | some l => clusterSendMessage st l.peer (clusterBuildMessageHdr env st .failoverAuthAck)

def clusterSendMFStart (env : Env) (st : Server) (node : NodePtr) : Server :=
  match (st.heap node).link with
  | none => st
  | some l => clusterSendMessage st l.peer (clusterBuildMessageHdr env st .mfstart)

end RedisZk.Cluster
