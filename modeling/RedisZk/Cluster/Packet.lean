/-
# Receiving packets: cluster.c, `clusterProcessPacket`

A packet comes in over a link: one this process opened to a node (`linkNode`),
or one the peer opened (`none`). `clusterProcessPacket` is one function of the
source; its stages have a definition each here, in the order of the source.
The checks of signature, version and length are not part of it: a packet is
well framed.

Key definitions: `clusterProcessGossipSection`, `updateFromHeader`,
`processRole`, `processSlots`, `clusterProcessPacket`.
-/
import RedisZk.Cluster.Failover

namespace RedisZk.Cluster

/-! ### Blacklist -/

def CLUSTER_BLACKLIST_TTL : ℤ := 60

def clusterBlacklistCleanup (env : Env) (st : Server) : Server :=
  { st with nodesBlackList := st.nodesBlackList.filter fun e => !decide (e.2 < env.unixtime) }

def clusterBlacklistAddNode (env : Env) (st : Server) (node : NodePtr) : Server :=
  let st := clusterBlacklistCleanup env st
  let name := (st.heap node).name
  { st with nodesBlackList := st.nodesBlackList.filter (fun e => !decide (e.1 = name)) ++
      [(name, env.unixtime + CLUSTER_BLACKLIST_TTL)] }

def clusterBlacklistExists (env : Env) (st : Server) (name : NodeName) : Server × Bool :=
  let st := clusterBlacklistCleanup env st
  (st, st.nodesBlackList.any fun e => decide (e.1 = name))

/-! ### Failure detection -/

def markNodeAsFailingIfNeeded (env : Env) (st : Server) (node : NodePtr) : Server :=
  if st.zklc.isSome then st
  else if nodeTimedOut (st.heap node) = false ∨ nodeFailed (st.heap node) = true then st
  else
    let (st, failures) := clusterNodeFailureReportsCount env st node
    let failures := if nodeIsMaster st.me then failures + 1 else failures
    if failures < neededQuorum st.size then st
    else
      let st := st.modNode node fun n =>
        { n with flags := { n.flags with pfail := false, fail := true }, failTime := env.now }
      let st := if nodeIsMaster st.me then clusterSendFail env st (st.heap node).name else st
      clusterDoBeforeSleep st { updateState := true, saveConfig := true }

def CLUSTER_FAIL_UNDO_TIME_MULT : ℤ := 2

/-- Called only for a node with the FAIL flag. -/
def clearNodeFailureIfNeeded (env : Env) (st : Server) (node : NodePtr) : Server :=
  let n := st.heap node
  let clear (st : Server) : Server :=
    clusterDoBeforeSleep (st.modFlags node fun f => { f with fail := false }) { updateState := true, saveConfig := true }
  let st := if nodeIsSlave n = true ∨ n.numslots = 0 then clear st else st
  if nodeIsMaster n = true ∧ n.numslots > 0 ∧
      env.now - n.failTime > env.clusterNodeTimeout * CLUSTER_FAIL_UNDO_TIME_MULT then clear st
  else st

/-! ### Gossip -/

/-- What a gossip entry says of a node that is known. -/
def processGossipKnown (env : Env) (sender : Option NodePtr) (st : Server) (node : NodePtr)
    (g : GossipEntry) : Server :=
  let failing := g.flags.fail || g.flags.pfail
  let st := match sender with
    | none => st
    | some s =>
      if nodeIsMaster (st.heap s) = true ∧ node ≠ st.myself then
        if failing then markNodeAsFailingIfNeeded env (clusterNodeAddFailureReport env st node s).1 node
        else clusterNodeDelFailureReport env st node s
      else st
  let st :=
    if failing = false ∧ (st.heap node).pingSent = 0 then
      let (st, reports) := clusterNodeFailureReportsCount env st node
      let pongtime := g.pongReceived * 1000
      if reports = 0 ∧ pongtime ≤ env.now + 500 ∧ pongtime > (st.heap node).pongReceived then
        st.modNode node fun n => { n with pongReceived := pongtime }
      else st
    else st
  let n := st.heap node
  if (n.flags.fail || n.flags.pfail) && !g.flags.noaddr && !failing &&
      (decide (n.ip.toLower ≠ g.ip.toLower) || decide (n.port ≠ g.port) || decide (n.cport ≠ g.cport)) then
    st.modNode node fun n =>
      { n with link := none, ip := g.ip, port := g.port, cport := g.cport, flags := { n.flags with noaddr := false } }
  else st

/-- What a gossip entry says of a node that is not known: it is added with the
flags of the entry. -/
def processGossipUnknown (env : Env) (sender : Option NodePtr) (st : Server) (g : GossipEntry) : Server :=
  if sender.isSome && !g.flags.noaddr then
    let (st, listed) := clusterBlacklistExists env st g.nodename
    if listed then st
    else
      let (st, node) := createClusterNode env st (some g.nodename) g.flags
      let st := st.modNode node fun n => { n with ip := g.ip, port := g.port, cport := g.cport }
      clusterAddNode st node
  else st

def processGossipEntry (env : Env) (sender : Option NodePtr) (st : Server) (g : GossipEntry) : Server :=
  match clusterLookupNode st g.nodename with
  | some node => processGossipKnown env sender st node g
  | none => processGossipUnknown env sender st g

def clusterProcessGossipSection (env : Env) (st : Server) (linkNode : Option NodePtr) (hdr : ClusterMsg)
    (gossip : List GossipEntry) : Server :=
  let sender := match linkNode with
    | some p => some p
    | none => clusterLookupNode st hdr.sender
  gossip.foldl (processGossipEntry env sender) st

/-! ### Addresses -/

/-- `nodeIp2String` -/
def nodeIp2String (env : Env) (hdr : ClusterMsg) : String := hdr.myip.getD env.peerIp

/-- The new state, and whether the address changed. -/
def nodeUpdateAddressIfNeeded (env : Env) (st : Server) (node : NodePtr) (linkNode : Option NodePtr)
    (hdr : ClusterMsg) : Server × Bool :=
  let n := st.heap node
  -- the link is the one this process opened to the node
  if linkNode = some node then (st, false)
  else if n.port = hdr.port ∧ n.cport = hdr.cport ∧ nodeIp2String env hdr = n.ip then (st, false)
  else
    (st.modNode node fun n =>
      { n with ip := nodeIp2String env hdr, port := hdr.port, cport := hdr.cport, link := none
               flags := { n.flags with noaddr := false } }, true)

/-! ### The stages of `clusterProcessPacket` -/

/-- "Update our currentEpoch if we see a newer epoch in the cluster", and what
else the header says of a sender that is known and not in handshake. -/
def updateFromHeader (env : Env) (st : Server) (sender : NodePtr) (hdr : ClusterMsg) : Server :=
  let st := if hdr.currentEpoch > st.currentEpoch then { st with currentEpoch := hdr.currentEpoch } else st
  let st := if hdr.configEpoch > (st.heap sender).configEpoch then
      clusterDoBeforeSleep (st.modNode sender fun n => { n with configEpoch := hdr.configEpoch })
        { saveConfig := true, fsyncConfig := true }
    else st
  let st := st.modNode sender fun n => { n with replOffset := hdr.offset, replOffsetTime := env.now }
  if st.mfEnd ≠ 0 ∧ nodeIsSlave st.me = true ∧ st.me.slaveof = some sender ∧ hdr.paused = true ∧
      st.mfMasterOffset = 0 then
    { st with mfMasterOffset := hdr.offset }
  else st

/-- "Initial processing of PING and MEET requests replying with a PONG." -/
def replyToPing (env : Env) (st : Server) (peer : NodeName) (linkNode sender : Option NodePtr)
    (hdr : ClusterMsg) (type : PingType) (gossip : List GossipEntry) : Server :=
  let st := if (type = .meet ∨ st.me.ip = "") ∧ env.clusterAnnounceIp = none ∧ env.sockIp ≠ st.me.ip then
      clusterDoBeforeSleep (st.modNode st.myself fun n => { n with ip := env.sockIp }) { saveConfig := true }
    else st
  let st := if sender.isNone = true ∧ type = .meet then
      let (st, node) := createClusterNode env st none { handshake := true }
      let st := st.modNode node fun n =>
        { n with ip := nodeIp2String env hdr, port := hdr.port, cport := hdr.cport }
      let st := clusterDoBeforeSleep (clusterAddNode st node) { saveConfig := true }
      clusterProcessGossipSection env st linkNode hdr gossip
    else st
  clusterSendPing env st peer linkNode .pong

/-- The PING or PONG came over the link of node `p`: the end of a handshake, or
the wrong node at the other end. The second component is false when the
packet goes no further. -/
def processLinkNode (env : Env) (st : Server) (p : NodePtr) (sender : Option NodePtr) (hdr : ClusterMsg) :
    Except Abort (Server × Bool) :=
  if nodeInHandshake (st.heap p) then
    match sender with
    | some s => do
      let (st, changed) := nodeUpdateAddressIfNeeded env st s (some p) hdr
      let st := if changed then clusterDoBeforeSleep st { saveConfig := true, updateState := true } else st
      let st ← clusterDelNode env st p
      .ok (st, false)
    | none => do
      let st ← clusterRenameNode st p hdr.sender
      let st := st.modFlags p fun f =>
        { f with handshake := false, master := f.master || hdr.flags.master, slave := f.slave || hdr.flags.slave }
      .ok (clusterDoBeforeSleep st { saveConfig := true }, true)
  else if (st.heap p).name ≠ hdr.sender then
    let st := st.modNode p fun n =>
      { n with flags := { n.flags with noaddr := true }, ip := "", port := 0, cport := 0, link := none }
    .ok (clusterDoBeforeSleep st { saveConfig := true }, false)
  else .ok (st, true)

/-- "Update our info about the node": a PONG on the link of `p`. -/
def processPong (env : Env) (st : Server) (p : NodePtr) : Server :=
  let st := st.modNode p fun n => { n with pongReceived := env.now, pingSent := 0 }
  if nodeTimedOut (st.heap p) then
    clusterDoBeforeSleep (st.modFlags p fun f => { f with pfail := false }) { saveConfig := true, updateState := true }
  else if nodeFailed (st.heap p) then clearNodeFailureIfNeeded env st p
  else st

/-- "Master turned into a slave! Reconfigure the node." -/
def turnIntoSlave (st : Server) (sender : NodePtr) : Except Abort Server := do
  let st ← clusterDelNodeSlots st sender
  let st := st.modFlags sender fun f => { f with master := false, migrateTo := false, slave := true }
  .ok (clusterDoBeforeSleep st { saveConfig := true, updateState := true })

/-- "Master node changed for this slave?" -/
def changeMaster (st : Server) (sender master : NodePtr) : Server :=
  if (st.heap sender).slaveof = some master then st
  else
    let st := match (st.heap sender).slaveof with
      | some m => clusterNodeRemoveSlave st m sender
      | none => st
    let st := clusterNodeAddSlave st master sender
    let st := st.modNode sender fun n => { n with slaveof := some master }
    clusterDoBeforeSleep st { saveConfig := true }

/-- "Check for role switch: slave -> master or master -> slave." -/
def processRole (st : Server) (sender : NodePtr) (slaveof : Option NodeName) : Except Abort Server :=
  match slaveof with
  | none => .ok (clusterSetNodeAsMaster st sender)
  | some name => do
    let master := clusterLookupNode st name
    let st ← if nodeIsMaster (st.heap sender) then turnIntoSlave st sender else .ok st
    match master with
    | none => .ok st
    | some m => .ok (changeMaster st sender m)

/-- Sender, or its master if slave. -/
def senderMaster (st : Server) (sender : NodePtr) : Option NodePtr :=
  if nodeIsMaster (st.heap sender) then some sender else (st.heap sender).slaveof

/-- "Sender claimed slots don't match my view?" -/
def dirtySlots (st : Server) (sender : NodePtr) (claimed : Bitmap) : Bool :=
  match senderMaster st sender with
  | none => false
  | some m => decide ((st.heap m).slots ≠ claimed)

/-- The first claimed slot that a node with a greater configEpoch serves. -/
def staleSlotOwner (st : Server) (sender : NodePtr) (claimed : Bitmap) (senderConfigEpoch : ℕ) : Option NodePtr :=
  allSlots.findSome? fun j =>
    if claimed j then
      match st.slots j with
      | none => none
      | some n => if n ≠ sender ∧ (st.heap n).configEpoch > senderConfigEpoch then some n else none
    else none

/-- "Update our info about served slots." -/
def processSlots (env : Env) (st : Server) (sender : NodePtr) (senderConfigEpoch : ℕ) (claimed : Bitmap) :
    Except Abort Server := do
  let dirty := dirtySlots st sender claimed
  let st ← if nodeIsMaster (st.heap sender) && dirty then
      clusterUpdateSlotsConfigWith env st sender senderConfigEpoch claimed else .ok st
  if dirty then
    match staleSlotOwner st sender claimed senderConfigEpoch with
    | none => .ok st
    | some n => .ok (clusterSendUpdate env st (st.heap sender).link n)
  else .ok st

/-- The part of the processing of a PING, PONG or MEET that needs a known sender. -/
def processSender (env : Env) (st : Server) (sender : NodePtr) (linkNode : Option NodePtr) (hdr : ClusterMsg)
    (senderConfigEpoch : ℕ) (gossip : List GossipEntry) : Except Abort Server := do
  let st ← processRole st sender hdr.slaveof
  let st ← processSlots env st sender senderConfigEpoch hdr.myslots
  let st := if nodeIsMaster st.me = true ∧ nodeIsMaster (st.heap sender) = true ∧
      senderConfigEpoch = st.me.configEpoch then clusterHandleConfigEpochCollision st sender else st
  .ok (clusterProcessGossipSection env st linkNode hdr gossip)

/-- "Copy the CLUSTER_NODE_NOFAILOVER flag from what the sender announced",
"Update the node address if it changed". -/
def updateSender (env : Env) (st : Server) (sender : NodePtr) (linkNode : Option NodePtr) (hdr : ClusterMsg)
    (type : PingType) : Server :=
  let st := st.modFlags sender fun f => { f with nofailover := hdr.flags.nofailover }
  if type = .ping ∧ nodeInHandshake (st.heap sender) = false then
    let (st, changed) := nodeUpdateAddressIfNeeded env st sender linkNode hdr
    if changed then clusterDoBeforeSleep st { saveConfig := true, updateState := true } else st
  else st

/-- PING, PONG, MEET. -/
def processPing (env : Env) (st : Server) (peer : NodeName) (linkNode sender : Option NodePtr) (hdr : ClusterMsg)
    (senderConfigEpoch : ℕ) (type : PingType) (gossip : List GossipEntry) : Except Abort Server := do
  let st := if type = .ping ∨ type = .meet then replyToPing env st peer linkNode sender hdr type gossip else st
  let (st, goOn) ← match linkNode with
    | some p => processLinkNode env st p sender hdr
    | none => .ok (st, true)
  if goOn = false then .ok st
  else
    let st := match sender with
      | some s => updateSender env st s linkNode hdr type
      | none => st
    let st := match linkNode, type with
      | some p, .pong => processPong env st p
      | _, _ => st
    match sender with
    | some s => processSender env st s linkNode hdr senderConfigEpoch gossip
    | none => .ok st

def processFail (env : Env) (st : Server) (nodename : NodeName) : Server :=
  match clusterLookupNode st nodename with
  | none => st
  | some failing =>
    if (st.heap failing).flags.fail || (st.heap failing).flags.myself then st
    else
      clusterDoBeforeSleep
        (st.modNode failing fun n =>
          { n with flags := { n.flags with fail := true, pfail := false }, failTime := env.now })
        { saveConfig := true, updateState := true }

/-- "We consider this vote only if the sender is a master serving a non zero number
of slots, and its currentEpoch is greater or equal to epoch where this node
started the election." -/
def countVote (st : Server) (sender : NodePtr) (senderCurrentEpoch : ℕ) : Server :=
  let n := st.heap sender
  if nodeIsMaster n = true ∧ n.numslots > 0 ∧ senderCurrentEpoch ≥ st.failoverAuthEpoch then
    clusterDoBeforeSleep
      { st with failoverAuthCount := st.failoverAuthCount + 1, failoverAuthAcks := st.failoverAuthAcks ++ [n.name] }
      { handleFailover := true }
  else st

def processMFStart (env : Env) (st : Server) (sender : NodePtr) : Server :=
  if (st.heap sender).slaveof ≠ some st.myself then st
  else { resetManualFailover st with mfEnd := env.now + CLUSTER_MF_TIMEOUT, mfSlave := some sender }

def processUpdate (env : Env) (st : Server) (nodename : NodeName) (reportedConfigEpoch : ℕ) (slots : Bitmap) :
    Except Abort Server :=
  match clusterLookupNode st nodename with
  | none => .ok st
  | some n =>
    if (st.heap n).configEpoch ≥ reportedConfigEpoch then .ok st
    else
      let st := if nodeIsSlave (st.heap n) then clusterSetNodeAsMaster st n else st
      let st := st.modNode n fun x => { x with configEpoch := reportedConfigEpoch }
      let st := clusterDoBeforeSleep st { saveConfig := true, fsyncConfig := true }
      clusterUpdateSlotsConfigWith env st n reportedConfigEpoch slots

/-- The start of every packet: "Check if the sender is a known node". -/
def processHeader (env : Env) (st : Server) (sender : NodePtr) (hdr : ClusterMsg) : Server :=
  let st := st.modNode sender fun n => { n with dataReceived := env.now }
  if nodeInHandshake (st.heap sender) then st else updateFromHeader env st sender hdr

/-- `clusterProcessPacket(link)`: the packet came from process `peer` over the link of
`linkNode`, or over one the peer opened. -/
def clusterProcessPacket (env : Env) (st : Server) (peer : NodeName) (linkNode : Option NodePtr)
    (hdr : ClusterMsg) : Except Abort Server :=
  let sender := clusterLookupNode st hdr.sender
  let trusted := match sender with
    | some s => !nodeInHandshake (st.heap s)
    | none => false
  let senderCurrentEpoch := if trusted then hdr.currentEpoch else 0
  let senderConfigEpoch := if trusted then hdr.configEpoch else 0
  let st := match sender with
    | some s => processHeader env st s hdr
    | none => st
  match hdr.data with
  | .ping type gossip => processPing env st peer linkNode sender hdr senderConfigEpoch type gossip
  | .fail nodename => .ok (if sender.isSome then processFail env st nodename else st)
  | .publish => .ok st
  | .failoverAuthRequest => .ok (match sender with
    | some s => clusterSendFailoverAuthIfNeeded env st s hdr
    | none => st)
  | .failoverAuthAck => .ok (match sender with
    | some s => countVote st s senderCurrentEpoch
    | none => st)
  | .mfstart => .ok (match sender with
    | some s => processMFStart env st s
    | none => st)
  | .update nodename configEpoch slots =>
    if sender.isSome then processUpdate env st nodename configEpoch slots else .ok st

end RedisZk.Cluster
