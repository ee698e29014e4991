/-
# The state of a cluster node

What one process of the cluster keeps: the table of known nodes
(`clusterNode`, `clusterState` of cluster.h), the ZooKeeper client of
zklink.h, the nodes.conf it last wrote, the packets queued on its links and
the events it logged. A `clusterNode *` is a `NodePtr` into a heap, so that a
pointer and the name of the node it points to are different things: a
handshake node changes its name and stays the same node, a freed node leaves
pointers behind if someone forgot one.

What a function reads from outside the cluster code (clock, configuration,
keyspace, replication link, random choices, answers of other services) comes
in `Env`, one for each event, so that no theorem depends on their values.
Epochs are naturals: they grow by one an election, and 2^64 elections do not
happen.

Key definitions: `ClusterNode`, `Server`, `ClusterMsg`, `Env`, `Abort`.
-/
import Mathlib

namespace RedisZk.Cluster

def CLUSTER_SLOTS : ℕ := 16384
def CLUSTER_NAMELEN : ℕ := 40

abbrev Slot := Fin CLUSTER_SLOTS

/-- `unsigned char slots[CLUSTER_SLOTS/8]`, one bit a slot. -/
abbrev Bitmap := Slot → Bool

/-- The slots in the order the loops `for (j = 0; j < CLUSTER_SLOTS; j++)` take them. -/
@[irreducible] def allSlots : List Slot := List.finRange CLUSTER_SLOTS

theorem mem_allSlots (j : Slot) : j ∈ allSlots := by
  unfold allSlots
  exact List.mem_finRange j

/-- `char name[CLUSTER_NAMELEN]`: exactly 40 bytes, without a terminator. -/
structure NodeName where
  bytes : List UInt8
  len : bytes.length = CLUSTER_NAMELEN
deriving DecidableEq

/-- `memcmp(a,b,CLUSTER_NAMELEN) < 0`. -/
def NodeName.lt (a b : NodeName) : Bool := decide (a.bytes < b.bytes)

/-- A `clusterNode *`; NULL is `none`. -/
abbrev NodePtr := ℕ

/-- The bits `CLUSTER_NODE_*` of `clusterNode.flags`. -/
structure NodeFlags where
  master : Bool := false
  slave : Bool := false
  pfail : Bool := false
  fail : Bool := false
  myself : Bool := false
  handshake : Bool := false
  noaddr : Bool := false
  meet : Bool := false
  migrateTo : Bool := false
  nofailover : Bool := false
deriving DecidableEq, Repr

/-- The outgoing link of a node: when it was created and the process found at
its other end. Its buffers are `Server.sndbuf` and the packets in flight. -/
structure ClusterLink where
  ctime : ℤ
  peer : NodeName
deriving DecidableEq

structure ClusterNode where
  ctime : ℤ
  name : NodeName
  flags : NodeFlags
  configEpoch : ℕ := 0
  slots : Bitmap := fun _ => false
  numslots : ℕ := 0
  /-- `slaves[0..numslaves)` -/
  slaves : List NodePtr := []
  slaveof : Option NodePtr := none
  pingSent : ℤ := 0
  pongReceived : ℤ := 0
  dataReceived : ℤ := 0
  failTime : ℤ := 0
  votedTime : ℤ := 0
  replOffsetTime : ℤ := 0
  orphanedTime : ℤ := 0
  replOffset : ℤ := 0
  ip : String := ""
  port : ℕ := 0
  cport : ℕ := 0
  link : Option ClusterLink := none
  failReports : List (NodePtr × ℤ) := []

def nodeIsMaster (n : ClusterNode) : Bool := n.flags.master
def nodeIsSlave (n : ClusterNode) : Bool := n.flags.slave
def nodeInHandshake (n : ClusterNode) : Bool := n.flags.handshake
def nodeHasAddr (n : ClusterNode) : Bool := !n.flags.noaddr
def nodeTimedOut (n : ClusterNode) : Bool := n.flags.pfail
def nodeFailed (n : ClusterNode) : Bool := n.flags.fail
def nodeCantFailover (n : ClusterNode) : Bool := n.flags.nofailover

/-! ### Packets -/

/-- `clusterMsgDataGossip`: what a packet says of a third node. -/
structure GossipEntry where
  nodename : NodeName
  pingSent : ℤ
  pongReceived : ℤ
  ip : String
  port : ℕ
  cport : ℕ
  flags : NodeFlags
deriving DecidableEq

/-- PING, PONG and MEET are one kind of packet. -/
inductive PingType
  | ping | pong | meet
deriving DecidableEq, Repr

/-- The packet types with the data each carries after the header. The payload
of PUBLISH and MODULE never reaches the cluster state. -/
inductive MsgData
  | ping (type : PingType) (gossip : List GossipEntry)
  | fail (nodename : NodeName)
  | publish
  | failoverAuthRequest
  | failoverAuthAck
  | update (nodename : NodeName) (configEpoch : ℕ) (slots : Bitmap)
  | mfstart

/-- `clusterMsg`. `slaveof` is `none` for `CLUSTER_NODE_NULL_NAME`, `myip` for an
address of all zeroes; the bits of `mflags` are `paused` and `forceack`. -/
structure ClusterMsg where
  sender : NodeName
  currentEpoch : ℕ
  configEpoch : ℕ
  offset : ℤ
  myslots : Bitmap
  slaveof : Option NodeName
  myip : Option String
  port : ℕ
  cport : ℕ
  flags : NodeFlags
  paused : Bool
  forceack : Bool
  data : MsgData

/-- A packet on its way: who sent it, the process it goes to, and its content. -/
structure Packet where
  src : NodeName
  dst : NodeName
  msg : ClusterMsg

/-! ### nodes.conf -/

/-- One line of nodes.conf as `clusterGenNodeDescription` writes it: the fields
between the blanks, the slot ranges expanded. -/
structure ConfLine where
  name : NodeName
  ip : String := ""
  port : ℕ := 0
  cport : ℕ := 0
  flags : NodeFlags
  master : Option NodeName := none
  pingSent : ℤ := 0
  pongReceived : ℤ := 0
  configEpoch : ℕ := 0
  slots : List Slot := []
  migrating : List (Slot × NodeName) := []
  importing : List (Slot × NodeName) := []
deriving DecidableEq

/-- nodes.conf: a line a node and the `vars` line. -/
structure NodesConf where
  lines : List ConfLine
  currentEpoch : ℕ
  lastVoteEpoch : ℕ
deriving DecidableEq

/-! ### ZooKeeper -/

abbrev ZkPath := List UInt8
abbrev SessionId := ℕ

/-- The ZooKeeper service: the ephemeral znodes with the session that owns
each, and the sessions that are alive. -/
structure ZkStore where
  znodes : List (ZkPath × SessionId) := []
  sessions : List SessionId := []
  nextSession : SessionId := 0
deriving DecidableEq, Repr

inductive ZkRc
  | ok | nodeexists | nonode | failed
deriving DecidableEq, Repr

inductive ZklinkState
  | uninit | waitConnect | connected | disConnect
deriving DecidableEq, Repr

/-- `zklinkClient`. `replacePath` is the name `zstrdup` copied: the copy may run on
past the 40 bytes, and every use of it reads at most 40. `lastAwget` is no
field of the source: the path of the last `zoo_awget` of the session `zh`. -/
structure ZklinkClient where
  zh : Option SessionId := none
  zkstate : ZklinkState := .uninit
  zkCreatePath : Bool := false
  zkOnWath : Bool := false
  replacePath : Option NodeName := none
  replacePathDelTm : ℤ := 0
  lastAwget : Option ZkPath := none
deriving DecidableEq

/-! ### The server -/

inductive ClusterHealth
  | ok | fail
deriving DecidableEq, Repr

inductive CantFailoverReason
  | none | dataAge | waitingDelay | expired | waitingVotes
deriving DecidableEq, Repr

/-- `todo_before_sleep`. -/
structure Todo where
  handleFailover : Bool := false
  updateState : Bool := false
  saveConfig : Bool := false
  fsyncConfig : Bool := false
deriving DecidableEq, Repr

/-- Why a configuration epoch was drawn. -/
inductive EpochReason
  | bump | collision | election | zkElection
deriving DecidableEq, Repr

/-- How a slave came to replace its master. -/
inductive FailoverBy
  | votes | zookeeper | takeover
deriving DecidableEq, Repr

/-- What `serverLog` reports, with the values a claim speaks about. `known` lists
the configEpochs of the nodes known at that moment. -/
inductive LogEvent
  /-- "Failover auth granted to %.40s for epoch %llu", and what the voter was. -/
  | authGranted (slave : NodeName) (epoch : ℕ) (asMaster : Bool) (numslots : ℕ)
  /-- An epoch was drawn by `currentEpoch++`. -/
  | epochDrawn (reason : EpochReason) (epoch : ℕ) (known : List ℕ)
  /-- "configEpoch set to %llu after successful failover" -/
  | configEpochSet (epoch : ℕ) (known : List ℕ)
  /-- "Failover election won": the test `failover_auth_count >= needed_quorum` passed. -/
  | electionWon (epoch count size : ℕ) (acks : List NodeName)
  /-- "clusterFailoverReplaceYourMaster, ... oldmaster": the function was reached. -/
  | replaceYourMaster (oldmaster : NodeName) (epoch : ℕ) (how : FailoverBy)
  | delKeysInSlots (slots : List Slot)
deriving DecidableEq

/-- A process of the cluster: `server.cluster`, `server.zklc`, and around them
the packets queued on its links (`sndbuf`), nodes.conf (`conf`), the log file
and the ZooKeeper service it talks to (`zk`, shared by all processes).
`failoverAuthAcks` is no field of the source: the senders of the ACKs that
`failoverAuthCount` counts. -/
structure Server where
  myself : NodePtr
  heap : NodePtr → ClusterNode
  /-- The first address `zmalloc` has not returned yet. -/
  nextPtr : NodePtr
  /-- The dict name → node, as the list of its values: the key of an entry is
  always the name its node has. -/
  nodes : List NodePtr
  nodesBlackList : List (NodeName × ℤ) := []
  slots : Slot → Option NodePtr := fun _ => none
  migratingSlotsTo : Slot → Option NodePtr := fun _ => none
  importingSlotsFrom : Slot → Option NodePtr := fun _ => none
  currentEpoch : ℕ := 0
  lastVoteEpoch : ℕ := 0
  state : ClusterHealth := .fail
  size : ℕ := 1
  failoverAuthTime : ℤ := 0
  failoverAuthCount : ℕ := 0
  failoverAuthAcks : List NodeName := []
  failoverAuthSent : Bool := false
  failoverAuthRank : ℕ := 0
  failoverAuthEpoch : ℕ := 0
  cantFailoverReason : CantFailoverReason := .none
  mfEnd : ℤ := 0
  mfSlave : Option NodePtr := none
  mfMasterOffset : ℤ := 0
  mfCanStart : Bool := false
  todo : Todo := {}
  statsPfailNodes : ℕ := 0
  /-- The static variables of `clusterUpdateState`. -/
  amongMinorityTime : ℤ := 0
  firstCallTime : ℤ := 0
  sndbuf : List (NodeName × ClusterMsg) := []
  conf : NodesConf
  log : List LogEvent := []
  zklc : Option ZklinkClient := none
  zk : ZkStore := {}

/-- What an event reads from outside the cluster code. -/
structure Env where
  /-- `mstime()` and `time(NULL)`. -/
  now : ℤ
  unixtime : ℤ
  clusterNodeTimeout : ℤ
  clusterSlaveNoFailover : Bool := false
  clusterSlaveValidityFactor : ℤ := 0
  clusterMigrationBarrier : ℕ := 1
  clusterRequireFullCoverage : Bool := false
  clusterAnnounceIp : Option String := none
  announcedPort : ℕ := 0
  announcedCport : ℕ := 0
  moduleNoFailover : Bool := false
  moduleNoRedirection : Bool := false
  /-- `server.unixtime - server.master->lastinteraction` or `... - repl_down_since`. -/
  replDownSeconds : ℤ := 0
  replPingSlavePeriod : ℤ := 10
  /-- `replicationGetSlaveOffset()` and `server.master_repl_offset`. -/
  slaveOffset : ℤ := 0
  masterReplOffset : ℤ := 0
  random : ℕ := 0
  countKeysInSlot : Slot → ℕ := fun _ => 0
  /-- `dictSize(server.db[0].dict)` -/
  db0Size : ℕ := 0
  /-- The name `getRandomHexChars` draws for a new node. -/
  randomName : NodeName
  /-- The nodes `dictGetRandomKey` returns, in order. -/
  randomKeys : List NodePtr := []
  /-- `clusterCron`'s static counter of its calls. -/
  cronIteration : ℕ := 1
  /-- The process `connect()` reaches for a node, if it succeeds. -/
  connect : NodePtr → Option NodeName := fun _ => none
  /-- `inet_pton` and `inet_ntop`: the normalized address, if it is one. -/
  inetPton : String → Option String := some
  /-- The address of the peer and of this side of an accepted link. -/
  peerIp : String := ""
  sockIp : String := ""
  zkConfigured : Bool := false
  /-- A ZooKeeper call fails (connection loss, expired session), and whether the
  service had applied it. -/
  zkFails : Bool := false
  zkApplied : Bool := false
  zookeeperInit : Bool := true

/-- The ways a process stops: the serverAsserts of cluster.c and a read
through NULL. -/
inductive Abort
  /-- `clusterDelSlot`: `serverAssert(clusterNodeClearSlotBit(n,slot) == 1)` -/
  | delSlotBit
  /-- `freeClusterNode`, `clusterRenameNode`: the dict has no such entry. -/
  | dictDelete
  /-- `clusterUpdateSlotsConfigWith`: `curmaster->numslots` with `curmaster == NULL` -/
  | nullCurmaster
  /-- `clusterSetMaster`: `serverAssert(n != myself)` -/
  | setMasterMyself
  /-- `clusterSetMaster`: `serverAssert(myself->numslots == 0)` -/
  | setMasterSlots
  /-- `clusterGetSlaveRank`: `serverAssert(nodeIsSlave(myself))` -/
  | slaveRank
  /-- CLUSTER ADDSLOTS / DELSLOTS: `serverAssertWithInfo(retval == C_OK)` -/
  | slotsRetval
  /-- `clusterLoadConfig`: `exit(1)` on a corrupted file -/
  | confFormat
deriving DecidableEq, Repr

end RedisZk.Cluster
