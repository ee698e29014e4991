/-
# What one step of a handler can do to a node's state

Every handler of a packet, of a timer or of a command is a sequence of small
steps, and here is the list of them. `Soft` steps touch nothing any invariant
speaks about (times, addresses, failure flags, wishes for `beforeSleep`);
`Reshape` steps change the node table: an epoch is learned, a slot is bound or
unbound, a role or a master changes, a node is added; `Move` adds the epochs,
the election, the votes, the packets, nodes.conf and the log. The two steps
that take a node or its name away are apart (`Change`), since after them a
pointer to the node means nothing. The constructors carry what the code has
tested before it takes the step.

Key definitions: `SameTable`, `SameRest`, `Soft`, `MsgOK`, `Reshape`, `Move`, `Change`, `Cause`.
-/
import RedisZk.Cluster.Command
import RedisZk.Lib.Run

namespace RedisZk.Cluster

open Relation

/-! ### Steps that leave the table as it is -/

/-- The fields of a node that say who it is, what it serves and whom it replicates
are the same. -/
structure SameCore (n m : ClusterNode) : Prop where
  name : m.name = n.name
  master : m.flags.master = n.flags.master
  slave : m.flags.slave = n.flags.slave
  myself : m.flags.myself = n.flags.myself
  handshake : m.flags.handshake = n.flags.handshake
  configEpoch : m.configEpoch = n.configEpoch
  slots : m.slots = n.slots
  numslots : m.numslots = n.numslots
  slaves : m.slaves = n.slaves
  slaveof : m.slaveof = n.slaveof

/-- The node table is the same, failure flags, times and addresses aside. -/
structure SameTable (st st' : Server) : Prop where
  myself : st'.myself = st.myself
  nodes : st'.nodes = st.nodes
  nextPtr : st'.nextPtr = st.nextPtr
  slots : st'.slots = st.slots
  core : ∀ p, SameCore (st.heap p) (st'.heap p)

/-- What lies outside the table is the same: epochs, votes, the election, the
packets queued, nodes.conf, the log and the ZooKeeper client. A wish to save
nodes.conf stays. -/
structure SameRest (st st' : Server) : Prop where
  currentEpoch : st'.currentEpoch = st.currentEpoch
  lastVoteEpoch : st'.lastVoteEpoch = st.lastVoteEpoch
  failoverAuthCount : st'.failoverAuthCount = st.failoverAuthCount
  failoverAuthAcks : st'.failoverAuthAcks = st.failoverAuthAcks
  failoverAuthSent : st'.failoverAuthSent = st.failoverAuthSent
  failoverAuthEpoch : st'.failoverAuthEpoch = st.failoverAuthEpoch
  sndbuf : st'.sndbuf = st.sndbuf
  conf : st'.conf = st.conf
  log : st'.log = st.log
  zklc : st'.zklc = st.zklc
  zk : st'.zk = st.zk
  saveConfig : st.todo.saveConfig = true → st'.todo.saveConfig = true

/-- How the links, the open slots and the PFAIL flag of `myself` may change: a new
link reaches the process its node is named after. `R` are the names of the
processes. -/
structure Edges (R : Set NodeName) (st st' : Server) : Prop where
  link : ∀ p l, (st'.heap p).link = some l → (st.heap p).link = some l ∨
    (p ≠ st.myself ∧ ((st.heap p).name ∈ R → l.peer = (st.heap p).name))
  migrating : ∀ j q, st'.migratingSlotsTo j = some q → st.migratingSlotsTo j = some q ∨ q ∈ st.nodes
  importing : ∀ j q, st'.importingSlotsFrom j = some q → st.importingSlotsFrom j = some q ∨ q ∈ st.nodes
  pfail : (st'.heap st.myself).flags.pfail = true → (st.heap st.myself).flags.pfail = true

/-- A step that no invariant sees. -/
structure Soft (R : Set NodeName) (st st' : Server) : Prop where
  table : SameTable st st'
  rest : SameRest st st'
  edges : Edges R st st'

/-! ### Packets a correct process sends -/

/-- A role, and no handshake. -/
def settled (f : NodeFlags) : Prop := (f.master = true ∨ f.slave = true) ∧ f.handshake = false

def GossipOK (R : Set NodeName) (g : GossipEntry) : Prop :=
  g.flags.myself = false ∧ (g.nodename ∈ R → settled g.flags)

def DataOK (R : Set NodeName) (currentEpoch : ℕ) : MsgData → Prop
  | .ping _ gossip => ∀ g ∈ gossip, GossipOK R g
  | .update _ configEpoch _ => configEpoch ≤ currentEpoch
  | _ => True

/-- What holds of every packet process `x` sends. -/
structure MsgOK (R : Set NodeName) (x : NodeName) (msg : ClusterMsg) : Prop where
  sender : msg.sender = x
  role : settled msg.flags
  epoch : msg.configEpoch ≤ msg.currentEpoch
  data : DataOK R msg.currentEpoch msg.data

def isAuthAck (msg : ClusterMsg) : Bool :=
  match msg.data with
  | .failoverAuthAck => true
  | _ => false

def isAuthRequest (msg : ClusterMsg) : Bool :=
  match msg.data with
  | .failoverAuthRequest => true
  | _ => false

/-! ### Steps that change the table -/

/-- The circumstances of an event that decide which steps it may take: the names
of the processes, the sender and the epoch of the FAILOVER_AUTH_REQUEST or
FAILOVER_AUTH_ACK being processed, if it is one, the master of `myself` when the
event began, and whether the event gives slots to a slave (ADDSLOTS), demotes
`myself` by a packet of its own, or comes from ZooKeeper. -/
structure Ctx where
  R : Set NodeName
  request : Option (NodeName × ℕ) := none
  ack : Option (NodeName × ℕ) := none
  master : Option NodePtr := none
  slaveSlots : Prop := False
  selfDemote : Prop := False
  zkEvent : Prop := False

/-- A node that enters the table. -/
structure NewNode (R : Set NodeName) (st : Server) (n : ClusterNode) : Prop where
  slots : n.slots = fun _ => false
  numslots : n.numslots = 0
  slaves : n.slaves = []
  slaveof : n.slaveof = none
  configEpoch : n.configEpoch = 0
  link : n.link = none
  myself : n.flags.myself = false
  unused : clusterLookupNode st n.name = none
  role : n.name ∈ R → settled n.flags

/-- The allocation of a node, which may then enter the table. -/
def alloc (st : Server) (n : ClusterNode) : Server :=
  { st with heap := Function.update st.heap st.nextPtr n, nextPtr := st.nextPtr + 1 }

def enter (st : Server) (n : ClusterNode) : Server :=
  { alloc st n with nodes := st.nodes ++ [st.nextPtr] }

/-- What `clusterDelSlot` leaves for a slot of `n`. -/
def unbindSlot (st : Server) (n : NodePtr) (j : Slot) : Server :=
  { (clusterNodeClearSlotBit st n j).1 with slots := Function.update st.slots j none }

/-- The role flags of a master that became a slave. -/
def demoted (f : NodeFlags) : NodeFlags := { f with master := false, migrateTo := false, slave := true }

inductive Reshape (c : Ctx) : Server → Server → Prop
  | learn (st : Server) (p : NodePtr) (e : ℕ) (hp : p ∈ st.nodes) (he : e ≤ st.currentEpoch) :
      Reshape c st (st.modNode p fun n => { n with configEpoch := e })
  | addSlot (st : Server) (p : NodePtr) (j : Slot) (hp : p ∈ st.nodes) (hj : st.slots j = none)
      (hme : p = st.myself → nodeIsMaster st.me = true ∨ c.slaveSlots) : Reshape c st (clusterAddSlot st p j)
  | delSlot (st : Server) (n : NodePtr) (j : Slot) (hj : st.slots j = some n) : Reshape c st (unbindSlot st n j)
  | asMaster (st : Server) (p : NodePtr) (hp : p ∈ st.nodes) : Reshape c st (clusterSetNodeAsMaster st p)
  | demote (st : Server) (p : NodePtr) (hp : p ∈ st.nodes) (hm : nodeIsMaster (st.heap p) = true)
      (hme : p = st.myself → c.selfDemote) : Reshape c st (st.modFlags p demoted)
  | changeMaster (st : Server) (p m : NodePtr) (hp : p ∈ st.nodes) (hm : m ∈ st.nodes)
      (hs : nodeIsSlave (st.heap p) = true) (hnm : nodeIsMaster (st.heap p) = false)
      (hh : nodeInHandshake (st.heap p) = false) : Reshape c st (changeMaster st p m)
  | setMaster (st : Server) (n : NodePtr) (st' : Server) (hn : n ∈ st.nodes)
      (h : clusterSetMaster st n = .ok st') : Reshape c st st'
  | add (st : Server) (n : ClusterNode) (h : NewNode c.R st n) : Reshape c st (enter st n)
  | leak (st : Server) (n : ClusterNode) : Reshape c st (alloc st n)

/-! ### All steps -/

/-- An election begins: the epoch is drawn, the count starts. -/
def beginElection (st : Server) (reason : EpochReason) : Server :=
  clusterDoBeforeSleep
    { drawEpoch st reason with failoverAuthEpoch := st.currentEpoch + 1, failoverAuthSent := true }
    { saveConfig := true, updateState := true, fsyncConfig := true }

/-- The vote for `node`, with the ACK if there is a link for it. -/
def castVote (st : Server) (node : NodePtr) (acks : List (NodeName × ClusterMsg)) : Server :=
  { st with
    lastVoteEpoch := st.currentEpoch
    sndbuf := st.sndbuf ++ acks
    log := st.log ++ [.authGranted (st.heap node).name st.currentEpoch (nodeIsMaster st.me) st.me.numslots] }

inductive Move (c : Ctx) : Server → Server → Prop
  | soft {st st' : Server} (h : Soft c.R st st') : Move c st st'
  | reshape {st st' : Server} (h : Reshape c st st') : Move c st st'
  | logKeys (st : Server) (slots : List Slot) : Move c st (st.logEvent (.delKeysInSlots slots))
  | raise (st : Server) (e : ℕ) (he : st.currentEpoch ≤ e) : Move c st { st with currentEpoch := e }
  | draw (st : Server) (reason : EpochReason) : Move c st (drawEpoch st reason)
  /-- `configEpoch` set to the epoch of the election. -/
  | epochSet (st : Server) (hs : st.failoverAuthSent = true) :
      Move c st (st.logEvent (.configEpochSet st.failoverAuthEpoch (knownEpochs st)))
  | schedule (st : Server) :
      Move c st { st with failoverAuthCount := 0, failoverAuthAcks := [], failoverAuthSent := false }
  | elect (st : Server) (reason : EpochReason) (hs : st.failoverAuthSent = false) :
      Move c st (beginElection st reason)
  | request (st : Server) (l : List (NodeName × ClusterMsg)) (hs : st.failoverAuthSent = true)
      (hsave : st.todo.saveConfig = true)
      (hl : ∀ m ∈ l, MsgOK c.R st.me.name m.2 ∧ isAuthRequest m.2 = true ∧
        m.2.currentEpoch = st.failoverAuthEpoch) :
      Move c st { st with sndbuf := st.sndbuf ++ l }
  | vote (st : Server) (node : NodePtr) (l : List (NodeName × ClusterMsg)) (hn : node ∈ st.nodes)
      (hme : nodeIsMaster st.me = true) (hslots : st.me.numslots ≠ 0)
      (hlast : st.lastVoteEpoch ≠ st.currentEpoch) (hsave : st.todo.saveConfig = true)
      (hreq : c.request = some ((st.heap node).name, st.currentEpoch))
      (hl : l = [] ∨ ∃ msg, l = [((st.heap node).name, msg)] ∧ MsgOK c.R st.me.name msg ∧
        isAuthAck msg = true ∧ msg.currentEpoch = st.currentEpoch) :
      Move c st (castVote st node l)
  | send (st : Server) (l : List (NodeName × ClusterMsg))
      (hl : ∀ m ∈ l, MsgOK c.R st.me.name m.2 ∧ isAuthAck m.2 = false ∧ isAuthRequest m.2 = false) :
      Move c st { st with sndbuf := st.sndbuf ++ l }
  | save (st : Server) (doFsync : Bool) : Move c st (clusterSaveConfig st doFsync)
  /-- The test `failover_auth_count >= needed_quorum` passed. -/
  | won (st : Server) (hs : st.failoverAuthSent = true)
      (hq : neededQuorum st.size ≤ st.failoverAuthCount) :
      Move c st (st.logEvent (.electionWon st.failoverAuthEpoch st.failoverAuthCount st.size st.failoverAuthAcks))
  | replace (st : Server) (old : NodeName) (how : FailoverBy) (hzk : how ≠ .zookeeper)
      (hv : how = .votes → ∃ k n acks, .electionWon st.failoverAuthEpoch k n acks ∈ st.log) :
      Move c st (st.logEvent (.replaceYourMaster old st.failoverAuthEpoch how))
  /-- `zoo_create` failed, or answered that the znode exists. -/
  | zkLost (st : Server) (zk : ZkStore) (hkeep : ∀ path, st.zk.has path = true → zk.has path = true) :
      Move c st { st with zk := zk }
  /-- `zoo_create` created the znode of the master. -/
  | zkWon (st : Server) (zkc : ZklinkClient) (zk : ZkStore) (m : NodePtr) (tm : ℤ)
      (hm : st.me.slaveof = some m) (hzkc : st.zklc = some zkc)
      (hkeep : ∀ path, st.zk.has path = true → zk.has path = true)
      (hnew : st.zk.has (oldMasterPath (st.heap m).name) = false)
      (hhas : zk.has (oldMasterPath (st.heap m).name) = true) :
      Move c st { st with
        zk := zk
        zklc := some { zkc with replacePathDelTm := tm }
        log := st.log ++ [.replaceYourMaster (st.heap m).name st.failoverAuthEpoch .zookeeper] }
  /-- Whatever an event of the ZooKeeper link does to the client and the store. -/
  | zookeeper (st : Server) (zkc : Option ZklinkClient) (zk : ZkStore) (h : c.zkEvent) :
      Move c st { st with zklc := zkc, zk := zk }

/-! ### Steps that take a node or a name away -/

/-- The links of a node cut: its slaves lose their master, its master loses a slave. -/
def unlinked (st : Server) (n : NodePtr) : Server :=
  let st := (st.heap n).slaves.foldl (fun st q => st.modNode q fun m => { m with slaveof := none }) st
  match (st.heap n).slaveof with
  | some m => if nodeIsSlave (st.heap n) then clusterNodeRemoveSlave st m n else st
  | none => st

/-- What `freeClusterNode` leaves for a node of the table. -/
def freed (st : Server) (n : NodePtr) : Server :=
  { unlinked st n with nodes := (unlinked st n).nodes.erase n }

/-- A node in handshake gets its name and role; it is the last entry of the table
now. -/
def endHandshake (st : Server) (p : NodePtr) (name : NodeName) (flags : NodeFlags) : Server :=
  { st.modNode p (fun n => { n with name := name, flags := flags }) with nodes := st.nodes.erase p ++ [p] }

inductive Change (c : Ctx) : Server → Server → Prop
  | calm {st st' : Server} (h : Move c st st') : Change c st st'
  | free (st : Server) (p : NodePtr) (hp : p ∈ st.nodes) (hme : p ≠ st.myself)
      (hslots : ∀ j, st.slots j ≠ some p) (hmig : ∀ j, st.migratingSlotsTo j ≠ some p)
      (himp : ∀ j, st.importingSlotsFrom j ≠ some p)
      (hmaster : st.me.slaveof = some p → nodeInHandshake (st.heap p) = true ∧ c.master = some p) :
      Change c st (freed st p)
  | endHandshake (st : Server) (p : NodePtr) (name : NodeName) (flags : NodeFlags) (hp : p ∈ st.nodes)
      (hme : p ≠ st.myself) (hh : nodeInHandshake (st.heap p) = true)
      (hname : clusterLookupNode st name = none) (hrole : settled flags)
      (hself : flags.myself = (st.heap p).flags.myself)
      (hlink : ∀ l, (st.heap p).link = some l → l.peer = name) : Change c st (endHandshake st p name flags)

abbrev Moves (c : Ctx) : Server → Server → Prop := ReflTransGen (Move c)
abbrev Changes (c : Ctx) : Server → Server → Prop := ReflTransGen (Change c)

/-- The states in which a handler stops with an abort: only two aborts happen. -/
def Cause (st : Server) : Abort → Prop
  | .nullCurmaster => curMaster st = none
  | .setMasterSlots => nodeIsMaster st.me = false ∧ st.me.numslots ≠ 0
  | _ => False

end RedisZk.Cluster
