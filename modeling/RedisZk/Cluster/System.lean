/-
# The cluster: processes, the bus and ZooKeeper

A cluster is its processes, the packets in flight between them and the
ZooKeeper service they share. Each event is one turn of something: a packet is
delivered, a timer or a client command is served, the write handlers send what
is queued, a process starts again with the nodes.conf it saved, a packet is
lost, a ZooKeeper session ends. Delivery picks any packet in flight, so packets
are delayed and reordered at will and delivered at most once; `wire` keeps
every packet that ever left a process, in the order it was queued.

The write handlers of a process run after its `beforeSleep`, so nodes.conf is
saved when they do. A packet that a slow link holds back is one the bus delays.

Key definitions: `System`, `Event`, `System.next`, `Init`, `Reachable`.
-/
import Mathlib
import RedisZk.Cluster.Boot

namespace RedisZk.Cluster

/-! ### The state -/

structure System where
  node : NodeName → Server
  /-- Running, and not stopped by an abort. -/
  up : NodeName → Bool
  /-- The packets in flight. -/
  net : List Packet := []
  /-- Every packet that left a process. -/
  wire : List Packet := []
  zk : ZkStore := {}

/-- What a running process serves apart from packets. -/
inductive Input
  | cron
  | beforeSleep
  | command (cmd : Command)
  | publish
  | linkError (p : NodePtr)
  | zkCron
  | zkEvent (type : ZooEvent) (state : ZooState) (path : ZkPath)

inductive Event
  /-- The `i`-th packet in flight arrives, over the link of `linkNode` if it is an answer. -/
  | deliver (i : ℕ) (linkNode : Option NodePtr) (env : Env)
  | handle (x : NodeName) (env : Env) (input : Input)
  | write (x : NodeName)
  | restart (x : NodeName) (env : Env)
  | lose (i : ℕ)
  | sessionEnd (s : SessionId)

/-! ### What an event does -/

def handleInput (env : Env) (st : Server) : Input → Except Abort Server
  | .cron => clusterCron env st
  | .beforeSleep => clusterBeforeSleep env st
  | .command cmd => (clusterCommand env st cmd).map Prod.fst
  | .publish => .ok (clusterPropagatePublish env st)
  | .linkError p => .ok (st.modNode p fun n => { n with link := none })
  | .zkCron => .ok (zklinkCron env st)
  | .zkEvent type state path => .ok (zklinkWatcher env st type state path)

/-- The start of a process: `clusterInit`, and after the keys are loaded
`verifyClusterConfigWithData`. -/
def startServer (env : Env) (prev : Server) : Except Abort Server := do
  let st ← clusterInit env prev
  .ok (verifyClusterConfigWithData env st)

/-- Process `x`, which sees the ZooKeeper service as it is now. -/
def System.at (sys : System) (x : NodeName) : Server := { sys.node x with zk := sys.zk }

/-- What process `x` made of an event. An abort stops it. -/
def System.put (sys : System) (x : NodeName) (r : Except Abort Server) : System :=
  match r with
  | .ok st => { sys with node := Function.update sys.node x st, up := Function.update sys.up x true, zk := st.zk }
  | .error _ => { sys with up := Function.update sys.up x false }

@[simp] theorem System.put_net (sys : System) (x : NodeName) (r : Except Abort Server) :
    (sys.put x r).net = sys.net := by
  cases r <;> rfl

@[simp] theorem System.put_wire (sys : System) (x : NodeName) (r : Except Abort Server) :
    (sys.put x r).wire = sys.wire := by
  cases r <;> rfl

/-- The packets queued at `x`. -/
def System.queued (sys : System) (x : NodeName) : List Packet :=
  (sys.node x).sndbuf.map fun m => { src := x, dst := m.1, msg := m.2 }

/-! ### Which events can happen -/

def isPong (msg : ClusterMsg) : Bool :=
  match msg.data with
  | .ping .pong _ => true
  | _ => false

/-- New nodes get names of no process, and a connection to the address of a node named
after a process reaches that process. -/
def envOK (R : Finset NodeName) (st : Server) (env : Env) : Bool :=
  decide (env.randomName ∉ R) && st.nodes.all fun p =>
    match env.connect p with
    | none => true
    | some peer => decide ((st.heap p).name ∈ R → peer = (st.heap p).name)

/-- Over the link of a node only the answers of the process at its other end come. -/
def linkOK (st : Server) (pkt : Packet) (linkNode : Option NodePtr) : Bool :=
  match linkNode with
  | none => true
  | some p => decide (p ∈ st.nodes) && isPong pkt.msg &&
    match (st.heap p).link with
    | none => false
    | some l => decide (l.peer = pkt.src)

/-- One event of the cluster of the processes `R`. -/
def System.next (R : Finset NodeName) (sys : System) : Event → Option System
  | .deliver i linkNode env =>
    match sys.net[i]? with
    | none => none
    | some pkt =>
      let x := pkt.dst
      if x ∈ R ∧ sys.up x = true ∧ envOK R (sys.at x) env = true ∧ linkOK (sys.at x) pkt linkNode = true then
        some { sys.put x (clusterProcessPacket env (sys.at x) pkt.src linkNode pkt.msg) with
          net := sys.net.eraseIdx i }
      else none
  | .handle x env input =>
    if x ∈ R ∧ sys.up x = true ∧ envOK R (sys.at x) env = true then
      some (sys.put x (handleInput env (sys.at x) input))
    else none
  | .write x =>
    if x ∈ R ∧ sys.up x = true ∧ (sys.node x).todo.saveConfig = false then
      some { sys with
        node := Function.update sys.node x { sys.node x with sndbuf := [] }
        net := sys.net ++ sys.queued x
        wire := sys.wire ++ sys.queued x }
    else none
  | .restart x env =>
    if x ∈ R then some (sys.put x (startServer env (sys.at x))) else none
  | .lose i => some { sys with net := sys.net.eraseIdx i }
  | .sessionEnd s => some { sys with zk := sys.zk.endSession s }

/-- What the process an event is for makes of it. -/
def System.result (sys : System) : Event → Option (Except Abort Server)
  | .deliver i linkNode env => sys.net[i]?.map fun pkt =>
    clusterProcessPacket env (sys.at pkt.dst) pkt.src linkNode pkt.msg
  | .handle x env input => some (handleInput env (sys.at x) input)
  | .restart x env => some (startServer env (sys.at x))
  | _ => none

/-- The event can happen, and it stops a process with the abort `a`. -/
def System.Aborts (R : Finset NodeName) (sys : System) (e : Event) (a : Abort) : Prop :=
  (sys.next R e).isSome = true ∧ sys.result e = some (.error a)

/-! ### Runs -/

/-- Every process has just started from some nodes.conf, for the first time. -/
structure Init (R : Finset NodeName) (sys : System) : Prop where
  booted : ∀ x ∈ R, ∃ env prev, prev.log = [] ∧ ConfOK R x prev.conf ∧
    prev.conf.lastVoteEpoch ≤ prev.conf.currentEpoch ∧ startServer env prev = .ok (sys.node x)
  up : ∀ x ∈ R, sys.up x = true
  net : sys.net = []
  wire : sys.wire = []
  zk : sys.zk = {}

/-- The steps of the cluster whose events meet the condition `P`. -/
abbrev StepIf (R : Finset NodeName) (P : System → Event → System → Prop) : System → Event → System → Prop :=
  Stepwise.Steps (System.next R) P

/-- The states the cluster reaches in runs whose steps all meet the condition `P`. -/
abbrev ReachableIf (R : Finset NodeName) (P : System → Event → System → Prop) : System → Prop :=
  Stepwise.Run (Init R) (StepIf R P)

/-- The reachable states. -/
abbrev Reachable (R : Finset NodeName) : System → Prop := ReachableIf R fun _ _ _ => True

/-- A replay from an initial state. -/
theorem Init.replay {R : Finset NodeName} {P : System → Event → System → Prop} {ok : System → Event → System → Bool}
    {test : System → Bool} {sys : System} (h : Init R sys) (hok : ∀ s e s', ok s e s' = true → P s e s')
    (es : List Event) (htest : Stepwise.replay (System.next R) ok test sys es = true) :
    ∃ sys', ReachableIf R P sys' ∧ test sys' = true :=
  Stepwise.Run.replay hok es (.start h) htest

/-! ### Clusters that start from given files -/

/-- A process that has nothing but its nodes.conf. -/
def onDisk (conf : NodesConf) : Server where
  myself := 0
  heap _ := { ctime := 0, name := ⟨List.replicate CLUSTER_NAMELEN 0, List.length_replicate⟩, flags := {} }
  nextPtr := 0
  nodes := []
  conf := conf

/-- Every process starts with the nodes.conf it finds. -/
def coldStart (env : Env) (disk : NodeName → NodesConf) : System where
  node x := match startServer env (onDisk (disk x)) with
    | .ok st => st
    | .error _ => onDisk (disk x)
  up _ := true

theorem coldStart_init {R : Finset NodeName} {disk : NodeName → NodesConf} (env : Env)
    (hconf : ∀ x ∈ R, ConfOK R x (disk x)) (hepoch : ∀ x ∈ R, (disk x).lastVoteEpoch ≤ (disk x).currentEpoch) :
    Init R (coldStart env disk) where
  booted := by
    intro x hx
    refine ⟨env, onDisk (disk x), rfl, hconf x hx, hepoch x hx, ?_⟩
    have hboot := clusterInit_inv env (onDisk (disk x)) hx (hconf x hx)
    have hok : ∃ st, startServer env (onDisk (disk x)) = .ok st := by
      unfold startServer
      cases hr : clusterInit env (onDisk (disk x)) with
      | ok st => exact ⟨_, rfl⟩
      | error a =>
        rw [hr] at hboot
        exact hboot.elim
    obtain ⟨st, hst⟩ := hok
    simp only [coldStart, hst]
  up _ _ := rfl
  net := rfl
  wire := rfl
  zk := rfl

/-- The nodes.conf of `x` in a cluster of these nodes. -/
def layout (lines : List ConfLine) (epoch : ℕ) (x : NodeName) : NodesConf where
  lines := lines.map fun l => { l with flags := { l.flags with myself := decide (l.name = x) } }
  currentEpoch := epoch
  lastVoteEpoch := 0

/-- Nodes that make up a cluster of the processes `R`. -/
structure LayoutOK (R : Finset NodeName) (lines : List ConfLine) : Prop where
  names : (lines.map ConfLine.name).Nodup
  mem : ∀ x ∈ R, ∃ l ∈ lines, l.name = x
  flags : ∀ l ∈ lines, l.flags.handshake = false ∧ l.flags.pfail = false ∧
    (l.flags.master = true ∨ l.flags.slave = true) ∧ (l.master ≠ none → l.flags.slave = true ∧ l.flags.master = false)
  refs : ∀ l ∈ lines, ∀ r ∈ l.refs, ∃ l' ∈ lines, l'.name = r

theorem LayoutOK.confOK {R : Finset NodeName} {lines : List ConfLine} (h : LayoutOK R lines) (epoch : ℕ)
    {x : NodeName} (hx : x ∈ R) : ConfOK R x (layout lines epoch x) := by
  have hmem : ∀ {l}, l ∈ (layout lines epoch x).lines ↔
      ∃ l0 ∈ lines, { l0 with flags := { l0.flags with myself := decide (l0.name = x) } } = l := List.mem_map
  constructor
  · simpa [layout, Function.comp_def] using h.names
  · obtain ⟨l, hl, hn⟩ := h.mem x hx
    exact ⟨_, hmem.mpr ⟨l, hl, rfl⟩, hn⟩
  · intro l hl
    obtain ⟨l, hl0, rfl⟩ := hmem.mp hl
    exact decide_eq_true_iff
  · intro l hl _
    obtain ⟨l, hl0, rfl⟩ := hmem.mp hl
    exact (h.flags l hl0).2.1
  · intro l hl
    obtain ⟨l, hl0, rfl⟩ := hmem.mp hl
    exact (h.flags l hl0).1
  · intro l hl _
    obtain ⟨l, hl0, rfl⟩ := hmem.mp hl
    exact (h.flags l hl0).2.2.1
  · intro l hl
    obtain ⟨l, hl0, rfl⟩ := hmem.mp hl
    exact (h.flags l hl0).2.2.2
  · intro l hl r hr _
    obtain ⟨l, hl0, rfl⟩ := hmem.mp hl
    obtain ⟨l', hl', hn⟩ := h.refs l hl0 r hr
    exact ⟨_, hmem.mpr ⟨l', hl', rfl⟩, hn⟩

instance (R : Finset NodeName) (lines : List ConfLine) : Decidable (LayoutOK R lines) :=
  decidable_of_iff (_ ∧ _ ∧ _ ∧ _) ⟨fun ⟨h1, h2, h3, h4⟩ => ⟨h1, h2, h3, h4⟩, fun ⟨h1, h2, h3, h4⟩ => ⟨h1, h2, h3, h4⟩⟩

theorem coldStart_layout {R : Finset NodeName} {lines : List ConfLine} (env : Env) (epoch : ℕ) (h : LayoutOK R lines) :
    Init R (coldStart env (layout lines epoch)) :=
  coldStart_init env (fun _ => h.confOK epoch) fun _ _ => Nat.zero_le _

/-! ### A small cluster -/

/-- Forty equal letters. -/
def sampleName (letter : UInt8) : NodeName := ⟨List.replicate CLUSTER_NAMELEN letter, List.length_replicate⟩

def failedMaster : NodeName := sampleName 109
def slaveA : NodeName := sampleName 97
def slaveB : NodeName := sampleName 98
def masterV : NodeName := sampleName 118
def masterW : NodeName := sampleName 119

/-- A failed master and its slaves. -/
def sampleShard : List ConfLine :=
  [{ name := failedMaster, ip := "10.0.0.1", port := 6379, cport := 16379, flags := { master := true, fail := true }
     configEpoch := 1, slots := [⟨0, by decide⟩] },
   { name := slaveA, ip := "10.0.0.2", port := 6379, cport := 16379, flags := { slave := true }
     master := some failedMaster, configEpoch := 1 },
   { name := slaveB, ip := "10.0.0.3", port := 6379, cport := 16379, flags := { slave := true }
     master := some failedMaster, configEpoch := 1 }]

/-- The shard beside two other masters. -/
def sampleCluster : List ConfLine := sampleShard ++
  [{ name := masterV, ip := "10.0.0.4", port := 6379, cport := 16379, flags := { master := true }
     configEpoch := 2, slots := [⟨1, by decide⟩] },
   { name := masterW, ip := "10.0.0.5", port := 6379, cport := 16379, flags := { master := true }
     configEpoch := 3, slots := [⟨2, by decide⟩] }]

def shardProcesses : Finset NodeName := {failedMaster, slaveA, slaveB}
def clusterProcesses : Finset NodeName := {failedMaster, slaveA, slaveB, masterV, masterW}

theorem slaveA_mem : slaveA ∈ clusterProcesses := Finset.mem_insert_of_mem (Finset.mem_insert_self _ _)

theorem slaveA_mem_shard : slaveA ∈ shardProcesses := Finset.mem_insert_of_mem (Finset.mem_insert_self _ _)

/-- An event at time `t`, in which every node can be connected to. -/
def sampleEnv (t : ℤ) : Env where
  now := t
  unixtime := t / 1000
  clusterNodeTimeout := 15000
  randomName := sampleName 120
  zkConfigured := true
  connect p := sampleCluster[p]?.map ConfLine.name

/-- There are no keys, and so nothing to verify. -/
theorem coldStart_sample (disk : NodeName → NodesConf) : coldStart (sampleEnv 0) disk =
    { node := fun x => match clusterInit (sampleEnv 0) (onDisk (disk x)) with
        | .ok st => st
        | .error _ => onDisk (disk x)
      up := fun _ => true } := by
  have hverify : ∀ st, verifyClusterConfigWithData (sampleEnv 0) st = st := by
    intro st
    unfold verifyClusterConfigWithData
    split
    · rfl
    · extract_lets fix
      have hfix : ∀ j, fix (st, false) j = (st, false) := fun j => if_pos (.inl rfl)
      rw [List.foldl_fixed' hfix]
      rfl
  unfold coldStart startServer
  congr
  funext x
  cases clusterInit (sampleEnv 0) (onDisk (disk x)) with
  | ok st => exact hverify st
  | error a => rfl

theorem sampleShard_init : Init shardProcesses (coldStart (sampleEnv 0) (layout sampleShard 3)) :=
  coldStart_layout _ _ (by decide +kernel)

theorem sampleCluster_init : Init clusterProcesses (coldStart (sampleEnv 0) (layout sampleCluster 3)) :=
  coldStart_layout _ _ (by decide +kernel)

end RedisZk.Cluster
