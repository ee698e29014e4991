/-
# The node table: cluster.c, "CLUSTER node API" and "Slots management"

Creation, lookup, renaming and removal of nodes, the two-way master/replica
links, the failure reports, and the slot table with the bitmap and the
counter each node keeps of its own slots. A loop of the source over all slots
is a fold over `allSlots`; `serverAssert` is `Abort`.

Key definitions: `clusterLookupNode`, `clusterDelNode`, `clusterRenameNode`,
`clusterNodeAddSlave`, `clusterNodeRemoveSlave`, `clusterAddSlot`,
`clusterDelSlot`.
-/
import RedisZk.Cluster.Types

namespace RedisZk.Cluster

/-! ### Reading and writing through a pointer -/

/-- The node `myself` points to. -/
def Server.me (st : Server) : ClusterNode := st.heap st.myself

/-- Writes through the pointer `p`. -/
def Server.modNode (st : Server) (p : NodePtr) (f : ClusterNode → ClusterNode) : Server :=
  { st with heap := Function.update st.heap p (f (st.heap p)) }

def Server.modFlags (st : Server) (p : NodePtr) (f : NodeFlags → NodeFlags) : Server :=
  st.modNode p fun n => { n with flags := f n.flags }

/-- `clusterDoBeforeSleep(flags)`. -/
def clusterDoBeforeSleep (st : Server) (flags : Todo) : Server :=
  { st with todo :=
      { handleFailover := st.todo.handleFailover || flags.handleFailover
        updateState := st.todo.updateState || flags.updateState
        saveConfig := st.todo.saveConfig || flags.saveConfig
        fsyncConfig := st.todo.fsyncConfig || flags.fsyncConfig } }

def Server.logEvent (st : Server) (e : LogEvent) : Server := { st with log := st.log ++ [e] }

/-! ### Creation and lookup -/

def createClusterNode (env : Env) (st : Server) (nodename : Option NodeName) (flags : NodeFlags) :
    Server × NodePtr :=
  ({ st with
      heap := Function.update st.heap st.nextPtr
        { ctime := env.now, name := nodename.getD env.randomName, flags := flags }
      nextPtr := st.nextPtr + 1 }, st.nextPtr)

def clusterLookupNode (st : Server) (name : NodeName) : Option NodePtr :=
  st.nodes.find? fun p => decide ((st.heap p).name = name)

/-- `dictAdd` refuses a name that is already there; no caller looks at the result. -/
def clusterAddNode (st : Server) (node : NodePtr) : Server :=
  if (clusterLookupNode st (st.heap node).name).isSome then st
  else { st with nodes := st.nodes ++ [node] }

/-- `clusterRenameNode`: the entry leaves the dict under the old name and
enters it under the new one. -/
def clusterRenameNode (st : Server) (node : NodePtr) (newname : NodeName) : Except Abort Server :=
  if node ∈ st.nodes then
    let st := { st with nodes := st.nodes.erase node }
    let st := st.modNode node fun n => { n with name := newname }
    .ok (clusterAddNode st node)
  else .error .dictDelete

/-! ### Failure reports -/

def CLUSTER_FAIL_REPORT_VALIDITY_MULT : ℤ := 2

/-- The new state, and whether a new report was created. -/
def clusterNodeAddFailureReport (env : Env) (st : Server) (failing sender : NodePtr) : Server × Bool :=
  if (st.heap failing).failReports.any fun fr => fr.1 = sender then
    (st.modNode failing fun n =>
      { n with failReports := n.failReports.map fun fr => if fr.1 = sender then (fr.1, env.now) else fr },
      false)
  else
    (st.modNode failing fun n => { n with failReports := n.failReports ++ [(sender, env.now)] }, true)

def clusterNodeCleanupFailureReports (env : Env) (st : Server) (node : NodePtr) : Server :=
  let maxtime := env.clusterNodeTimeout * CLUSTER_FAIL_REPORT_VALIDITY_MULT
  st.modNode node fun n => { n with failReports := n.failReports.filter fun fr => !(env.now - fr.2 > maxtime) }

def clusterNodeDelFailureReport (env : Env) (st : Server) (node sender : NodePtr) : Server :=
  if (st.heap node).failReports.any fun fr => fr.1 = sender then
    let st := st.modNode node fun n =>
      { n with failReports := n.failReports.eraseP fun fr => decide (fr.1 = sender) }
    clusterNodeCleanupFailureReports env st node
  else st

/-- The count, after the cleanup it makes on the way. -/
def clusterNodeFailureReportsCount (env : Env) (st : Server) (node : NodePtr) : Server × ℕ :=
  let st := clusterNodeCleanupFailureReports env st node
  (st, (st.heap node).failReports.length)

/-! ### Masters and slaves -/

def clusterNodeRemoveSlave (st : Server) (master slave : NodePtr) : Server :=
  if slave ∈ (st.heap master).slaves then
    st.modNode master fun n =>
      { n with
        slaves := n.slaves.erase slave
        flags := if n.slaves.erase slave = [] then { n.flags with migrateTo := false } else n.flags }
  else st

def clusterNodeAddSlave (st : Server) (master slave : NodePtr) : Server :=
  if slave ∈ (st.heap master).slaves then st
  else st.modNode master fun n =>
    { n with slaves := n.slaves ++ [slave], flags := { n.flags with migrateTo := true } }

def clusterCountNonFailingSlaves (st : Server) (n : NodePtr) : ℕ :=
  (st.heap n).slaves.countP fun q => !nodeFailed (st.heap q)

/-! ### Slots -/

def clusterMastersHaveSlaves (st : Server) : Bool :=
  st.nodes.any fun p => !nodeIsSlave (st.heap p) && !(st.heap p).slaves.isEmpty

def clusterNodeSetSlotBit (st : Server) (n : NodePtr) (slot : Slot) : Server :=
  if (st.heap n).slots slot then st
  else
    let migrate := (st.heap n).numslots + 1 = 1 ∧ clusterMastersHaveSlaves st = true
    st.modNode n fun m =>
      { m with
        slots := Function.update m.slots slot true
        numslots := m.numslots + 1
        flags := if migrate then { m.flags with migrateTo := true } else m.flags }

/-- The new state and the old value of the bit. -/
def clusterNodeClearSlotBit (st : Server) (n : NodePtr) (slot : Slot) : Server × Bool :=
  (st.modNode n fun m =>
    { m with
      slots := Function.update m.slots slot false
      numslots := if m.slots slot then m.numslots - 1 else m.numslots },
    (st.heap n).slots slot)

/-- C_ERR, and nothing happens, when the slot is assigned already. -/
def clusterAddSlot (st : Server) (n : NodePtr) (slot : Slot) : Server :=
  if (st.slots slot).isSome then st
  else
    let st := clusterNodeSetSlotBit st n slot
    { st with slots := Function.update st.slots slot (some n) }

/-- C_ERR, and nothing happens, when the slot is unassigned. -/
def clusterDelSlot (st : Server) (slot : Slot) : Except Abort Server :=
  match st.slots slot with
  | none => .ok st
  | some n =>
    let (st, old) := clusterNodeClearSlotBit st n slot
    if old then .ok { st with slots := Function.update st.slots slot none }
    else .error .delSlotBit

def clusterDelNodeSlots (st : Server) (node : NodePtr) : Except Abort Server :=
  allSlots.foldlM (fun st j => if (st.heap node).slots j then clusterDelSlot st j else .ok st) st

def clusterCloseAllSlots (st : Server) : Server :=
  { st with migratingSlotsTo := fun _ => none, importingSlotsFrom := fun _ => none }

/-! ### Removal -/

/-- Low level cleanup of the node. The memory keeps its last contents: what a
pointer left behind would read. -/
def freeClusterNode (st : Server) (n : NodePtr) : Except Abort Server :=
  let st := (st.heap n).slaves.foldl (fun st q => st.modNode q fun m => { m with slaveof := none }) st
  let st := match (st.heap n).slaveof with
    | some m => if nodeIsSlave (st.heap n) then clusterNodeRemoveSlave st m n else st
    | none => st
  if n ∈ st.nodes then .ok { st with nodes := st.nodes.erase n } else .error .dictDelete

/-- One turn of the loop of `clusterDelNode` over the slots. -/
def clusterDelNodeSlot (delnode : NodePtr) (st : Server) (j : Slot) : Except Abort Server :=
  let st := if st.importingSlotsFrom j = some delnode then
    { st with importingSlotsFrom := Function.update st.importingSlotsFrom j none } else st
  let st := if st.migratingSlotsTo j = some delnode then
    { st with migratingSlotsTo := Function.update st.migratingSlotsTo j none } else st
  if st.slots j = some delnode then clusterDelSlot st j else .ok st

def clusterDelNode (env : Env) (st : Server) (delnode : NodePtr) : Except Abort Server := do
  let st ← allSlots.foldlM (clusterDelNodeSlot delnode) st
  let st := st.nodes.foldl
    (fun st node => if node = delnode then st else clusterNodeDelFailureReport env st node delnode) st
  freeClusterNode st delnode

end RedisZk.Cluster
