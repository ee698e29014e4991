/-
# CLUSTER commands: cluster.c, `clusterCommand`

The subcommands that change the state of the node, with their replies, CLUSTER
RESET excepted. Numbers come parsed, node IDs as names.

Key definitions: `Command`, `clusterCommand`.
-/
import RedisZk.Cluster.Cron

namespace RedisZk.Cluster

inductive FailoverMode
  | default | force | takeover
deriving DecidableEq, Repr

inductive Command
  | meet (ip : String) (port cport : ℤ)
  | flushslots
  | addslots (slots : List ℤ)
  | delslots (slots : List ℤ)
  | setslotMigrating (slot : ℤ) (node : NodeName)
  | setslotImporting (slot : ℤ) (node : NodeName)
  | setslotStable (slot : ℤ)
  | setslotNode (slot : ℤ) (node : NodeName)
  | bumpepoch
  | saveconfig
  | forget (node : NodeName)
  | replicate (node : NodeName)
  | failover (mode : FailoverMode)
  | setConfigEpoch (epoch : ℤ)

inductive Reply
  | ok
  | status (msg : String)
  | error (msg : String)
deriving DecidableEq, Repr

/-- A command leaves a state and a reply. -/
abbrev Outcome := Except Abort (Server × Reply)

def replyError (st : Server) (msg : String) : Outcome := .ok (st, .error msg)

/-- `getSlotOrReply` -/
def getSlot (slot : ℤ) : Option Slot :=
  if h : 0 ≤ slot ∧ slot < CLUSTER_SLOTS then some ⟨slot.toNat, by omega⟩ else none

def invalidSlot : String := "Invalid or out of range slot"

/-! ### MEET -/

inductive HandshakeResult
  | started | eagain | einval
deriving DecidableEq, Repr

def clusterHandshakeInProgress (st : Server) (ip : String) (port cport : ℕ) : Bool :=
  st.nodes.any fun p =>
    let n := st.heap p
    nodeInHandshake n && decide (n.ip.toLower = ip.toLower) && decide (n.port = port) && decide (n.cport = cport)

def clusterStartHandshake (env : Env) (st : Server) (ip : String) (port cport : ℤ) : Server × HandshakeResult :=
  match env.inetPton ip with
  | none => (st, .einval)
  | some normIp =>
    if port ≤ 0 ∨ port > 65535 ∨ cport ≤ 0 ∨ cport > 65535 then (st, .einval)
    else if clusterHandshakeInProgress st normIp port.toNat cport.toNat then (st, .eagain)
    else
      let (st, n) := createClusterNode env st none { handshake := true, meet := true }
      let st := st.modNode n fun x => { x with ip := normIp, port := port.toNat, cport := cport.toNat }
      (clusterAddNode st n, .started)

def meetCommand (env : Env) (st : Server) (ip : String) (port cport : ℤ) : Outcome :=
  let (st, r) := clusterStartHandshake env st ip port cport
  if r = .einval then replyError st s!"Invalid node address specified: {ip}:{port}" else .ok (st, .ok)

/-! ### Slots -/

def updateAndSave (st : Server) : Server := clusterDoBeforeSleep st { updateState := true, saveConfig := true }

def flushslotsCommand (env : Env) (st : Server) : Outcome :=
  if env.db0Size ≠ 0 then replyError st "DB must be empty to perform CLUSTER FLUSHSLOTS."
  else do
    let st ← clusterDelNodeSlots st st.myself
    .ok (updateAndSave st, .ok)

/-- "Check that all the arguments are parseable and that all the slots are not already
busy": the slots, or the error. -/
def checkSlotArgs (st : Server) (del : Bool) : List ℤ → List Slot → Except String (List Slot)
  | [], seen => .ok seen
  | arg :: rest, seen =>
    match getSlot arg with
    | none => .error invalidSlot
    | some slot =>
      if del = true ∧ st.slots slot = none then .error s!"Slot {slot.val} is already unassigned"
      else if del = false ∧ (st.slots slot).isSome = true then .error s!"Slot {slot.val} is already busy"
      else if slot ∈ seen then .error s!"Slot {slot.val} specified multiple times"
      else checkSlotArgs st del rest (seen ++ [slot])

/-- One slot of ADDSLOTS or DELSLOTS. -/
def addOrDelSlot (del : Bool) (st : Server) (j : Slot) : Except Abort Server :=
  let st := { st with importingSlotsFrom := Function.update st.importingSlotsFrom j none }
  if del then
    if st.slots j = none then .error .slotsRetval else clusterDelSlot st j
  else
    if (st.slots j).isSome then .error .slotsRetval else .ok (clusterAddSlot st st.myself j)

def slotsCommand (st : Server) (del : Bool) (args : List ℤ) : Outcome :=
  match checkSlotArgs st del args [] with
  | .error msg => replyError st msg
  | .ok slots => do
    let st ← allSlots.foldlM (fun st j => if j ∈ slots then addOrDelSlot del st j else .ok st) st
    .ok (updateAndSave st, .ok)

/-- CLUSTER SETSLOT: `act` is the action once the role and the slot are checked. -/
def setslotCommand (st : Server) (slot : ℤ) (act : Slot → Outcome) : Outcome :=
  if nodeIsSlave st.me then replyError st "Please use SETSLOT only with masters."
  else match getSlot slot with
    | none => replyError st invalidSlot
    | some j => act j

def nameString (name : NodeName) : String := String.ofList (name.bytes.map fun b => Char.ofNat b.toNat)

def setslotMigrating (st : Server) (node : NodeName) (j : Slot) : Outcome :=
  if st.slots j ≠ some st.myself then replyError st s!"I'm not the owner of hash slot {j.val}"
  else match clusterLookupNode st node with
    | none => replyError st s!"I don't know about node {nameString node}"
    | some n => .ok (updateAndSave { st with migratingSlotsTo := Function.update st.migratingSlotsTo j (some n) }, .ok)

def setslotImporting (st : Server) (node : NodeName) (j : Slot) : Outcome :=
  if st.slots j = some st.myself then replyError st s!"I'm already the owner of hash slot {j.val}"
  else match clusterLookupNode st node with
    | none => replyError st s!"I don't know about node {nameString node}"
    | some n => .ok (updateAndSave { st with importingSlotsFrom := Function.update st.importingSlotsFrom j (some n) }, .ok)

def setslotStable (st : Server) (j : Slot) : Outcome :=
  .ok (updateAndSave { st with
    importingSlotsFrom := Function.update st.importingSlotsFrom j none
    migratingSlotsTo := Function.update st.migratingSlotsTo j none }, .ok)

def setslotNode (env : Env) (st : Server) (node : NodeName) (j : Slot) : Outcome :=
  match clusterLookupNode st node with
  | none => replyError st s!"Unknown node {nameString node}"
  | some n =>
    if st.slots j = some st.myself ∧ n ≠ st.myself ∧ env.countKeysInSlot j ≠ 0 then
      replyError st s!"Can't assign hashslot {j.val} to a different node while I still hold keys for this hash slot."
    else do
      let st := if env.countKeysInSlot j = 0 ∧ (st.migratingSlotsTo j).isSome = true then
          { st with migratingSlotsTo := Function.update st.migratingSlotsTo j none } else st
      let st := if n = st.myself ∧ (st.importingSlotsFrom j).isSome = true then
          let (st, _) := clusterBumpConfigEpochWithoutConsensus st
          { st with importingSlotsFrom := Function.update st.importingSlotsFrom j none }
        else st
      let st ← clusterDelSlot st j
      .ok (updateAndSave (clusterAddSlot st n j), .ok)

/-! ### Epochs -/

def bumpepochCommand (st : Server) : Outcome :=
  let (st, bumped) := clusterBumpConfigEpochWithoutConsensus st
  .ok (st, .status ((if bumped then "BUMPED " else "STILL ") ++ toString st.me.configEpoch))

def setConfigEpochCommand (st : Server) (epoch : ℤ) : Outcome :=
  if epoch < 0 then replyError st s!"Invalid config epoch specified: {epoch}"
  else if st.nodes.length > 1 then
    replyError st "The user can assign a config epoch only when the node does not know any other node."
  else if st.me.configEpoch ≠ 0 then replyError st "Node config epoch is already non-zero"
  else
    let st := st.modNode st.myself fun n => { n with configEpoch := epoch.toNat }
    let st := if st.currentEpoch < epoch.toNat then { st with currentEpoch := epoch.toNat } else st
    .ok (updateAndSave st, .ok)

/-! ### Nodes and roles -/

def forgetCommand (env : Env) (st : Server) (node : NodeName) : Outcome :=
  match clusterLookupNode st node with
  | none => replyError st s!"Unknown node {nameString node}"
  | some n =>
    if n = st.myself then replyError st "I tried hard but I can't forget myself..."
    else if nodeIsSlave st.me = true ∧ st.me.slaveof = some n then replyError st "Can't forget my master!"
    else do
      let st ← clusterDelNode env (clusterBlacklistAddNode env st n) n
      .ok (updateAndSave st, .ok)

def replicateCommand (env : Env) (st : Server) (node : NodeName) : Outcome :=
  match clusterLookupNode st node with
  | none => replyError st s!"Unknown node {nameString node}"
  | some n =>
    if n = st.myself then replyError st "Can't replicate myself"
    else if nodeIsSlave (st.heap n) then replyError st "I can only replicate a master, not a replica."
    else if nodeIsMaster st.me = true ∧ (st.me.numslots ≠ 0 ∨ env.db0Size ≠ 0) then
      replyError st "To set a master the node must be empty and without assigned slots."
    else do
      let st ← clusterSetMaster st n
      .ok (updateAndSave st, .ok)

def failoverCommand (env : Env) (st : Server) (mode : FailoverMode) : Outcome :=
  if nodeIsMaster st.me then replyError st "You should send CLUSTER FAILOVER to a replica"
  else match st.me.slaveof with
    | none => replyError st "I'm a replica but my master is unknown to me"
    | some m =>
      if mode = .default ∧ (nodeFailed (st.heap m) = true ∨ (st.heap m).link.isNone = true) then
        replyError st "Master is down or failed, please use CLUSTER FAILOVER FORCE"
      else
        let st := { resetManualFailover st with mfEnd := env.now + CLUSTER_MF_TIMEOUT }
        match mode with
        | .takeover => do
          let (st, _) := clusterBumpConfigEpochWithoutConsensus st
          let st ← clusterFailoverReplaceYourMaster env st .takeover
          .ok (st, .ok)
        | .force => .ok ({ st with mfCanStart := true }, .ok)
        | .default => .ok (clusterSendMFStart env st m, .ok)

def clusterCommand (env : Env) (st : Server) : Command → Outcome
  | .meet ip port cport => meetCommand env st ip port cport
  | .flushslots => flushslotsCommand env st
  | .addslots slots => slotsCommand st false slots
  | .delslots slots => slotsCommand st true slots
  | .setslotMigrating slot node => setslotCommand st slot (setslotMigrating st node)
  | .setslotImporting slot node => setslotCommand st slot (setslotImporting st node)
  | .setslotStable slot => setslotCommand st slot (setslotStable st)
  | .setslotNode slot node => setslotCommand st slot (setslotNode env st node)
  | .bumpepoch => bumpepochCommand st
  | .saveconfig => .ok (clusterSaveConfig st true, .ok)
  | .forget node => forgetCommand env st node
  | .replicate node => replicateCommand env st node
  | .failover mode => failoverCommand env st mode
  | .setConfigEpoch epoch => setConfigEpochCommand st epoch

end RedisZk.Cluster
