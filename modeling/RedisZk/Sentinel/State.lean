/-
# What a Sentinel knows

The masters a Sentinel monitors, with their slaves and the other Sentinels that monitor them, and
the configuration file in which it keeps what is to outlive a crash. Masters are neither added nor
removed while it runs: they are numbered, and a pointer to one is its number. A slave is named by
its key in the table of its master, another Sentinel by its runid. The lists stand for tables, in
the order in which these are walked.

What the monitoring of an instance finds out (whether it answers, its links, what a slave says in
INFO of itself) is in the fields that the rest of the code reads.

Key definitions: `Env`, `Slave`, `Peer`, `Master`, `State`, `sentinelGetCurrentMasterAddress`,
`sentinelResetMaster`, `sentinelResetMasterAndChangeAddress`, `rewriteConfigSentinelOption`,
`sentinelFlushConfig`, `sentinelHandleConfiguration`.
-/
import RedisZk.Networking.Reply

namespace RedisZk.Sentinel

open Streams (Sds ll2string)

def NET_PEER_ID_LEN : ℕ := 46 + 32
def SENTINEL_DEFAULT_FAILOVER_TIMEOUT : ℤ := 60 * 3 * 1000
def SENTINEL_DEFAULT_DOWN_AFTER : ℤ := 30000
def SENTINEL_DEFAULT_SLAVE_PRIORITY : ℤ := 100

/-- What is outside of the process when something happens. -/
structure Env where
  mstime : ℤ
  /-- `rand()%SENTINEL_MAX_DESYNC` -/
  desync : ℤ
  anetResolve : Sds → Option Sds
  /-- The order in which the table of the counted votes is walked. -/
  walk : List (Sds × ℕ) → List (Sds × ℕ)
  /-- Whether commands can be handed to the link of the promoted slave. -/
  sendSlaveOf : Bool

structure SentinelAddr where
  ip : Sds
  port : ℤ
deriving DecidableEq

def tolower (c : Fin 256) : Fin 256 := if 65 ≤ c.val ∧ c.val ≤ 90 then c + 32 else c

/-- `strcasecmp(a,b) == 0` -/
def strcaseeq (a b : Sds) : Bool := a.map tolower = b.map tolower

def createSentinelAddr (env : Env) (hostname : Sds) (port : ℤ) : Option SentinelAddr :=
  if port < 0 ∨ port > 65535 then none
  else (env.anetResolve hostname).map fun ip => ⟨ip, port⟩

def sentinelAddrIsEqual (a b : SentinelAddr) : Bool := a.port = b.port && strcaseeq a.ip b.ip

def anetFormatAddr (ip : Sds) (port : ℤ) : Sds :=
  ((if 58 ∈ ip then 91 :: ip ++ [93] else ip) ++ 58 :: ll2string port).take (NET_PEER_ID_LEN - 1)

/-! ### Instances -/

/-- An instance with `SRI_SLAVE`. -/
structure Slave where
  name : Sds
  addr : SentinelAddr
  /-- `SRI_PROMOTED` -/
  promoted : Bool := false
  s_down : Bool := false
  o_down : Bool := false
  reconf_done : Bool := false
  disconnected : Bool := true
  last_avail_time : ℤ
  slave_priority : ℤ := SENTINEL_DEFAULT_SLAVE_PRIORITY
  slave_repl_offset : ℕ := 0
  runid : Option Sds := none
  info_refresh : ℤ := 0
  master_link_down_time : ℤ := 0
deriving DecidableEq

/-- An instance with `SRI_SENTINEL`. -/
structure Peer where
  runid : Sds
  addr : SentinelAddr
  /-- Whom this Sentinel voted for, and in which epoch. -/
  leader : Option Sds := none
  leader_epoch : ℕ := 0
  /-- `SRI_MASTER_DOWN` -/
  master_down : Bool := false
  last_master_down_reply_time : ℤ
  disconnected : Bool := true
deriving DecidableEq

inductive FailoverState
  | none
  | wait_start
  | select_slave
  | send_slaveof_noone
  | wait_promotion
  | reconf_slaves
  | update_config
deriving DecidableEq

def FailoverState.code : FailoverState → ℕ
  | none => 0
  | wait_start => 1
  | select_slave => 2
  | send_slaveof_noone => 3
  | wait_promotion => 4
  | reconf_slaves => 5
  | update_config => 6

/-- An instance with `SRI_MASTER`. -/
structure Master where
  name : Sds
  addr : SentinelAddr
  quorum : ℕ
  config_epoch : ℕ := 0
  s_down : Bool := false
  s_down_since_time : ℤ := 0
  o_down : Bool := false
  down_after_period : ℤ := SENTINEL_DEFAULT_DOWN_AFTER
  sentinels : List Peer := []
  slaves : List Slave := []
  leader : Option Sds := none
  leader_epoch : ℕ := 0
  failover_epoch : ℕ := 0
  failover_state : FailoverState := .none
  failover_state_change_time : ℤ := 0
  failover_start_time : ℤ := 0
  failover_timeout : ℤ := SENTINEL_DEFAULT_FAILOVER_TIMEOUT
  failover_in_progress : Bool := false
  force_failover : Bool := false
  /-- The name of the promoted slave. -/
  promoted_slave : Option Sds := Option.none
deriving DecidableEq

def Master.slave (m : Master) (name : Sds) : Option Slave := m.slaves.find? (·.name = name)

def Master.setSlave (m : Master) (name : Sds) (f : Slave → Slave) : Master :=
  { m with slaves := m.slaves.map fun slave => if slave.name = name then f slave else slave }

/-- `master->promoted_slave`, followed. -/
def Master.promoted (m : Master) : Option Slave := m.promoted_slave.bind m.slave

/-- The address of the master, or of the promoted slave if that is operational. -/
def sentinelGetCurrentMasterAddress (master : Master) : SentinelAddr :=
  match master.promoted with
  | some slave =>
    if master.failover_in_progress ∧ FailoverState.reconf_slaves.code ≤ master.failover_state.code then slave.addr
    else master.addr
  | none => master.addr

/-- `createSentinelRedisInstance` with `SRI_SLAVE`; `none` if it returns NULL. -/
def createSlave (env : Env) (hostname : Sds) (port : ℤ) (master : Master) : Option Master :=
  (createSentinelAddr env hostname port).bind fun addr =>
    if (master.slave (anetFormatAddr hostname port)).isSome then none
    else some { master with
      slaves := master.slaves ++
        [{ name := anetFormatAddr hostname port, addr := addr, last_avail_time := env.mstime }] }

/-- The same with `SRI_SENTINEL`. -/
def createPeer (env : Env) (runid hostname : Sds) (port : ℤ) (master : Master) : Option Master :=
  (createSentinelAddr env hostname port).bind fun addr =>
    if master.sentinels.any (·.runid = runid) then none
    else some { master with
      sentinels := master.sentinels ++
        [{ runid := runid, addr := addr, last_master_down_reply_time := env.mstime }] }

/-- `flags` is whether the other Sentinels are kept. -/
def sentinelResetMaster (no_sentinels : Bool) (ri : Master) : Master :=
  { ri with
    slaves := []
    sentinels := if no_sentinels then ri.sentinels else []
    s_down := false
    o_down := false
    failover_in_progress := false
    force_failover := false
    leader := none
    failover_state := .none
    failover_state_change_time := 0
    failover_start_time := 0
    promoted_slave := none }

/-! ### The configuration file -/

structure MasterConfig where
  name : Sds
  addr : SentinelAddr
  quorum : ℕ
  down_after_period : ℤ
  failover_timeout : ℤ
  config_epoch : ℕ
  leader_epoch : ℕ
  knownReplicas : List SentinelAddr
  knownSentinels : List (Sds × SentinelAddr)
deriving DecidableEq

/-- The lines of the file, for `n` masters. -/
structure Config (n : ℕ) where
  myid : Sds
  masters : Fin n → MasterConfig
  current_epoch : ℕ

structure State (n : ℕ) where
  myid : Sds
  current_epoch : ℕ
  masters : Fin n → Master
  tilt : Bool := false
  tilt_start_time : ℤ := 0
  /-- The configuration file, and whether it can be written. -/
  file : Config n
  writable : Bool := true

variable {n : ℕ}

def State.set (s : State n) (i : Fin n) (m : Master) : State n :=
  { s with masters := Function.update s.masters i m }

/-- The master among all for which a test holds. -/
def State.find (s : State n) (p : Master → Bool) : Option (Fin n) :=
  (List.finRange n).find? fun i => p (s.masters i)

def masterConfig (master : Master) : MasterConfig where
  name := master.name
  addr := sentinelGetCurrentMasterAddress master
  quorum := master.quorum
  down_after_period := master.down_after_period
  failover_timeout := master.failover_timeout
  config_epoch := master.config_epoch
  leader_epoch := master.leader_epoch
  -- A slave that is the master by now stands for the old one.
  knownReplicas := master.slaves.map fun slave =>
    if sentinelAddrIsEqual slave.addr (sentinelGetCurrentMasterAddress master) then master.addr else slave.addr
  knownSentinels := master.sentinels.map fun ri => (ri.runid, ri.addr)

def rewriteConfigSentinelOption (s : State n) : Config n where
  myid := s.myid
  masters := fun i => masterConfig (s.masters i)
  current_epoch := s.current_epoch

def sentinelFlushConfig (s : State n) : State n :=
  if s.writable then { s with file := rewriteConfigSentinelOption s } else s

/-- The lines of one master: `none` if one of them is refused. -/
def loadMaster (env : Env) (c : MasterConfig) : Option Master :=
  if c.quorum = 0 then none
  else
    (createSentinelAddr env c.addr.ip c.addr.port).bind fun addr =>
      let master : Master :=
        { name := c.name, addr := addr, quorum := c.quorum, config_epoch := c.config_epoch, leader_epoch := c.leader_epoch,
          down_after_period := c.down_after_period, failover_timeout := c.failover_timeout }
      (c.knownReplicas.foldlM (fun m a => createSlave env a.ip a.port m) master).bind fun master =>
        c.knownSentinels.foldlM (fun m p => createPeer env p.1 p.2.ip p.2.port m) master

/-- A Sentinel that starts from a file; the epochs of the masters raise the current one. -/
def sentinelHandleConfiguration (env : Env) (c : Config n) : Option (State n) :=
  if h : ∀ i, (loadMaster env (c.masters i)).isSome then
    some
      { myid := c.myid
        masters := fun i => (loadMaster env (c.masters i)).get (h i)
        current_epoch := max c.current_epoch ((List.finRange n).foldl (fun e i => max e (c.masters i).config_epoch) 0)
        file := c }
  else none

/-! ### Changing the address -/

/-- The slaves, and the old master, as they are added back. -/
def slavesBack (master : Master) (newaddr : SentinelAddr) : List SentinelAddr :=
  ((master.slaves.map Slave.addr).filter fun a => !sentinelAddrIsEqual a newaddr) ++
    if sentinelAddrIsEqual newaddr master.addr then [] else [master.addr]

def sentinelResetMasterAndChangeAddress (env : Env) (i : Fin n) (ip : Sds) (port : ℤ) (s : State n) : State n :=
  match createSentinelAddr env ip port with
  | none => s
  | some newaddr =>
    let master := { sentinelResetMaster true (s.masters i) with addr := newaddr }
    let master := (slavesBack (s.masters i) newaddr).foldl
      (fun m a => (createSlave env a.ip a.port m).getD m) master
    sentinelFlushConfig (s.set i master)

end RedisZk.Sentinel
