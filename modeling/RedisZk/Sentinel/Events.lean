/-
# What happens to a Sentinel

Messages of the others (hellos, requests, replies), INFO of the instances, the timer, and the
commands of an administrator but `SENTINEL MONITOR` and `SENTINEL REMOVE`. The pass of the timer
over the tables is taken apart: each master has its turn, and the one that is to be switched to its
promoted slave is switched by an event of its own. What the monitoring of an instance finds out is
an event too.

Key definitions: `Hello`, `sentinelProcessHelloMessage`, `sentinelRefreshInstanceInfo`,
`isMasterDownByAddr`, `sentinelHandleRedisInstance`, `Input`, `Output`, `handle`, `Step`.
-/
import RedisZk.Sentinel.Failover

namespace RedisZk.Sentinel

open Streams (Sds)
open Networking (sds)

variable {n : ℕ}

/-! ### Outputs -/

inductive Output (n : ℕ)
  /-- The answer to `is-master-down-by-addr`, by the master it is about if there is one. -/
  | reply (i : Option (Fin n)) (isdown : Bool) (leader : Option Sds) (leader_epoch : ℕ)
  | ask (i : Fin n) (request : Ask)
  | hello (i : Fin n) (current_epoch : ℕ) (master_addr : SentinelAddr) (config_epoch : ℕ)
  /-- A configuration is accepted: its epoch, and the address in it if that can be resolved. -/
  | accept (i : Fin n) (config_epoch : ℕ) (addr : Option SentinelAddr)
  /-- `+elected-leader` -/
  | elected (i : Fin n) (failover_epoch : ℕ)
deriving DecidableEq

/-! ### Hellos -/

/-- The eight tokens of a hello. -/
structure Hello where
  ip : Sds
  port : ℤ
  runid : Sds
  current_epoch : ℕ
  master_name : Sds
  master_ip : Sds
  master_port : ℤ
  master_config_epoch : ℕ
deriving DecidableEq

def sentinelUpdateSentinelAddressInAllMasters (runid : Sds) (addr : SentinelAddr) (s : State n) : State n :=
  { s with masters := fun j => { s.masters j with
      sentinels := (s.masters j).sentinels.map fun ri =>
        if ri.runid = runid then { ri with addr := addr, disconnected := true } else ri } }

/-- The Sentinel that says hello is made known, with its address; whether it is known then. -/
def knowSentinel (env : Env) (h : Hello) (i : Fin n) (s : State n) : Bool × State n :=
  let master := s.masters i
  if master.sentinels.any fun ri => ri.runid = h.runid && ri.addr.ip = h.ip && decide (ri.addr.port = h.port) then (true, s)
  else
    let removed := master.sentinels.any (·.runid = h.runid)
    let s :=
      if removed then s.set i { master with sentinels := master.sentinels.filter (·.runid ≠ h.runid) }
      else
        match master.sentinels.find? fun ri => ri.addr.ip = h.ip && decide (ri.addr.port = h.port) with
        | some other => sentinelUpdateSentinelAddressInAllMasters other.runid { other.addr with port := 0 } s
        | none => s
    match createPeer env h.runid h.ip h.port (s.masters i) with
    | none => (false, s)
    | some master =>
      let s := s.set i master
      let s := if removed then
          match createSentinelAddr env h.ip h.port with
          | some addr => sentinelUpdateSentinelAddressInAllMasters h.runid addr s
          | none => s
        else s
      (true, sentinelFlushConfig s)

/-- The address of the message is not the one of the master. -/
def differs (h : Hello) (master : Master) : Bool :=
  h.master_port ≠ master.addr.port || h.master_ip ≠ master.addr.ip

def sentinelProcessHelloMessage (env : Env) (h : Hello) (s : State n) : State n × List (Output n) :=
  match s.find (·.name = h.master_name) with
  | none => (s, [])
  | some i =>
    let (si, s) := knowSentinel env h i s
    let s := raiseEpoch h.current_epoch s
    if si && decide ((s.masters i).config_epoch < h.master_config_epoch) then
      let s := s.set i { s.masters i with config_epoch := h.master_config_epoch }
      if differs h (s.masters i) then
        (sentinelResetMasterAndChangeAddress env i h.master_ip h.master_port s,
          [.accept i h.master_config_epoch (createSentinelAddr env h.master_ip h.master_port)])
      else (s, [.accept i h.master_config_epoch (some (s.masters i).addr)])
    else (s, [])

/-! ### INFO -/

inductive Role
  | unknown
  | master
  | slave
deriving DecidableEq

/-- What INFO says of the role, and of the slaves. -/
structure Info where
  role : Role
  slaves : List (Sds × ℤ)
deriving DecidableEq

/-- A slave of the output that is not in the table is added to it. -/
def addSlave (env : Env) (i : Fin n) (s : State n) (addr : Sds × ℤ) : State n :=
  match createSlave env addr.1 addr.2 (s.masters i) with
  | some master => sentinelFlushConfig (s.set i master)
  | none => s

/-- A promoted slave is seen to be a master. -/
def promotes (tilt : Bool) (master : Master) (ri : Slave) (role : Role) : Bool :=
  !tilt && decide (role = .master) && ri.promoted && master.failover_in_progress &&
    decide (master.failover_state = .wait_promotion)

/-- Of a master if `ri` is `none`, else of its slave of this name. -/
def sentinelRefreshInstanceInfo (env : Env) (i : Fin n) (ri : Option Sds) (info : Info) (s : State n) :
    State n × List (Output n) :=
  match ri with
  | none => (info.slaves.foldl (addSlave env i) s, [])
  | some name =>
    let master := s.masters i
    match master.slave name with
    | none => (s, [])
    | some ri =>
      if promotes s.tilt master ri info.role then
        (sentinelFlushConfig (s.set i { master with
          config_epoch := master.failover_epoch
          failover_state := .reconf_slaves
          failover_state_change_time := env.mstime }), [.accept i master.failover_epoch (some ri.addr)])
      else (s, [])

/-! ### Requests and replies -/

/-- `SENTINEL is-master-down-by-addr <ip> <port> <req_epoch> <runid>`, of numbers in range. -/
def isMasterDownByAddr (env : Env) (ip : Sds) (port : ℤ) (req_epoch : ℤ) (req_runid : Sds) (s : State n) :
    State n × List (Output n) :=
  if req_epoch < -2 ^ 63 ∨ 2 ^ 63 ≤ req_epoch then (s, [])
  else
    match s.find fun ri => ri.addr.ip = ip && decide (ri.addr.port = port) with
    | none => (s, [.reply none false none 0])
    | some i =>
      let isdown := !s.tilt && (s.masters i).s_down
      if strcaseeq req_runid (sds "*") then (s, [.reply (some i) isdown none 0])
      else
        let ((leader, leader_epoch), s) := sentinelVoteLeader env i (req_epoch % 2 ^ 64).toNat req_runid s
        (s, [.reply (some i) isdown leader leader_epoch])

/-- Of the Sentinel with this runid; a `leader` of `none` is the text `*`. -/
def sentinelReceiveIsMasterDownReply (env : Env) (runid : Sds) (isdown : Bool) (leader : Option Sds)
    (leader_epoch : ℕ) (master : Master) : Master :=
  { master with sentinels := master.sentinels.map fun ri =>
      if ri.runid = runid then
        { ri with
          last_master_down_reply_time := env.mstime
          master_down := isdown
          leader := if leader.isSome then leader else ri.leader
          leader_epoch := if leader.isSome then leader_epoch else ri.leader_epoch }
      else ri }

/-! ### The timer -/

/-- `ri->failover_state` becomes that of a leader. -/
def electedNow (i : Fin n) (s s' : State n) : List (Output n) :=
  if (s.masters i).failover_state = .wait_start ∧ (s'.masters i).failover_state = .select_slave then
    [.elected i (s.masters i).failover_epoch]
  else []

/-- The acting half, for a master. -/
def actOn (env : Env) (i : Fin n) (s : State n) : State n × List (Output n) :=
  let s := s.set i (sentinelCheckObjectivelyDown (s.masters i))
  let (started, s) := sentinelStartFailoverIfNeeded env i s
  let (forced, master) :=
    if started then sentinelAskMasterStateToOtherSentinels env true s.current_epoch s.myid (s.masters i)
    else ([], s.masters i)
  let s := s.set i master
  let s' := sentinelFailoverStateMachine env i s
  let (asked, master) := sentinelAskMasterStateToOtherSentinels env false s'.current_epoch s'.myid (s'.masters i)
  (s'.set i master, forced.map (.ask i) ++ electedNow i s s' ++ asked.map (.ask i))

def sentinelHandleRedisInstance (env : Env) (i : Fin n) (s : State n) : State n × List (Output n) :=
  if s.tilt then
    if env.mstime - s.tilt_start_time < SENTINEL_TILT_PERIOD then (s, []) else actOn env i { s with tilt := false }
  else actOn env i s

/-! ### Commands -/

/-- `SENTINEL FAILOVER` -/
def failoverCommand (env : Env) (name : Sds) (s : State n) : State n :=
  match s.find (·.name = name) with
  | none => s
  | some i =>
    if (s.masters i).failover_in_progress then s
    else if (sentinelSelectSlave env (s.masters i)).isNone then s
    else
      let s := sentinelStartFailover env i s
      s.set i { s.masters i with force_failover := true }

/-! ### Events -/

/-- What the monitoring finds out of an instance. -/
inductive Observed
  | master (s_down : Bool) (s_down_since_time : ℤ)
  | slave (name : Sds) (s_down o_down reconf_done disconnected : Bool) (last_avail_time slave_priority : ℤ)
      (slave_repl_offset : ℕ) (runid : Option Sds) (info_refresh master_link_down_time : ℤ)
  | sentinel (runid : Sds) (disconnected : Bool)
deriving DecidableEq

def observe (m : Master) : Observed → Master
  | .master s_down s_down_since_time => { m with s_down := s_down, s_down_since_time := s_down_since_time }
  | .slave name s_down o_down reconf_done disconnected last_avail_time slave_priority slave_repl_offset runid info_refresh
      master_link_down_time =>
    m.setSlave name fun slave => { slave with
      s_down := s_down
      o_down := o_down
      reconf_done := reconf_done
      disconnected := disconnected
      last_avail_time := last_avail_time
      slave_priority := slave_priority
      slave_repl_offset := slave_repl_offset
      runid := runid
      info_refresh := info_refresh
      master_link_down_time := master_link_down_time }
  | .sentinel runid disconnected =>
    { m with sentinels := m.sentinels.map fun ri => if ri.runid = runid then { ri with disconnected := disconnected } else ri }

inductive Input (n : ℕ)
  | request (ip : Sds) (port req_epoch : ℤ) (req_runid : Sds)
  | reply (i : Fin n) (runid : Sds) (isdown : Bool) (leader : Option Sds) (leader_epoch : ℕ)
  | hello (h : Hello)
  | info (i : Fin n) (ri : Option Sds) (info : Info)
  | observe (i : Fin n) (o : Observed)
  | timer (i : Fin n)
  | switch (i : Fin n)
  | sendHello (i : Fin n)
  | tilt
  /-- `SENTINEL RESET`, of a pattern that these masters match. -/
  | reset (pattern : Fin n → Bool)
  | failover (name : Sds)
  /-- `SENTINEL SET`, of the options the failover depends on. -/
  | configure (i : Fin n) (quorum : ℕ) (down_after_period failover_timeout : ℤ)
  | flushconfig
  /-- The configuration file can be written from now on, or cannot. -/
  | disk (writable : Bool)

def handle (env : Env) (s : State n) : Input n → State n × List (Output n)
  | .request ip port req_epoch req_runid => isMasterDownByAddr env ip port req_epoch req_runid s
  | .reply i runid isdown leader leader_epoch =>
    (s.set i (sentinelReceiveIsMasterDownReply env runid isdown leader leader_epoch (s.masters i)), [])
  | .hello h => sentinelProcessHelloMessage env h s
  | .info i ri info => sentinelRefreshInstanceInfo env i ri info s
  | .observe i o => (s.set i (observe (s.masters i) o), [])
  | .timer i => sentinelHandleRedisInstance env i s
  | .switch i =>
    if (s.masters i).failover_state = .update_config then (sentinelFailoverSwitchToPromotedSlave env i s, []) else (s, [])
  | .sendHello i =>
    (s, [.hello i s.current_epoch (sentinelGetCurrentMasterAddress (s.masters i)) (s.masters i).config_epoch])
  | .tilt => ({ s with tilt := true, tilt_start_time := env.mstime }, [])
  | .reset pattern =>
    ({ s with masters := fun i => if pattern i then sentinelResetMaster false (s.masters i) else s.masters i }, [])
  | .failover name => (failoverCommand env name s, [])
  | .configure i quorum down_after_period failover_timeout =>
    (sentinelFlushConfig (s.set i { s.masters i with
      quorum := quorum, down_after_period := down_after_period, failover_timeout := failover_timeout }), [])
  | .flushconfig => (sentinelFlushConfig s, [])
  | .disk writable => ({ s with writable := writable }, [])

/-- Something happens, or the process dies and starts again from its file. -/
inductive Event (n : ℕ)
  | input (i : Input n)
  | crash

/-- The state and the outputs after an event; `none` if the Sentinel does not start again. -/
def Event.next (env : Env) (s : State n) : Event n → Option (State n × List (Output n))
  | .input i => some (handle env s i)
  | .crash => (sentinelHandleConfiguration env s.file).map (·, [])

end RedisZk.Sentinel
