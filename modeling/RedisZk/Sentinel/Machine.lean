/-
# The failover, with its pointers and assertions

The failover state machine once more, as it may end the process: the assertions of `sentinelAbortFailover` and
`sentinelGetLeader`, and the places where `promoted_slave` is followed. The slaves are told of the promoted one
one after another, and what each makes of it is seen in its INFO (`SRI_RECONF_SENT`, `SRI_RECONF_INPROG`,
`SRI_RECONF_DONE`).

A pointer to a slave is its name in the table of its master: the slaves of a master are freed all at once.
Whoever is handed a command may get it or not.

Key definitions: `Fault`, `Reconf`, `Full`, `sentinelAbortFailover`, `sentinelFailoverReconfNextSlave`,
`sentinelFailoverStateMachine`, `sentinelRefreshInstanceInfo`, `Event`, `handle`.
-/
import RedisZk.Sentinel.Events

namespace RedisZk.Sentinel.Machine

open Streams (Sds)

def SENTINEL_SLAVE_RECONF_TIMEOUT : ℤ := 10000

variable {n : ℕ}

/-- `send` is whether commands can be handed to the link of the slave with a name. -/
structure Env extends Sentinel.Env where
  send : Sds → Bool

/-- The ways in which the process ends. -/
inductive Fault
  | assertion
  /-- A pointer is followed that is NULL, or whose slave is not in the table. -/
  | pointer
deriving DecidableEq

/-- What a slave keeps besides, of the master it is to replicate. -/
structure Reconf where
  /-- `SRI_RECONF_SENT` -/
  sent : Bool := false
  /-- `SRI_RECONF_INPROG` -/
  inprog : Bool := false
  slave_reconf_sent_time : ℤ := 0
  slave_master_host : Option Sds := none
  slave_master_port : ℤ := 0
  /-- Whether it is up. -/
  slave_master_link_status : Bool := false

def Reconf.busy (r : Reconf) : Bool := r.sent || r.inprog

/-- A master, and what its slaves keep besides. -/
structure Watched where
  master : Master
  reconf : Sds → Reconf
  parallel_syncs : ℤ

/-- All masters. -/
structure Full (n : ℕ) where
  base : State n
  reconf : Fin n → Sds → Reconf
  parallel_syncs : Fin n → ℤ

def Watched.setReconf (w : Watched) (name : Sds) (r : Reconf) : Watched := { w with reconf := Function.update w.reconf name r }

def Full.withBase (s : Full n) (base : State n) : Full n := ⟨base, s.reconf, s.parallel_syncs⟩

def Full.setMaster (s : Full n) (i : Fin n) (m : Master) : Full n := s.withBase (s.base.set i m)

def Full.get (s : Full n) (i : Fin n) : Watched := ⟨s.base.masters i, s.reconf i, s.parallel_syncs i⟩

def Full.set (s : Full n) (i : Fin n) (w : Watched) : Full n :=
  ⟨s.base.set i w.master, Function.update s.reconf i w.reconf, s.parallel_syncs⟩

/-- `master->promoted_slave->` -/
def follow (m : Master) : Except Fault Slave :=
  match m.promoted with
  | some slave => .ok slave
  | none => .error .pointer

/-! ### The states before the promotion -/

def sentinelAbortFailover (env : Env) (ri : Master) : Except Fault Master :=
  if !ri.failover_in_progress then .error .assertion
  else if ri.failover_state.code > FailoverState.wait_promotion.code then .error .assertion
  else
    match ri.promoted_slave with
    | none => .ok (Sentinel.sentinelAbortFailover env.toEnv ri)
    | some _ => (follow ri).map fun _ => Sentinel.sentinelAbortFailover env.toEnv ri

def sentinelGetLeader (env : Env) (i : Fin n) (epoch : ℕ) (s : State n) : Except Fault (Option Sds × State n) :=
  if !((s.masters i).o_down || (s.masters i).failover_in_progress) then .error .assertion
  else .ok (Sentinel.sentinelGetLeader env.toEnv i epoch s)

def sentinelFailoverWaitStart (env : Env) (i : Fin n) (s : State n) : Except Fault (State n) :=
  (sentinelGetLeader env i (s.masters i).failover_epoch s).bind fun (leader, s) =>
    let ri := s.masters i
    let isleader := leader.any (strcaseeq · s.myid)
    if !isleader && !ri.force_failover then
      if env.mstime - ri.failover_start_time > min SENTINEL_ELECTION_TIMEOUT ri.failover_timeout then
        (sentinelAbortFailover env ri).map (s.set i)
      else .ok s
    else .ok (s.set i { ri with failover_state := .select_slave, failover_state_change_time := env.mstime })

def sentinelFailoverSelectSlave (env : Env) (ri : Master) : Except Fault Master :=
  match sentinelSelectSlave env.toEnv ri with
  | none => sentinelAbortFailover env ri
  | some slave =>
    .ok { ri.setSlave slave.name fun slave => { slave with promoted := true } with
      promoted_slave := some slave.name
      failover_state := .send_slaveof_noone
      failover_state_change_time := env.mstime }

def sentinelFailoverSendSlaveOfNoOne (env : Env) (ri : Master) : Except Fault Master :=
  (follow ri).bind fun promoted =>
    if promoted.disconnected then
      if env.mstime - ri.failover_state_change_time > ri.failover_timeout then sentinelAbortFailover env ri else .ok ri
    else if env.sendSlaveOf then .ok { ri with failover_state := .wait_promotion, failover_state_change_time := env.mstime }
    else .ok ri

def sentinelFailoverWaitPromotion (env : Env) (ri : Master) : Except Fault Master :=
  if env.mstime - ri.failover_state_change_time > ri.failover_timeout then sentinelAbortFailover env ri else .ok ri

/-! ### The other slaves -/

/-- A best effort, for the slaves to which nothing was sent. -/
def sendToAll (env : Env) : List Slave → Watched → Except Fault Watched
  | [], w => .ok w
  | slave :: slaves, w =>
    if slave.promoted || slave.reconf_done || (w.reconf slave.name).sent || slave.disconnected then sendToAll env slaves w
    else
      (follow w.master).bind fun _ =>
        sendToAll env slaves (if env.send slave.name then w.setReconf slave.name { w.reconf slave.name with sent := true } else w)

def sentinelFailoverDetectEnd (env : Env) (w : Watched) : Except Fault Watched :=
  let master := w.master
  match master.promoted_slave with
  | none => .ok w
  | some _ =>
    (follow master).bind fun promoted =>
      if promoted.s_down then .ok w
      else
        let not_reconfigured := (master.slaves.filter fun slave => !(slave.promoted || slave.reconf_done || slave.s_down)).length
        let timeout := decide (env.mstime - master.failover_state_change_time > master.failover_timeout)
        let w :=
          if timeout || decide (not_reconfigured = 0) then
            { w with master := { master with failover_state := .update_config, failover_state_change_time := env.mstime } }
          else w
        if timeout then sendToAll env w.master.slaves w else .ok w

/-- A slave that does not go forward is taken to be reconfigured. -/
def giveUp (env : Env) (name : Sds) (w : Watched) : Watched :=
  let r := w.reconf name
  if r.sent && decide (env.mstime - r.slave_reconf_sent_time > SENTINEL_SLAVE_RECONF_TIMEOUT) then
    { w.setReconf name { r with sent := false } with master := w.master.setSlave name fun slave => { slave with reconf_done := true } }
  else w

/-- One slave of the table. -/
def reconfSlave (env : Env) (slave : Slave) (w : Watched) (in_progress : ℕ) : Except Fault (Watched × ℕ) :=
  if slave.promoted || slave.reconf_done then .ok (w, in_progress)
  else
    let w := giveUp env slave.name w
    let r := w.reconf slave.name
    if r.busy || slave.disconnected then .ok (w, in_progress)
    else
      (follow w.master).map fun _ =>
        if env.send slave.name then (w.setReconf slave.name { r with sent := true, slave_reconf_sent_time := env.mstime }, in_progress + 1)
        else (w, in_progress)

def reconfSlaves (env : Env) : List Slave → Watched → ℕ → Except Fault Watched
  | [], w, _ => .ok w
  | slave :: slaves, w, in_progress =>
    if (in_progress : ℤ) < w.parallel_syncs then
      (reconfSlave env slave w in_progress).bind fun (w, in_progress) => reconfSlaves env slaves w in_progress
    else .ok w

def sentinelFailoverReconfNextSlave (env : Env) (w : Watched) : Except Fault Watched :=
  let in_progress := (w.master.slaves.filter fun slave => (w.reconf slave.name).busy).length
  (reconfSlaves env w.master.slaves w in_progress).bind (sentinelFailoverDetectEnd env)

def sentinelFailoverStateMachine (env : Env) (i : Fin n) (s : Full n) : Except Fault (Full n) :=
  let ri := s.base.masters i
  if !ri.failover_in_progress then .ok s
  else
    match ri.failover_state with
    | .wait_start => (sentinelFailoverWaitStart env i s.base).map s.withBase
    | .select_slave => (sentinelFailoverSelectSlave env ri).map (s.setMaster i)
    | .send_slaveof_noone => (sentinelFailoverSendSlaveOfNoOne env ri).map (s.setMaster i)
    | .wait_promotion => (sentinelFailoverWaitPromotion env ri).map (s.setMaster i)
    | .reconf_slaves => (sentinelFailoverReconfNextSlave env (s.get i)).map (s.set i)
    | _ => .ok s

/-! ### Resets -/

/-- The slaves are freed, and those that are added back are new. -/
def sentinelResetMasterAndChangeAddress (env : Env) (i : Fin n) (ip : Sds) (port : ℤ) (s : Full n) : Full n :=
  match createSentinelAddr env.toEnv ip port with
  | none => s
  | some _ =>
    { s with
      base := Sentinel.sentinelResetMasterAndChangeAddress env.toEnv i ip port s.base
      reconf := Function.update s.reconf i fun _ => {} }

/-- The address of the promoted slave, or of the master if there is none. -/
def refAddr (master : Master) : Except Fault SentinelAddr :=
  match master.promoted_slave with
  | none => .ok master.addr
  | some _ => (follow master).map Slave.addr

def sentinelFailoverSwitchToPromotedSlave (env : Env) (i : Fin n) (s : Full n) : Except Fault (Full n) :=
  (refAddr (s.base.masters i)).map fun ref => sentinelResetMasterAndChangeAddress env i ref.ip ref.port s

def sentinelResetMastersByPattern (pattern : Fin n → Bool) (s : Full n) : Full n :=
  { s with
    base := { s.base with masters := fun i => if pattern i then sentinelResetMaster false (s.base.masters i) else s.base.masters i }
    reconf := fun i => if pattern i then fun _ => {} else s.reconf i }

def sentinelProcessHelloMessage (env : Env) (h : Hello) (s : Full n) : Full n :=
  match s.base.find (·.name = h.master_name) with
  | none => s
  | some i =>
    let (si, base) := knowSentinel env.toEnv h i s.base
    let base := raiseEpoch h.current_epoch base
    if si && decide ((base.masters i).config_epoch < h.master_config_epoch) then
      let base := base.set i { base.masters i with config_epoch := h.master_config_epoch }
      if differs h (base.masters i) then sentinelResetMasterAndChangeAddress env i h.master_ip h.master_port (s.withBase base)
      else s.withBase base
    else s.withBase base

/-! ### INFO -/

/-- What INFO says of the role, of the slaves, and of the master of a slave. -/
structure Info where
  role : Role
  slaves : List (Sds × ℤ)
  master_host : Option Sds
  master_port : Option ℤ
  master_link_status : Option Bool

/-- A slave that is not in the table is a new one. -/
def addSlave (env : Env) (i : Fin n) (s : Full n) (addr : Sds × ℤ) : Full n :=
  match createSlave env.toEnv addr.1 addr.2 (s.base.masters i) with
  | none => s
  | some master =>
    { s with
      base := sentinelFlushConfig (s.base.set i master)
      reconf := Function.update s.reconf i (Function.update (s.reconf i) (anetFormatAddr addr.1 addr.2) {}) }

def Reconf.read (r : Reconf) (info : Info) : Reconf :=
  { r with
    slave_master_host := info.master_host.orElse fun _ => r.slave_master_host
    slave_master_port := info.master_port.getD r.slave_master_port
    slave_master_link_status := info.master_link_status.getD r.slave_master_link_status }

/-- `SRI_RECONF_SENT` becomes `SRI_RECONF_INPROG` if the slave replicates the promoted one. -/
def reconfInprog (m : Master) (r : Reconf) : Except Fault Reconf :=
  match r.slave_master_host with
  | none => .ok r
  | some host =>
    if r.sent then
      (follow m).map fun promoted =>
        if host = promoted.addr.ip ∧ r.slave_master_port = promoted.addr.port then { r with sent := false, inprog := true } else r
    else .ok r

/-- `SRI_RECONF_INPROG` becomes `SRI_RECONF_DONE` if the link is up. -/
def reconfDone (name : Sds) (w : Watched) (r : Reconf) : Watched :=
  if r.inprog && r.slave_master_link_status then
    { w.setReconf name { r with inprog := false } with master := w.master.setSlave name fun slave => { slave with reconf_done := true } }
  else w.setReconf name r

/-- Of a slave, when the lines are read. -/
def actOnInfo (env : Env) (tilt : Bool) (role : Role) (ri : Slave) (w : Watched) : Except Fault Watched :=
  if tilt then .ok w
  else if promotes tilt w.master ri role then
    .ok { w with master := { w.master with
      config_epoch := w.master.failover_epoch
      failover_state := .reconf_slaves
      failover_state_change_time := env.mstime } }
  else if decide (role = .slave) && (w.reconf ri.name).busy then (reconfInprog w.master (w.reconf ri.name)).map (reconfDone ri.name w)
  else .ok w

/-- Of a master if `ri` is `none`, else of its slave of this name. -/
def sentinelRefreshInstanceInfo (env : Env) (i : Fin n) (ri : Option Sds) (info : Info) (s : Full n) : Except Fault (Full n) :=
  match ri with
  | none => .ok (info.slaves.foldl (addSlave env i) s)
  | some name =>
    match (s.base.masters i).slave name with
    | none => .ok s
    | some ri =>
      let w := s.get i
      let w := w.setReconf ri.name ((w.reconf ri.name).read info)
      (actOnInfo env s.base.tilt info.role ri w).map fun w =>
        let s' := s.set i w
        if promotes s.base.tilt (s.base.masters i) ri info.role then s'.withBase (sentinelFlushConfig s'.base) else s'

/-! ### The timer -/

/-- The acting half, for a master. -/
def actOn (env : Env) (i : Fin n) (s : Full n) : Except Fault (Full n) :=
  let base := s.base.set i (sentinelCheckObjectivelyDown (s.base.masters i))
  let (started, base) := sentinelStartFailoverIfNeeded env.toEnv i base
  let base :=
    if started then base.set i (sentinelAskMasterStateToOtherSentinels env.toEnv true base.current_epoch base.myid (base.masters i)).2
    else base
  (sentinelFailoverStateMachine env i (s.withBase base)).map fun s =>
    s.setMaster i (sentinelAskMasterStateToOtherSentinels env.toEnv false s.base.current_epoch s.base.myid (s.base.masters i)).2

def sentinelHandleRedisInstance (env : Env) (i : Fin n) (s : Full n) : Except Fault (Full n) :=
  if s.base.tilt then
    if env.mstime - s.base.tilt_start_time < SENTINEL_TILT_PERIOD then .ok s
    else actOn env i (s.withBase { s.base with tilt := false })
  else actOn env i s

/-! ### Events -/

inductive Event (n : ℕ)
  | request (ip : Sds) (port req_epoch : ℤ) (req_runid : Sds)
  | reply (i : Fin n) (runid : Sds) (isdown : Bool) (leader : Option Sds) (leader_epoch : ℕ)
  | hello (h : Hello)
  | info (i : Fin n) (ri : Option Sds) (info : Info)
  | observe (i : Fin n) (o : Observed)
  | timer (i : Fin n)
  | switch (i : Fin n)
  | tilt
  /-- `SENTINEL RESET`, of a pattern that these masters match. -/
  | reset (pattern : Fin n → Bool)
  | failover (name : Sds)
  /-- `SENTINEL SET`, of the options the failover depends on. -/
  | configure (i : Fin n) (quorum : ℕ) (down_after_period failover_timeout parallel_syncs : ℤ)
  | flushconfig
  | disk (writable : Bool)

/-- The state after an event, or the way in which the process ends. -/
def handle (env : Env) (s : Full n) : Event n → Except Fault (Full n)
  | .request ip port req_epoch req_runid => .ok (s.withBase (isMasterDownByAddr env.toEnv ip port req_epoch req_runid s.base).1)
  | .reply i runid isdown leader leader_epoch =>
    .ok (s.setMaster i (sentinelReceiveIsMasterDownReply env.toEnv runid isdown leader leader_epoch (s.base.masters i)))
  | .hello h => .ok (sentinelProcessHelloMessage env h s)
  | .info i ri info => sentinelRefreshInstanceInfo env i ri info s
  | .observe i o => .ok (s.setMaster i (observe (s.base.masters i) o))
  | .timer i => sentinelHandleRedisInstance env i s
  | .switch i =>
    if (s.base.masters i).failover_state = .update_config then sentinelFailoverSwitchToPromotedSlave env i s else .ok s
  | .tilt => .ok (s.withBase { s.base with tilt := true, tilt_start_time := env.mstime })
  | .reset pattern => .ok (sentinelResetMastersByPattern pattern s)
  | .failover name => .ok (s.withBase (failoverCommand env.toEnv name s.base))
  | .configure i quorum down_after_period failover_timeout parallel_syncs =>
    .ok
      { s with
        base := sentinelFlushConfig (s.base.set i { s.base.masters i with
          quorum := quorum, down_after_period := down_after_period, failover_timeout := failover_timeout })
        parallel_syncs := Function.update s.parallel_syncs i parallel_syncs }
  | .flushconfig => .ok (s.withBase (sentinelFlushConfig s.base))
  | .disk writable => .ok (s.withBase { s.base with writable := writable })

end RedisZk.Sentinel.Machine
