/-
# Votes, and the failover

A Sentinel has one vote in an epoch, which it gives to the first that asks for it, in a greater
epoch than its last vote. One that starts a failover draws an epoch, counts the votes of the
others and its own and, if it is the leader, promotes a slave.

A slave is handed a command, but what it makes of it is seen in INFO alone.

Key definitions: `sentinelVoteLeader`, `sentinelGetLeader`, `sentinelStartFailover`,
`sentinelSelectSlave`, `sentinelFailoverWaitStart`, `sentinelFailoverStateMachine`,
`sentinelAskMasterStateToOtherSentinels`.
-/
import RedisZk.Sentinel.State

namespace RedisZk.Sentinel

open Streams (Sds)
open Networking (sds)

def SENTINEL_INFO_PERIOD : ℤ := 10000
def SENTINEL_PING_PERIOD : ℤ := 1000
def SENTINEL_ASK_PERIOD : ℤ := 1000
def SENTINEL_TILT_PERIOD : ℤ := SENTINEL_PING_PERIOD * 30
def SENTINEL_ELECTION_TIMEOUT : ℤ := 10000

variable {n : ℕ}

/-! ### Votes -/

/-- The epoch of a message is the current one from now on, if that was smaller. -/
def raiseEpoch (epoch : ℕ) (s : State n) : State n :=
  if epoch > s.current_epoch then sentinelFlushConfig { s with current_epoch := epoch } else s

/-- The vote, if there is one, and its epoch. -/
def sentinelVoteLeader (env : Env) (i : Fin n) (req_epoch : ℕ) (req_runid : Sds) (s : State n) :
    (Option Sds × ℕ) × State n :=
  let s := raiseEpoch req_epoch s
  let master := s.masters i
  let s :=
    if master.leader_epoch < req_epoch ∧ s.current_epoch ≤ req_epoch then
      sentinelFlushConfig (s.set i { master with
        leader := some req_runid
        leader_epoch := s.current_epoch
        -- A vote for another delays the next failover of one's own.
        failover_start_time :=
          if strcaseeq req_runid s.myid then master.failover_start_time else env.mstime + env.desync })
    else s
  (((s.masters i).leader, (s.masters i).leader_epoch), s)

/-- The votes a runid has now, and the table of them. -/
def sentinelLeaderIncr (runid : Sds) (counters : List (Sds × ℕ)) : ℕ × List (Sds × ℕ) :=
  match counters.lookup runid with
  | some oldval => (oldval + 1, counters.map fun p => if p.1 = runid then (runid, oldval + 1) else p)
  | none => (1, counters ++ [(runid, 1)])

/-- The others that are counted: those whose last vote is of the current epoch. -/
def countedVotes (master : Master) (current_epoch : ℕ) : List Sds :=
  master.sentinels.filterMap fun ri => if ri.leader_epoch = current_epoch then ri.leader else none

/-- The most voted of the table, and its votes. -/
def mostVoted (counters : List (Sds × ℕ)) : Option Sds × ℕ :=
  counters.foldl (fun w p => if p.2 > w.2 then (some p.1, p.2) else w) (none, 0)

/-- The winner with one's own vote, which counts if it is of this epoch. -/
def countMyVote (counters : List (Sds × ℕ)) (epoch : ℕ) (myvote : Option Sds) (leader_epoch : ℕ) (w : Option Sds × ℕ) :
    Option Sds × ℕ :=
  match myvote with
  | none => w
  | some myvote =>
    if leader_epoch = epoch then
      let votes := (sentinelLeaderIncr myvote counters).1
      if votes > w.2 then (some myvote, votes) else w
    else w

/-- The votes of the others are those of the current epoch, one's own is that of `epoch`. -/
def sentinelGetLeader (env : Env) (i : Fin n) (epoch : ℕ) (s : State n) : Option Sds × State n :=
  let master := s.masters i
  let voters := master.sentinels.length + 1
  let counters := (countedVotes master s.current_epoch).foldl (fun c runid => (sentinelLeaderIncr runid c).2) []
  let first := mostVoted (env.walk counters)
  let vote := sentinelVoteLeader env i epoch (first.1.getD s.myid) s
  let w := countMyVote counters epoch vote.1.1 vote.1.2 first
  (if w.2 < voters / 2 + 1 ∨ w.2 < master.quorum then none else w.1, vote.2)

/-! ### The state of the failover -/

def sentinelStartFailover (env : Env) (i : Fin n) (s : State n) : State n :=
  let current_epoch := (s.current_epoch + 1) % 2 ^ 64
  ({ s with current_epoch := current_epoch }).set i { s.masters i with
    failover_state := .wait_start
    failover_in_progress := true
    failover_epoch := current_epoch
    failover_start_time := env.mstime + env.desync
    failover_state_change_time := env.mstime }

/-- The master is in ODOWN, no failover is in progress and the last one is long ago. -/
def mayStart (env : Env) (master : Master) : Bool :=
  master.o_down && !master.failover_in_progress &&
    decide (env.mstime - master.failover_start_time ≥ master.failover_timeout * 2)

def sentinelStartFailoverIfNeeded (env : Env) (i : Fin n) (s : State n) : Bool × State n :=
  if mayStart env (s.masters i) then (true, sentinelStartFailover env i s) else (false, s)

def sentinelAbortFailover (env : Env) (ri : Master) : Master :=
  { ri with
    failover_in_progress := false
    force_failover := false
    failover_state := .none
    failover_state_change_time := env.mstime
    promoted_slave := none
    slaves := match ri.promoted_slave with
      | some name => (ri.setSlave name fun slave => { slave with promoted := false }).slaves
      | none => ri.slaves }

/-- `strcasecmp(a,b) < 0` -/
def strcaselt (a b : Sds) : Bool := a.map tolower < b.map tolower

/-- `compareSlavesForPromotion(a,b) < 0` -/
def compareSlavesForPromotion (a b : Slave) : Bool :=
  if a.slave_priority ≠ b.slave_priority then a.slave_priority < b.slave_priority
  else if a.slave_repl_offset > b.slave_repl_offset then true
  else if a.slave_repl_offset < b.slave_repl_offset then false
  else
    match a.runid, b.runid with
    | none, _ => false
    | some _, none => true
    | some sa_runid, some sb_runid => strcaselt sa_runid sb_runid

/-- Whether a slave may be promoted. -/
def suitable (env : Env) (master : Master) (slave : Slave) : Bool :=
  let max_master_down_time :=
    (if master.s_down then env.mstime - master.s_down_since_time else 0) + master.down_after_period * 10
  let info_validity_time := if master.s_down then SENTINEL_PING_PERIOD * 5 else SENTINEL_INFO_PERIOD * 3
  !(slave.s_down || slave.o_down) && !slave.disconnected &&
    decide (env.mstime - slave.last_avail_time ≤ SENTINEL_PING_PERIOD * 5) &&
    decide (slave.slave_priority ≠ 0) &&
    decide (env.mstime - slave.info_refresh ≤ info_validity_time) &&
    decide (slave.master_link_down_time ≤ max_master_down_time)

/-- The best of the slaves that may be promoted; of equals, which `qsort` leaves in any order, one. -/
def sentinelSelectSlave (env : Env) (master : Master) : Option Slave :=
  (master.slaves.filter (suitable env master)).foldl
    (fun selected slave =>
      match selected with
      | none => some slave
      | some best => if compareSlavesForPromotion slave best then some slave else some best) none

def sentinelFailoverWaitStart (env : Env) (i : Fin n) (s : State n) : State n :=
  let (leader, s) := sentinelGetLeader env i (s.masters i).failover_epoch s
  let ri := s.masters i
  let isleader := leader.any (strcaseeq · s.myid)
  if !isleader && !ri.force_failover then
    if env.mstime - ri.failover_start_time > min SENTINEL_ELECTION_TIMEOUT ri.failover_timeout then
      s.set i (sentinelAbortFailover env ri)
    else s
  else
    s.set i { ri with failover_state := .select_slave, failover_state_change_time := env.mstime }

def sentinelFailoverSelectSlave (env : Env) (ri : Master) : Master :=
  match sentinelSelectSlave env ri with
  | none => sentinelAbortFailover env ri
  | some slave =>
    { ri.setSlave slave.name fun slave => { slave with promoted := true } with
      promoted_slave := some slave.name
      failover_state := .send_slaveof_noone
      failover_state_change_time := env.mstime }

/-- `ri->promoted_slave` is not NULL here. -/
def sentinelFailoverSendSlaveOfNoOne (env : Env) (ri : Master) : Master :=
  if ri.promoted.any (·.disconnected) then
    if env.mstime - ri.failover_state_change_time > ri.failover_timeout then sentinelAbortFailover env ri else ri
  else if env.sendSlaveOf then
    { ri with failover_state := .wait_promotion, failover_state_change_time := env.mstime }
  else ri

def sentinelFailoverWaitPromotion (env : Env) (ri : Master) : Master :=
  if env.mstime - ri.failover_state_change_time > ri.failover_timeout then sentinelAbortFailover env ri else ri

def sentinelFailoverDetectEnd (env : Env) (master : Master) : Master :=
  match master.promoted with
  | none => master
  | some promoted =>
    if promoted.s_down then master
    else
      let not_reconfigured := (master.slaves.filter fun slave => !(slave.promoted || slave.reconf_done || slave.s_down)).length
      if env.mstime - master.failover_state_change_time > master.failover_timeout ∨ not_reconfigured = 0 then
        { master with failover_state := .update_config, failover_state_change_time := env.mstime }
      else master

def sentinelFailoverStateMachine (env : Env) (i : Fin n) (s : State n) : State n :=
  let ri := s.masters i
  if !ri.failover_in_progress then s
  else
    match ri.failover_state with
    | .wait_start => sentinelFailoverWaitStart env i s
    | .select_slave => s.set i (sentinelFailoverSelectSlave env ri)
    | .send_slaveof_noone => s.set i (sentinelFailoverSendSlaveOfNoOne env ri)
    | .wait_promotion => s.set i (sentinelFailoverWaitPromotion env ri)
    -- What `sentinelFailoverReconfNextSlave` sends to the slaves, `reconf_done` says in the end.
    | .reconf_slaves => s.set i (sentinelFailoverDetectEnd env ri)
    | _ => s

/-- `master->promoted_slave`, or the master if that is NULL. -/
def sentinelFailoverSwitchToPromotedSlave (env : Env) (i : Fin n) (s : State n) : State n :=
  let master := s.masters i
  let ref := (master.promoted.map Slave.addr).getD master.addr
  sentinelResetMasterAndChangeAddress env i ref.ip ref.port s

/-! ### Asking the others -/

def sentinelCheckObjectivelyDown (master : Master) : Master :=
  { master with
    o_down := master.s_down && decide (1 + (master.sentinels.filter (·.master_down)).length ≥ master.quorum) }

/-- `SENTINEL is-master-down-by-addr`, to one of the others. -/
structure Ask where
  dst : Sds
  ip : Sds
  port : ℤ
  req_epoch : ℕ
  req_runid : Sds
deriving DecidableEq

/-- The Sentinels asked, and what is left of what the others said. -/
def sentinelAskMasterStateToOtherSentinels (env : Env) (forced : Bool) (current_epoch : ℕ) (myid : Sds)
    (master : Master) : List Ask × Master :=
  let asked := master.sentinels.filter fun ri =>
    master.s_down && !ri.disconnected &&
      (forced || decide (env.mstime - ri.last_master_down_reply_time ≥ SENTINEL_ASK_PERIOD))
  (asked.map fun ri =>
    { dst := ri.runid, ip := master.addr.ip, port := master.addr.port, req_epoch := current_epoch
      req_runid := if master.failover_state = .none then sds "*" else myid },
   { master with sentinels := master.sentinels.map fun ri =>
      if env.mstime - ri.last_master_down_reply_time > SENTINEL_ASK_PERIOD * 5 then
        { ri with master_down := false, leader := none }
      else ri })

end RedisZk.Sentinel
