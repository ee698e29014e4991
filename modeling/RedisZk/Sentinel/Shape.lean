/-
# What holds of a master

A master keeps its slaves by different names, and its pointer to the promoted one is right. What
happens to it either changes its configuration, and `sentinelGetCurrentMasterAddress` with it, or
is quiet: the failover may go on, and a vote may be given.

Key definitions: `Env.Lawful`, `Shape`, `Follows`, `Quiet`.
Key theorems: `Quiet.of_eq`, `Quiet.setSlave`, `Quiet.createSlave`, `Quiet.abort`, `Quiet.select`, `Quiet.detectEnd`.
-/
import RedisZk.Sentinel.Events
import RedisZk.Lib.Run

namespace RedisZk.Sentinel

open Streams (Sds)
open Networking (sds)

variable {n : ℕ} {numeric : Sds → Prop} {env : Env}

/-! ### Addresses -/

/-- What is relied on: `getaddrinfo` gives numeric addresses, and a numeric one for itself; the walk
over a table meets each entry once. -/
structure Env.Lawful (numeric : Sds → Prop) (env : Env) : Prop where
  resolved : ∀ hostname ip, env.anetResolve hostname = some ip → numeric ip
  self : ∀ ip, numeric ip → env.anetResolve ip = some ip
  walk : ∀ l, (env.walk l).Perm l

/-- An address as `createSentinelAddr` makes it. -/
def Valid (numeric : Sds → Prop) (a : SentinelAddr) : Prop := numeric a.ip ∧ 0 ≤ a.port ∧ a.port ≤ 65535

theorem valid_of_create (he : env.Lawful numeric) {hostname : Sds} {port : ℤ} {a : SentinelAddr}
    (h : createSentinelAddr env hostname port = some a) : Valid numeric a := by
  rw [createSentinelAddr] at h
  split at h
  · cases h
  · rename_i hport
    obtain ⟨ip, hip, rfl⟩ := Option.map_eq_some_iff.mp h
    refine ⟨he.resolved _ _ hip, ?_, ?_⟩ <;> dsimp only <;> omega

theorem create_self (he : env.Lawful numeric) {a : SentinelAddr} (ha : Valid numeric a) :
    createSentinelAddr env a.ip a.port = some a := by
  rw [createSentinelAddr, if_neg (by have := ha.2; omega), he.self _ ha.1]
  rfl

/-! ### Masters -/

/-- The slaves have different names, and the promoted one is the one that `promoted_slave` points
to; there is none before one is selected. -/
structure Shape (numeric : Sds → Prop) (m : Master) : Prop where
  addr : Valid numeric m.addr
  slaves : ∀ slave ∈ m.slaves, Valid numeric slave.addr
  names : (m.slaves.map Slave.name).Nodup
  promoted : ∀ slave ∈ m.slaves, slave.promoted = true → m.promoted_slave = some slave.name
  pointer : ∀ name, m.promoted_slave = some name → (m.slave name).isSome = true
  early : m.failover_state.code < FailoverState.send_slaveof_noone.code → m.promoted_slave = none
  idle : m.failover_in_progress = false → m.failover_state = .none

variable {m : Master}

/-- A master with no slaves yet, and no failover. -/
theorem Shape.of_empty (haddr : Valid numeric m.addr) (hslaves : m.slaves = []) (hpromoted : m.promoted_slave = none)
    (hstate : m.failover_state = .none) : Shape numeric m := by
  refine ⟨haddr, ?_, ?_, ?_, ?_, fun _ => hpromoted, fun _ => hstate⟩
  · rw [hslaves]
    exact List.forall_mem_nil _
  · rw [hslaves]
    exact List.nodup_nil
  · rw [hslaves]
    exact List.forall_mem_nil _
  · intro name hname
    rw [hpromoted] at hname
    cases hname

/-- The vote of an epoch stays or is forgotten. -/
structure Follows (m m' : Master) : Prop where
  le : m.leader_epoch ≤ m'.leader_epoch
  leader : m'.leader_epoch = m.leader_epoch → m'.leader = none ∨ m'.leader = m.leader

variable {m' : Master}

theorem Follows.of_eq (h : m'.leader_epoch = m.leader_epoch) (h' : m'.leader = none ∨ m'.leader = m.leader) :
    Follows m m' :=
  ⟨h.ge, fun _ => h'⟩

theorem Follows.trans {m m' m'' : Master} (h : Follows m m') (h' : Follows m' m'') : Follows m m'' := by
  refine ⟨h.le.trans h'.le, fun heq => ?_⟩
  have h1 : m''.leader_epoch = m'.leader_epoch := Nat.le_antisymm (heq ▸ h.le) h'.le
  have h2 : m'.leader_epoch = m.leader_epoch := by rw [← h1, heq]
  rcases h'.leader h1 with hnone | hsame
  · exact .inl hnone
  · rw [hsame]
    exact h.leader h2

/-- The configuration is as it was. -/
structure Quiet (numeric : Sds → Prop) (m m' : Master) : Prop where
  shape : Shape numeric m'
  config_epoch : m'.config_epoch = m.config_epoch
  address : sentinelGetCurrentMasterAddress m' = sentinelGetCurrentMasterAddress m
  follows : Follows m m'

theorem Quiet.refl (h : Shape numeric m) : Quiet numeric m m := ⟨h, rfl, rfl, .of_eq rfl (.inr rfl)⟩

theorem Quiet.trans {m m' m'' : Master} (h : Quiet numeric m m') (h' : Quiet numeric m' m'') : Quiet numeric m m'' :=
  ⟨h'.shape, h'.config_epoch.trans h.config_epoch, h'.address.trans h.address, h.follows.trans h'.follows⟩

theorem slave_name {name : Sds} {slave : Slave} (h : m.slave name = some slave) : slave.name = name := by
  have := List.find?_some h
  exact of_decide_eq_true this

theorem slave_mem {name : Sds} {slave : Slave} (h : m.slave name = some slave) : slave ∈ m.slaves :=
  List.mem_of_find?_eq_some h

theorem promoted_mem {slave : Slave} (h : m.promoted = some slave) :
    slave ∈ m.slaves ∧ m.promoted_slave = some slave.name := by
  obtain ⟨name, hname, hslave⟩ := Option.bind_eq_some_iff.mp h
  exact ⟨slave_mem hslave, by rw [hname, slave_name hslave]⟩

/-- Before the promotion the master's own address is named. -/
theorem address_of_early (h : m.failover_state.code < FailoverState.reconf_slaves.code) :
    sentinelGetCurrentMasterAddress m = m.addr := by
  rw [sentinelGetCurrentMasterAddress]
  split
  · rw [if_neg]
    rintro ⟨-, hle⟩
    exact absurd h (Nat.not_lt.mpr hle)
  · rfl

theorem address_of_none (h : m.failover_state = .none) : sentinelGetCurrentMasterAddress m = m.addr :=
  address_of_early (by rw [h]; decide)

/-- The named address is one of the table. -/
theorem Shape.current (h : Shape numeric m) : Valid numeric (sentinelGetCurrentMasterAddress m) := by
  rw [sentinelGetCurrentMasterAddress]
  split
  · rename_i slave hslave
    split
    · exact h.slaves slave (promoted_mem hslave).1
    · exact h.addr
  · exact h.addr

theorem address_congr (hpromoted : m'.promoted = m.promoted) (haddr : m'.addr = m.addr)
    (hstate : m'.failover_state = m.failover_state) (hprogress : m'.failover_in_progress = m.failover_in_progress) :
    sentinelGetCurrentMasterAddress m' = sentinelGetCurrentMasterAddress m := by
  rw [sentinelGetCurrentMasterAddress, sentinelGetCurrentMasterAddress, hpromoted, haddr, hstate, hprogress]

theorem Quiet.of_eq (h : Shape numeric m) (haddr : m'.addr = m.addr) (hslaves : m'.slaves = m.slaves)
    (hpromoted : m'.promoted_slave = m.promoted_slave) (hstate : m'.failover_state = m.failover_state)
    (hprogress : m'.failover_in_progress = m.failover_in_progress) (hconfig : m'.config_epoch = m.config_epoch)
    (hf : Follows m m') : Quiet numeric m m' := by
  have hslave : m'.slave = m.slave := by
    funext name
    rw [Master.slave, Master.slave, hslaves]
  refine ⟨⟨haddr ▸ h.addr, hslaves ▸ h.slaves, hslaves ▸ h.names, ?_, ?_, ?_, ?_⟩, hconfig, ?_, hf⟩
  · rw [hslaves, hpromoted]
    exact h.promoted
  · rw [hpromoted, hslave]
    exact h.pointer
  · rw [hstate, hpromoted]
    exact h.early
  · rw [hstate, hprogress]
    exact h.idle
  · exact address_congr (by rw [Master.promoted, Master.promoted, hpromoted, hslave]) haddr hstate hprogress

/-- A step of the failover before the promotion. -/
theorem Quiet.of_early (h' : Shape numeric m') (hm : m.failover_state.code < FailoverState.reconf_slaves.code)
    (hm' : m'.failover_state.code < FailoverState.reconf_slaves.code) (haddr : m'.addr = m.addr)
    (hconfig : m'.config_epoch = m.config_epoch) (hf : Follows m m') : Quiet numeric m m' :=
  ⟨h', hconfig, by rw [address_of_early hm, address_of_early hm', haddr], hf⟩

/-! ### Slaves -/

theorem slave_setSlave (m : Master) (name : Sds) {f : Slave → Slave} (hname : ∀ slave, (f slave).name = slave.name)
    (name' : Sds) :
    (m.setSlave name f).slave name' = (m.slave name').map fun slave => if slave.name = name then f slave else slave := by
  rw [Master.slave, Master.slave, Master.setSlave]
  dsimp only
  induction m.slaves with
  | nil => rfl
  | cons slave slaves ih =>
    rw [List.map_cons, List.find?_cons, List.find?_cons]
    have hsame : (if slave.name = name then f slave else slave).name = slave.name := by
      split
      · exact hname slave
      · rfl
    rw [hsame]
    split
    · rfl
    · exact ih

theorem names_setSlave (m : Master) (name : Sds) {f : Slave → Slave} (hname : ∀ slave, (f slave).name = slave.name) :
    (m.setSlave name f).slaves.map Slave.name = m.slaves.map Slave.name := by
  rw [Master.setSlave, List.map_map]
  refine List.map_congr_left fun slave _ => ?_
  rw [Function.comp_apply]
  split
  · exact hname slave
  · rfl

/-- What a slave says of itself changes neither its address nor which one is promoted. -/
theorem Quiet.setSlave (h : Shape numeric m) (name : Sds) {f : Slave → Slave}
    (hname : ∀ slave, (f slave).name = slave.name) (haddr : ∀ slave, (f slave).addr = slave.addr)
    (hpromoted : ∀ slave, (f slave).promoted = slave.promoted) : Quiet numeric m (m.setSlave name f) := by
  have hslaves : ∀ slave' ∈ (m.setSlave name f).slaves, ∃ slave ∈ m.slaves,
      slave'.name = slave.name ∧ slave'.addr = slave.addr ∧ slave'.promoted = slave.promoted := by
    intro slave' hmem
    obtain ⟨slave, hslave, rfl⟩ := List.mem_map.mp hmem
    refine ⟨slave, hslave, ?_⟩
    split
    · exact ⟨hname slave, haddr slave, hpromoted slave⟩
    · exact ⟨rfl, rfl, rfl⟩
  refine ⟨⟨h.addr, ?_, ?_, ?_, ?_, h.early, h.idle⟩, rfl, ?_, .of_eq rfl (.inr rfl)⟩
  · intro slave' hmem
    obtain ⟨slave, hslave, -, ha, -⟩ := hslaves slave' hmem
    exact ha ▸ h.slaves slave hslave
  · rw [names_setSlave m name hname]
    exact h.names
  · intro slave' hmem hp
    obtain ⟨slave, hslave, hn, -, hp'⟩ := hslaves slave' hmem
    rw [hn]
    exact h.promoted slave hslave (hp' ▸ hp)
  · intro name' hname'
    rw [slave_setSlave m name hname, Option.isSome_map]
    exact h.pointer name' hname'
  · have hprom : (m.setSlave name f).promoted = m.promoted.map fun slave => if slave.name = name then f slave else slave := by
      rw [Master.promoted, Master.promoted]
      show m.promoted_slave.bind (m.setSlave name f).slave = _
      cases m.promoted_slave with
      | none => rfl
      | some name' => exact slave_setSlave m name hname name'
    rw [sentinelGetCurrentMasterAddress, sentinelGetCurrentMasterAddress, hprom]
    cases m.promoted with
    | none => rfl
    | some slave =>
      have ha : (if slave.name = name then f slave else slave).addr = slave.addr := by
        split
        · exact haddr slave
        · rfl
      show (if _ then (if slave.name = name then f slave else slave).addr else _) = _
      rw [ha]
      rfl

theorem createSlave_eq_some {hostname : Sds} {port : ℤ} (h : createSlave env hostname port m = some m') :
    ∃ addr, createSentinelAddr env hostname port = some addr ∧ m.slave (anetFormatAddr hostname port) = none ∧
      m' = { m with slaves := m.slaves ++
        [{ name := anetFormatAddr hostname port, addr := addr, last_avail_time := env.mstime }] } := by
  obtain ⟨addr, haddr, h⟩ := Option.bind_eq_some_iff.mp h
  split at h
  · cases h
  · rename_i hslave
    cases h
    exact ⟨addr, haddr, Option.not_isSome_iff_eq_none.mp hslave, rfl⟩

theorem Quiet.createSlave (he : env.Lawful numeric) (h : Shape numeric m) {hostname : Sds} {port : ℤ}
    (hm : Sentinel.createSlave env hostname port m = some m') : Quiet numeric m m' := by
  obtain ⟨addr, haddr, hnew, rfl⟩ := createSlave_eq_some hm
  have hslave : ∀ name slave, m.slave name = some slave →
      Master.slave { m with slaves := m.slaves ++
        [{ name := anetFormatAddr hostname port, addr := addr, last_avail_time := env.mstime }] } name = some slave := by
    intro name slave hs
    show (m.slaves ++ _).find? _ = _
    rw [Master.slave] at hs
    rw [List.find?_append, hs]
    rfl
  refine ⟨⟨h.addr, ?_, ?_, ?_, ?_, h.early, h.idle⟩, rfl, ?_, .of_eq rfl (.inr rfl)⟩
  · intro slave hmem
    rcases List.mem_append.mp hmem with hmem | hmem
    · exact h.slaves slave hmem
    · rcases List.mem_singleton.mp hmem with rfl
      exact valid_of_create he haddr
  · show ((m.slaves ++ _).map Slave.name).Nodup
    rw [List.map_append, List.nodup_append]
    refine ⟨h.names, List.nodup_singleton _, fun name hname name' hname' => ?_⟩
    obtain ⟨slave, hmem, rfl⟩ := List.mem_map.mp hname
    rcases List.mem_singleton.mp hname' with rfl
    have := List.find?_eq_none.mp hnew slave hmem
    exact fun heq => this (decide_eq_true heq)
  · intro slave hmem hp
    rcases List.mem_append.mp hmem with hmem | hmem
    · exact h.promoted slave hmem hp
    · rcases List.mem_singleton.mp hmem with rfl
      cases hp
  · intro name hname
    obtain ⟨slave, hs⟩ := Option.isSome_iff_exists.mp (h.pointer name hname)
    rw [hslave name slave hs]
    rfl
  · refine address_congr ?_ rfl rfl rfl
    show m.promoted_slave.bind _ = m.promoted_slave.bind _
    cases hp : m.promoted_slave with
    | none => rfl
    | some name =>
      obtain ⟨slave, hs⟩ := Option.isSome_iff_exists.mp (h.pointer name hp)
      rw [Option.bind_some, Option.bind_some, hs]
      exact hslave name slave hs

/-! ### Steps of the failover -/

theorem Quiet.abort (h : Shape numeric m) (hm : m.failover_state.code < FailoverState.reconf_slaves.code) :
    Quiet numeric m (sentinelAbortFailover env m) := by
  have hslaves : ∀ slave' ∈ (sentinelAbortFailover env m).slaves, ∃ slave ∈ m.slaves,
      slave'.name = slave.name ∧ slave'.addr = slave.addr ∧ slave'.promoted = false := by
    intro slave' hmem
    rw [sentinelAbortFailover] at hmem
    dsimp only at hmem
    split at hmem
    · rename_i name hname
      obtain ⟨slave, hslave, rfl⟩ := List.mem_map.mp hmem
      refine ⟨slave, hslave, ?_⟩
      split
      · exact ⟨rfl, rfl, rfl⟩
      · rename_i hne
        refine ⟨rfl, rfl, ?_⟩
        by_contra hp
        have := h.promoted slave hslave (Bool.eq_true_of_not_eq_false hp)
        rw [hname] at this
        cases this
        exact hne rfl
    · rename_i hname
      refine ⟨slave', hmem, rfl, rfl, ?_⟩
      by_contra hp
      have := h.promoted slave' hmem (Bool.eq_true_of_not_eq_false hp)
      rw [hname] at this
      cases this
  refine .of_early ⟨h.addr, ?_, ?_, ?_, nofun, fun _ => rfl, fun _ => rfl⟩ hm (by decide : 0 < 5) rfl rfl (.of_eq rfl (.inr rfl))
  · intro slave' hmem
    obtain ⟨slave, hslave, -, ha, -⟩ := hslaves slave' hmem
    exact ha ▸ h.slaves slave hslave
  · rw [sentinelAbortFailover]
    dsimp only
    split
    · rename_i name _
      rw [names_setSlave m name (f := fun slave => { slave with promoted := false }) fun _ => rfl]
      exact h.names
    · exact h.names
  · intro slave' hmem hp
    obtain ⟨slave, hslave, -, -, hp'⟩ := hslaves slave' hmem
    rw [hp'] at hp
    cases hp

theorem Quiet.start (h : Shape numeric m) (hidle : m.failover_in_progress = false) (epoch : ℕ) (time time' : ℤ) :
    Quiet numeric m { m with
      failover_state := .wait_start
      failover_in_progress := true
      failover_epoch := epoch
      failover_start_time := time
      failover_state_change_time := time' } := by
  have hstate := h.idle hidle
  have hnone := h.early (by rw [hstate]; decide)
  exact .of_early ⟨h.addr, h.slaves, h.names, h.promoted, h.pointer, fun _ => hnone, nofun⟩ (by rw [hstate]; decide)
    (by decide : 1 < 5) rfl rfl (.of_eq rfl (.inr rfl))

/-- The state goes on, before or after the promotion. -/
theorem Quiet.goOn (h : Shape numeric m) (hp : m.failover_in_progress = true) {state : FailoverState} (time : ℤ)
    (hearly : state.code < FailoverState.send_slaveof_noone.code → m.promoted_slave = none)
    (hside : FailoverState.reconf_slaves.code ≤ state.code ↔ FailoverState.reconf_slaves.code ≤ m.failover_state.code) :
    Quiet numeric m { m with failover_state := state, failover_state_change_time := time } := by
  refine ⟨⟨h.addr, h.slaves, h.names, h.promoted, h.pointer, hearly, ?_⟩, rfl, ?_, .of_eq rfl (.inr rfl)⟩
  · intro hidle
    have hidle : m.failover_in_progress = false := hidle
    rw [hp] at hidle
    cases hidle
  · rw [sentinelGetCurrentMasterAddress, sentinelGetCurrentMasterAddress]
    have hsame : { m with failover_state := state, failover_state_change_time := time }.promoted = m.promoted := rfl
    rw [hsame]
    cases m.promoted with
    | none => rfl
    | some slave => exact if_congr (and_congr_right fun _ => hside) rfl rfl

theorem selectSlave_mem {slave : Slave} (h : sentinelSelectSlave env m = some slave) : slave ∈ m.slaves := by
  refine Stepwise.foldl_invariant (Q := fun selected : Option Slave => ∀ slave, selected = some slave → slave ∈ m.slaves)
    (m.slaves.filter (suitable env m)) none ?_ ?_ slave h
  · rintro _ ⟨⟩
  · intro selected hsel slave hmem slave' hs
    have hmem := (List.mem_filter.mp hmem).1
    split at hs
    · cases hs
      exact hmem
    · split at hs
      · cases hs
        exact hmem
      · exact hsel slave' hs

theorem Quiet.select (h : Shape numeric m) (hstate : m.failover_state = .select_slave) :
    Quiet numeric m (sentinelFailoverSelectSlave env m) := by
  have hm : m.failover_state.code < FailoverState.reconf_slaves.code := by rw [hstate]; decide
  have hnone := h.early (by rw [hstate]; decide)
  have hprogress : m.failover_in_progress = true := by
    by_contra hno
    have := h.idle (Bool.eq_false_of_not_eq_true hno)
    rw [hstate] at this
    cases this
  rw [sentinelFailoverSelectSlave]
  split
  · exact .abort h hm
  · rename_i slave hslave
    have hmem := selectSlave_mem hslave
    have hnames := names_setSlave m slave.name (f := fun slave => { slave with promoted := true }) fun _ => rfl
    have hlookup := slave_setSlave m slave.name (f := fun slave => { slave with promoted := true }) fun _ => rfl
    refine .of_early ⟨h.addr, ?_, ?_, ?_, ?_, ?_, ?_⟩ hm (by decide : 3 < 5) rfl rfl (.of_eq rfl (.inr rfl))
    · intro slave' hmem'
      obtain ⟨slave0, h0, rfl⟩ := List.mem_map.mp hmem'
      split
      · exact h.slaves slave0 h0
      · exact h.slaves slave0 h0
    · show ((m.setSlave slave.name _).slaves.map Slave.name).Nodup
      rw [hnames]
      exact h.names
    · intro slave' hmem' hp
      obtain ⟨slave0, h0, rfl⟩ := List.mem_map.mp hmem'
      split at hp
      · rename_i heq
        rw [if_pos heq]
        exact congrArg some heq.symm
      · have := h.promoted slave0 h0 hp
        rw [hnone] at this
        cases this
    · intro name hname
      cases hname
      show ((m.setSlave slave.name _).slave slave.name).isSome = true
      rw [hlookup, Option.isSome_map]
      exact List.find?_isSome.mpr ⟨slave, hmem, decide_eq_true rfl⟩
    · exact fun hlt => absurd hlt (by decide : ¬ 3 < 3)
    · intro hidle
      have hidle : m.failover_in_progress = false := hidle
      rw [hprogress] at hidle
      cases hidle

theorem Quiet.detectEnd (h : Shape numeric m) (hstate : m.failover_state = .reconf_slaves)
    (hp : m.failover_in_progress = true) : Quiet numeric m (sentinelFailoverDetectEnd env m) := by
  rw [sentinelFailoverDetectEnd]
  split
  · exact .refl h
  · split
    · exact .refl h
    · dsimp only
      split
      · exact .goOn h hp _ (fun hlt => absurd hlt (by decide : ¬ 6 < 3)) (by rw [hstate]; decide)
      · exact .refl h

end RedisZk.Sentinel
