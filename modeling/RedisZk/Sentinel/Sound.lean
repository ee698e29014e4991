/-
# The failover is sound

Whatever happens, and in whatever order, a failover in progress is one that has a state; from the selection on
there is a promoted slave, which is in the table of its master and the only one with the flag; and the other
slaves are told of it after the promotion only. So no assertion fails, and no pointer is followed that is NULL.

Key definitions: `Sound`, `Keeps`, `Safe`, `Fresh`.
Key theorems: `Sound.follow`, `sound_abort`, `sound_reconfNextSlave`, `sound_stateMachine`, `sound_info`, `sound_handle`,
`failover_is_sound`.
-/
import RedisZk.Sentinel.Epochs
import RedisZk.Sentinel.Machine

namespace RedisZk.Sentinel.Machine

open Streams (Sds)
open Networking (sds)

variable {n : ℕ} {env : Env}

/-! ### Outcomes -/

/-- The process goes on, with a result of this kind. -/
def Safe {α : Type} (P : α → Prop) (x : Except Fault α) : Prop := ∃ a, x = .ok a ∧ P a

theorem Safe.ok {α : Type} {P : α → Prop} {a : α} (h : P a) : Safe P (.ok a) := ⟨a, rfl, h⟩

theorem Safe.bind {α β : Type} {P : α → Prop} {Q : β → Prop} {x : Except Fault α} {f : α → Except Fault β} (h : Safe P x)
    (hf : ∀ a, P a → Safe Q (f a)) : Safe Q (x.bind f) := by
  obtain ⟨a, rfl, ha⟩ := h
  exact hf a ha

theorem Safe.map {α β : Type} {P : α → Prop} {Q : β → Prop} {x : Except Fault α} {f : α → β} (h : Safe P x) (hf : ∀ a, P a → Q (f a)) :
    Safe Q (x.map f) := by
  obtain ⟨a, rfl, ha⟩ := h
  exact ⟨f a, rfl, hf a ha⟩

/-! ### What holds of a master -/

structure Sound (m : Master) (reconf : Sds → Reconf) : Prop where
  running : m.failover_in_progress = true ↔ m.failover_state ≠ .none
  names : (m.slaves.map Slave.name).Nodup
  early : m.failover_state.code < FailoverState.send_slaveof_noone.code → m.promoted_slave = none
  late : FailoverState.send_slaveof_noone.code ≤ m.failover_state.code →
    ∃ slave ∈ m.slaves, m.promoted_slave = some slave.name ∧ slave.promoted = true
  only : ∀ slave ∈ m.slaves, slave.promoted = true → m.promoted_slave = some slave.name
  reconf : ∀ slave ∈ m.slaves, (reconf slave.name).busy = true → FailoverState.reconf_slaves.code ≤ m.failover_state.code

/-- What the invariant reads is as it was. -/
structure Keeps (m m' : Master) : Prop where
  slaves : m'.slaves = m.slaves
  promoted_slave : m'.promoted_slave = m.promoted_slave
  failover_state : m'.failover_state = m.failover_state
  failover_in_progress : m'.failover_in_progress = m.failover_in_progress

theorem Keeps.refl (m : Master) : Keeps m m := ⟨rfl, rfl, rfl, rfl⟩

theorem Keeps.trans {m m' m'' : Master} (h : Keeps m m') (h' : Keeps m' m'') : Keeps m m'' :=
  ⟨h'.slaves.trans h.slaves, h'.promoted_slave.trans h.promoted_slave, h'.failover_state.trans h.failover_state,
    h'.failover_in_progress.trans h.failover_in_progress⟩

variable {m m' : Master} {reconf : Sds → Reconf}

theorem Sound.keeps (h : Sound m reconf) (hk : Keeps m m') : Sound m' reconf := by
  constructor
  · rw [hk.failover_in_progress, hk.failover_state]
    exact h.running
  · rw [hk.slaves]
    exact h.names
  · rw [hk.failover_state, hk.promoted_slave]
    exact h.early
  · rw [hk.failover_state, hk.promoted_slave, hk.slaves]
    exact h.late
  · rw [hk.slaves, hk.promoted_slave]
    exact h.only
  · rw [hk.slaves, hk.failover_state]
    exact h.reconf

/-- No failover, and slaves with nothing about one. -/
theorem Sound.of_idle (hprogress : m.failover_in_progress = false) (hstate : m.failover_state = .none) (hpromoted : m.promoted_slave = none)
    (hnames : (m.slaves.map Slave.name).Nodup) (hflags : ∀ slave ∈ m.slaves, slave.promoted = false)
    (hbusy : ∀ slave ∈ m.slaves, (reconf slave.name).busy = false) : Sound m reconf := by
  have hcode : m.failover_state.code = 0 := by rw [hstate]; rfl
  refine ⟨?_, hnames, fun _ => hpromoted, fun hlate => ?_, fun slave hslave hflag => ?_, fun slave hslave hbad => ?_⟩
  · rw [hprogress, hstate]
    exact iff_of_false Bool.false_ne_true (not_not.mpr rfl)
  · rw [hcode] at hlate
    exact absurd hlate (by decide)
  · rw [hflags slave hslave] at hflag
    cases hflag
  · rw [hbusy slave hslave] at hbad
    cases hbad

theorem slave_of_mem (hnames : (m.slaves.map Slave.name).Nodup) {slave : Slave} (h : slave ∈ m.slaves) : m.slave slave.name = some slave := by
  unfold Master.slave
  generalize m.slaves = slaves at hnames h
  induction slaves with
  | nil => cases h
  | cons other slaves ih =>
    rw [List.map_cons, List.nodup_cons] at hnames
    rcases List.mem_cons.mp h with rfl | hmem
    · exact List.find?_cons_of_pos (decide_eq_true rfl)
    · rw [List.find?_cons_of_neg]
      · exact ih hnames.2 hmem
      · intro hsame
        rw [of_decide_eq_true hsame] at hnames
        exact hnames.1 (List.mem_map_of_mem hmem)

/-- **From the selection on, the pointer leads to the one slave with the flag.** -/
theorem Sound.follow (h : Sound m reconf) (hlate : FailoverState.send_slaveof_noone.code ≤ m.failover_state.code) :
    Safe (fun slave => slave ∈ m.slaves ∧ m.promoted_slave = some slave.name ∧ slave.promoted = true) (follow m) := by
  obtain ⟨slave, hmem, hpromoted, hflag⟩ := h.late hlate
  refine ⟨slave, ?_, hmem, hpromoted, hflag⟩
  rw [Machine.follow, Master.promoted, hpromoted, Option.bind_some, slave_of_mem h.names hmem]

theorem Sound.not_running (h : Sound m reconf) (hidle : m.failover_in_progress = false) : m.failover_state = .none := by
  by_contra hstate
  rw [h.running.mpr hstate] at hidle
  cases hidle

/-- The slaves change, but neither their names nor which of them is promoted. -/
theorem Sound.setSlave (h : Sound m reconf) (name : Sds) {f : Slave → Slave} (hname : ∀ slave, (f slave).name = slave.name)
    (hpromoted : ∀ slave, (f slave).promoted = slave.promoted) : Sound (m.setSlave name f) reconf := by
  have hback : ∀ slave' ∈ (m.setSlave name f).slaves, ∃ slave ∈ m.slaves, slave'.name = slave.name ∧ slave'.promoted = slave.promoted := by
    intro slave' hmem
    obtain ⟨slave, hslave, rfl⟩ := List.mem_map.mp hmem
    refine ⟨slave, hslave, ?_⟩
    split
    · exact ⟨hname slave, hpromoted slave⟩
    · exact ⟨rfl, rfl⟩
  refine ⟨h.running, ?_, h.early, fun hlate => ?_, fun slave' hmem hflag => ?_, fun slave' hmem hbusy => ?_⟩
  · rw [names_setSlave m name hname]
    exact h.names
  · obtain ⟨slave, hslave, hpointer, hflag⟩ := h.late hlate
    refine ⟨if slave.name = name then f slave else slave, List.mem_map_of_mem hslave, ?_⟩
    split
    · rw [hname, hpromoted]
      exact ⟨hpointer, hflag⟩
    · exact ⟨hpointer, hflag⟩
  · obtain ⟨slave, hslave, hn, hp⟩ := hback slave' hmem
    rw [hn]
    exact h.only slave hslave (hp ▸ hflag)
  · obtain ⟨slave, hslave, hn, -⟩ := hback slave' hmem
    rw [hn] at hbusy
    exact h.reconf slave hslave hbusy

theorem Sound.setReconf (h : Sound m reconf) (name : Sds) {r : Reconf} (hr : r.busy = true → FailoverState.reconf_slaves.code ≤ m.failover_state.code) :
    Sound m (Function.update reconf name r) := by
  refine ⟨h.running, h.names, h.early, h.late, h.only, fun slave hslave hbusy => ?_⟩
  by_cases hname : slave.name = name
  · rw [hname, Function.update_self] at hbusy
    exact hr hbusy
  · rw [Function.update_of_ne hname] at hbusy
    exact h.reconf slave hslave hbusy

theorem Sound.createSlave (h : Sound m reconf) {hostname : Sds} {port : ℤ} (hm : createSlave env.toEnv hostname port m = some m') :
    Sound m' (Function.update reconf (anetFormatAddr hostname port) {}) := by
  obtain ⟨addr, -, hnew, rfl⟩ := createSlave_eq_some hm
  have hfresh : ∀ slave ∈ m.slaves, slave.name ≠ anetFormatAddr hostname port := by
    intro slave hslave hname
    rw [Master.slave, List.find?_eq_none] at hnew
    exact hnew slave hslave (decide_eq_true hname)
  refine ⟨h.running, ?_, h.early, fun hlate => ?_, fun slave hslave hflag => ?_, fun slave hslave hbusy => ?_⟩
  · rw [List.map_append, List.nodup_append']
    refine ⟨h.names, List.nodup_singleton _, ?_⟩
    intro name hname hnew
    obtain ⟨slave, hslave, rfl⟩ := List.mem_map.mp hname
    exact hfresh slave hslave (List.mem_singleton.mp hnew)
  · obtain ⟨slave, hslave, hpointer⟩ := h.late hlate
    exact ⟨slave, List.mem_append_left _ hslave, hpointer⟩
  · rcases List.mem_append.mp hslave with hslave | hslave
    · exact h.only slave hslave hflag
    · rw [List.mem_singleton.mp hslave] at hflag
      cases hflag
  · rcases List.mem_append.mp hslave with hslave | hslave
    · rw [Function.update_of_ne (hfresh slave hslave)] at hbusy
      exact h.reconf slave hslave hbusy
    · rw [List.mem_singleton.mp hslave, Function.update_self] at hbusy
      cases hbusy

/-- The state goes on among those with a promoted slave. -/
theorem Sound.goOn (h : Sound m reconf) (state : FailoverState) (time : ℤ) (hlate : FailoverState.send_slaveof_noone.code ≤ m.failover_state.code)
    (hle : m.failover_state.code ≤ state.code) :
    Sound { m with failover_state := state, failover_state_change_time := time } reconf := by
  have hlate' : FailoverState.send_slaveof_noone.code ≤ state.code := hlate.trans hle
  have hne : m.failover_state ≠ .none := by
    intro hstate
    rw [hstate] at hlate
    exact absurd hlate (by decide)
  refine ⟨iff_of_true (h.running.mpr hne) ?_, h.names, fun hearly => absurd hearly (Nat.not_lt.mpr hlate'), fun _ => h.late hlate, h.only,
    fun slave hslave hbusy => (h.reconf slave hslave hbusy).trans hle⟩
  intro hstate
  rw [show state = FailoverState.none from hstate] at hlate'
  exact absurd hlate' (by decide)

/-! ### The states before the promotion -/

/-- **A failover before the promotion can be aborted.** -/
theorem sound_abort (h : Sound m reconf) (hne : m.failover_state ≠ .none) (hearly : m.failover_state.code < FailoverState.reconf_slaves.code) :
    Safe (Sound · reconf) (sentinelAbortFailover env m) := by
  have hbusy : ∀ slave ∈ m.slaves, (reconf slave.name).busy = false := by
    intro slave hslave
    by_contra hbusy
    exact absurd (h.reconf slave hslave (Bool.eq_true_of_not_eq_false hbusy)) (Nat.not_le.mpr hearly)
  have hprogress : ¬(!m.failover_in_progress) = true := by
    rw [h.running.mpr hne]
    exact Bool.false_ne_true
  have hwait : ¬m.failover_state.code > FailoverState.wait_promotion.code := Nat.not_lt.mpr (Nat.le_of_lt_succ hearly)
  rw [sentinelAbortFailover, if_neg hprogress, if_neg hwait]
  cases hpointer : m.promoted_slave with
  | none =>
    refine Safe.ok (Sound.of_idle rfl rfl rfl ?_ ?_ ?_)
    · rw [Sentinel.sentinelAbortFailover, hpointer]
      exact h.names
    · rw [Sentinel.sentinelAbortFailover, hpointer]
      intro slave hslave
      by_contra hflag
      have hsome := h.only slave hslave (Bool.eq_true_of_not_eq_false hflag)
      rw [hpointer] at hsome
      cases hsome
    · rw [Sentinel.sentinelAbortFailover, hpointer]
      exact hbusy
  | some name =>
    have hlate : FailoverState.send_slaveof_noone.code ≤ m.failover_state.code := by
      by_contra hlt
      rw [h.early (Nat.lt_of_not_le hlt)] at hpointer
      cases hpointer
    refine (h.follow hlate).map fun promoted _ => Sound.of_idle rfl rfl rfl ?_ ?_ ?_
    · rw [Sentinel.sentinelAbortFailover, hpointer]
      dsimp only
      rw [names_setSlave m name (f := fun slave => { slave with promoted := false }) fun _ => rfl]
      exact h.names
    · rw [Sentinel.sentinelAbortFailover, hpointer]
      intro slave' hslave'
      obtain ⟨slave, hslave, rfl⟩ := List.mem_map.mp hslave'
      split
      · rfl
      · rename_i hother
        by_contra hflag
        have hsome := h.only slave hslave (Bool.eq_true_of_not_eq_false hflag)
        rw [hpointer] at hsome
        exact hother (Option.some.inj hsome).symm
    · rw [Sentinel.sentinelAbortFailover, hpointer]
      intro slave' hslave'
      obtain ⟨slave, hslave, rfl⟩ := List.mem_map.mp hslave'
      split
      · exact hbusy slave hslave
      · exact hbusy slave hslave

/-- A failover that starts. -/
theorem Sound.begin (h : Sound m reconf) (hidle : m.failover_in_progress = false) (hm : m'.slaves = m.slaves)
    (hprogress : m'.failover_in_progress = true) (hstate : m'.failover_state = .wait_start) (hpromoted : m'.promoted_slave = m.promoted_slave) :
    Sound m' reconf := by
  have hnone : m.failover_state = .none := h.not_running hidle
  have hpointer : m.promoted_slave = none := h.early (by rw [hnone]; decide)
  refine ⟨?_, ?_, fun _ => hpromoted.trans hpointer, fun hlate => ?_, fun slave hslave hflag => ?_, fun slave hslave hbusy => ?_⟩
  · rw [hprogress, hstate]
    exact iff_of_true rfl nofun
  · rw [hm]
    exact h.names
  · rw [hstate] at hlate
    exact absurd hlate (by decide)
  · rw [hm] at hslave
    rw [hpromoted]
    exact h.only slave hslave hflag
  · rw [hm] at hslave
    have hbad := h.reconf slave hslave hbusy
    rw [hnone] at hbad
    exact absurd hbad (by decide)

theorem sound_selectSlave (h : Sound m reconf) (hstate : m.failover_state = .select_slave) :
    Safe (Sound · reconf) (sentinelFailoverSelectSlave env m) := by
  unfold sentinelFailoverSelectSlave
  split
  · exact sound_abort h (by rw [hstate]; nofun) (by rw [hstate]; decide)
  · rename_i selected hselect
    have hmem := selectSlave_mem hselect
    have hpointer : m.promoted_slave = none := h.early (by rw [hstate]; decide)
    have hflags : ∀ slave ∈ m.slaves, slave.promoted = false := by
      intro slave hslave
      by_contra hflag
      have hsome := h.only slave hslave (Bool.eq_true_of_not_eq_false hflag)
      rw [hpointer] at hsome
      cases hsome
    refine Safe.ok ⟨iff_of_true (h.running.mpr (by rw [hstate]; nofun)) nofun, ?_, fun hearly => absurd hearly (Nat.lt_irrefl 3), fun _ => ?_,
      fun slave' hslave' hflag => ?_, fun slave' hslave' hbusy => ?_⟩
    · show ((m.setSlave selected.name _).slaves.map Slave.name).Nodup
      rw [names_setSlave m selected.name (f := fun slave => { slave with promoted := true }) fun _ => rfl]
      exact h.names
    · refine ⟨{ selected with promoted := true }, ?_, rfl, rfl⟩
      refine List.mem_map.mpr ⟨selected, hmem, ?_⟩
      rw [if_pos rfl]
    · obtain ⟨slave, hslave, rfl⟩ := List.mem_map.mp hslave'
      split at hflag
      · rename_i hsame
        rw [if_pos hsame]
        exact congrArg some hsame.symm
      · rw [hflags slave hslave] at hflag
        cases hflag
    · obtain ⟨slave, hslave, rfl⟩ := List.mem_map.mp hslave'
      have hbad : (reconf slave.name).busy = true := by
        split at hbusy
        · exact hbusy
        · exact hbusy
      have hle := h.reconf slave hslave hbad
      rw [hstate] at hle
      exact absurd hle (by decide)

theorem sound_sendSlaveOfNoOne (h : Sound m reconf) (hstate : m.failover_state = .send_slaveof_noone) :
    Safe (Sound · reconf) (sentinelFailoverSendSlaveOfNoOne env m) := by
  have hlate : FailoverState.send_slaveof_noone.code ≤ m.failover_state.code := by rw [hstate]
  refine (h.follow hlate).bind fun promoted _ => ?_
  split
  · split
    · exact sound_abort h (by rw [hstate]; nofun) (by rw [hstate]; decide)
    · exact Safe.ok h
  · split
    · exact Safe.ok (h.goOn .wait_promotion _ hlate (by rw [hstate]; decide))
    · exact Safe.ok h

theorem sound_waitPromotion (h : Sound m reconf) (hstate : m.failover_state = .wait_promotion) :
    Safe (Sound · reconf) (sentinelFailoverWaitPromotion env m) := by
  unfold sentinelFailoverWaitPromotion
  split
  · exact sound_abort h (by rw [hstate]; nofun) (by rw [hstate]; decide)
  · exact Safe.ok h

/-! ### The slaves that are told -/

/-- The promotion is seen. -/
def Late (w : Watched) : Prop := Sound w.master w.reconf ∧ FailoverState.reconf_slaves.code ≤ w.master.failover_state.code

variable {w : Watched}

theorem Late.follow (h : Late w) : Safe (fun slave => slave ∈ w.master.slaves ∧ w.master.promoted_slave = some slave.name ∧ slave.promoted = true)
    (follow w.master) :=
  h.1.follow (le_trans (by decide) h.2)

theorem Late.setReconf (h : Late w) (name : Sds) (r : Reconf) : Late (w.setReconf name r) := ⟨h.1.setReconf name fun _ => h.2, h.2⟩

theorem Late.done (h : Late w) (name : Sds) :
    Late { w with master := w.master.setSlave name fun slave => { slave with reconf_done := true } } :=
  ⟨h.1.setSlave name (fun _ => rfl) fun _ => rfl, h.2⟩

theorem sound_sendToAll : ∀ (slaves : List Slave) {w : Watched}, Late w → Safe Late (sendToAll env slaves w)
  | [], w, h => Safe.ok h
  | slave :: slaves, w, h => by
    rw [sendToAll]
    split
    · exact sound_sendToAll slaves h
    · refine h.follow.bind fun promoted _ => sound_sendToAll slaves ?_
      split
      · exact h.setReconf slave.name _
      · exact h

theorem sound_detectEnd (h : Late w) : Safe Late (sentinelFailoverDetectEnd env w) := by
  unfold sentinelFailoverDetectEnd
  dsimp only
  split
  · exact Safe.ok h
  · refine h.follow.bind fun promoted _ => ?_
    split
    · exact Safe.ok h
    · have hlate : FailoverState.send_slaveof_noone.code ≤ w.master.failover_state.code := le_trans (by decide) h.2
      have hend : w.master.failover_state.code ≤ FailoverState.update_config.code := by
        cases w.master.failover_state <;> decide
      have hupdate : Late { w with master := { w.master with failover_state := .update_config, failover_state_change_time := env.mstime } } :=
        ⟨h.1.goOn .update_config env.mstime hlate hend, show 5 ≤ 6 by decide⟩
      split
      · refine sound_sendToAll _ ?_
        split
        · exact hupdate
        · exact h
      · refine Safe.ok ?_
        split
        · exact hupdate
        · exact h

theorem late_giveUp (h : Late w) (name : Sds) : Late (giveUp env name w) := by
  unfold giveUp
  dsimp only
  split
  · exact (h.setReconf name _).done name
  · exact h

theorem sound_reconfSlave (slave : Slave) (h : Late w) (in_progress : ℕ) : Safe (fun x => Late x.1) (reconfSlave env slave w in_progress) := by
  unfold reconfSlave
  split
  · exact Safe.ok h
  · have h1 : Late (giveUp env slave.name w) := late_giveUp h slave.name
    dsimp only
    split
    · exact Safe.ok h1
    · refine h1.follow.map fun promoted _ => ?_
      split
      · exact h1.setReconf slave.name _
      · exact h1

theorem sound_reconfSlaves : ∀ (slaves : List Slave) {w : Watched}, Late w → ∀ in_progress, Safe Late (reconfSlaves env slaves w in_progress)
  | [], w, h, in_progress => Safe.ok h
  | slave :: slaves, w, h, in_progress => by
    rw [reconfSlaves]
    split
    · exact (sound_reconfSlave slave h in_progress).bind fun x hx => sound_reconfSlaves slaves hx x.2
    · exact Safe.ok h

/-- **The promoted slave is named to the others, and the end is seen.** -/
theorem sound_reconfNextSlave (h : Late w) : Safe Late (sentinelFailoverReconfNextSlave env w) :=
  (sound_reconfSlaves w.master.slaves h _).bind fun _ => sound_detectEnd

/-! ### All masters -/

def Sounds (base : State n) (reconf : Fin n → Sds → Reconf) : Prop := ∀ i, Sound (base.masters i) (reconf i)

def KeepsAll (base base' : State n) : Prop := ∀ i, Keeps (base.masters i) (base'.masters i)

variable {base base' : State n} {reconfs : Fin n → Sds → Reconf} {i : Fin n}

theorem Sounds.keeps (h : Sounds base reconfs) (hk : KeepsAll base base') : Sounds base' reconfs := fun i => (h i).keeps (hk i)

theorem Sounds.set (h : Sounds base reconfs) (hm : Sound m (reconfs i)) : Sounds (base.set i m) reconfs := by
  intro j
  by_cases hj : j = i
  · subst hj
    rw [set_self]
    exact hm
  · rw [set_ne _ _ hj]
    exact h j

theorem Sounds.setBoth (h : Sounds base reconfs) (hm : Sound m reconf) : Sounds (base.set i m) (Function.update reconfs i reconf) := by
  intro j
  by_cases hj : j = i
  · subst hj
    rw [set_self, Function.update_self]
    exact hm
  · rw [set_ne _ _ hj, Function.update_of_ne hj]
    exact h j

theorem KeepsAll.refl (base : State n) : KeepsAll base base := fun _ => Keeps.refl _

theorem KeepsAll.trans {base'' : State n} (h : KeepsAll base base') (h' : KeepsAll base' base'') : KeepsAll base base'' :=
  fun i => (h i).trans (h' i)

theorem KeepsAll.set (hk : Keeps (base.masters i) m) : KeepsAll base (base.set i m) := by
  intro j
  by_cases hj : j = i
  · subst hj
    rw [set_self]
    exact hk
  · rw [set_ne _ _ hj]
    exact Keeps.refl _

theorem KeepsAll.of_masters (h : base'.masters = base.masters) : KeepsAll base base' := by
  intro i
  rw [h]
  exact Keeps.refl _

theorem KeepsAll.flush (h : KeepsAll base base') : KeepsAll base (sentinelFlushConfig base') := h.trans (.of_masters (flush_masters base'))

theorem keepsAll_raise (epoch : ℕ) (base : State n) : KeepsAll base (raiseEpoch epoch base) := by
  unfold raiseEpoch
  split
  · exact KeepsAll.flush (.of_masters rfl)
  · exact .refl base

/-- A vote is no matter of the failover. -/
theorem keepsAll_vote (env : Sentinel.Env) (i : Fin n) (epoch : ℕ) (runid : Sds) (base : State n) :
    KeepsAll base (sentinelVoteLeader env i epoch runid base).2 := by
  unfold sentinelVoteLeader
  dsimp only
  split
  · exact (keepsAll_raise epoch base).trans (KeepsAll.flush (.set ⟨rfl, rfl, rfl, rfl⟩))
  · exact keepsAll_raise epoch base

theorem keepsAll_request (env : Sentinel.Env) (ip : Sds) (port req_epoch : ℤ) (runid : Sds) (base : State n) :
    KeepsAll base (isMasterDownByAddr env ip port req_epoch runid base).1 := by
  unfold isMasterDownByAddr
  split
  · exact .refl base
  · split
    · exact .refl base
    · dsimp only
      split
      · exact .refl base
      · exact keepsAll_vote _ _ _ _ _

/-- Only `sentinels` differs. -/
theorem keepsAll_knowSentinel (env : Sentinel.Env) (hello : Hello) (i : Fin n) (base : State n) :
    KeepsAll base (knowSentinel env hello i base).2 := by
  intro j
  obtain ⟨sentinels, hj⟩ := (knowSentinel_same env hello i base).masters j
  rw [hj]
  exact ⟨rfl, rfl, rfl, rfl⟩

theorem sound_waitStart (h : Sounds base reconfs) (hstate : (base.masters i).failover_state = .wait_start) :
    Safe (Sounds · reconfs) (sentinelFailoverWaitStart env i base) := by
  have hne : (base.masters i).failover_state ≠ .none := by rw [hstate]; nofun
  have hrunning : ¬(!((base.masters i).o_down || (base.masters i).failover_in_progress)) = true := by
    rw [(h i).running.mpr hne, Bool.or_true]
    exact Bool.false_ne_true
  unfold sentinelFailoverWaitStart sentinelGetLeader
  rw [if_neg hrunning]
  have hk : KeepsAll base (Sentinel.sentinelGetLeader env.toEnv i (base.masters i).failover_epoch base).2 :=
    keepsAll_vote _ _ _ _ _
  generalize Sentinel.sentinelGetLeader env.toEnv i (base.masters i).failover_epoch base = x at hk
  obtain ⟨leader, base1⟩ := x
  have h1 : Sounds base1 reconfs := h.keeps hk
  have hstate1 : (base1.masters i).failover_state = .wait_start := (hk i).failover_state.trans hstate
  have hne1 : (base1.masters i).failover_state ≠ .none := by rw [hstate1]; nofun
  dsimp only [Except.bind]
  split
  · split
    · exact (sound_abort (h1 i) hne1 (by rw [hstate1]; decide)).map fun m hm => h1.set hm
    · exact Safe.ok h1
  · refine Safe.ok (h1.set ⟨iff_of_true ((h1 i).running.mpr hne1) nofun, (h1 i).names, fun _ => (h1 i).early ?_, fun hlate => ?_, (h1 i).only,
      fun slave hslave hbusy => ?_⟩)
    · rw [hstate1]
      decide
    · exact absurd (show 3 ≤ 2 from hlate) (by decide)
    · have hbad := (h1 i).reconf slave hslave hbusy
      rw [hstate1] at hbad
      exact absurd hbad (by decide)

variable {s : Full n}

/-- **A turn of the state machine is safe.** -/
theorem sound_stateMachine (h : Sounds s.base s.reconf) (i : Fin n) :
    Safe (fun s' : Full n => Sounds s'.base s'.reconf) (sentinelFailoverStateMachine env i s) := by
  unfold sentinelFailoverStateMachine
  dsimp only
  split
  · exact Safe.ok h
  · split
    · rename_i hstate
      exact (sound_waitStart h hstate).map fun base hbase => hbase
    · rename_i hstate
      exact (sound_selectSlave (h i) hstate).map fun m hm => h.set hm
    · rename_i hstate
      exact (sound_sendSlaveOfNoOne (h i) hstate).map fun m hm => h.set hm
    · rename_i hstate
      exact (sound_waitPromotion (h i) hstate).map fun m hm => h.set hm
    · rename_i hstate
      have hlate : Late (s.get i) := ⟨h i, (congrArg FailoverState.code hstate).ge⟩
      exact (sound_reconfNextSlave hlate).map fun w hw => h.setBoth hw.1
    · exact Safe.ok h

/-! ### Resets -/

/-- A master without slaves. -/
theorem sound_reset (ri : Master) (no_sentinels : Bool) (reconf : Sds → Reconf) : Sound (sentinelResetMaster no_sentinels ri) reconf :=
  Sound.of_idle rfl rfl rfl List.nodup_nil (fun _ hslave => nomatch hslave) fun _ hslave => nomatch hslave

theorem sounds_resetChange (h : Sounds s.base s.reconf) (i : Fin n) (ip : Sds) (port : ℤ) :
    Sounds (sentinelResetMasterAndChangeAddress env i ip port s).base (sentinelResetMasterAndChangeAddress env i ip port s).reconf := by
  unfold sentinelResetMasterAndChangeAddress
  split
  · exact h
  · rename_i a ha
    have hback : ∀ (l : List SentinelAddr) {m : Master}, Sound m (fun _ => {}) →
        Sound (l.foldl (fun m a => (createSlave env.toEnv a.ip a.port m).getD m) m) fun _ => {} := by
      intro l
      induction l with
      | nil => exact fun hm => hm
      | cons a l ih =>
        intro m hm
        refine ih ?_
        dsimp only
        cases hcreate : createSlave env.toEnv a.ip a.port m with
        | none => exact hm
        | some m' =>
          have hm' := hm.createSlave hcreate
          rw [Function.update_eq_self] at hm'
          exact hm'
    have hstart : Sound { sentinelResetMaster true (s.base.masters i) with addr := a } fun _ => {} :=
      (sound_reset (s.base.masters i) true _).keeps ⟨rfl, rfl, rfl, rfl⟩
    intro j
    dsimp only
    rw [Sentinel.sentinelResetMasterAndChangeAddress, ha]
    dsimp only
    rw [flush_masters]
    exact Sounds.setBoth h (hback _ hstart) j

theorem sound_switch (h : Sounds s.base s.reconf) {i : Fin n} (hstate : (s.base.masters i).failover_state = .update_config) :
    Safe (fun s' : Full n => Sounds s'.base s'.reconf) (sentinelFailoverSwitchToPromotedSlave env i s) := by
  have haddr : Safe (fun _ => True) (refAddr (s.base.masters i)) := by
    unfold refAddr
    split
    · exact Safe.ok trivial
    · exact ((h i).follow (by rw [hstate]; decide)).map fun _ _ => trivial
  exact haddr.map fun ref _ => sounds_resetChange h i ref.ip ref.port

theorem sounds_resetByPattern (h : Sounds s.base s.reconf) (pattern : Fin n → Bool) :
    Sounds (sentinelResetMastersByPattern pattern s).base (sentinelResetMastersByPattern pattern s).reconf := by
  intro i
  unfold sentinelResetMastersByPattern
  dsimp only
  split
  · exact sound_reset _ _ _
  · exact h i

theorem sounds_hello (h : Sounds s.base s.reconf) (hello : Hello) :
    Sounds (sentinelProcessHelloMessage env hello s).base (sentinelProcessHelloMessage env hello s).reconf := by
  unfold sentinelProcessHelloMessage
  split
  · exact h
  · rename_i i _
    have hk : KeepsAll s.base (raiseEpoch hello.current_epoch (knowSentinel env.toEnv hello i s.base).2) :=
      (keepsAll_knowSentinel env.toEnv hello i s.base).trans (keepsAll_raise _ _)
    dsimp only
    split
    · have hset : ∀ epoch, KeepsAll s.base ((raiseEpoch hello.current_epoch (knowSentinel env.toEnv hello i s.base).2).set i
          { (raiseEpoch hello.current_epoch (knowSentinel env.toEnv hello i s.base).2).masters i with config_epoch := epoch }) :=
        fun epoch => hk.trans (.set ⟨rfl, rfl, rfl, rfl⟩)
      split
      · refine sounds_resetChange ?_ i _ _
        exact h.keeps (hset _)
      · exact h.keeps (hset _)
    · exact h.keeps hk

/-! ### INFO -/

theorem sounds_addSlave (i : Fin n) (h : Sounds s.base s.reconf) (addr : Sds × ℤ) :
    Sounds (addSlave env i s addr).base (addSlave env i s addr).reconf := by
  unfold addSlave
  split
  · exact h
  · rename_i m hcreate
    intro j
    dsimp only
    rw [flush_masters]
    exact Sounds.setBoth h ((h i).createSlave hcreate) j

theorem sounds_addSlaves (i : Fin n) : ∀ (slaves : List (Sds × ℤ)) {s : Full n}, Sounds s.base s.reconf →
    Sounds (slaves.foldl (addSlave env i) s).base (slaves.foldl (addSlave env i) s).reconf
  | [], _, h => h
  | addr :: slaves, _, h => sounds_addSlaves i slaves (sounds_addSlave i h addr)

theorem sound_reconfDone (h : Late w) (name : Sds) (r : Reconf) : Late (reconfDone name w r) := by
  unfold reconfDone
  split
  · exact (h.setReconf name _).done name
  · exact h.setReconf name r

/-- **INFO of a slave is safe**: one that was told of the promoted slave is asked for it. -/
theorem sound_actOnInfo (tilt : Bool) (role : Role) {ri : Slave} (hri : ri ∈ w.master.slaves) (h : Sound w.master w.reconf) :
    Safe (fun w : Watched => Sound w.master w.reconf) (actOnInfo env tilt role ri w) := by
  unfold actOnInfo
  split
  · exact Safe.ok h
  · split
    · rename_i hpromotes
      have hstate : w.master.failover_state = .wait_promotion := by
        rw [promotes, Bool.and_eq_true] at hpromotes
        exact of_decide_eq_true hpromotes.2
      have hlate : FailoverState.send_slaveof_noone.code ≤ w.master.failover_state.code := by rw [hstate]; decide
      refine Safe.ok ((h.goOn .reconf_slaves env.mstime hlate (by rw [hstate]; decide)).keeps ⟨rfl, rfl, rfl, rfl⟩)
    · split
      · rename_i hbusy
        rw [Bool.and_eq_true] at hbusy
        have hlate : Late w := ⟨h, h.reconf ri hri hbusy.2⟩
        have hinprog : Safe (fun _ => True) (reconfInprog w.master (w.reconf ri.name)) := by
          unfold reconfInprog
          split
          · exact Safe.ok trivial
          · split
            · exact hlate.follow.map fun _ _ => trivial
            · exact Safe.ok trivial
        exact hinprog.map fun r _ => (sound_reconfDone hlate ri.name r).1
      · exact Safe.ok h

theorem sound_info (h : Sounds s.base s.reconf) (i : Fin n) (ri : Option Sds) (info : Info) :
    Safe (fun s' : Full n => Sounds s'.base s'.reconf) (sentinelRefreshInstanceInfo env i ri info s) := by
  unfold sentinelRefreshInstanceInfo
  split
  · exact Safe.ok (sounds_addSlaves i info.slaves h)
  · split
    · exact Safe.ok h
    · rename_i ri hri
      have hmem : ri ∈ (s.base.masters i).slaves := slave_mem hri
      -- the lines that are read leave the flags
      have hread : Sound (s.base.masters i) (Function.update (s.reconf i) ri.name ((s.reconf i ri.name).read info)) :=
        (h i).setReconf ri.name fun hbusy => (h i).reconf ri hmem hbusy
      refine (sound_actOnInfo _ _ (w := (s.get i).setReconf ri.name (((s.get i).reconf ri.name).read info)) hmem hread).map fun w hw => ?_
      have hset : Sounds (s.set i w).base (s.set i w).reconf := h.setBoth hw
      split
      · exact hset.keeps (KeepsAll.flush (.refl _))
      · exact hset

/-! ### The timer and the commands -/

theorem sounds_start (env : Sentinel.Env) (h : Sounds base reconfs) (hidle : (base.masters i).failover_in_progress = false) :
    Sounds (sentinelStartFailover env i base) reconfs := by
  have hraised : Sounds { base with current_epoch := (base.current_epoch + 1) % 2 ^ 64 } reconfs := h
  exact hraised.set ((h i).begin hidle rfl rfl rfl rfl)

theorem keeps_ask (env : Sentinel.Env) (forced : Bool) (current_epoch : ℕ) (myid : Sds) (master : Master) :
    Keeps master (sentinelAskMasterStateToOtherSentinels env forced current_epoch myid master).2 :=
  ⟨rfl, rfl, rfl, rfl⟩

theorem sound_actOn (h : Sounds s.base s.reconf) (i : Fin n) : Safe (fun s' : Full n => Sounds s'.base s'.reconf) (actOn env i s) := by
  have h1 : Sounds (s.base.set i (sentinelCheckObjectivelyDown (s.base.masters i))) s.reconf := h.keeps (.set ⟨rfl, rfl, rfl, rfl⟩)
  unfold actOn
  dsimp only
  generalize s.base.set i (sentinelCheckObjectivelyDown (s.base.masters i)) = base1 at h1
  have h2 : Sounds (sentinelStartFailoverIfNeeded env.toEnv i base1).2 s.reconf := by
    rw [sentinelStartFailoverIfNeeded]
    split
    · rename_i hmay
      have hidle := (Bool.and_eq_true_iff.mp (Bool.and_eq_true_iff.mp hmay).1).2
      exact sounds_start env.toEnv h1 (Bool.not_eq_true' _ ▸ hidle)
    · exact h1
  generalize sentinelStartFailoverIfNeeded env.toEnv i base1 = x at h2
  obtain ⟨started, base2⟩ := x
  refine (sound_stateMachine ?_ i).map fun s' hs' => hs'.keeps (.set (keeps_ask ..))
  show Sounds (if started = true then _ else _) s.reconf
  split
  · exact h2.keeps (.set (keeps_ask ..))
  · exact h2

theorem sound_timer (h : Sounds s.base s.reconf) (i : Fin n) :
    Safe (fun s' : Full n => Sounds s'.base s'.reconf) (sentinelHandleRedisInstance env i s) := by
  unfold sentinelHandleRedisInstance
  split
  · split
    · exact Safe.ok h
    · have h' : Sounds (s.withBase { s.base with tilt := false }).base s.reconf := h.keeps (.of_masters rfl)
      exact sound_actOn h' i
  · exact sound_actOn h i

theorem sounds_failoverCommand (env : Sentinel.Env) (name : Sds) (h : Sounds base reconfs) : Sounds (failoverCommand env name base) reconfs := by
  rw [failoverCommand]
  split
  · exact h
  · rename_i i _
    split
    · exact h
    · rename_i hidle
      split
      · exact h
      · exact (sounds_start env h (Bool.eq_false_of_not_eq_true hidle)).keeps (.set ⟨rfl, rfl, rfl, rfl⟩)

theorem Sound.observe (h : Sound m reconf) (o : Observed) : Sound (observe m o) reconf := by
  cases o with
  | master s_down s_down_since_time => exact h.keeps ⟨rfl, rfl, rfl, rfl⟩
  | slave name => exact h.setSlave name (fun _ => rfl) fun _ => rfl
  | sentinel runid disconnected => exact h.keeps ⟨rfl, rfl, rfl, rfl⟩

/-- **Every event is safe.** -/
theorem sound_handle (h : Sounds s.base s.reconf) (env : Env) (e : Event n) :
    Safe (fun s' : Full n => Sounds s'.base s'.reconf) (handle env s e) := by
  cases e with
  | request ip port req_epoch req_runid => exact Safe.ok (h.keeps (keepsAll_request _ _ _ _ _ _))
  | reply i runid isdown leader leader_epoch => exact Safe.ok (h.keeps (.set ⟨rfl, rfl, rfl, rfl⟩))
  | hello hello => exact Safe.ok (sounds_hello h hello)
  | info i ri info => exact sound_info h i ri info
  | observe i o => exact Safe.ok (h.set ((h i).observe o))
  | timer i => exact sound_timer h i
  | switch i =>
    rw [handle]
    split
    · rename_i hstate
      exact sound_switch h hstate
    · exact Safe.ok h
  | tilt => exact Safe.ok (h.keeps (.of_masters rfl))
  | reset pattern => exact Safe.ok (sounds_resetByPattern h pattern)
  | failover name => exact Safe.ok (sounds_failoverCommand env.toEnv name h)
  | configure i quorum down_after_period failover_timeout parallel_syncs =>
    exact Safe.ok (h.keeps (KeepsAll.flush (.set ⟨rfl, rfl, rfl, rfl⟩)))
  | flushconfig => exact Safe.ok (h.keeps (KeepsAll.flush (.refl _)))
  | disk writable => exact Safe.ok (h.keeps (.of_masters rfl))

/-! ### Runs -/

/-- A Sentinel that has read its file: no failover is in progress. -/
def Fresh (s : Full n) : Prop :=
  ∀ i, (s.base.masters i).failover_in_progress = false ∧ (s.base.masters i).failover_state = .none ∧
    (s.base.masters i).promoted_slave = none ∧ ((s.base.masters i).slaves.map Slave.name).Nodup ∧
    ∀ slave ∈ (s.base.masters i).slaves, slave.promoted = false ∧ (s.reconf i slave.name).busy = false

theorem Fresh.sounds (h : Fresh s) : Sounds s.base s.reconf := by
  intro i
  obtain ⟨hprogress, hstate, hpromoted, hnames, hslaves⟩ := h i
  exact .of_idle hprogress hstate hpromoted hnames (fun slave hslave => (hslaves slave hslave).1) fun slave hslave => (hslaves slave hslave).2

/-- An event, and what is outside of the process then. -/
def Steps (s : Full n) (e : Env × Event n) (s' : Full n) : Prop := handle e.1 s e.2 = .ok s'

theorem Sound.unique (h : Sound m reconf) (hlate : FailoverState.send_slaveof_noone.code ≤ m.failover_state.code) :
    ∃ slave ∈ m.slaves, m.promoted_slave = some slave.name ∧ ∀ slave' ∈ m.slaves, slave'.promoted = true ↔ slave' = slave := by
  obtain ⟨slave, hmem, hpointer, hflag⟩ := h.late hlate
  refine ⟨slave, hmem, hpointer, fun slave' hmem' => ⟨fun hflag' => ?_, fun hsame => hsame ▸ hflag⟩⟩
  have hname : slave'.name = slave.name := Option.some.inj ((h.only slave' hmem' hflag').symm.trans hpointer)
  have hfind' := slave_of_mem h.names hmem'
  rw [hname, slave_of_mem h.names hmem] at hfind'
  exact (Option.some.inj hfind').symm

/-- **The failover state machine is sound** in every run, and no event ends the process. -/
theorem failover_is_sound {s : Full n} (h : Stepwise.Run Fresh Steps s) :
    (∀ i, ((s.base.masters i).failover_in_progress = true ↔ (s.base.masters i).failover_state ≠ .none) ∧
      (FailoverState.send_slaveof_noone.code ≤ (s.base.masters i).failover_state.code →
        ∃ slave ∈ (s.base.masters i).slaves, (s.base.masters i).promoted_slave = some slave.name ∧
          ∀ slave' ∈ (s.base.masters i).slaves, slave'.promoted = true ↔ slave' = slave) ∧
      ∀ slave ∈ (s.base.masters i).slaves, (s.reconf i slave.name).sent = true ∨ (s.reconf i slave.name).inprog = true →
        (s.base.masters i).failover_state = .reconf_slaves ∨ (s.base.masters i).failover_state = .update_config) ∧
    ∀ (env : Env) (e : Event n), ∃ s', handle env s e = .ok s' := by
  have hsound : Sounds s.base s.reconf := by
    refine h.invariant (fun s hs => hs.sounds) fun s e s' _ hs hstep => ?_
    obtain ⟨s1, hs1, hsound⟩ := sound_handle hs e.1 e.2
    rw [hstep] at hs1
    cases hs1
    exact hsound
  refine ⟨fun i => ⟨(hsound i).running, (hsound i).unique, fun slave hslave hbusy => ?_⟩, fun env e => ?_⟩
  · have hlate := (hsound i).reconf slave hslave (by rw [Reconf.busy, Bool.or_eq_true]; exact hbusy)
    revert hlate
    cases (s.base.masters i).failover_state <;> decide
  · obtain ⟨s', hs', -⟩ := sound_handle hsound env e
    exact ⟨s', hs'⟩

/-- The Sentinel of one master and a slave, as it starts. -/
def sampleFull : Full 1 := ⟨sampleStart.1, fun _ _ => {}, fun _ => 1⟩

theorem fresh_sampleFull : Fresh sampleFull := by
  intro i
  obtain rfl : i = 0 := Subsingleton.elim _ _
  refine ⟨by decide, by decide, by decide, by decide, ?_⟩
  have hslaves : ∀ slave ∈ (sampleFull.base.masters 0).slaves, slave.promoted = false := by decide
  exact fun slave hslave => ⟨hslaves slave hslave, rfl⟩

/-- The events one after another. -/
def play : Full n → List (Env × Event n) → Full n
  | s, [] => s
  | s, e :: events =>
    match handle e.1 s e.2 with
    | .ok s' => play s' events
    | .error _ => s

theorem play_run : ∀ (events : List (Env × Event n)) {s : Full n}, Stepwise.Run Fresh Steps s → Stepwise.Run Fresh Steps (play s events)
  | [], s, h => h
  | e :: events, s, h => by
    rw [play]
    split
    · rename_i s' hstep
      exact play_run events (h.step (e := e) hstep)
    · exact h

def sampleEnv' (mstime : ℤ) : Env := { sampleEnv mstime with send := fun _ => true }

/-- The master is down, its slave is promoted and says so. -/
def sampleEvents : List (Env × Event 1) :=
  [(sampleEnv' 400000, .observe ⟨0, Nat.one_pos⟩ (.slave (anetFormatAddr replica2.ip replica2.port) false false false false 400000 100 0 none 400000 0)),
    (sampleEnv' 400000, .observe ⟨0, Nat.one_pos⟩ (.master true 370000)), (sampleEnv' 400000, .timer ⟨0, Nat.one_pos⟩), (sampleEnv' 400100, .timer ⟨0, Nat.one_pos⟩),
    (sampleEnv' 400200, .timer ⟨0, Nat.one_pos⟩),
    (sampleEnv' 400300, .info ⟨0, Nat.one_pos⟩ (some (anetFormatAddr replica2.ip replica2.port)) ⟨.master, [], none, none, none⟩)]

/-- The failover is as far as the other slaves. -/
theorem failover_is_sound_promoted :
    ((play sampleFull sampleEvents).base.masters 0).failover_state = .reconf_slaves ∧
    ∃ slave ∈ ((play sampleFull sampleEvents).base.masters 0).slaves,
      ((play sampleFull sampleEvents).base.masters 0).promoted_slave = some slave.name ∧
      ∀ slave' ∈ ((play sampleFull sampleEvents).base.masters 0).slaves, slave'.promoted = true ↔ slave' = slave :=
  ⟨by decide, ((failover_is_sound (play_run sampleEvents (.start fresh_sampleFull))).1 0).2.1 (by decide)⟩

end RedisZk.Sentinel.Machine
