/-
# The commands, as runs of steps

The subcommands of CLUSTER (`clusterCommand_does`), and what is left of the
events of a process: a broken link, a published message and the check of the
slots against the keys after a start. The check of the slot arguments is what
keeps the assertion of ADDSLOTS and DELSLOTS from failing
(`checkSlotArgs_spec`).

Key definitions: `DoesReply`, `CommandOK`.
Key theorems: `checkSlotArgs_spec`, `slotsCommand_does`, `clusterCommand_does`, `freeClusterLink_soft`,
`verifyClusterConfigWithData_moves`.
-/
import RedisZk.Cluster.CronSteps

namespace RedisZk.Cluster

open Relation
open Stepwise (Within)

variable {st st' st'' : Server} {c : Ctx} {R : Set NodeName} {x : NodeName}

/-- The state a command leaves, whatever it replies, is reached by steps. -/
abbrev DoesReply (c : Ctx) (st : Server) (r : Outcome) : Prop :=
  Within (fun o : Server × Reply => Changes c st o.1) (Stepwise.Fails (Change c) Cause st) r

theorem DoesReply.reply (h : Moves c st st') (r : Reply) : DoesReply c st (.ok (st', r)) := h.change

theorem DoesReply.refl (st : Server) (r : Reply) : DoesReply c st (.ok (st, r)) := ReflTransGen.refl

theorem DoesReply.bind {r : Except Abort Server} {f : Server → Outcome} (h : DoesChange c st r)
    (hf : ∀ b, Changes c st b → DoesReply c b (f b)) : DoesReply c st (r >>= f) :=
  Within.bind h fun b hb => Within.mono (hf b hb) (fun _ h' => hb.trans h') fun _ h' => h'.trans hb

theorem DoesReply.trans (h : Changes c st st') {r : Outcome} (hr : DoesReply c st' r) : DoesReply c st r :=
  Within.mono hr (fun _ h' => h.trans h') fun _ h' => h'.trans h

theorem updateAndSave_moves (st : Server) : Moves c st (updateAndSave st) := (Soft.doBeforeSleep st _).moves

/-! ### MEET -/

theorem meetCommand_does (env : Env) (hi : NodeInv c.R x st) (ip : String) (port cport : ℤ)
    (hrandom : env.randomName ∉ c.R) : DoesReply c st (meetCommand env st ip port cport) := by
  have hstart : Moves c st (clusterStartHandshake env st ip port cport).1 := by
    unfold clusterStartHandshake
    split
    · exact .refl
    · rename_i normIp _
      split
      · exact .refl
      · split
        · exact .refl
        · exact createNode_moves (c := c) env hi.table none { handshake := true, meet := true } normIp port.toNat
            cport.toNat rfl fun h => absurd h hrandom
  unfold meetCommand
  generalize clusterStartHandshake env st ip port cport = r at hstart
  obtain ⟨s, result⟩ := r
  exact Within.ite (DoesReply.reply hstart _) (DoesReply.reply hstart _)

/-! ### Slots -/

theorem flushslotsCommand_does (env : Env) (hi : NodeInv c.R x st) : DoesReply c st (flushslotsCommand env st) := by
  unfold flushslotsCommand
  split
  · exact .refl st _
  · refine Within.bind (Within.mono (clusterDelNodeSlots_within hi st.myself) (fun _ => id) nofun) fun b hb => ?_
    exact DoesReply.reply (hb.moves.trans (updateAndSave_moves b)) .ok

/-- The slots that pass the check are bound (DELSLOTS) or unbound (ADDSLOTS). -/
theorem checkSlotArgs_spec (st : Server) (del : Bool) : ∀ (args : List ℤ) (seen slots : List Slot),
    checkSlotArgs st del args seen = .ok slots → (∀ j ∈ seen, (st.slots j).isSome = del) →
      ∀ j ∈ slots, (st.slots j).isSome = del
  | [], seen, slots, h, hseen => by
    rw [checkSlotArgs, Except.ok.injEq] at h
    rw [← h]
    exact hseen
  | arg :: rest, seen, slots, h, hseen => by
    rw [checkSlotArgs] at h
    split at h
    · cases h
    · rename_i slot _
      split at h
      · cases h
      · rename_i hbound
        split at h
        · cases h
        · rename_i hfree
          split at h
          · cases h
          · refine checkSlotArgs_spec st del rest _ slots h fun j hj => ?_
            rcases List.mem_append.mp hj with hj | hj
            · exact hseen j hj
            · rw [List.mem_singleton.mp hj]
              cases hs : st.slots slot <;> cases del <;> simp_all

theorem clusterAddSlot_slots {p : NodePtr} {j : Slot} (hj : st.slots j = none) :
    (clusterAddSlot st p j).slots = Function.update st.slots j (some p) := by
  unfold clusterAddSlot clusterNodeSetSlotBit
  rw [hj, if_neg (by simp)]
  split <;> rfl

/-- One slot of ADDSLOTS or DELSLOTS that passed the check. -/
theorem addOrDelSlot_within (hi : NodeInv c.R x st) (del : Bool) {j : Slot} (hj : (st.slots j).isSome = del)
    (hslave : del = false → nodeIsMaster st.me = true ∨ c.slaveSlots) :
    Within (fun b => SlotRun c st b ∧ ∀ k, k ≠ j → b.slots k = st.slots k) (fun _ => False) (addOrDelSlot del st j) := by
  unfold addOrDelSlot
  extract_lets s1
  have hsoft : Soft c.R st s1 := .openSlots st (fun _ _ => .inl) fun k q hq => by
    rw [Function.update_apply] at hq
    split at hq
    · cases hq
    · exact .inl hq
  have hopen : SlotRun c st s1 := ⟨hsoft.moves, .openSlots (fun _ _ => id) fun k q hq => by
    rw [Function.update_apply] at hq
    split at hq
    · cases hq
    · exact hq⟩
  have hi1 := hi.moves hopen.moves
  have hslots : s1.slots = st.slots := rfl
  cases del with
  | true =>
    have hne : s1.slots j ≠ none := by
      rw [hslots, ← Option.isSome_iff_ne_none]
      exact hj
    obtain ⟨s2, heq, hm, hk, hs2, -⟩ := clusterDelSlot_spec (c := c) hi1.slots j
    rw [if_pos rfl, if_neg hne, heq]
    refine ⟨hopen.trans ⟨hm, hk⟩, fun k hkj => ?_⟩
    rw [hs2, Function.update_of_ne hkj, hslots]
  | false =>
    have hnone : s1.slots j = none := by
      rw [hslots]
      simpa using hj
    rw [if_neg (by simp), if_neg (by simp [hnone])]
    have hadd : SlotRun c s1 (clusterAddSlot s1 s1.myself j) := .addSlot hi1.table.myself_mem hnone fun _ => hslave rfl
    refine ⟨hopen.trans hadd, fun k hkj => ?_⟩
    rw [clusterAddSlot_slots hnone, Function.update_of_ne hkj, hslots]

theorem slotsCommand_does (hi : NodeInv c.R x st) (del : Bool) (args : List ℤ)
    (hslave : del = false → nodeIsMaster st.me = true ∨ c.slaveSlots) :
    DoesReply c st (slotsCommand st del args) := by
  unfold slotsCommand
  split
  · exact .refl st _
  · rename_i slots hcheck
    have hbound := checkSlotArgs_spec st del args [] slots hcheck (by simp)
    have hloop := Within.foldlM_pending (E := fun _ => False) (Q := SlotRun c st)
      (G := fun j b => j ∈ slots → (b.slots j).isSome = del)
      (f := fun st j => if j ∈ slots then addOrDelSlot del st j else .ok st) allSlots st
      (by unfold allSlots; exact List.nodup_finRange _) (.refl st) (fun j _ => hbound j) (by
        intro b hb j _ hj
        split
        · rename_i hmem
          refine Within.mono (addOrDelSlot_within (hi.moves hb.moves) del (hj hmem) fun h => ?_)
            (fun b' h => ⟨hb.trans h.1, fun k hk hold => ?_⟩) fun _ => id
          · rw [hb.keeps.me_master]
            exact hslave h
          · rw [h.2 k hk]
            exact hold
        · exact ⟨hb, fun _ _ => id⟩)
    refine Within.bind (Within.mono hloop (fun _ => id) nofun) fun b hb => ?_
    exact DoesReply.reply (hb.moves.trans (updateAndSave_moves b)) .ok

/-- Migrating and importing slots set or cleared at one slot. -/
theorem openSlot_soft (st : Server) (j : Slot) (mig imp : Option NodePtr)
    (hmig : ∀ q, mig = some q → st.migratingSlotsTo j = some q ∨ q ∈ st.nodes)
    (himp : ∀ q, imp = some q → st.importingSlotsFrom j = some q ∨ q ∈ st.nodes) :
    Soft R st { st with
      migratingSlotsTo := Function.update st.migratingSlotsTo j mig
      importingSlotsFrom := Function.update st.importingSlotsFrom j imp } := by
  refine .openSlots st (fun k q hq => ?_) fun k q hq => ?_
  · rw [Function.update_apply] at hq
    split at hq
    · rename_i e
      rw [e]
      exact hmig q hq
    · exact .inl hq
  · rw [Function.update_apply] at hq
    split at hq
    · rename_i e
      rw [e]
      exact himp q hq
    · exact .inl hq

theorem bumpConfigEpoch_master (st : Server) :
    nodeIsMaster (clusterBumpConfigEpochWithoutConsensus st).1.me = nodeIsMaster st.me := by
  unfold clusterBumpConfigEpochWithoutConsensus
  split
  · change nodeIsMaster ((assignCurrentEpoch (drawEpoch st .bump)).heap st.myself) = _
    refine modNode_field nodeIsMaster ?_ (drawEpoch st .bump) st.myself st.myself
    exact fun _ => rfl
  · rfl

theorem setslotNode_does (env : Env) (hi : NodeInv c.R x st) (node : NodeName) (j : Slot)
    (hm : nodeIsMaster st.me = true) : DoesReply c st (setslotNode env st node j) := by
  unfold setslotNode
  split
  · exact .refl st _
  · rename_i n hn
    split
    · exact .refl st _
    · extract_lets s1 s2
      have hclose : ∀ (s : Server) (mig imp : Option NodePtr), (mig = none ∨ mig = s.migratingSlotsTo j) →
          (imp = none ∨ imp = s.importingSlotsFrom j) → Soft c.R s { s with
            migratingSlotsTo := Function.update s.migratingSlotsTo j mig
            importingSlotsFrom := Function.update s.importingSlotsFrom j imp } := by
        intro s mig imp hmig himp
        refine openSlot_soft s j _ _ (fun q hq => ?_) fun q hq => ?_
        · rcases hmig with h | h
          · rw [h] at hq
            cases hq
          · exact .inl (h ▸ hq)
        · rcases himp with h | h
          · rw [h] at hq
            cases hq
          · exact .inl (h ▸ hq)
      have h1 : Soft c.R st s1 := by
        refine .ite (fun _ => ?_) fun _ => .refl st
        have h := hclose st none (st.importingSlotsFrom j) (.inl rfl) (.inr rfl)
        rwa [Function.update_eq_self] at h
      have hi1 := hi.moves h1.moves
      have hm1 : nodeIsMaster s1.me = true := by
        rw [nodeIsMaster, Server.me, h1.table.myself, (h1.table.core _).master]
        exact hm
      have h2 : Moves c s1 s2 ∧ nodeIsMaster s2.me = true := by
        dsimp only [s2]
        split
        · have hbump := clusterBumpConfigEpochWithoutConsensus_moves (c := c) hi1
          have h := hclose (clusterBumpConfigEpochWithoutConsensus s1).1
            ((clusterBumpConfigEpochWithoutConsensus s1).1.migratingSlotsTo j) none (.inr rfl) (.inl rfl)
          rw [Function.update_eq_self] at h
          exact ⟨hbump.trans h.moves, (bumpConfigEpoch_master s1).trans hm1⟩
        · exact ⟨.refl, hm1⟩
      have h12 : Moves c st s2 := h1.moves.trans h2.1
      have hi2 := hi.moves h12
      obtain ⟨s3, heq, hrun⟩ := rebindSlot_within (c := c) hi2 (h12.mem (clusterLookupNode_some hn).1) j
        fun _ => .inl h2.2
      refine DoesReply.trans h12.change ?_
      rw [heq]
      exact DoesReply.reply (hrun.moves.trans (updateAndSave_moves _)) .ok

/-- SETSLOT of a master. -/
theorem setslotCommand_does (hi : NodeInv c.R x st) (slot : ℤ) {act : Slot → Outcome}
    (h : nodeIsMaster st.me = true → ∀ j, DoesReply c st (act j)) : DoesReply c st (setslotCommand st slot act) := by
  unfold setslotCommand
  split
  · exact .refl st _
  · rename_i hslave
    split
    · exact .refl st _
    · exact h (hi.me_master_or_slave.resolve_right hslave) _

theorem setslotMigrating_does (st : Server) (node : NodeName) (j : Slot) :
    DoesReply c st (setslotMigrating st node j) := by
  unfold setslotMigrating
  split
  · exact .refl st _
  · split
    · exact .refl st _
    · rename_i n hn
      have hopen := openSlot_soft (R := c.R) st j (some n) (st.importingSlotsFrom j)
        (fun q hq => .inr (Option.some.inj hq ▸ (clusterLookupNode_some hn).1)) fun q hq => .inl hq
      rw [Function.update_eq_self] at hopen
      exact .reply (hopen.moves.trans (updateAndSave_moves _)) .ok

theorem setslotImporting_does (st : Server) (node : NodeName) (j : Slot) :
    DoesReply c st (setslotImporting st node j) := by
  unfold setslotImporting
  split
  · exact .refl st _
  · split
    · exact .refl st _
    · rename_i n hn
      have hopen := openSlot_soft (R := c.R) st j (st.migratingSlotsTo j) (some n)
        (fun q hq => .inl hq) fun q hq => .inr (Option.some.inj hq ▸ (clusterLookupNode_some hn).1)
      rw [Function.update_eq_self] at hopen
      exact .reply (hopen.moves.trans (updateAndSave_moves _)) .ok

theorem setslotStable_does (st : Server) (j : Slot) : DoesReply c st (setslotStable st j) := by
  have hopen := openSlot_soft (R := c.R) st j none none nofun nofun
  exact .reply (hopen.moves.trans (updateAndSave_moves _)) .ok

/-! ### Epochs, nodes and roles -/

theorem bumpepochCommand_does (hi : NodeInv c.R x st) : DoesReply c st (bumpepochCommand st) :=
  .reply (clusterBumpConfigEpochWithoutConsensus_moves hi) _

theorem setConfigEpochCommand_does (hi : NodeInv c.R x st) (epoch : ℤ) :
    DoesReply c st (setConfigEpochCommand st epoch) := by
  unfold setConfigEpochCommand
  refine Within.ite (DoesReply.refl st _) (Within.ite (DoesReply.refl st _) (Within.ite (DoesReply.refl st _) ?_))
  extract_lets s1 s2
  -- the same state with the epochs written in the other order
  have hraise : Moves c st { st with currentEpoch := max st.currentEpoch epoch.toNat } :=
    .single (.raise st _ (le_max_left _ _))
  have hlearn := Reshape.learn (c := c) { st with currentEpoch := max st.currentEpoch epoch.toNat } st.myself
    epoch.toNat hi.table.myself_mem (le_max_right _ _)
  have heq : s2 = Server.modNode { st with currentEpoch := max st.currentEpoch epoch.toNat } st.myself fun n =>
      { n with configEpoch := epoch.toNat } := by
    dsimp only [s2, s1]
    split
    · rename_i h
      have hmax : max st.currentEpoch epoch.toNat = epoch.toNat := max_eq_right (le_of_lt h)
      rw [hmax]
      rfl
    · rename_i h
      have hmax : max st.currentEpoch epoch.toNat = st.currentEpoch := max_eq_left (not_lt.mp h)
      rw [hmax]
  rw [heq]
  exact DoesReply.reply ((hraise.trans hlearn.moves).trans (updateAndSave_moves _)) .ok

theorem forgetCommand_does (env : Env) (hi : NodeInv c.R x st) (node : NodeName) :
    DoesReply c st (forgetCommand env st node) := by
  unfold forgetCommand
  split
  · exact .refl st _
  · rename_i n hn
    split
    · exact .refl st _
    · rename_i hme
      split
      · exact .refl st _
      · rename_i hmaster
        have hlist : Soft c.R st (clusterBlacklistAddNode env st n) := .of_eq rfl id
        have hi1 := hi.moves hlist.moves
        refine DoesReply.trans hlist.moves.change (DoesReply.bind (clusterDelNode_does env hi1
          (hlist.moves.mem (clusterLookupNode_some hn).1) hme fun hso => ?_) fun b _ =>
            DoesReply.reply (updateAndSave_moves b) .ok)
        have hso' : st.me.slaveof = some n := hso
        exact absurd ⟨hi.me_slave (by simp [hso']), hso'⟩ hmaster

theorem replicateCommand_does (env : Env) (st : Server) (node : NodeName) :
    DoesReply c st (replicateCommand env st node) := by
  unfold replicateCommand
  split
  · exact .refl st _
  · rename_i n hn
    split
    · exact .refl st _
    · rename_i hne
      split
      · exact .refl st _
      · split
        · exact .refl st _
        · rename_i hslots
          refine DoesReply.bind (Does.change (clusterSetMaster_does (clusterLookupNode_some hn).1 hne fun hm => ?_))
            fun b _ => DoesReply.reply (updateAndSave_moves b) .ok
          by_contra h
          exact hslots ⟨hm, .inl h⟩

theorem failoverCommand_does (env : Env) (hi : NodeInv c.R x st) (mode : FailoverMode) :
    DoesReply c st (failoverCommand env st mode) := by
  unfold failoverCommand
  split
  · exact .refl st _
  · split
    · exact .refl st _
    · rename_i m hm
      split
      · exact .refl st _
      · extract_lets s0 s1
        have h1 : Soft c.R st s1 := .of_eq rfl id
        clear_value s1
        have hi1 := hi.moves h1.moves
        refine DoesReply.trans h1.moves.change ?_
        cases mode with
        | default => exact .reply (clusterSendMFStart_moves hi1 env m) .ok
        | force =>
          have h2 : Soft c.R s1 { s1 with mfCanStart := true } := .of_eq rfl id
          exact .reply h2.moves .ok
        | takeover =>
          have hbump := clusterBumpConfigEpochWithoutConsensus_moves (c := c) hi1
          refine DoesReply.trans hbump.change (DoesReply.bind (Does.change
            (clusterFailoverReplaceYourMaster_does env (hi1.moves hbump) .takeover nofun nofun)) fun b _ => ?_)
          exact .refl b .ok

/-! ### `clusterCommand` -/

/-- What a command needs of the circumstances: new nodes get names of no process, and
slots go to a slave only where that is allowed. -/
structure CommandOK (c : Ctx) (st : Server) (env : Env) (cmd : Command) : Prop where
  random : env.randomName ∉ c.R
  addslots : ∀ slots, cmd = .addslots slots → nodeIsMaster st.me = true ∨ c.slaveSlots

theorem clusterCommand_does (env : Env) (hi : NodeInv c.R x st) (cmd : Command) (hok : CommandOK c st env cmd) :
    DoesReply c st (clusterCommand env st cmd) := by
  cases cmd with
  | meet ip port cport => exact meetCommand_does env hi ip port cport hok.random
  | flushslots => exact flushslotsCommand_does env hi
  | addslots slots => exact slotsCommand_does hi false slots fun _ => hok.addslots slots rfl
  | delslots slots => exact slotsCommand_does hi true slots nofun
  | setslotMigrating slot node => exact setslotCommand_does hi slot fun _ => setslotMigrating_does st node
  | setslotImporting slot node => exact setslotCommand_does hi slot fun _ => setslotImporting_does st node
  | setslotStable slot => exact setslotCommand_does hi slot fun _ => setslotStable_does st
  | setslotNode slot node => exact setslotCommand_does hi slot fun hm j => setslotNode_does env hi node j hm
  | bumpepoch => exact bumpepochCommand_does hi
  | saveconfig => exact .reply (clusterSaveConfig_moves st true) .ok
  | forget node => exact forgetCommand_does env hi node
  | replicate node => exact replicateCommand_does env st node
  | failover mode => exact failoverCommand_does env hi mode
  | setConfigEpoch epoch => exact setConfigEpochCommand_does hi epoch

/-! ### The other events -/

/-- The link of node `p` breaks (`handleLinkIOError`, or the other process is gone). -/
theorem freeClusterLink_soft (st : Server) (p : NodePtr) : Soft R st (st.modNode p fun n => { n with link := none }) :=
  .modNode st p ⟨rfl, rfl, rfl, rfl, rfl, rfl, rfl, rfl, rfl, rfl⟩ (.inr rfl) .inl

theorem verifyClusterConfigWithData_moves (env : Env) (hi : NodeInv c.R x st) :
    Moves c st (verifyClusterConfigWithData env st) := by
  unfold verifyClusterConfigWithData
  refine .ite (fun _ => .refl) fun hskip => ?_
  have hm : nodeIsMaster st.me = true := by
    refine hi.me_master_or_slave.resolve_right fun h => hskip ?_
    simp [h]
  extract_lets fix
  have hloop := Stepwise.foldl_invariant
    (Q := fun acc : Server × Bool => Moves c st acc.1 ∧ nodeIsMaster acc.1.me = true) (f := fix) allSlots
    (st, false) ⟨.refl, hm⟩ fun acc ⟨hacc, hmaster⟩ j _ => ?_
  · generalize allSlots.foldl fix (st, false) = r at hloop
    exact .ite (fun _ => hloop.1.trans (clusterSaveConfig_moves _ _)) fun _ => hloop.1
  · have hi' := hi.moves hacc
    dsimp only [fix]
    split
    · exact ⟨hacc, hmaster⟩
    · split
      · rename_i hj
        have hadd : SlotRun c acc.1 (clusterAddSlot acc.1 acc.1.myself j) :=
          .addSlot hi'.table.myself_mem hj fun _ => .inl hmaster
        exact ⟨hacc.trans hadd.moves, hadd.keeps.me_master.trans hmaster⟩
      · rename_i n hn
        have hopen := openSlot_soft (R := c.R) acc.1 j (acc.1.migratingSlotsTo j) (some n)
          (fun q hq => .inl hq) fun q hq => .inr (Option.some.inj hq ▸ hi'.slots.owner_mem j n hn)
        rw [Function.update_eq_self] at hopen
        exact ⟨hacc.trans hopen.moves, hmaster⟩

end RedisZk.Cluster
