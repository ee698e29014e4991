/-
# Epochs, roles and slots as runs of moves

The functions of Config and the removal of a node. A loop over the slots keeps
everything but slots (`Keeps .slots`), which is what its caller needs to know
about the roles afterwards; it never aborts, since `SlotInv` holds before every
turn.

Key theorems: `clusterDelSlot_spec`, `slotLoop`, `clusterSetMaster_does`,
`clusterUpdateSlotsConfigWith_does`, `clusterDelNode_does`.
-/
import RedisZk.Cluster.TableSteps

namespace RedisZk.Cluster

open Relation
open Stepwise (Within)

variable {st st' st'' : Server} {c : Ctx} {R : Set NodeName} {x : NodeName}

/-! ### Epochs and nodes.conf -/

theorem clusterSaveConfig_moves (st : Server) (b : Bool) : Moves c st (clusterSaveConfig st b) := .single (.save st b)

theorem drawEpoch_moves (st : Server) (reason : EpochReason) : Moves c st (drawEpoch st reason) :=
  .single (.draw st reason)

theorem assignCurrentEpoch_moves (hi : NodeInv R x st) : Moves c st (assignCurrentEpoch st) :=
  (Reshape.learn st st.myself st.currentEpoch hi.table.myself_mem le_rfl).moves

theorem clusterBumpConfigEpochWithoutConsensus_moves (hi : NodeInv c.R x st) :
    Moves c st (clusterBumpConfigEpochWithoutConsensus st).1 := by
  unfold clusterBumpConfigEpochWithoutConsensus
  split
  · have hd := drawEpoch_moves (c := c) st .bump
    exact (hd.trans (assignCurrentEpoch_moves (hi.moves hd))).trans (Soft.doBeforeSleep _ _).moves
  · exact .refl

theorem clusterHandleConfigEpochCollision_moves (hi : NodeInv c.R x st) (sender : NodePtr) :
    Moves c st (clusterHandleConfigEpochCollision st sender) := by
  unfold clusterHandleConfigEpochCollision
  split
  · exact .refl
  · split
    · exact .refl
    · have hd := drawEpoch_moves (c := c) st .collision
      exact (hd.trans (assignCurrentEpoch_moves (hi.moves hd))).trans (clusterSaveConfig_moves _ _)

theorem clusterUpdateMyselfFlags_soft (env : Env) (st : Server) : Soft R st (clusterUpdateMyselfFlags env st) := by
  have hflags : Soft R st (st.modFlags st.myself fun f => { f with nofailover := env.clusterSlaveNoFailover }) :=
    .modFlags st _ (fun _ => ⟨rfl, rfl, rfl, rfl⟩) fun h => .inl h
  unfold clusterUpdateMyselfFlags
  dsimp only
  split
  · exact hflags
  · exact hflags.trans (.doBeforeSleep _ _)

theorem clusterUpdateState_soft (env : Env) (st : Server) : Soft R st (clusterUpdateState env st) := by
  unfold clusterUpdateState
  dsimp only
  refine .ite (fun _ => .of_eq rfl id) fun _ => .ite (fun _ => .of_eq rfl id) fun _ => ?_
  exact .ite (fun _ => .of_eq rfl id) fun _ => .of_eq rfl id

theorem resetManualFailover_soft (st : Server) : Soft R st (resetManualFailover st) := .of_eq rfl id

/-! ### Slots -/

theorem Keeps.me {part : Part} (h : Keeps part st st') : st'.me = st'.heap st.myself := by
  rw [Server.me, h.myself]

theorem Keeps.me_master (h : Keeps .slots st st') : nodeIsMaster st'.me = nodeIsMaster st.me := by
  rw [h.me]
  exact (h.same st.myself).master (by decide)

theorem Keeps.me_slaveof (h : Keeps .slots st st') : st'.me.slaveof = st.me.slaveof := by
  rw [h.me]
  exact (h.same st.myself).slaveof (by decide)

/-- `clusterDelSlot` leaves the slot unbound and the others as they are. -/
theorem clusterDelSlot_spec (hs : SlotInv st) (j : Slot) :
    ∃ st', clusterDelSlot st j = .ok st' ∧ Moves c st st' ∧ Keeps .slots st st' ∧
      st'.slots = Function.update st.slots j none ∧ st'.migratingSlotsTo = st.migratingSlotsTo ∧
      st'.importingSlotsFrom = st.importingSlotsFrom := by
  have heq := hs.clusterDelSlot j
  cases hj : st.slots j with
  | none =>
    rw [hj] at heq
    refine ⟨st, heq, .refl, .refl st, ?_, rfl, rfl⟩
    rw [← hj, Function.update_eq_self]
  | some n =>
    rw [hj] at heq
    exact ⟨_, heq, (Reshape.delSlot st n j hj).moves, .unbindSlot st n j, rfl, rfl, rfl⟩

/-- The state a slot loop leaves: moves that change slots only. -/
structure SlotRun (c : Ctx) (st st' : Server) : Prop where
  moves : Moves c st st'
  keeps : Keeps .slots st st'

theorem SlotRun.refl (st : Server) : SlotRun c st st := ⟨.refl, .refl st⟩

theorem SlotRun.trans (h : SlotRun c st st') (h' : SlotRun c st' st'') : SlotRun c st st'' :=
  ⟨h.moves.trans h'.moves, h.keeps.trans h'.keeps⟩

theorem SlotRun.addSlot {p : NodePtr} {j : Slot} (hp : p ∈ st.nodes) (hj : st.slots j = none)
    (hme : p = st.myself → nodeIsMaster st.me = true ∨ c.slaveSlots) : SlotRun c st (clusterAddSlot st p j) :=
  ⟨(Reshape.addSlot st p j hp hj hme).moves, .addSlot st p j⟩

theorem SlotRun.doBeforeSleep (st : Server) (t : Todo) : SlotRun c st (clusterDoBeforeSleep st t) :=
  ⟨(Soft.doBeforeSleep st t).moves, .doBeforeSleep st t⟩

/-- The owner of a slot changes to `p`: `clusterDelSlot`, then `clusterAddSlot`. -/
theorem rebindSlot_within (hi : NodeInv R x st) {p : NodePtr} (hp : p ∈ st.nodes) (j : Slot)
    (hme : p = st.myself → nodeIsMaster st.me = true ∨ c.slaveSlots) :
    ∃ st', clusterDelSlot st j = .ok st' ∧ SlotRun c st (clusterAddSlot st' p j) := by
  obtain ⟨s, heq, hm, hk, hslots, -, -⟩ := clusterDelSlot_spec (c := c) hi.slots j
  refine ⟨s, heq, SlotRun.trans ⟨hm, hk⟩ (.addSlot ?_ ?_ ?_)⟩
  · rw [hk.nodes]
    exact hp
  · rw [hslots, Function.update_self]
  · rw [hk.myself, hk.me_master]
    exact hme

/-- A loop over the slots whose turns only change slots. -/
theorem slotLoop {f : Server → Slot → Except Abort Server} {E : Abort → Prop}
    (hf : ∀ s, SlotRun c st s → ∀ j, Within (SlotRun c s) E (f s j)) :
    Within (SlotRun c st) E (allSlots.foldlM f st) :=
  Within.foldlM allSlots st (.refl st) fun s hs j _ => Within.mono (hf s hs j) (fun _ => hs.trans) fun _ => id

theorem clusterDelNodeSlots_within (hi : NodeInv c.R x st) (n : NodePtr) :
    Within (SlotRun c st) (fun _ => False) (clusterDelNodeSlots st n) := by
  refine slotLoop fun s hs j => ?_
  split
  · obtain ⟨s', heq, hm, hk, -⟩ := clusterDelSlot_spec (c := c) (hi.moves hs.moves).slots j
    rw [heq]
    exact ⟨hm, hk⟩
  · exact .refl s

/-! ### Roles -/

theorem clusterSetNodeAsMaster_moves {n : NodePtr} (hn : n ∈ st.nodes) :
    Moves c st (clusterSetNodeAsMaster st n) := (Reshape.asMaster st n hn).moves

/-- `clusterSetMaster` aborts only on a slave that serves slots. -/
theorem clusterSetMaster_does {n : NodePtr} (hn : n ∈ st.nodes) (hne : n ≠ st.myself)
    (hslots : nodeIsMaster st.me = true → st.me.numslots = 0) : Does c st (clusterSetMaster st n) := by
  cases h : clusterSetMaster st n with
  | ok s => exact (Reshape.setMaster st n s hn h).moves
  | error e =>
    unfold clusterSetMaster at h
    rw [if_neg hne] at h
    split at h
    · rename_i hnum
      cases h
      refine Stepwise.Does.fail ⟨?_, hnum⟩
      rw [← Bool.not_eq_true]
      exact fun hm => hnum (hslots hm)
    · cases h

/-! ### `clusterUpdateSlotsConfigWith` -/

theorem updateSlot_within (env : Env) {sender : NodePtr} {e : ℕ} {cm : Option NodePtr} {s : SlotScan} (j : Slot)
    (hi : NodeInv c.R x s.st) (hs : sender ∈ s.st.nodes) (hne : sender ≠ s.st.myself) :
    Within (fun b : SlotScan => SlotRun c s.st b.st) (fun _ => False) (updateSlot env sender e cm s j) := by
  have hsame : SlotRun c s.st s.st := .refl s.st
  obtain ⟨s', heq, hrun⟩ := rebindSlot_within (c := c) hi hs j fun e => absurd e hne
  unfold updateSlot
  refine .ite hsame (.ite hsame (.ite ?_ hsame))
  rw [heq]
  exact hrun.trans (.doBeforeSleep _ _)

theorem updateSlots_within (env : Env) (hi : NodeInv c.R x st) {sender : NodePtr} (hs : sender ∈ st.nodes)
    (hne : sender ≠ st.myself) (e : ℕ) (slots : Bitmap) (cm : Option NodePtr) :
    Within (fun b : SlotScan => SlotRun c st b.st) (fun _ => False) (updateSlots env st sender e slots cm) := by
  refine Within.foldlM allSlots _ (.refl st) fun s hrun j _ => ?_
  split
  · refine Within.mono (updateSlot_within env j (hi.moves hrun.moves) (hrun.moves.mem hs) ?_) (fun _ => hrun.trans)
      fun _ => id
    rw [hrun.keeps.myself]
    exact hne
  · exact hrun

theorem curMaster_keeps (h : Keeps .slots st st') : curMaster st' = curMaster st := by
  unfold curMaster
  rw [h.me_master, h.me_slaveof, h.myself]

theorem clusterUpdateSlotsConfigWith_does (env : Env) (hi : NodeInv c.R x st) {sender : NodePtr}
    (hs : sender ∈ st.nodes) (e : ℕ) (slots : Bitmap) :
    Does c st (clusterUpdateSlotsConfigWith env st sender e slots) := by
  unfold clusterUpdateSlotsConfigWith
  dsimp only
  split
  · exact .refl
  · rename_i hne
    have hkeys : ∀ (s : SlotScan), Moves c st s.st → Does c st (.ok (if s.dirtySlots = [] then s.st
        else s.st.logEvent (.delKeysInSlots s.dirtySlots))) := by
      intro s hm
      refine Stepwise.Does.ok ?_
      split
      · exact hm
      · exact hm.tail (.logKeys _ _)
    refine Within.bind (Within.mono (updateSlots_within env hi hs hne e slots _) (fun _ => id) nofun) fun s hrun => ?_
    split
    · exact Stepwise.Does.ok hrun.moves
    · split
      · have hcur := curMaster_keeps hrun.keeps
        split
        · rename_i hcm
          exact ⟨s.st, hrun.moves, by rw [Cause, hcur, hcm]⟩
        · rename_i cm hcm
          split
          · rename_i hz
            refine Stepwise.Does.trans hrun.moves (Stepwise.Does.bind (clusterSetMaster_does (hrun.moves.mem hs) ?_ ?_)
              fun b _ => Stepwise.Does.ok (Soft.doBeforeSleep _ _).moves)
            · rw [hrun.keeps.myself]
              exact hne
            · intro hm
              rw [← hcur, curMaster, if_pos hm] at hcm
              rw [Server.me, Option.some.inj hcm]
              exact hz
          · exact hkeys s hrun.moves
      · exact hkeys s hrun.moves

/-! ### A node is deleted -/

/-- Slot `j` does not lead to the node. -/
def Unused (n : NodePtr) (j : Slot) (st : Server) : Prop :=
  st.slots j ≠ some n ∧ st.migratingSlotsTo j ≠ some n ∧ st.importingSlotsFrom j ≠ some n

theorem Keeps.openSlots {part : Part} {mig imp : Slot → Option NodePtr}
    (hmig : ∀ j q, mig j = some q → st.migratingSlotsTo j = some q)
    (himp : ∀ j q, imp j = some q → st.importingSlotsFrom j = some q) :
    Keeps part st { st with migratingSlotsTo := mig, importingSlotsFrom := imp } :=
  ⟨rfl, rfl, rfl, fun _ => .refl _, fun _ => rfl, hmig, himp,
    ⟨rfl, rfl, rfl, rfl, rfl, rfl, rfl, rfl, rfl, rfl, rfl, id⟩⟩

/-- A slot closed for the node `n`. -/
def closeFor (n : NodePtr) (f : Slot → Option NodePtr) (j : Slot) : Slot → Option NodePtr :=
  if f j = some n then Function.update f j none else f

theorem closeFor_le {n : NodePtr} {f : Slot → Option NodePtr} {j k : Slot} {q : NodePtr}
    (h : closeFor n f j k = some q) : f k = some q := by
  unfold closeFor at h
  split at h
  · by_cases e : k = j
    · rw [e, Function.update_self] at h
      cases h
    · rwa [Function.update_of_ne e] at h
  · exact h

theorem closeFor_self (n : NodePtr) (f : Slot → Option NodePtr) (j : Slot) : closeFor n f j j ≠ some n := by
  unfold closeFor
  split
  · simp
  · assumption

theorem clusterDelNodeSlot_within (hi : NodeInv c.R x st) (n : NodePtr) (j : Slot) :
    Within (fun b => SlotRun c st b ∧ Unused n j b ∧ ∀ k, Unused n k st → Unused n k b) (fun _ => False)
      (clusterDelNodeSlot n st j) := by
  have heq : clusterDelNodeSlot n st j =
      (fun s : Server => if s.slots j = some n then clusterDelSlot s j else .ok s)
        { st with
          migratingSlotsTo := closeFor n st.migratingSlotsTo j
          importingSlotsFrom := closeFor n st.importingSlotsFrom j } := by
    unfold clusterDelNodeSlot closeFor
    dsimp only
    by_cases h1 : st.importingSlotsFrom j = some n <;> by_cases h2 : st.migratingSlotsTo j = some n <;> simp [h1, h2]
  rw [heq]
  generalize hs1 : ({ st with
    migratingSlotsTo := closeFor n st.migratingSlotsTo j
    importingSlotsFrom := closeFor n st.importingSlotsFrom j } : Server) = s1
  have hrun : SlotRun c st s1 := by
    rw [← hs1]
    exact ⟨(Soft.openSlots st (fun _ _ h => .inl (closeFor_le h)) fun _ _ h => .inl (closeFor_le h)).moves,
      .openSlots (fun _ _ => closeFor_le) fun _ _ => closeFor_le⟩
  have hopen : ∀ k, (s1.migratingSlotsTo k = some n → st.migratingSlotsTo k = some n) ∧
      (s1.importingSlotsFrom k = some n → st.importingSlotsFrom k = some n) := by
    rw [← hs1]
    exact fun k => ⟨closeFor_le, closeFor_le⟩
  have hj : s1.migratingSlotsTo j ≠ some n ∧ s1.importingSlotsFrom j ≠ some n := by
    rw [← hs1]
    exact ⟨closeFor_self n _ j, closeFor_self n _ j⟩
  have hslots : s1.slots = st.slots := by rw [← hs1]
  dsimp only
  split
  · obtain ⟨s', heq', hm, hk, hsl, hmg, him⟩ := clusterDelSlot_spec (c := c) (hi.moves hrun.moves).slots j
    rw [heq']
    refine ⟨hrun.trans ⟨hm, hk⟩, ⟨?_, by rw [hmg]; exact hj.1, by rw [him]; exact hj.2⟩, fun k hu => ⟨?_, ?_, ?_⟩⟩
    · rw [hsl, Function.update_self]
      nofun
    · rw [hsl, hslots]
      by_cases e : k = j
      · rw [e, Function.update_self]
        nofun
      · rw [Function.update_of_ne e]
        exact hu.1
    · rw [hmg]
      exact fun h => hu.2.1 ((hopen k).1 h)
    · rw [him]
      exact fun h => hu.2.2 ((hopen k).2 h)
  · rename_i hno
    refine ⟨hrun, ⟨hno, hj⟩, fun k hu => ⟨?_, fun h => hu.2.1 ((hopen k).1 h), fun h => hu.2.2 ((hopen k).2 h)⟩⟩
    rw [hslots]
    exact hu.1

/-- At most node `n` leaves the table, and `myself` gets no new master. -/
structure Trims (c : Ctx) (st : Server) (n : NodePtr) (st' : Server) : Prop where
  changes : Changes c st st'
  myself : st'.myself = st.myself
  nodes : ∀ q ∈ st.nodes, q ≠ n → q ∈ st'.nodes
  name : ∀ q ∈ st.nodes, (st'.heap q).name = (st.heap q).name
  slaveof : st'.me.slaveof = none ∨ st'.me.slaveof = st.me.slaveof

/-- `clusterDelNode` of a node other than `myself`. -/
theorem clusterDelNode_within (env : Env) (hi : NodeInv c.R x st) {n : NodePtr} (hn : n ∈ st.nodes)
    (hme : n ≠ st.myself)
    (hmaster : st.me.slaveof = some n → nodeInHandshake (st.heap n) = true ∧ c.master = some n) :
    Within (Trims c st n) (fun _ => False) (clusterDelNode env st n) := by
  unfold clusterDelNode
  have hloop := Within.foldlM_forall (Q := SlotRun c st) (E := fun _ => False) (f := clusterDelNodeSlot n)
    (G := fun j s => Unused n j s) allSlots st (.refl st) fun s hs j _ =>
      Within.mono (clusterDelNodeSlot_within (hi.moves hs.moves) n j)
        (fun b hb => ⟨hs.trans hb.1, hb.2.1, fun k => hb.2.2 k⟩) fun _ => id
  refine Within.bind hloop fun s ⟨hrun, hall, _⟩ => ?_
  have hunused : ∀ j, Unused n j s := fun j => hall j (mem_allSlots j)
  -- the failure reports of the node go too
  have hsoft := Stepwise.foldl_invariant
    (Q := fun b : Server => Soft c.R s b ∧ b.migratingSlotsTo = s.migratingSlotsTo ∧
      b.importingSlotsFrom = s.importingSlotsFrom)
    (f := fun st node => if node = n then st else clusterNodeDelFailureReport env st node n) s.nodes s
    ⟨.refl s, rfl, rfl⟩ (by
      rintro b ⟨hb, hmg, him⟩ p _
      split
      · exact ⟨hb, hmg, him⟩
      · refine ⟨hb.trans (clusterNodeDelFailureReport_soft env b p n), ?_, ?_⟩
        · rw [← hmg]
          unfold clusterNodeDelFailureReport
          split <;> rfl
        · rw [← him]
          unfold clusterNodeDelFailureReport
          split <;> rfl)
  dsimp only
  generalize s.nodes.foldl _ s = b at hsoft ⊢
  obtain ⟨hb, hmg, him⟩ := hsoft
  have hmoves : Moves c st b := hrun.moves.trans hb.moves
  have hnb : n ∈ b.nodes := hmoves.mem hn
  have hmyself : b.myself = st.myself := hmoves.grows.myself
  have hslaveof : b.me.slaveof = st.me.slaveof := by
    rw [Server.me, hb.table.myself, (hb.table.core _).slaveof]
    exact hrun.keeps.me_slaveof
  obtain ⟨hkeep, hroles⟩ := unlinked_keeps (hi.moves hmoves).links hnb
  have hfree : freeClusterNode b n = .ok (freed b n) := if_pos (hkeep.nodes ▸ hnb)
  rw [hfree]
  refine ⟨hmoves.change.tail (.free b n hnb (hmyself ▸ hme) ?_ ?_ ?_ ?_), ?_, ?_, ?_, ?_⟩
  · intro j
    rw [hb.table.slots]
    exact (hunused j).1
  · intro j
    rw [hmg]
    exact (hunused j).2.1
  · intro j
    rw [him]
    exact (hunused j).2.2
  · intro h
    rw [hslaveof] at h
    rw [nodeInHandshake, hmoves.handshake hi hn]
    exact hmaster h
  · exact hkeep.myself.trans hmyself
  · intro q hq hne
    change q ∈ (unlinked b n).nodes.erase n
    rw [hkeep.nodes, List.mem_erase_of_ne hne]
    exact hmoves.mem hq
  · intro q hq
    change ((unlinked b n).heap q).name = _
    rw [(hkeep.same q).name]
    exact hmoves.name hi hq
  · have hrole := hroles b.myself (hi.moves hmoves).table.myself_mem (hmyself ▸ hme.symm)
    have hso : (freed b n).me.slaveof = if b.me.slaveof = some n then none else b.me.slaveof := by
      change ((unlinked b n).heap (unlinked b n).myself).slaveof = _
      rw [hkeep.myself]
      exact congrArg NodeRole.slaveof hrole
    rw [hso, ← hslaveof]
    split
    · exact .inl rfl
    · exact .inr rfl

theorem clusterDelNode_does (env : Env) (hi : NodeInv c.R x st) {n : NodePtr} (hn : n ∈ st.nodes)
    (hme : n ≠ st.myself)
    (hmaster : st.me.slaveof = some n → nodeInHandshake (st.heap n) = true ∧ c.master = some n) :
    DoesChange c st (clusterDelNode env st n) :=
  Within.mono (clusterDelNode_within env hi hn hme hmaster) (fun _ h => h.changes) nofun

end RedisZk.Cluster
