/-
# What the primitives change, and what they leave alone

Frame lemmas for the writes through a pointer, the master/replica links, the
roles and the slots, one group for each primitive of the node table. `Keeps`
collects what all of them leave alone: names, links, epochs, packets, files.

Key definitions: `Keeps`.
Key theorems: `Reshape.keeps`, `Soft.modNode`, `broadcast_eq`.
-/
import RedisZk.Cluster.Moves

namespace RedisZk.Cluster

open Relation

variable {st st' st'' : Server}

/-! ### Writes through a pointer -/

theorem modNode_heap (st : Server) (p q : NodePtr) (f : ClusterNode → ClusterNode) :
    (st.modNode p f).heap q = if q = p then f (st.heap p) else st.heap q := by
  simp [Server.modNode, Function.update_apply]

@[simp] theorem modNode_heap_self (st : Server) (p : NodePtr) (f : ClusterNode → ClusterNode) :
    (st.modNode p f).heap p = f (st.heap p) := by
  simp [modNode_heap]

theorem modNode_heap_ne {st : Server} {p q : NodePtr} (h : q ≠ p) (f : ClusterNode → ClusterNode) :
    (st.modNode p f).heap q = st.heap q := by
  simp [modNode_heap, h]

variable {f : ClusterNode → ClusterNode}

/-- A field the write leaves alone is the same in every node. -/
theorem modNode_field {α : Type*} (φ : ClusterNode → α)
    (h : ∀ n, φ (f n) = φ n) (st : Server) (p q : NodePtr) : φ ((st.modNode p f).heap q) = φ (st.heap q) := by
  rw [modNode_heap]
  split
  · rename_i e
    rw [h, e]
  · rfl

theorem modFlags_heap (st : Server) (p q : NodePtr) (f : NodeFlags → NodeFlags) :
    (st.modFlags p f).heap q =
      if q = p then { st.heap p with flags := f (st.heap p).flags } else st.heap q := by
  simp [Server.modFlags, modNode_heap]

theorem modFlags_field {α : Type*} (φ : ClusterNode → α) (h : ∀ n g, φ { n with flags := g } = φ n)
    (st : Server) (p q : NodePtr) (f : NodeFlags → NodeFlags) :
    φ ((st.modFlags p f).heap q) = φ (st.heap q) :=
  modNode_field φ (fun n => h n (f n.flags)) st p q

/-! ### Steps that leave everything alone but one part of the table -/

theorem SameCore.refl (n : ClusterNode) : SameCore n n := ⟨rfl, rfl, rfl, rfl, rfl, rfl, rfl, rfl, rfl, rfl⟩

theorem SameCore.trans {a b c : ClusterNode} (h : SameCore a b) (h' : SameCore b c) : SameCore a c :=
  ⟨h'.1.trans h.1, h'.2.trans h.2, h'.3.trans h.3, h'.4.trans h.4, h'.5.trans h.5, h'.6.trans h.6,
    h'.7.trans h.7, h'.8.trans h.8, h'.9.trans h.9, h'.10.trans h.10⟩

/-- A write to none but these fields. -/
theorem SameCore.of_eq {n m : ClusterNode} (h : m = { n with
    ctime := m.ctime, pingSent := m.pingSent, pongReceived := m.pongReceived, dataReceived := m.dataReceived
    failTime := m.failTime, votedTime := m.votedTime, replOffsetTime := m.replOffsetTime
    orphanedTime := m.orphanedTime, replOffset := m.replOffset, ip := m.ip, port := m.port, cport := m.cport
    link := m.link, failReports := m.failReports }) : SameCore n m := by
  rw [h]
  exact ⟨rfl, rfl, rfl, rfl, rfl, rfl, rfl, rfl, rfl, rfl⟩

theorem SameTable.refl (st : Server) : SameTable st st := ⟨rfl, rfl, rfl, rfl, fun _ => .refl _⟩

theorem SameRest.refl (st : Server) : SameRest st st :=
  ⟨rfl, rfl, rfl, rfl, rfl, rfl, rfl, rfl, rfl, rfl, rfl, id⟩

theorem SameRest.trans (h : SameRest st st') (h' : SameRest st' st'') : SameRest st st'' :=
  ⟨h'.1.trans h.1, h'.2.trans h.2, h'.3.trans h.3, h'.4.trans h.4, h'.5.trans h.5, h'.6.trans h.6,
    h'.7.trans h.7, h'.8.trans h.8, h'.9.trans h.9, h'.10.trans h.10, h'.11.trans h.11,
    fun h0 => h'.12 (h.12 h0)⟩

/-- The parts of the table that steps change one at a time. -/
inductive Part
  | slots | links | epoch
deriving DecidableEq

/-- The same node, one part of its data aside. -/
structure SameBut (part : Part) (n m : ClusterNode) : Prop where
  name : m.name = n.name
  handshake : m.flags.handshake = n.flags.handshake
  myself : m.flags.myself = n.flags.myself
  pfail : m.flags.pfail = n.flags.pfail
  link : m.link = n.link
  slots : part ≠ .slots → m.slots = n.slots
  numslots : part ≠ .slots → m.numslots = n.numslots
  master : part ≠ .links → m.flags.master = n.flags.master
  slave : part ≠ .links → m.flags.slave = n.flags.slave
  slaves : part ≠ .links → m.slaves = n.slaves
  slaveof : part ≠ .links → m.slaveof = n.slaveof
  configEpoch : part ≠ .epoch → m.configEpoch = n.configEpoch

variable {part : Part}

theorem SameBut.refl (n : ClusterNode) : SameBut part n n :=
  ⟨rfl, rfl, rfl, rfl, rfl, fun _ => rfl, fun _ => rfl, fun _ => rfl, fun _ => rfl, fun _ => rfl, fun _ => rfl,
    fun _ => rfl⟩

theorem SameBut.trans {a b c : ClusterNode} (h : SameBut part a b) (h' : SameBut part b c) : SameBut part a c :=
  ⟨h'.1.trans h.1, h'.2.trans h.2, h'.3.trans h.3, h'.4.trans h.4, h'.5.trans h.5,
    fun e => (h'.6 e).trans (h.6 e), fun e => (h'.7 e).trans (h.7 e), fun e => (h'.8 e).trans (h.8 e),
    fun e => (h'.9 e).trans (h.9 e), fun e => (h'.10 e).trans (h.10 e), fun e => (h'.11 e).trans (h.11 e),
    fun e => (h'.12 e).trans (h.12 e)⟩

/-- The same nodes, one part of the table aside, and the same outside the table. -/
structure Keeps (part : Part) (st st' : Server) : Prop where
  myself : st'.myself = st.myself
  nodes : st'.nodes = st.nodes
  nextPtr : st'.nextPtr = st.nextPtr
  same : ∀ p, SameBut part (st.heap p) (st'.heap p)
  slots : part ≠ .slots → st'.slots = st.slots
  migrating : ∀ j q, st'.migratingSlotsTo j = some q → st.migratingSlotsTo j = some q
  importing : ∀ j q, st'.importingSlotsFrom j = some q → st.importingSlotsFrom j = some q
  rest : SameRest st st'

theorem Keeps.refl (st : Server) : Keeps part st st :=
  ⟨rfl, rfl, rfl, fun _ => .refl _, fun _ => rfl, fun _ _ => id, fun _ _ => id, .refl _⟩

theorem Keeps.trans (h : Keeps part st st') (h' : Keeps part st' st'') : Keeps part st st'' :=
  ⟨h'.1.trans h.1, h'.2.trans h.2, h'.3.trans h.3, fun p => (h.4 p).trans (h'.4 p),
    fun e => (h'.5 e).trans (h.5 e), fun j q h0 => h.6 j q (h'.6 j q h0), fun j q h0 => h.7 j q (h'.7 j q h0),
    h.8.trans h'.8⟩

theorem Keeps.modNode (st : Server) (p : NodePtr)
    (h : ∀ n, SameBut part n (f n)) : Keeps part st (st.modNode p f) := by
  refine ⟨rfl, rfl, rfl, fun q => ?_, fun _ => rfl, fun _ _ => id, fun _ _ => id,
    ⟨rfl, rfl, rfl, rfl, rfl, rfl, rfl, rfl, rfl, rfl, rfl, id⟩⟩
  rw [modNode_heap]
  split
  · rename_i e
    rw [e]
    exact h _
  · exact .refl _

/-- A write to roles and links. -/
theorem Keeps.modLinks (st : Server) (p : NodePtr)
    (h : ∀ n, ∃ fl sl so, f n = { n with flags := fl, slaves := sl, slaveof := so } ∧
      fl.handshake = n.flags.handshake ∧ fl.myself = n.flags.myself ∧ fl.pfail = n.flags.pfail) :
    Keeps .links st (st.modNode p f) := by
  refine .modNode st p fun n => ?_
  obtain ⟨fl, sl, so, hf, hh, hm, hp⟩ := h n
  rw [hf]
  exact ⟨rfl, hh, hm, hp, rfl, fun _ => rfl, fun _ => rfl, fun e => absurd rfl e, fun e => absurd rfl e,
    fun e => absurd rfl e, fun e => absurd rfl e, fun _ => rfl⟩

/-- A write to the slots. -/
theorem Keeps.modSlots (st : Server) (p : NodePtr)
    (h : ∀ n, ∃ b k mt, f n = { n with slots := b, numslots := k, flags := { n.flags with migrateTo := mt } }) :
    Keeps .slots st (st.modNode p f) := by
  refine .modNode st p fun n => ?_
  obtain ⟨b, k, mt, hf⟩ := h n
  rw [hf]
  exact ⟨rfl, rfl, rfl, rfl, rfl, fun e => absurd rfl e, fun e => absurd rfl e, fun _ => rfl, fun _ => rfl,
    fun _ => rfl, fun _ => rfl, fun _ => rfl⟩

theorem Keeps.setSlots (st : Server) (slots : Slot → Option NodePtr) :
    Keeps .slots st { st with slots := slots } :=
  ⟨rfl, rfl, rfl, fun _ => .refl _, fun e => absurd rfl e, fun _ _ => id, fun _ _ => id,
    ⟨rfl, rfl, rfl, rfl, rfl, rfl, rfl, rfl, rfl, rfl, rfl, id⟩⟩

theorem Keeps.doBeforeSleep (st : Server) (t : Todo) : Keeps part st (clusterDoBeforeSleep st t) :=
  ⟨rfl, rfl, rfl, fun _ => .refl _, fun _ => rfl, fun _ _ => id, fun _ _ => id,
    ⟨rfl, rfl, rfl, rfl, rfl, rfl, rfl, rfl, rfl, rfl, rfl, fun h => by simp [clusterDoBeforeSleep, h]⟩⟩

theorem Keeps.closeAllSlots (st : Server) : Keeps part st (clusterCloseAllSlots st) :=
  ⟨rfl, rfl, rfl, fun _ => .refl _, fun _ => rfl, fun _ _ h => (by cases h), fun _ _ h => (by cases h),
    ⟨rfl, rfl, rfl, rfl, rfl, rfl, rfl, rfl, rfl, rfl, rfl, id⟩⟩

theorem Keeps.resetManualFailover (st : Server) : Keeps part st (resetManualFailover st) :=
  ⟨rfl, rfl, rfl, fun _ => .refl _, fun _ => rfl, fun _ _ => id, fun _ _ => id,
    ⟨rfl, rfl, rfl, rfl, rfl, rfl, rfl, rfl, rfl, rfl, rfl, id⟩⟩

theorem Keeps.removeSlave (st : Server) (m s : NodePtr) : Keeps .links st (clusterNodeRemoveSlave st m s) := by
  unfold clusterNodeRemoveSlave
  split
  · refine .modLinks st m fun n => ⟨_, _, _, rfl, ?_, ?_, ?_⟩ <;> split <;> rfl
  · exact .refl st

theorem Keeps.addSlave (st : Server) (m s : NodePtr) : Keeps .links st (clusterNodeAddSlave st m s) := by
  unfold clusterNodeAddSlave
  split
  · exact .refl st
  · exact .modLinks st m fun n => ⟨_, _, _, rfl, rfl, rfl, rfl⟩

theorem Keeps.setSlotBit (st : Server) (n : NodePtr) (j : Slot) :
    Keeps .slots st (clusterNodeSetSlotBit st n j) := by
  unfold clusterNodeSetSlotBit
  split
  · exact .refl st
  · refine .modSlots st n fun m => ?_
    split
    · exact ⟨_, _, _, rfl⟩
    · exact ⟨_, _, _, rfl⟩

theorem Keeps.addSlot (st : Server) (n : NodePtr) (j : Slot) : Keeps .slots st (clusterAddSlot st n j) := by
  unfold clusterAddSlot
  split
  · exact .refl st
  · exact (Keeps.setSlotBit st n j).trans (.setSlots _ _)

theorem Keeps.unbindSlot (st : Server) (n : NodePtr) (j : Slot) : Keeps .slots st (unbindSlot st n j) := by
  unfold Cluster.unbindSlot
  refine Keeps.trans (Keeps.modSlots st n fun m => ?_) (.setSlots _ _)
  exact ⟨_, _, m.flags.migrateTo, rfl⟩

theorem Keeps.demote (st : Server) (p : NodePtr) : Keeps .links st (st.modFlags p demoted) :=
  .modLinks st p fun n => ⟨demoted n.flags, n.slaves, n.slaveof, rfl, rfl, rfl, rfl⟩

theorem Keeps.setNodeAsMaster (st : Server) (n : NodePtr) : Keeps .links st (clusterSetNodeAsMaster st n) := by
  unfold clusterSetNodeAsMaster
  split
  · exact .refl st
  · refine Keeps.trans ?_ (.doBeforeSleep _ _)
    refine Keeps.trans ?_ (.modLinks _ n fun _ => ⟨_, _, _, rfl, rfl, rfl, rfl⟩)
    split
    · exact .refl st
    · dsimp only
      split
      · refine (Keeps.removeSlave st _ n).trans (.modLinks _ n fun m => ?_)
        exact ⟨_, m.slaves, m.slaveof, rfl, rfl, rfl, rfl⟩
      · exact .removeSlave st _ n

theorem Keeps.setSlaveof (st : Server) (p : NodePtr) (o : Option NodePtr) :
    Keeps .links st (st.modNode p fun n => { n with slaveof := o }) :=
  .modLinks st p fun n => ⟨n.flags, n.slaves, o, rfl, rfl, rfl, rfl⟩

theorem Keeps.changeMaster (st : Server) (p m : NodePtr) : Keeps .links st (changeMaster st p m) := by
  unfold Cluster.changeMaster
  split
  · exact .refl st
  · refine Keeps.trans ?_ (.doBeforeSleep _ _)
    refine Keeps.trans ?_ (.setSlaveof _ p _)
    refine Keeps.trans ?_ (.addSlave _ m p)
    split
    · exact .removeSlave st _ p
    · exact .refl st

/-- `myself` leaves its role: as a master its open slots, as a slave its master. -/
def leaveRole (st : Server) : Server :=
  if nodeIsMaster st.me then clusterCloseAllSlots (st.modFlags st.myself demoted)
  else match st.me.slaveof with
    | some m => clusterNodeRemoveSlave st m st.myself
    | none => st

theorem Keeps.leaveRole (st : Server) : Keeps .links st (leaveRole st) := by
  unfold Cluster.leaveRole
  split
  · exact (Keeps.demote st _).trans (.closeAllSlots _)
  · split
    · exact .removeSlave st _ _
    · exact .refl st

/-- `clusterSetMaster` when its assertions hold. -/
theorem clusterSetMaster_ok {n : NodePtr} (h : clusterSetMaster st n = .ok st') :
    n ≠ st.myself ∧ st.me.numslots = 0 ∧ st' = resetManualFailover (clusterNodeAddSlave
      ((leaveRole st).modNode st.myself fun x => { x with slaveof := some n }) n st.myself) := by
  unfold clusterSetMaster at h
  split at h
  · cases h
  · rename_i hne
    split at h
    · cases h
    · rename_i hslots
      refine ⟨hne, by simpa using hslots, ?_⟩
      have h' : Except.ok (resetManualFailover (clusterNodeAddSlave
          ((leaveRole st).modNode (leaveRole st).myself fun x => { x with slaveof := some n }) n
          (leaveRole st).myself)) = Except.ok (ε := Abort) st' := h
      rw [(Keeps.leaveRole st).myself] at h'
      exact (Except.ok.inj h').symm

theorem Keeps.setMaster {n : NodePtr} (h : clusterSetMaster st n = .ok st') : Keeps .links st st' := by
  obtain ⟨-, -, rfl⟩ := clusterSetMaster_ok h
  refine Keeps.trans ?_ (.resetManualFailover _)
  refine Keeps.trans ?_ (.addSlave _ n _)
  exact (Keeps.leaveRole st).trans (.setSlaveof _ _ _)

theorem Keeps.learn (st : Server) (p : NodePtr) (e : ℕ) :
    Keeps .epoch st (st.modNode p fun n => { n with configEpoch := e }) := by
  refine .modNode st p fun n => ?_
  exact ⟨rfl, rfl, rfl, rfl, rfl, fun _ => rfl, fun _ => rfl, fun _ => rfl, fun _ => rfl, fun _ => rfl,
    fun _ => rfl, fun e => absurd rfl e⟩

/-- The part of the table a step changes, new nodes aside. -/
theorem Reshape.keeps {c : Ctx} (h : Reshape c st st') :
    (∃ part, Keeps part st st') ∨ (∃ n, NewNode c.R st n ∧ st' = enter st n) ∨ ∃ n, st' = alloc st n := by
  cases h with
  | learn p e => exact .inl ⟨_, .learn st p e⟩
  | addSlot p j => exact .inl ⟨_, .addSlot st p j⟩
  | delSlot n j => exact .inl ⟨_, .unbindSlot st n j⟩
  | asMaster p => exact .inl ⟨_, .setNodeAsMaster st p⟩
  | demote p => exact .inl ⟨_, .demote st p⟩
  | changeMaster p m => exact .inl ⟨_, .changeMaster st p m⟩
  | setMaster n _ _ h => exact .inl ⟨_, .setMaster h⟩
  | add n h => exact .inr (.inl ⟨n, h, rfl⟩)
  | leak n => exact .inr (.inr ⟨n, rfl⟩)

end RedisZk.Cluster
