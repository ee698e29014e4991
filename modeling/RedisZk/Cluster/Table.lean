/-
# The invariants of the node table, and the slots

The invariants of the node table that the steps of `Moves` keep: the table is a
dict by name with `myself` in it (`TableInv`), slot ownership is stored three
times alike (`SlotInv`), masters and slaves point at each other (`LinkInv`), and
the nodes with the name of a process have a role (`RoleInv`).

Key definitions: `TableInv`, `SlotInv`, `LinkInv`, `RoleInv`.
Key theorems: `TableInv.reshape`, `SlotInv.reshape`, `SlotInv.clusterDelSlot`.
-/
import RedisZk.Cluster.Frame
import RedisZk.Lib.Backlinks
import RedisZk.Lib.Ownership

namespace RedisZk.Cluster

open Relation

variable {st st' : Server} {c : Ctx}

/-! ### The invariants -/

/-- The table is a dict by name, and its nodes are allocated. -/
structure DictInv (st : Server) : Prop where
  nodup : st.nodes.Nodup
  fresh : ∀ p ∈ st.nodes, p < st.nextPtr
  names : ∀ p ∈ st.nodes, ∀ q ∈ st.nodes, (st.heap p).name = (st.heap q).name → p = q

/-- The table of process `x` is a dict, and `myself` is its node `x`. -/
structure TableInv (x : NodeName) (st : Server) : Prop extends DictInv st where
  myself_mem : st.myself ∈ st.nodes
  me_name : st.me.name = x
  myself_iff : ∀ p ∈ st.nodes, (st.heap p).flags.myself = true ↔ p = st.myself
  me_pfail : st.me.flags.pfail = false

/-- Bit `j` of `n->slots` is set iff `slots[j] == n`, `n->numslots` counts the bits, and
every owner is in the table. -/
def SlotInv (st : Server) : Prop :=
  Ownership.Consistent st.nodes st.slots (fun p => (st.heap p).slots) (fun p => (st.heap p).numslots)

/-- `n` occurs in `m->slaves` iff `n->slaveof == m`, once, both in the table; and only
slaves have a master. -/
structure LinkInv (st : Server) : Prop where
  agree : Backlinks.Mutual st.nodes (fun p => (st.heap p).slaves) (fun p => (st.heap p).slaveof)
  role : ∀ p ∈ st.nodes, (st.heap p).slaveof ≠ none →
    (st.heap p).flags.slave = true ∧ (st.heap p).flags.master = false ∧ (st.heap p).flags.handshake = false

/-- A node with the name of a process is past its handshake and has a role. -/
def RoleInv (R : Set NodeName) (st : Server) : Prop :=
  ∀ p ∈ st.nodes, (st.heap p).name ∈ R → settled (st.heap p).flags

variable {p : NodePtr}

theorem clusterLookupNode_some {name : NodeName} (h : clusterLookupNode st name = some p) :
    p ∈ st.nodes ∧ (st.heap p).name = name := by
  unfold clusterLookupNode at h
  exact ⟨List.mem_of_find?_eq_some h, by simpa using List.find?_some h⟩

theorem clusterLookupNode_none {name : NodeName} :
    clusterLookupNode st name = none ↔ ∀ p ∈ st.nodes, (st.heap p).name ≠ name := by
  simp [clusterLookupNode, List.find?_eq_none]

/-! ### Where the table is the same -/

theorem DictInv.congr (h : DictInv st) (hnodes : st'.nodes = st.nodes) (hnext : st'.nextPtr = st.nextPtr)
    (hname : ∀ p ∈ st.nodes, (st'.heap p).name = (st.heap p).name) : DictInv st' where
  nodup := by rw [hnodes]; exact h.nodup
  fresh := by rw [hnodes, hnext]; exact h.fresh
  names := by
    intro p hpm q hqm e
    rw [hnodes] at hpm hqm
    rw [hname p hpm, hname q hqm] at e
    exact h.names p hpm q hqm e

variable {x : NodeName}

theorem TableInv.congr (h : TableInv x st) (hs : SameTable st st')
    (hp : (st'.heap st.myself).flags.pfail = true → (st.heap st.myself).flags.pfail = true) :
    TableInv x st' where
  toDictInv := h.toDictInv.congr hs.nodes hs.nextPtr fun p _ => (hs.core p).name
  myself_mem := by rw [hs.nodes, hs.myself]; exact h.myself_mem
  me_name := by
    rw [Server.me, hs.myself, (hs.core _).name]
    exact h.me_name
  myself_iff := by
    intro p hpm
    rw [hs.nodes] at hpm
    rw [(hs.core p).myself, hs.myself]
    exact h.myself_iff p hpm
  me_pfail := by
    rw [Server.me, hs.myself, ← Bool.not_eq_true]
    intro hpf
    have := h.me_pfail
    rw [Server.me, hp hpf] at this
    cases this

theorem SlotInv.congr (h : SlotInv st) (hs : SameTable st st') : SlotInv st' := by
  refine Ownership.Consistent.congr h ?_ hs.slots (fun n _ => (hs.core n).slots) fun n _ => (hs.core n).numslots
  intro n
  rw [hs.nodes]

theorem LinkInv.congr (h : LinkInv st) (hs : SameTable st st') : LinkInv st' where
  agree := by
    refine h.agree.congr ?_ (fun n _ => (hs.core n).slaves) fun n _ => (hs.core n).slaveof
    intro n
    rw [hs.nodes]
  role := by
    intro p hp hso
    rw [hs.nodes] at hp
    rw [(hs.core p).slaveof] at hso
    rw [(hs.core p).slave, (hs.core p).master, (hs.core p).handshake]
    exact h.role p hp hso

theorem RoleInv.congr {R : Set NodeName} (h : RoleInv R st) (hs : SameTable st st') : RoleInv R st' := by
  intro p hp hn
  rw [hs.nodes] at hp
  rw [(hs.core p).name] at hn
  unfold settled
  rw [(hs.core p).slave, (hs.core p).master, (hs.core p).handshake]
  exact h p hp hn

/-! ### The dict -/

theorem TableInv.keeps {part : Part} (h : TableInv x st) (hk : Keeps part st st') :
    TableInv x st' where
  toDictInv := h.toDictInv.congr hk.nodes hk.nextPtr fun p _ => (hk.same p).name
  myself_mem := by rw [hk.nodes, hk.myself]; exact h.myself_mem
  me_name := by
    rw [Server.me, hk.myself, (hk.same _).name]
    exact h.me_name
  myself_iff := by
    intro p hpm
    rw [hk.nodes] at hpm
    rw [(hk.same p).myself, hk.myself]
    exact h.myself_iff p hpm
  me_pfail := by
    rw [Server.me, hk.myself, (hk.same _).pfail]
    exact h.me_pfail

theorem alloc_heap (st : Server) (n : ClusterNode) (hp : p < st.nextPtr) :
    (alloc st n).heap p = st.heap p := by
  simp only [alloc]
  exact Function.update_of_ne (Nat.ne_of_lt hp) _ _

@[simp] theorem alloc_myself (st : Server) (n : ClusterNode) : (alloc st n).myself = st.myself := rfl

@[simp] theorem enter_myself (st : Server) (n : ClusterNode) : (enter st n).myself = st.myself := rfl

theorem enter_heap (st : Server) (n : ClusterNode) (hp : p < st.nextPtr) :
    (enter st n).heap p = st.heap p := alloc_heap st n hp

@[simp] theorem enter_heap_self (st : Server) (n : ClusterNode) : (enter st n).heap st.nextPtr = n := by
  simp [enter, alloc]

variable {n : ClusterNode}

theorem mem_enter :
    p ∈ (enter st n).nodes ↔ p ∈ st.nodes ∨ p = st.nextPtr := by
  simp [enter]

theorem DictInv.alloc (h : DictInv st) (n : ClusterNode) : DictInv (alloc st n) where
  nodup := h.nodup
  fresh := fun p hp => Nat.lt_succ_of_lt (h.fresh p hp)
  names := by
    intro p hp q hq e
    rw [alloc_heap st n (h.fresh p hp), alloc_heap st n (h.fresh q hq)] at e
    exact h.names p hp q hq e

theorem DictInv.nextPtr_notMem (h : DictInv st) : st.nextPtr ∉ st.nodes :=
  fun hm => absurd (h.fresh _ hm) (lt_irrefl _)

/-- A node whose name is not in the dict enters it. -/
theorem DictInv.enter (h : DictInv st) (hn : clusterLookupNode st n.name = none) :
    DictInv (enter st n) where
  nodup := List.nodup_append.mpr ⟨h.nodup, List.nodup_singleton _, fun a ha b hb e => by
    rw [List.mem_singleton.mp hb] at e
    exact h.nextPtr_notMem (e ▸ ha)⟩
  fresh := by
    intro p hp
    rcases mem_enter.mp hp with hp | rfl
    · exact Nat.lt_succ_of_lt (h.fresh p hp)
    · exact Nat.lt_succ_self _
  names := by
    intro p hp q hq e
    have hun := clusterLookupNode_none.mp hn
    rcases mem_enter.mp hp with hp | rfl <;> rcases mem_enter.mp hq with hq | rfl
    · rw [enter_heap st n (h.fresh p hp), enter_heap st n (h.fresh q hq)] at e
      exact h.names p hp q hq e
    · rw [enter_heap st n (h.fresh p hp), enter_heap_self] at e
      exact absurd e (hun p hp)
    · rw [enter_heap st n (h.fresh q hq), enter_heap_self] at e
      exact absurd e.symm (hun q hq)
    · rfl

theorem TableInv.alloc (h : TableInv x st) (n : ClusterNode) : TableInv x (alloc st n) where
  toDictInv := h.toDictInv.alloc n
  myself_mem := h.myself_mem
  me_name := by
    rw [Server.me, alloc_myself, alloc_heap st n (h.fresh _ h.myself_mem)]
    exact h.me_name
  myself_iff := by
    intro p hp
    rw [alloc_heap st n (h.fresh p hp)]
    exact h.myself_iff p hp
  me_pfail := by
    rw [Server.me, alloc_myself, alloc_heap st n (h.fresh _ h.myself_mem)]
    exact h.me_pfail

theorem TableInv.enter {R : Set NodeName} (h : TableInv x st)
    (hn : NewNode R st n) : TableInv x (enter st n) where
  toDictInv := h.toDictInv.enter hn.unused
  myself_mem := mem_enter.mpr (.inl h.myself_mem)
  me_name := by
    rw [Server.me, enter_myself, enter_heap st n (h.fresh _ h.myself_mem)]
    exact h.me_name
  myself_iff := by
    intro p hp
    rcases mem_enter.mp hp with hp | rfl
    · rw [enter_heap st n (h.fresh p hp)]
      exact h.myself_iff p hp
    · rw [enter_heap_self, hn.myself]
      constructor
      · intro hf
        cases hf
      · intro e
        exact absurd (show st.nextPtr ∈ st.nodes by rw [e]; exact h.myself_mem) h.nextPtr_notMem
  me_pfail := by
    rw [Server.me, enter_myself, enter_heap st n (h.fresh _ h.myself_mem)]
    exact h.me_pfail

theorem TableInv.reshape (h : TableInv x st) (hr : Reshape c st st') : TableInv x st' := by
  rcases hr.keeps with ⟨_, hk⟩ | ⟨n, hn, rfl⟩ | ⟨n, rfl⟩
  · exact h.keeps hk
  · exact h.enter hn
  · exact h.alloc n

/-! ### Slots -/

theorem SlotInv.keeps {part : Part} (h : SlotInv st) (hk : Keeps part st st') (hpart : part ≠ .slots) :
    SlotInv st' := by
  refine Ownership.Consistent.congr h ?_ (hk.slots hpart) (fun n _ => (hk.same n).slots hpart)
    fun n _ => (hk.same n).numslots hpart
  intro n
  rw [hk.nodes]

theorem SlotInv.bit_clear (h : SlotInv st) {j : Slot} (hp : p ∈ st.nodes)
    (hj : st.slots j ≠ some p) : (st.heap p).slots j = false := by
  rw [← Bool.not_eq_true]
  exact fun hb => hj ((h.bit_iff p hp j).mp hb)

/-- A slot that was unbound is bound: bit and counter of the new owner follow. -/
theorem clusterAddSlot_unbound {j : Slot} (hj : st.slots j = none)
    (hbit : (st.heap p).slots j = false) :
    ∃ fl, clusterAddSlot st p j = { st.modNode p (fun m =>
        { m with slots := Function.update m.slots j true, numslots := m.numslots + 1, flags := fl }) with
      slots := Function.update st.slots j (some p) } := by
  simp only [clusterAddSlot, hj, Option.isSome_none, Bool.false_eq_true, ↓reduceIte, clusterNodeSetSlotBit, hbit]
  exact ⟨_, rfl⟩

theorem SlotInv.addSlot (h : SlotInv st) {j : Slot} (hp : p ∈ st.nodes)
    (hj : st.slots j = none) : SlotInv (clusterAddSlot st p j) := by
  have hbit := h.bit_clear hp (j := j) (by simp [hj])
  obtain ⟨fl, heq⟩ := clusterAddSlot_unbound hj hbit
  rw [heq]
  refine Ownership.Consistent.bind h hp hj ?_ ?_ ?_ ?_
  · simp
  · simp
  · intro m hm
    simp [modNode_heap_ne hm]
  · intro m hm
    simp [modNode_heap_ne hm]

theorem SlotInv.unbindSlot (h : SlotInv st) {n : NodePtr} {j : Slot} (hj : st.slots j = some n) :
    SlotInv (unbindSlot st n j) := by
  have hbit : (st.heap n).slots j = true := (h.bit_iff n (h.owner_mem j n hj) j).mpr hj
  refine Ownership.Consistent.release h hj ?_ ?_ ?_ ?_
  · simp [Cluster.unbindSlot, clusterNodeClearSlotBit]
  · simp [Cluster.unbindSlot, clusterNodeClearSlotBit, hbit]
  · intro m hm
    simp [Cluster.unbindSlot, clusterNodeClearSlotBit, modNode_heap_ne hm]
  · intro m hm
    simp [Cluster.unbindSlot, clusterNodeClearSlotBit, modNode_heap_ne hm]

/-- `clusterDelSlot` never meets its assertion. -/
theorem SlotInv.clusterDelSlot (h : SlotInv st) (j : Slot) :
    clusterDelSlot st j = .ok (match st.slots j with | none => st | some n => Cluster.unbindSlot st n j) := by
  unfold Cluster.clusterDelSlot
  cases hj : st.slots j with
  | none => rfl
  | some n =>
    have hbit : (st.heap n).slots j = true := (h.bit_iff n (h.owner_mem j n hj) j).mpr hj
    simp only [clusterNodeClearSlotBit, hbit, ↓reduceIte, Cluster.unbindSlot]
    rfl

theorem SlotInv.alloc (ht : DictInv st) (h : SlotInv st) (n : ClusterNode) :
    SlotInv (alloc st n) := by
  refine Ownership.Consistent.congr h (fun _ => Iff.rfl) rfl ?_ ?_
  · intro p hp
    rw [alloc_heap st n (ht.fresh p hp)]
  · intro p hp
    rw [alloc_heap st n (ht.fresh p hp)]

theorem SlotInv.enter (ht : DictInv st) (h : SlotInv st) (hslots : n.slots = fun _ => false)
    (hnum : n.numslots = 0) : SlotInv (enter st n) := by
  refine Ownership.Consistent.insert (SlotInv.alloc ht h n) ht.nextPtr_notMem ?_ ?_
  · simp [Cluster.alloc, hslots]
  · simp [Cluster.alloc, hnum]

theorem SlotInv.reshape (ht : TableInv x st) (h : SlotInv st) (hr : Reshape c st st') :
    SlotInv st' := by
  cases hr with
  | learn p e _ _ => exact h.keeps (.learn st p e) (by decide)
  | addSlot p j hp hj _ => exact h.addSlot hp hj
  | delSlot n j hj => exact h.unbindSlot hj
  | asMaster p _ => exact h.keeps (.setNodeAsMaster st p) (by decide)
  | demote p _ _ _ => exact h.keeps (.demote st p) (by decide)
  | changeMaster p m _ _ _ _ _ => exact h.keeps (.changeMaster st p m) (by decide)
  | setMaster n _ _ hs => exact h.keeps (.setMaster hs) (by decide)
  | add n hn => exact h.enter ht.toDictInv hn.slots hn.numslots
  | leak n => exact h.alloc ht.toDictInv n

end RedisZk.Cluster
