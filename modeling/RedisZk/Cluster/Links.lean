/-
# Master/replica links under every step of the table

Each step of the table that touches a link is one change of parent of one node
(`Backlinks.Mutual.setParent`); a node that is freed takes its links with it
(`Backlinks.Mutual.remove`). What the role flags guard in the source
(`nodeIsSlave(n) && n->slaveof` in `freeClusterNode`) is guarded by
`LinkInv.role`.

Key definitions: `NodeRole`.
Key theorems: `LinkInv.reshape`, `RoleInv.reshape`, `unlinked_keeps`.
-/
import RedisZk.Cluster.Table

namespace RedisZk.Cluster

open Relation

variable {st st' : Server} {c : Ctx}

/-! ### Roles after each primitive -/

/-- The part of a node that steps on roles and links change. -/
@[ext] structure NodeRole where
  master : Bool
  slave : Bool
  slaves : List NodePtr
  slaveof : Option NodePtr

def ClusterNode.role (n : ClusterNode) : NodeRole := ⟨n.flags.master, n.flags.slave, n.slaves, n.slaveof⟩

theorem modNode_role (g : NodeRole → NodeRole) {f : ClusterNode → ClusterNode} (h : ∀ n, (f n).role = g n.role)
    (st : Server) (p q : NodePtr) :
    ((st.modNode p f).heap q).role = if q = p then g (st.heap p).role else (st.heap q).role := by
  rw [modNode_heap]
  split
  · exact h _
  · rfl

theorem modNode_role_same {f : ClusterNode → ClusterNode} (h : ∀ n, (f n).role = n.role)
    (st : Server) (p q : NodePtr) : ((st.modNode p f).heap q).role = (st.heap q).role :=
  modNode_field ClusterNode.role h st p q

theorem removeSlave_role (st : Server) (m s q : NodePtr) :
    ((clusterNodeRemoveSlave st m s).heap q).role =
      if q = m then { (st.heap m).role with slaves := (st.heap m).slaves.erase s } else (st.heap q).role := by
  unfold clusterNodeRemoveSlave
  split
  · refine modNode_role (fun r => { r with slaves := r.slaves.erase s }) (fun n => ?_) st m q
    unfold ClusterNode.role
    dsimp only
    split <;> rfl
  · rename_i hs
    split
    · rename_i e
      rw [e, List.erase_of_not_mem hs]
      rfl
    · rfl

theorem addSlave_role (st : Server) (m s q : NodePtr) :
    ((clusterNodeAddSlave st m s).heap q).role =
      if q = m then { (st.heap m).role with slaves :=
        if s ∈ (st.heap m).slaves then (st.heap m).slaves else (st.heap m).slaves ++ [s] }
      else (st.heap q).role := by
  unfold clusterNodeAddSlave
  split
  · split
    · rename_i e
      rw [e]
      rfl
    · rfl
  · exact modNode_role (fun r => { r with slaves := r.slaves ++ [s] }) (fun _ => rfl) st m q

variable {n : NodePtr}

/-- `clusterSetNodeAsMaster` on a node that is no master. -/
theorem setNodeAsMaster_role (h : nodeIsMaster (st.heap n) = false) (q : NodePtr) :
    ((clusterSetNodeAsMaster st n).heap q).role =
      { master := if q = n then true else (st.heap q).flags.master
        slave := if q = n then false else (st.heap q).flags.slave
        slaves := if (st.heap n).slaveof = some q then (st.heap q).slaves.erase n else (st.heap q).slaves
        slaveof := if q = n then none else (st.heap q).slaveof } := by
  unfold clusterSetNodeAsMaster
  rw [if_neg (by simp [h]), clusterDoBeforeSleep]
  dsimp only
  rw [modNode_role (fun r => { r with master := true, slave := false, slaveof := none }) (fun _ => rfl)]
  cases hm : (st.heap n).slaveof with
  | none => by_cases e : q = n <;> simp [e, ClusterNode.role]
  | some m =>
    have hrole : ∀ r, ((if n ≠ (clusterNodeRemoveSlave st m n).myself then (clusterNodeRemoveSlave st m n).modFlags n
          fun f => { f with migrateTo := true } else clusterNodeRemoveSlave st m n).heap r).role =
        ((clusterNodeRemoveSlave st m n).heap r).role := by
      intro r
      split
      · exact modNode_role_same (f := fun n => { n with flags := { n.flags with migrateTo := true } })
          (fun _ => rfl) _ _ _
      · rfl
    simp only [hrole, removeSlave_role]
    simp only [Option.some.injEq, @eq_comm _ m q]
    by_cases e : q = n
    · subst e
      by_cases e' : q = m <;> simp [e', ClusterNode.role]
    · by_cases e' : q = m
      · subst e'
        simp [e, ClusterNode.role]
      · simp [e, e', ClusterNode.role]

/-- `changeMaster` to a new master. -/
theorem changeMaster_role {p m : NodePtr} (h : (st.heap p).slaveof ≠ some m) (hnot : p ∉ (st.heap m).slaves)
    (q : NodePtr) :
    ((changeMaster st p m).heap q).role =
      { (st.heap q).role with
        slaves := (if (st.heap p).slaveof = some q then (st.heap q).slaves.erase p else (st.heap q).slaves) ++
          (if some m = some q then [p] else [])
        slaveof := if q = p then some m else (st.heap q).slaveof } := by
  unfold changeMaster
  rw [if_neg h, clusterDoBeforeSleep]
  dsimp only
  rw [modNode_role (fun r => { r with slaveof := some m }) (fun _ => rfl)]
  cases hm : (st.heap p).slaveof with
  | none =>
    simp only [addSlave_role, hnot, ↓reduceIte, Option.some.injEq, @eq_comm _ m q]
    by_cases e : q = p
    · subst e
      by_cases e' : q = m <;> simp [e', hm, ClusterNode.role]
    · by_cases e' : q = m
      · subst e'
        simp [e, ClusterNode.role]
      · simp [e, e', ClusterNode.role]
  | some old =>
    have hne : m ≠ old := fun e => h (by rw [hm, e])
    have hslaves : ((clusterNodeRemoveSlave st old p).heap m).slaves = (st.heap m).slaves := by
      have := congrArg NodeRole.slaves (removeSlave_role st old p m)
      rwa [if_neg hne] at this
    simp only [addSlave_role, hslaves, hnot, ↓reduceIte, removeSlave_role, Option.some.injEq, @eq_comm _ m q,
      @eq_comm _ old q]
    by_cases e : q = p <;> by_cases e' : q = m <;> by_cases e'' : q = old <;>
      simp_all [ClusterNode.role]

theorem closeAllSlots_role (st : Server) (q : NodePtr) : ((clusterCloseAllSlots st).heap q).role = (st.heap q).role :=
  rfl

/-- `leaveRole`: who has no master yet stays without one. -/
theorem leaveRole_role (hlink : nodeIsMaster st.me = true → st.me.slaveof = none) (q : NodePtr) :
    ((leaveRole st).heap q).role =
      { master := if q = st.myself ∧ nodeIsMaster st.me = true then false else (st.heap q).flags.master
        slave := if q = st.myself ∧ nodeIsMaster st.me = true then true else (st.heap q).flags.slave
        slaves := if st.me.slaveof = some q then (st.heap q).slaves.erase st.myself else (st.heap q).slaves
        slaveof := (st.heap q).slaveof } := by
  unfold leaveRole
  by_cases hm : nodeIsMaster st.me = true
  · rw [if_pos hm, closeAllSlots_role, Server.modFlags,
      modNode_role (fun r => { r with master := false, slave := true }) (fun _ => rfl)]
    by_cases e : q = st.myself <;> simp [e, hm, hlink hm, ClusterNode.role]
  · rw [if_neg hm]
    cases hs : st.me.slaveof with
    | none => simp [hm, ClusterNode.role]
    | some m =>
      simp only [removeSlave_role, Option.some.injEq, @eq_comm _ m q]
      by_cases e : q = m
      · subst e
        simp [hm, ClusterNode.role]
      · simp [e, hm, ClusterNode.role]

/-- `clusterSetMaster`: `myself` is a slave of `n` now. -/
theorem setMaster_role (hlink : nodeIsMaster st.me = true → st.me.slaveof = none)
    (hiff : st.myself ∈ (st.heap n).slaves → st.me.slaveof = some n) (hnd : (st.heap n).slaves.Nodup)
    (h : clusterSetMaster st n = .ok st') (q : NodePtr) :
    (st'.heap q).role =
      { master := if q = st.myself ∧ nodeIsMaster st.me = true then false else (st.heap q).flags.master
        slave := if q = st.myself ∧ nodeIsMaster st.me = true then true else (st.heap q).flags.slave
        slaves := (if st.me.slaveof = some q then (st.heap q).slaves.erase st.myself else (st.heap q).slaves) ++
          (if some n = some q then [st.myself] else [])
        slaveof := if q = st.myself then some n else (st.heap q).slaveof } := by
  obtain ⟨hne, -, rfl⟩ := clusterSetMaster_ok h
  have hset : ∀ r, (((leaveRole st).modNode st.myself fun x => { x with slaveof := some n }).heap r).role =
      { ((leaveRole st).heap r).role with
        slaveof := if r = st.myself then some n else ((leaveRole st).heap r).slaveof } := by
    intro r
    rw [modNode_role (fun r => { r with slaveof := some n }) (fun _ => rfl)]
    by_cases e : r = st.myself <;> simp [e, ClusterNode.role]
  have hslaves := congrArg NodeRole.slaves (hset n)
  rw [leaveRole_role hlink n] at hslaves
  have hslaves' : (((leaveRole st).modNode st.myself fun x => { x with slaveof := some n }).heap n).slaves =
      if st.me.slaveof = some n then (st.heap n).slaves.erase st.myself else (st.heap n).slaves := hslaves
  have hnot : st.myself ∉ (if st.me.slaveof = some n then (st.heap n).slaves.erase st.myself
      else (st.heap n).slaves) := by
    split
    · exact hnd.not_mem_erase
    · rename_i hno
      exact fun hm => hno (hiff hm)
  have hso : ((leaveRole st).heap q).slaveof = (st.heap q).slaveof :=
    congrArg NodeRole.slaveof (leaveRole_role hlink q)
  rw [show ∀ s : Server, (resetManualFailover s).heap = s.heap from fun _ => rfl, addSlave_role, hslaves',
    if_neg hnot, hset, hset, leaveRole_role hlink, leaveRole_role hlink]
  simp only [Option.some.injEq, @eq_comm _ n q]
  by_cases e : q = n
  · subst e
    simp [hso]
  · simp [e, hso]

/-! ### Steps of the table -/

theorem LinkInv.keeps {part : Part} (h : LinkInv st) (hk : Keeps part st st') (hpart : part ≠ .links) :
    LinkInv st' where
  agree := by
    refine h.agree.congr ?_ (fun n _ => (hk.same n).slaves hpart) fun n _ => (hk.same n).slaveof hpart
    intro n
    rw [hk.nodes]
  role := by
    intro p hp hso
    rw [hk.nodes] at hp
    rw [(hk.same p).slaveof hpart] at hso
    rw [(hk.same p).slave hpart, (hk.same p).master hpart, (hk.same p).handshake]
    exact h.role p hp hso

/-- A change of the master of `p` to `o`, with the roles that go with it. -/
theorem LinkInv.relink (h : LinkInv st) (hk : Keeps .links st st') {p : NodePtr} {o : Option NodePtr}
    (hp : p ∈ st.nodes) (ho : ∀ m, o = some m → m ∈ st.nodes)
    (hslaves : ∀ q, (st'.heap q).slaves =
      (if (st.heap p).slaveof = some q then (st.heap q).slaves.erase p else (st.heap q).slaves) ++
        (if o = some q then [p] else []))
    (hslaveof : ∀ q, (st'.heap q).slaveof = if q = p then o else (st.heap q).slaveof)
    (hrole : ∀ q ∈ st.nodes, q ≠ p → (st'.heap q).flags.slave = (st.heap q).flags.slave ∧
      (st'.heap q).flags.master = (st.heap q).flags.master)
    (hrolep : o ≠ none → (st'.heap p).flags.slave = true ∧ (st'.heap p).flags.master = false ∧
      (st.heap p).flags.handshake = false) : LinkInv st' where
  agree := by
    rw [hk.nodes]
    exact h.agree.setParent hp ho (fun m _ => hslaves m) fun q _ => hslaveof q
  role := by
    intro q hq hso
    rw [hk.nodes] at hq
    rw [hslaveof q] at hso
    rw [(hk.same q).handshake]
    by_cases e : q = p
    · subst e
      rw [if_pos rfl] at hso
      exact hrolep hso
    · rw [if_neg e] at hso
      rw [(hrole q hq e).1, (hrole q hq e).2]
      exact h.role q hq hso

theorem LinkInv.setNodeAsMaster (h : LinkInv st) {p : NodePtr} (hp : p ∈ st.nodes) :
    LinkInv (clusterSetNodeAsMaster st p) := by
  by_cases hm : nodeIsMaster (st.heap p) = true
  · rw [clusterSetNodeAsMaster, if_pos hm]
    exact h
  · have hrole := setNodeAsMaster_role (Bool.not_eq_true _ ▸ hm : nodeIsMaster (st.heap p) = false)
    refine h.relink (.setNodeAsMaster st p) (o := none) hp (by simp) ?_ ?_ ?_ (by simp)
    · intro q
      have := congrArg NodeRole.slaves (hrole q)
      simpa [ClusterNode.role] using this
    · intro q
      exact congrArg NodeRole.slaveof (hrole q)
    · intro q _ hne
      have h1 := congrArg NodeRole.slave (hrole q)
      have h2 := congrArg NodeRole.master (hrole q)
      simp only [hne, ↓reduceIte] at h1 h2
      exact ⟨h1, h2⟩

theorem LinkInv.changeMaster (h : LinkInv st) {p m : NodePtr} (hp : p ∈ st.nodes) (hm : m ∈ st.nodes)
    (hs : nodeIsSlave (st.heap p) = true) (hnm : nodeIsMaster (st.heap p) = false)
    (hh : nodeInHandshake (st.heap p) = false) : LinkInv (changeMaster st p m) := by
  by_cases hso : (st.heap p).slaveof = some m
  · rw [Cluster.changeMaster, if_pos hso]
    exact h
  · have hnot : p ∉ (st.heap m).slaves := fun hin => hso ((h.agree.mem_children m hm p).mp hin).2
    have hrole := changeMaster_role hso hnot
    have hflags : ∀ q, ((Cluster.changeMaster st p m).heap q).flags.slave = (st.heap q).flags.slave ∧
        ((Cluster.changeMaster st p m).heap q).flags.master = (st.heap q).flags.master := fun q =>
      ⟨congrArg NodeRole.slave (hrole q), congrArg NodeRole.master (hrole q)⟩
    refine h.relink (.changeMaster st p m) (o := some m) hp ?_ ?_ ?_ ?_ ?_
    · intro m' e
      rw [← Option.some.inj e]
      exact hm
    · exact fun q => congrArg NodeRole.slaves (hrole q)
    · exact fun q => congrArg NodeRole.slaveof (hrole q)
    · exact fun q _ _ => hflags q
    · intro _
      rw [(hflags p).1, (hflags p).2]
      exact ⟨hs, hnm, hh⟩

variable {x : NodeName}

theorem LinkInv.setMaster (ht : TableInv x st) (h : LinkInv st) (hn : n ∈ st.nodes)
    (hrole : settled st.me.flags) (hs : clusterSetMaster st n = .ok st') : LinkInv st' := by
  have hlink : nodeIsMaster st.me = true → st.me.slaveof = none := by
    intro hm
    by_contra hne
    have := (h.role _ ht.myself_mem hne).2.1
    rw [nodeIsMaster, Server.me, this] at hm
    cases hm
  have hr := setMaster_role hlink (fun hin => ((h.agree.mem_children n hn _).mp hin).2) (h.agree.nodup n hn) hs
  refine h.relink (.setMaster hs) (o := some n) ht.myself_mem ?_ ?_ ?_ ?_ ?_
  · intro m e
    rw [← Option.some.inj e]
    exact hn
  · exact fun q => congrArg NodeRole.slaves (hr q)
  · exact fun q => congrArg NodeRole.slaveof (hr q)
  · intro q _ hne
    have h1 := congrArg NodeRole.slave (hr q)
    have h2 := congrArg NodeRole.master (hr q)
    simp only [hne, false_and, ↓reduceIte] at h1 h2
    exact ⟨h1, h2⟩
  · intro _
    have h1 : (st'.heap st.myself).flags.slave = _ := congrArg NodeRole.slave (hr st.myself)
    have h2 : (st'.heap st.myself).flags.master = _ := congrArg NodeRole.master (hr st.myself)
    rw [h1, h2]
    by_cases hm : nodeIsMaster st.me = true
    · simp only [hm, and_self, ↓reduceIte]
      exact ⟨trivial, trivial, hrole.2⟩
    · have hsl : st.me.flags.slave = true := hrole.1.resolve_left hm
      simp only [hm, and_false, Bool.false_eq_true, ↓reduceIte]
      exact ⟨hsl, by simpa [nodeIsMaster, Server.me] using hm, hrole.2⟩

theorem mutual_enter (ht : DictInv st) {n : ClusterNode} (hslaves : n.slaves = []) (hslaveof : n.slaveof = none)
    (h : Backlinks.Mutual st.nodes (fun p => (st.heap p).slaves) fun p => (st.heap p).slaveof) :
    Backlinks.Mutual (enter st n).nodes (fun p => ((enter st n).heap p).slaves)
      fun p => ((enter st n).heap p).slaveof := by
  have hold : Backlinks.Mutual st.nodes (fun p => ((enter st n).heap p).slaves)
      (fun p => ((enter st n).heap p).slaveof) := by
    refine h.congr (fun _ => Iff.rfl) ?_ ?_
    · exact fun p hp => by rw [enter_heap st n (ht.fresh p hp)]
    · exact fun p hp => by rw [enter_heap st n (ht.fresh p hp)]
  exact hold.insert ht.nextPtr_notMem (by simp [hslaves]) (by simp [hslaveof])

theorem LinkInv.enter {R : Set NodeName} {n : ClusterNode} (ht : DictInv st) (h : LinkInv st)
    (hn : NewNode R st n) : LinkInv (enter st n) where
  agree := mutual_enter ht hn.slaves hn.slaveof h.agree
  role := by
    intro p hp hso
    rcases mem_enter.mp hp with hp | rfl
    · rw [enter_heap st n (ht.fresh p hp)] at hso ⊢
      exact h.role p hp hso
    · rw [enter_heap_self, hn.slaveof] at hso
      exact absurd rfl hso

theorem LinkInv.alloc (ht : TableInv x st) (h : LinkInv st) (n : ClusterNode) :
    LinkInv (alloc st n) where
  agree := by
    refine h.agree.congr (fun _ => Iff.rfl) ?_ ?_
    · exact fun p hp => by rw [alloc_heap st n (ht.fresh p hp)]
    · exact fun p hp => by rw [alloc_heap st n (ht.fresh p hp)]
  role := by
    intro p hp hso
    rw [alloc_heap st n (ht.fresh p hp)] at hso ⊢
    exact h.role p hp hso

theorem LinkInv.demote (h : LinkInv st) {p : NodePtr} (hp : p ∈ st.nodes)
    (hm : nodeIsMaster (st.heap p) = true) : LinkInv (st.modFlags p demoted) := by
  have hso : (st.heap p).slaveof = none := by
    by_contra hne
    have := (h.role p hp hne).2.1
    rw [nodeIsMaster, this] at hm
    cases hm
  refine h.relink (.demote st p) (o := none) hp (by simp) ?_ ?_ ?_ (by simp)
  · intro q
    rw [modFlags_field (·.slaves) (fun _ _ => rfl), hso]
    simp
  · intro q
    rw [modFlags_field (·.slaveof) (fun _ _ => rfl)]
    split
    · rename_i e
      rw [e, hso]
    · rfl
  · intro q _ hne
    rw [Server.modFlags, modNode_heap_ne hne]
    exact ⟨rfl, rfl⟩

theorem LinkInv.reshape (ht : TableInv x st) (h : LinkInv st) (hme : settled st.me.flags)
    (hr : Reshape c st st') : LinkInv st' := by
  cases hr with
  | learn p e _ _ => exact h.keeps (.learn st p e) (by decide)
  | addSlot p j _ _ _ => exact h.keeps (.addSlot st p j) (by decide)
  | delSlot n j _ => exact h.keeps (.unbindSlot st n j) (by decide)
  | asMaster p hp => exact h.setNodeAsMaster hp
  | demote p hp hm _ => exact h.demote hp hm
  | changeMaster p m hp hm hs hnm hh => exact h.changeMaster hp hm hs hnm hh
  | setMaster n _ hn hs => exact h.setMaster ht hn hme hs
  | add n hn => exact h.enter ht.toDictInv hn
  | leak n => exact h.alloc ht n

theorem RoleInv.keeps {R : Set NodeName} {part : Part} (h : RoleInv R st) (hk : Keeps part st st')
    (hpart : part ≠ .links) : RoleInv R st' := by
  intro p hp hn
  rw [hk.nodes] at hp
  rw [(hk.same p).name] at hn
  rw [settled, (hk.same p).slave hpart, (hk.same p).master hpart, (hk.same p).handshake]
  exact h p hp hn

/-- Every node has a role afterwards if it had one before. -/
theorem RoleInv.relink {R : Set NodeName} (h : RoleInv R st) (hk : Keeps .links st st')
    (hrole : ∀ p ∈ st.nodes, (st.heap p).flags.master = true ∨ (st.heap p).flags.slave = true →
      (st'.heap p).flags.master = true ∨ (st'.heap p).flags.slave = true) : RoleInv R st' := by
  intro p hp hn
  rw [hk.nodes] at hp
  rw [(hk.same p).name] at hn
  rw [settled, (hk.same p).handshake]
  exact ⟨hrole p hp (h p hp hn).1, (h p hp hn).2⟩

theorem RoleInv.reshape (ht : TableInv x st) (hl : LinkInv st) (h : RoleInv c.R st)
    (hr : Reshape c st st') : RoleInv c.R st' := by
  cases hr with
  | learn p e _ _ => exact h.keeps (.learn st p e) (by decide)
  | addSlot p j _ _ _ => exact h.keeps (.addSlot st p j) (by decide)
  | delSlot n j _ => exact h.keeps (.unbindSlot st n j) (by decide)
  | asMaster p hp =>
    refine h.relink (.setNodeAsMaster st p) fun q _ hq => ?_
    by_cases hm : nodeIsMaster (st.heap p) = true
    · rw [clusterSetNodeAsMaster, if_pos hm]
      exact hq
    · have hrole := setNodeAsMaster_role (Bool.not_eq_true _ ▸ hm : nodeIsMaster (st.heap p) = false) q
      have h1 : ((clusterSetNodeAsMaster st p).heap q).flags.master = _ := congrArg NodeRole.master hrole
      have h2 : ((clusterSetNodeAsMaster st p).heap q).flags.slave = _ := congrArg NodeRole.slave hrole
      rw [h1, h2]
      by_cases e : q = p
      · simp [e]
      · simpa [e] using hq
  | demote p _ _ _ =>
    refine h.relink (.demote st p) fun q _ hq => ?_
    rw [modFlags_heap]
    split
    · exact .inr rfl
    · exact hq
  | changeMaster p m hp hm _ _ _ =>
    refine h.relink (.changeMaster st p m) fun q _ hq => ?_
    by_cases hso : (st.heap p).slaveof = some m
    · rw [changeMaster, if_pos hso]
      exact hq
    · have hnot : p ∉ (st.heap m).slaves := fun hin => hso ((hl.agree.mem_children m hm p).mp hin).2
      have hrole := changeMaster_role hso hnot q
      rw [show ((changeMaster st p m).heap q).flags.master = _ from congrArg NodeRole.master hrole,
        show ((changeMaster st p m).heap q).flags.slave = _ from congrArg NodeRole.slave hrole]
      exact hq
  | setMaster n _ hn hs =>
    refine h.relink (.setMaster hs) fun q _ hq => ?_
    have hlink : nodeIsMaster st.me = true → st.me.slaveof = none := by
      intro hm
      by_contra hne
      have := (hl.role _ ht.myself_mem hne).2.1
      rw [nodeIsMaster, Server.me, this] at hm
      cases hm
    have hr := setMaster_role hlink (fun hin => ((hl.agree.mem_children n hn _).mp hin).2) (hl.agree.nodup n hn) hs q
    rw [show (st'.heap q).flags.master = _ from congrArg NodeRole.master hr,
      show (st'.heap q).flags.slave = _ from congrArg NodeRole.slave hr]
    by_cases e : q = st.myself ∧ nodeIsMaster st.me = true
    · simp [e]
    · simpa only [if_neg e] using hq
  | add n hn =>
    intro p hp hname
    rcases mem_enter.mp hp with hp | rfl
    · rw [enter_heap st n (ht.fresh p hp)] at hname ⊢
      exact h p hp hname
    · rw [enter_heap_self] at hname ⊢
      exact hn.role hname
  | leak n =>
    intro p hp hname
    rw [alloc_heap st n (ht.fresh p hp)] at hname ⊢
    exact h p hp hname

/-! ### A node is freed -/

/-- The first loop of `freeClusterNode`. -/
theorem clearSlaveof_spec (l : List NodePtr) (st : Server) :
    Keeps .links st (l.foldl (fun st q => st.modNode q fun m => { m with slaveof := none }) st) ∧
    ∀ q, ((l.foldl (fun st q => st.modNode q fun m => { m with slaveof := none }) st).heap q).role =
      { (st.heap q).role with slaveof := if q ∈ l then none else (st.heap q).slaveof } := by
  induction l generalizing st with
  | nil => exact ⟨.refl st, fun q => by simp [ClusterNode.role]⟩
  | cons p l ih =>
    rw [List.foldl_cons]
    obtain ⟨hk, hr⟩ := ih (st.modNode p fun m => { m with slaveof := none })
    refine ⟨(Keeps.setSlaveof st p none).trans hk, fun q => ?_⟩
    have hstep := modNode_role (fun r => { r with slaveof := none }) (fun _ => rfl) st p q
      (f := fun m => { m with slaveof := none })
    have hso := congrArg NodeRole.slaveof hstep
    rw [hr q, hstep, show ((st.modNode p fun m => { m with slaveof := none }).heap q).slaveof = _ from hso]
    by_cases e : q = p
    · subst e
      simp [ClusterNode.role]
    · simp [e, ClusterNode.role]

/-- Cutting the links of a node changes nothing else. -/
theorem unlinked_keeps (h : LinkInv st) (hn : n ∈ st.nodes) :
    Keeps .links st (unlinked st n) ∧
      ∀ q ∈ st.nodes, q ≠ n → ((unlinked st n).heap q).role =
        { (st.heap q).role with
          slaves := if (st.heap n).slaveof = some q then (st.heap q).slaves.erase n else (st.heap q).slaves
          slaveof := if (st.heap q).slaveof = some n then none else (st.heap q).slaveof } := by
  obtain ⟨hk, hr⟩ := clearSlaveof_spec (st.heap n).slaves st
  generalize hst1 : (st.heap n).slaves.foldl (fun st q => st.modNode q fun m => { m with slaveof := none }) st = st1
    at hk hr
  have hmem : ∀ q ∈ st.nodes, (q ∈ (st.heap n).slaves ↔ (st.heap q).slaveof = some n) := fun q hq => by
    rw [h.agree.mem_children n hn q]
    exact and_iff_right hq
  have hso : ∀ q ∈ st.nodes, (st1.heap q).slaveof = if (st.heap q).slaveof = some n then none else (st.heap q).slaveof := by
    intro q hq
    have : (st1.heap q).slaveof = _ := congrArg NodeRole.slaveof (hr q)
    rw [this]
    simp only [hmem q hq]
  have hrole1 : ∀ q ∈ st.nodes, (st1.heap q).role =
      { (st.heap q).role with slaveof := if (st.heap q).slaveof = some n then none else (st.heap q).slaveof } := by
    intro q hq
    rw [hr q]
    simp only [hmem q hq]
  unfold unlinked
  simp only [hst1]
  cases hm : (st.heap n).slaveof with
  | none =>
    have hson : (st1.heap n).slaveof = none := by
      rw [hso n hn, hm]
      simp
    simp only [hson]
    refine ⟨hk, fun q hq _ => ?_⟩
    rw [hrole1 q hq]
    simp [ClusterNode.role]
  | some m =>
    by_cases hself : m = n
    · have hson : (st1.heap n).slaveof = none := by
        rw [hso n hn, hm, hself]
        simp
      simp only [hson]
      refine ⟨hk, fun q hq hne => ?_⟩
      rw [hrole1 q hq]
      have : some m ≠ some q := fun e => hne (by rw [← Option.some.inj e, hself])
      simp [ClusterNode.role, this]
    · have hson : (st1.heap n).slaveof = some m := by
        rw [hso n hn, hm, if_neg (fun e => hself (Option.some.inj e))]
      have hslave : nodeIsSlave (st1.heap n) = true := by
        have : (st1.heap n).flags.slave = _ := congrArg NodeRole.slave (hr n)
        rw [nodeIsSlave, this]
        exact (h.role n hn (by simp [hm])).1
      simp only [hson, hslave, ↓reduceIte]
      refine ⟨hk.trans (.removeSlave st1 m n), fun q hq _ => ?_⟩
      rw [removeSlave_role]
      have hmm := h.agree.parent_mem n hn m hm
      have hsl : (st1.heap m).slaves = (st.heap m).slaves := congrArg NodeRole.slaves (hrole1 m hmm)
      simp only [Option.some.injEq, @eq_comm _ m q]
      by_cases e : q = m
      · subst e
        rw [if_pos rfl, if_pos rfl, hrole1 q hq, hsl]
      · rw [if_neg e, if_neg e, hrole1 q hq]
        rfl

end RedisZk.Cluster
