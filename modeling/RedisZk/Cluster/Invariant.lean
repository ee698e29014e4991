/-
# The invariant of a node's state

`NodeInv` is what holds of every process between two events: the table
invariants of `Table`, no configEpoch above `currentEpoch`, links that reach the
process the node is named after, packets queued that a correct process may
send, and a nodes.conf that can be loaded again. Every step of `Moves` keeps it
(`NodeInv.move`), and so do the two that take a node away (`NodeInv.change`).

Key definitions: `EpochInv`, `EdgeInv`, `ConfOK`, `NodeInv`.
Key theorems: `NodeInv.move`, `NodeInv.change`, `NodeInv.moves`, `NodeInv.changes`.
-/
import RedisZk.Cluster.Links

namespace RedisZk.Cluster

open Relation

variable {st st' : Server} {c : Ctx} {R : Set NodeName} {x : NodeName}

/-! ### The invariant -/

structure EpochInv (st : Server) : Prop where
  config : ∀ p ∈ st.nodes, (st.heap p).configEpoch ≤ st.currentEpoch
  auth : st.failoverAuthEpoch ≤ st.currentEpoch

/-- Links reach the process their node is named after, and open slots name nodes of
the table. -/
structure EdgeInv (R : Set NodeName) (st : Server) : Prop where
  link : ∀ p ∈ st.nodes, ∀ l, (st.heap p).link = some l →
    p ≠ st.myself ∧ ((st.heap p).name ∈ R → l.peer = (st.heap p).name)
  migrating : ∀ j q, st.migratingSlotsTo j = some q → q ∈ st.nodes
  importing : ∀ j q, st.importingSlotsFrom j = some q → q ∈ st.nodes

/-- The names a line refers to. -/
def ConfLine.refs (l : ConfLine) : List NodeName :=
  l.master.toList ++ l.migrating.map (·.2) ++ l.importing.map (·.2)

/-- A nodes.conf of process `x`: one line a node, one of them `myself`, roles that fit,
and a line for every process that is referred to. -/
structure ConfOK (R : Set NodeName) (x : NodeName) (conf : NodesConf) : Prop where
  names : (conf.lines.map ConfLine.name).Nodup
  myself : ∃ l ∈ conf.lines, l.name = x
  myself_iff : ∀ l ∈ conf.lines, l.flags.myself = true ↔ l.name = x
  me_pfail : ∀ l ∈ conf.lines, l.name = x → l.flags.pfail = false
  handshake : ∀ l ∈ conf.lines, l.flags.handshake = false
  role : ∀ l ∈ conf.lines, l.name ∈ R → l.flags.master = true ∨ l.flags.slave = true
  master : ∀ l ∈ conf.lines, l.master ≠ none → l.flags.slave = true ∧ l.flags.master = false
  refs : ∀ l ∈ conf.lines, ∀ r ∈ l.refs, r ∈ R → ∃ l' ∈ conf.lines, l'.name = r

structure NodeInv (R : Set NodeName) (x : NodeName) (st : Server) : Prop where
  name_mem : x ∈ R
  table : TableInv x st
  slots : SlotInv st
  links : LinkInv st
  roles : RoleInv R st
  epochs : EpochInv st
  edges : EdgeInv R st
  msgs : ∀ m ∈ st.sndbuf, MsgOK R x m.2
  conf : ConfOK R x st.conf

theorem NodeInv.me_settled (h : NodeInv R x st) : settled st.me.flags :=
  h.roles _ h.table.myself_mem (by rw [← Server.me, h.table.me_name]; exact h.name_mem)

theorem NodeInv.me_not_master (h : NodeInv R x st) (hm : st.me.slaveof ≠ none) : nodeIsMaster st.me = false :=
  (h.links.role _ h.table.myself_mem hm).2.1

theorem NodeInv.me_slave (h : NodeInv R x st) (hm : st.me.slaveof ≠ none) : nodeIsSlave st.me = true :=
  (h.links.role _ h.table.myself_mem hm).1

theorem NodeInv.me_master_or_slave (h : NodeInv R x st) :
    nodeIsMaster st.me = true ∨ nodeIsSlave st.me = true := h.me_settled.1

/-! ### What a step does to the table, the epochs, the packets and nodes.conf -/

theorem Move.sameTable (h : Move c st st') : Reshape c st st' ∨ (SameTable st st' ∧ Edges c.R st st') := by
  cases h with
  | soft h => exact .inr ⟨h.table, h.edges⟩
  | reshape h => exact .inl h
  | _ =>
    exact .inr ⟨⟨rfl, rfl, rfl, rfl, fun _ => .refl _⟩,
      ⟨fun _ _ => .inl, fun _ _ => .inl, fun _ _ => .inl, id⟩⟩

theorem Reshape.sameRest (h : Reshape c st st') : SameRest st st' := by
  rcases h.keeps with ⟨_, hk⟩ | ⟨n, _, rfl⟩ | ⟨n, rfl⟩
  · exact hk.rest
  · exact ⟨rfl, rfl, rfl, rfl, rfl, rfl, rfl, rfl, rfl, rfl, rfl, id⟩
  · exact ⟨rfl, rfl, rfl, rfl, rfl, rfl, rfl, rfl, rfl, rfl, rfl, id⟩

theorem Move.currentEpoch_le (h : Move c st st') : st.currentEpoch ≤ st'.currentEpoch := by
  cases h with
  | soft h => exact h.rest.currentEpoch.ge
  | reshape h => exact h.sameRest.currentEpoch.ge
  | raise e he => exact he
  | draw _ => exact Nat.le_succ _
  | elect _ _ => exact Nat.le_succ _
  | _ => exact le_rfl

theorem Reshape.configEpoch (ht : TableInv x st) (h : Reshape c st st') {p : NodePtr} (hp : p ∈ st'.nodes) :
    (st'.heap p).configEpoch ≤ st.currentEpoch ∨
      (p ∈ st.nodes ∧ (st'.heap p).configEpoch = (st.heap p).configEpoch) := by
  have hkeep : ∀ {part : Part}, Keeps part st st' → part ≠ .epoch →
      p ∈ st.nodes ∧ (st'.heap p).configEpoch = (st.heap p).configEpoch := by
    intro part hk hpart
    rw [hk.nodes] at hp
    exact ⟨hp, (hk.same p).configEpoch hpart⟩
  cases h with
  | learn q e _ he =>
    rw [modNode_heap]
    split
    · exact .inl he
    · exact .inr ⟨hp, rfl⟩
  | addSlot q j _ _ _ => exact .inr (hkeep (.addSlot st q j) (by decide))
  | delSlot n j _ => exact .inr (hkeep (.unbindSlot st n j) (by decide))
  | asMaster q _ => exact .inr (hkeep (.setNodeAsMaster st q) (by decide))
  | demote q _ _ _ => exact .inr (hkeep (.demote st q) (by decide))
  | changeMaster q m _ _ _ _ _ => exact .inr (hkeep (.changeMaster st q m) (by decide))
  | setMaster n _ _ hs => exact .inr (hkeep (.setMaster hs) (by decide))
  | add n hn =>
    rcases mem_enter.mp hp with hp | rfl
    · rw [enter_heap st n (ht.fresh p hp)]
      exact .inr ⟨hp, rfl⟩
    · rw [enter_heap_self, hn.configEpoch]
      exact .inl (Nat.zero_le _)
  | leak n =>
    rw [alloc_heap st n (ht.fresh p hp)]
    exact .inr ⟨hp, rfl⟩

theorem Move.failoverAuthEpoch_le (he : EpochInv st) (h : Move c st st') :
    st'.failoverAuthEpoch ≤ st'.currentEpoch := by
  cases h with
  | soft h => rw [h.rest.failoverAuthEpoch, h.rest.currentEpoch]; exact he.auth
  | reshape h => rw [h.sameRest.failoverAuthEpoch, h.sameRest.currentEpoch]; exact he.auth
  | raise e hle => exact he.auth.trans hle
  | draw _ => exact he.auth.trans (Nat.le_succ _)
  | elect _ _ => exact le_rfl
  | _ => exact he.auth

theorem EpochInv.move (ht : TableInv x st) (h : EpochInv st) (hm : Move c st st') : EpochInv st' where
  config := by
    intro p hp
    have hmono := hm.currentEpoch_le
    rcases hm.sameTable with hr | ⟨hs, _⟩
    · rcases hr.configEpoch ht hp with hle | ⟨hp, heq⟩
      · exact hle.trans hmono
      · rw [heq]
        exact (h.config p hp).trans hmono
    · rw [hs.nodes] at hp
      rw [(hs.core p).configEpoch]
      exact (h.config p hp).trans hmono
  auth := hm.failoverAuthEpoch_le h

theorem EdgeInv.keeps {part : Part} (h : EdgeInv R st) (hk : Keeps part st st') : EdgeInv R st' where
  link := by
    intro p hp l hl
    rw [hk.nodes] at hp
    rw [(hk.same p).link] at hl
    rw [(hk.same p).name, hk.myself]
    exact h.link p hp l hl
  migrating := by
    intro j q hq
    rw [hk.nodes]
    exact h.migrating j q (hk.migrating j q hq)
  importing := by
    intro j q hq
    rw [hk.nodes]
    exact h.importing j q (hk.importing j q hq)

theorem EdgeInv.reshape (ht : TableInv x st) (h : EdgeInv R st) (hr : Reshape c st st') :
    EdgeInv R st' := by
  rcases hr.keeps with ⟨_, hk⟩ | ⟨n, hn, rfl⟩ | ⟨n, rfl⟩
  · exact h.keeps hk
  · refine ⟨?_, fun j q hq => mem_enter.mpr (.inl (h.migrating j q hq)),
      fun j q hq => mem_enter.mpr (.inl (h.importing j q hq))⟩
    intro p hp l hl
    rcases mem_enter.mp hp with hp | rfl
    · rw [enter_heap st n (ht.fresh p hp)] at hl ⊢
      exact h.link p hp l hl
    · rw [enter_heap_self, hn.link] at hl
      cases hl
  · refine ⟨?_, h.migrating, h.importing⟩
    intro p hp l hl
    rw [alloc_heap st n (ht.fresh p hp)] at hl ⊢
    exact h.link p hp l hl

theorem EdgeInv.congr (h : EdgeInv R st) (hs : SameTable st st') (he : Edges R st st') : EdgeInv R st' where
  link := by
    intro p hp l hl
    rw [hs.nodes] at hp
    rw [hs.myself, (hs.core p).name]
    rcases he.link p l hl with hold | hnew
    · exact h.link p hp l hold
    · exact hnew
  migrating := by
    intro j q hq
    rw [hs.nodes]
    exact (he.migrating j q hq).elim (h.migrating j q) id
  importing := by
    intro j q hq
    rw [hs.nodes]
    exact (he.importing j q hq).elim (h.importing j q) id

theorem EdgeInv.move (ht : TableInv x st) (h : EdgeInv c.R st) (hm : Move c st st') : EdgeInv c.R st' := by
  rcases hm.sameTable with hr | ⟨hs, he⟩
  · exact h.reshape ht hr
  · exact h.congr hs he

theorem Move.sndbuf (h : Move c st st') :
    ∃ l, st'.sndbuf = st.sndbuf ++ l ∧ ∀ m ∈ l, MsgOK c.R st.me.name m.2 := by
  cases h with
  | soft h => exact ⟨[], by rw [h.rest.sndbuf, List.append_nil], by simp⟩
  | reshape h => exact ⟨[], by rw [h.sameRest.sndbuf, List.append_nil], by simp⟩
  | request l _ _ hl => exact ⟨l, rfl, fun m hm => (hl m hm).1⟩
  | vote node l _ _ _ _ _ _ hl =>
    refine ⟨l, rfl, fun m hm => ?_⟩
    rcases hl with rfl | ⟨msg, rfl, hok, _⟩
    · cases hm
    · rw [List.mem_singleton.mp hm]
      exact hok
  | send l hl => exact ⟨l, rfl, fun m hm => (hl m hm).1⟩
  | _ => exact ⟨[], (List.append_nil _).symm, by simp⟩

theorem Move.conf (h : Move c st st') : st'.conf = st.conf ∨ ∃ b, st' = clusterSaveConfig st b := by
  cases h with
  | soft h => exact .inl h.rest.conf
  | reshape h => exact .inl h.sameRest.conf
  | save b => exact .inr ⟨b, rfl⟩
  | _ => exact .inl rfl

/-! ### nodes.conf -/

theorem mem_clusterGenNodesDescription {l : ConfLine} :
    l ∈ clusterGenNodesDescription st ↔
      ∃ p ∈ st.nodes, nodeInHandshake (st.heap p) = false ∧ clusterGenNodeDescription st p = l := by
  simp [clusterGenNodesDescription, and_assoc]

/-- Every node a description refers to is in the table. -/
theorem clusterGenNodeDescription_refs (hl : LinkInv st) (he : EdgeInv R st) {p : NodePtr} (hp : p ∈ st.nodes)
    {r : NodeName} (hr : r ∈ (clusterGenNodeDescription st p).refs) :
    ∃ q ∈ st.nodes, (st.heap q).name = r := by
  simp only [ConfLine.refs, clusterGenNodeDescription, List.mem_append, Option.mem_toList,
    Option.map_eq_some_iff, List.mem_map] at hr
  rcases hr with (⟨m, hm, rfl⟩ | ⟨⟨j, name⟩, hmem, rfl⟩) | ⟨⟨j, name⟩, hmem, rfl⟩
  · exact ⟨m, hl.agree.parent_mem p hp m hm, rfl⟩
  · split at hmem
    · simp only [List.mem_filterMap, Option.map_eq_some_iff] at hmem
      obtain ⟨j', _, q, hq, heq⟩ := hmem
      exact ⟨q, he.migrating j' q hq, congrArg Prod.snd heq⟩
    · cases hmem
  · split at hmem
    · simp only [List.mem_filterMap] at hmem
      obtain ⟨j', _, heq⟩ := hmem
      split at heq
      · cases heq
      · obtain ⟨q, hq, heq⟩ := Option.map_eq_some_iff.mp heq
        exact ⟨q, he.importing j' q hq, congrArg Prod.snd heq⟩
    · cases hmem

/-- What is saved can be loaded. -/
theorem NodeInv.confOK (h : NodeInv R x st) (b : Bool) : ConfOK R x (clusterSaveConfig st b).conf where
  names := by
    simp only [clusterSaveConfig, clusterGenNodesDescription, List.map_map]
    refine List.Nodup.map_on ?_ (h.table.nodup.filter _)
    intro p hp q hq e
    exact h.table.names p (List.mem_of_mem_filter hp) q (List.mem_of_mem_filter hq) e
  myself := by
    refine ⟨_, mem_clusterGenNodesDescription.mpr ⟨_, h.table.myself_mem, h.me_settled.2, rfl⟩, ?_⟩
    exact h.table.me_name
  myself_iff := by
    intro l hl
    obtain ⟨p, hp, -, rfl⟩ := mem_clusterGenNodesDescription.mp hl
    have hname : (clusterGenNodeDescription st p).name = x ↔ p = st.myself := by
      rw [← h.table.me_name]
      constructor
      · exact fun e => h.table.names p hp _ h.table.myself_mem e
      · rintro rfl
        rfl
    rw [hname]
    exact h.table.myself_iff p hp
  me_pfail := by
    intro l hl hname
    obtain ⟨p, hp, -, rfl⟩ := mem_clusterGenNodesDescription.mp hl
    have : p = st.myself := h.table.names p hp _ h.table.myself_mem (hname.trans h.table.me_name.symm)
    subst this
    exact h.table.me_pfail
  handshake := by
    intro l hl
    obtain ⟨p, -, hh, rfl⟩ := mem_clusterGenNodesDescription.mp hl
    exact hh
  role := by
    intro l hl hname
    obtain ⟨p, hp, -, rfl⟩ := mem_clusterGenNodesDescription.mp hl
    exact (h.roles p hp hname).1
  master := by
    intro l hl hm
    obtain ⟨p, hp, -, rfl⟩ := mem_clusterGenNodesDescription.mp hl
    have hso : (st.heap p).slaveof ≠ none := by
      intro e
      simp [clusterGenNodeDescription, e] at hm
    have := h.links.role p hp hso
    exact ⟨this.1, this.2.1⟩
  refs := by
    intro l hl r hr hR
    obtain ⟨p, hp, -, rfl⟩ := mem_clusterGenNodesDescription.mp hl
    obtain ⟨q, hq, rfl⟩ := clusterGenNodeDescription_refs h.links h.edges hp hr
    exact ⟨_, mem_clusterGenNodesDescription.mpr ⟨q, hq, (h.roles q hq hR).2, rfl⟩, rfl⟩

/-! ### Every step keeps the invariant -/

/-- The invariant sees the table, the edges, the epochs, the packets and nodes.conf. -/
theorem NodeInv.congr (h : NodeInv R x st) (hs : SameTable st st') (he : Edges R st st')
    (hcur : st'.currentEpoch = st.currentEpoch) (hauth : st'.failoverAuthEpoch = st.failoverAuthEpoch)
    (hbuf : ∀ m ∈ st'.sndbuf, m ∈ st.sndbuf) (hconf : st'.conf = st.conf) : NodeInv R x st' where
  name_mem := h.name_mem
  table := h.table.congr hs he.pfail
  slots := h.slots.congr hs
  links := h.links.congr hs
  roles := h.roles.congr hs
  epochs := by
    refine ⟨fun p hp => ?_, ?_⟩
    · rw [hs.nodes] at hp
      rw [(hs.core p).configEpoch, hcur]
      exact h.epochs.config p hp
    · rw [hauth, hcur]
      exact h.epochs.auth
  edges := h.edges.congr hs he
  msgs m hm := h.msgs m (hbuf m hm)
  conf := by rw [hconf]; exact h.conf

theorem NodeInv.move (h : NodeInv c.R x st) (hm : Move c st st') : NodeInv c.R x st' := by
  have hmsgs : ∀ m ∈ st'.sndbuf, MsgOK c.R x m.2 := by
    intro m hmem
    obtain ⟨l, heq, hl⟩ := hm.sndbuf
    rw [heq] at hmem
    rcases List.mem_append.mp hmem with hold | hnew
    · exact h.msgs m hold
    · rw [← h.table.me_name]
      exact hl m hnew
  have hconf : ConfOK c.R x st'.conf := by
    rcases hm.conf with heq | ⟨b, rfl⟩
    · rw [heq]
      exact h.conf
    · exact h.confOK b
  have hepochs := h.epochs.move h.table hm
  have hedges := h.edges.move h.table hm
  rcases hm.sameTable with hr | ⟨hs, he⟩
  · exact ⟨h.name_mem, h.table.reshape hr, h.slots.reshape h.table hr, h.links.reshape h.table h.me_settled hr,
      h.roles.reshape h.table h.links hr, hepochs, hedges, hmsgs, hconf⟩
  · exact ⟨h.name_mem, h.table.congr hs he.pfail, h.slots.congr hs, h.links.congr hs, h.roles.congr hs, hepochs,
      hedges, hmsgs, hconf⟩

/-- A node leaves the table. -/
theorem NodeInv.freed (h : NodeInv R x st) {n : NodePtr} (hn : n ∈ st.nodes) (hme : n ≠ st.myself)
    (hslots : ∀ j, st.slots j ≠ some n) (hmig : ∀ j, st.migratingSlotsTo j ≠ some n)
    (himp : ∀ j, st.importingSlotsFrom j ≠ some n) : NodeInv R x (freed st n) := by
  obtain ⟨hk, hrole⟩ := unlinked_keeps h.links hn
  unfold Cluster.freed
  generalize unlinked st n = s at hk hrole ⊢
  have hnd := h.table.nodup
  have ht := h.table.keeps hk
  have hs := h.slots.keeps hk (by decide)
  have he := h.edges.keeps hk
  have hmem : ∀ {q}, q ∈ s.nodes.erase n ↔ q ≠ n ∧ q ∈ st.nodes := by
    intro q
    rw [hk.nodes, hnd.mem_erase_iff]
  have hso : ∀ q ∈ st.nodes, q ≠ n →
      (s.heap q).slaveof = if (st.heap q).slaveof = some n then none else (st.heap q).slaveof :=
    fun q hq hne => congrArg NodeRole.slaveof (hrole q hq hne)
  refine ⟨h.name_mem, ?_, ?_, ?_, ?_, ?_, ?_, ?_, ?_⟩
  · refine ⟨⟨ht.nodup.erase n, fun p hp => ht.fresh p (List.mem_of_mem_erase hp), ?_⟩, ?_, ht.me_name, ?_, ht.me_pfail⟩
    · exact fun p hp q hq => ht.names p (List.mem_of_mem_erase hp) q (List.mem_of_mem_erase hq)
    · change s.myself ∈ s.nodes.erase n
      rw [hk.myself]
      exact hmem.mpr ⟨hme.symm, h.table.myself_mem⟩
    · exact fun p hp => ht.myself_iff p (List.mem_of_mem_erase hp)
  · refine Ownership.Consistent.erase hs fun j => ?_
    rw [hk.slots (by decide)]
    exact hslots j
  · refine ⟨?_, ?_⟩
    · change Backlinks.Mutual (s.nodes.erase n) _ _
      rw [hk.nodes]
      refine h.links.agree.remove hnd ?_ ?_
      · exact fun m hm hne => congrArg NodeRole.slaves (hrole m hm hne)
      · exact fun q hq hne => hso q hq hne
    · intro p hp hsop
      obtain ⟨hne, hpm⟩ := hmem.mp hp
      have hold : (st.heap p).slaveof ≠ none := by
        rw [hso p hpm hne] at hsop
        split at hsop
        · exact absurd rfl hsop
        · exact hsop
      have hsl : (s.heap p).flags.slave = _ := congrArg NodeRole.slave (hrole p hpm hne)
      have hma : (s.heap p).flags.master = _ := congrArg NodeRole.master (hrole p hpm hne)
      change (s.heap p).flags.slave = true ∧ (s.heap p).flags.master = false ∧ (s.heap p).flags.handshake = false
      rw [hsl, hma, (hk.same p).handshake]
      exact h.links.role p hpm hold
  · intro p hp hname
    obtain ⟨hne, hpm⟩ := hmem.mp hp
    have hsl : (s.heap p).flags.slave = _ := congrArg NodeRole.slave (hrole p hpm hne)
    have hma : (s.heap p).flags.master = _ := congrArg NodeRole.master (hrole p hpm hne)
    change (s.heap p).name ∈ R at hname
    change settled (s.heap p).flags
    rw [(hk.same p).name] at hname
    rw [settled, hsl, hma, (hk.same p).handshake]
    exact h.roles p hpm hname
  · refine ⟨fun p hp => ?_, ?_⟩
    · obtain ⟨-, hpm⟩ := hmem.mp hp
      change (s.heap p).configEpoch ≤ s.currentEpoch
      rw [(hk.same p).configEpoch (by decide), hk.rest.currentEpoch]
      exact h.epochs.config p hpm
    · change s.failoverAuthEpoch ≤ s.currentEpoch
      rw [hk.rest.failoverAuthEpoch, hk.rest.currentEpoch]
      exact h.epochs.auth
  · refine ⟨fun p hp => he.link p (List.mem_of_mem_erase hp), fun j q hq => ?_, fun j q hq => ?_⟩
    · have hq' := hk.migrating j q hq
      refine hmem.mpr ⟨?_, h.edges.migrating j q hq'⟩
      rintro rfl
      exact hmig j hq'
    · have hq' := hk.importing j q hq
      refine hmem.mpr ⟨?_, h.edges.importing j q hq'⟩
      rintro rfl
      exact himp j hq'
  · change ∀ m ∈ s.sndbuf, _
    rw [hk.rest.sndbuf]
    exact h.msgs
  · change ConfOK R x s.conf
    rw [hk.rest.conf]
    exact h.conf

theorem NodeInv.endHandshake (h : NodeInv R x st) {p : NodePtr} {name : NodeName} {flags : NodeFlags}
    (hp : p ∈ st.nodes) (hme : p ≠ st.myself) (hh : nodeInHandshake (st.heap p) = true)
    (hname : clusterLookupNode st name = none) (hrole : settled flags)
    (hself : flags.myself = (st.heap p).flags.myself) (hlink : ∀ l, (st.heap p).link = some l → l.peer = name) :
    NodeInv R x (endHandshake st p name flags) := by
  have hmem : ∀ q, q ∈ (Cluster.endHandshake st p name flags).nodes ↔ q ∈ st.nodes := by
    intro q
    simp only [Cluster.endHandshake, List.mem_append, List.mem_singleton, h.table.nodup.mem_erase_iff]
    constructor
    · rintro (⟨-, hq⟩ | rfl)
      · exact hq
      · exact hp
    · intro hq
      by_cases e : q = p
      · exact .inr e
      · exact .inl ⟨e, hq⟩
  have hother : ∀ q, q ≠ p → (Cluster.endHandshake st p name flags).heap q = st.heap q := fun q hq =>
    modNode_heap_ne hq fun n => { n with name := name, flags := flags }
  have hp' : (Cluster.endHandshake st p name flags).heap p = { st.heap p with name := name, flags := flags } :=
    modNode_heap_self st p fun n => { n with name := name, flags := flags }
  have hso : (st.heap p).slaveof = none := by
    by_contra hne
    have := (h.links.role p hp hne).2.2
    rw [nodeInHandshake, this] at hh
    cases hh
  have hme' : (Cluster.endHandshake st p name flags).me = st.me := hother _ hme.symm
  have hfree := clusterLookupNode_none.mp hname
  refine ⟨h.name_mem, ?_, ?_, ?_, ?_, ?_, ?_, h.msgs, h.conf⟩
  · refine ⟨⟨?_, fun q hq => h.table.fresh q ((hmem q).mp hq), ?_⟩, (hmem _).mpr h.table.myself_mem, ?_, ?_, ?_⟩
    · refine List.nodup_append.mpr ⟨h.table.nodup.erase p, List.nodup_singleton p, ?_⟩
      intro a ha b hb
      rw [List.mem_singleton.mp hb]
      exact (h.table.nodup.mem_erase_iff.mp ha).1
    · intro q hq r hr e
      rw [hmem] at hq hr
      by_cases eq : q = p <;> by_cases er : r = p
      · rw [eq, er]
      · rw [eq, hp', hother r er] at e
        exact absurd e.symm (hfree r hr)
      · rw [er, hp', hother q eq] at e
        exact absurd e (hfree q hq)
      · rw [hother q eq, hother r er] at e
        exact h.table.names q hq r hr e
    · rw [hme']
      exact h.table.me_name
    · intro q hq
      rw [hmem] at hq
      change ((Cluster.endHandshake st p name flags).heap q).flags.myself = true ↔ q = st.myself
      by_cases eq : q = p
      · rw [eq, hp', hself]
        exact h.table.myself_iff p hp
      · rw [hother q eq]
        exact h.table.myself_iff q hq
    · rw [hme']
      exact h.table.me_pfail
  · refine Ownership.Consistent.congr h.slots hmem rfl ?_ ?_
    · intro q _
      by_cases eq : q = p
      · rw [eq, hp']
      · rw [hother q eq]
    · intro q _
      by_cases eq : q = p
      · rw [eq, hp']
      · rw [hother q eq]
  · refine ⟨h.links.agree.congr hmem ?_ ?_, ?_⟩
    · intro q _
      by_cases eq : q = p
      · rw [eq, hp']
      · rw [hother q eq]
    · intro q _
      by_cases eq : q = p
      · rw [eq, hp']
      · rw [hother q eq]
    · intro q hq hsoq
      rw [hmem] at hq
      by_cases eq : q = p
      · rw [eq, hp'] at hsoq
        exact absurd hso hsoq
      · rw [hother q eq] at hsoq ⊢
        exact h.links.role q hq hsoq
  · intro q hq hn
    rw [hmem] at hq
    by_cases eq : q = p
    · rw [eq, hp']
      exact hrole
    · rw [hother q eq] at hn ⊢
      exact h.roles q hq hn
  · refine ⟨fun q hq => ?_, h.epochs.auth⟩
    rw [hmem] at hq
    by_cases eq : q = p
    · rw [eq, hp']
      exact h.epochs.config p hp
    · rw [hother q eq]
      exact h.epochs.config q hq
  · refine ⟨fun q hq l hl => ?_, fun j q hq => (hmem q).mpr (h.edges.migrating j q hq),
      fun j q hq => (hmem q).mpr (h.edges.importing j q hq)⟩
    rw [hmem] at hq
    change q ≠ st.myself ∧ _
    by_cases eq : q = p
    · rw [eq, hp'] at hl ⊢
      exact ⟨hme, fun _ => hlink l hl⟩
    · rw [hother q eq] at hl ⊢
      exact h.edges.link q hq l hl

theorem NodeInv.change (h : NodeInv c.R x st) (hc : Change c st st') : NodeInv c.R x st' := by
  cases hc with
  | calm hm => exact h.move hm
  | free p hp hme hslots hmig himp _ => exact h.freed hp hme hslots hmig himp
  | endHandshake p name flags hp hme hh hname hrole hself hlink =>
    exact h.endHandshake hp hme hh hname hrole hself hlink

theorem NodeInv.moves (h : NodeInv c.R x st) (hm : Moves c st st') : NodeInv c.R x st' :=
  Stepwise.keeps (I := NodeInv c.R x) (fun _ _ => NodeInv.move) hm h

theorem NodeInv.changes (h : NodeInv c.R x st) (hc : Changes c st st') : NodeInv c.R x st' :=
  Stepwise.keeps (I := NodeInv c.R x) (fun _ _ => NodeInv.change) hc h

end RedisZk.Cluster
