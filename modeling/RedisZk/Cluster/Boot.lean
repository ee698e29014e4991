/-
# Starting from nodes.conf

A process starts, or starts again, with the nodes.conf it saved last.
`clusterLoadConfig` reads it line by line; while it does, nodes exist that only
other lines have mentioned, without flags, and `myself` may be unknown. The
invariant of the loop (`LoadInv`) says what each node has from its line, and at
the end it gives the invariant of a running process (`clusterInit_inv`).

Key definitions: `Blank`, `Loaded`, `LoadInv`.
Key theorems: `LoadInv.loadLine`, `clusterInit_inv`.
-/
import RedisZk.Cluster.CommandSteps

namespace RedisZk.Cluster

open Stepwise (Within)

variable {st st' : Server} {R : Set NodeName} {x : NodeName} {conf : NodesConf} {seen : List ConfLine}
  {my : Option NodePtr} {line : ConfLine}

/-! ### The invariant of the loop -/

/-- The flags that matter here: a line of nodes.conf decides them. -/
def saved (f : NodeFlags) : NodeFlags :=
  { master := f.master, slave := f.slave, myself := f.myself, handshake := f.handshake, pfail := f.pfail }

theorem saved_myself {f g : NodeFlags} (h : saved f = saved g) : f.myself = g.myself := by
  change (saved f).myself = (saved g).myself
  rw [h]

/-- A node no line was read for. -/
def Blank (n : ClusterNode) : Prop := saved n.flags = {} ∧ n.slaveof = none

/-- A node whose line is `l`. -/
def Loaded (l : ConfLine) (n : ClusterNode) : Prop :=
  l.name = n.name ∧ saved n.flags = saved l.flags ∧ (n.slaveof ≠ none → l.master ≠ none)

/-- Where the loop is after the lines `seen`, with `my` for `server.cluster->myself`. -/
structure LoadInv (R : Set NodeName) (conf : NodesConf) (seen : List ConfLine) (st : Server)
    (my : Option NodePtr) : Prop where
  dict : DictInv st
  slots : SlotInv st
  agree : Backlinks.Mutual st.nodes (fun p => (st.heap p).slaves) fun p => (st.heap p).slaveof
  link : ∀ p ∈ st.nodes, (st.heap p).link = none
  migrating : ∀ j q, st.migratingSlotsTo j = some q → q ∈ st.nodes
  importing : ∀ j q, st.importingSlotsFrom j = some q → q ∈ st.nodes
  node : ∀ p ∈ st.nodes, (∃ l ∈ seen, Loaded l (st.heap p)) ∨
    (Blank (st.heap p) ∧ ∀ l ∈ seen, l.name ≠ (st.heap p).name)
  known : ∀ p ∈ st.nodes, (st.heap p).name ∈ R → ∃ l ∈ conf.lines, l.name = (st.heap p).name
  lines : ∀ l ∈ seen, ∃ p ∈ st.nodes, (st.heap p).name = l.name
  my_iff : ∀ p, my = some p ↔ p ∈ st.nodes ∧ (st.heap p).flags.myself = true

/-- What the loop never writes. -/
structure SameMind (st st' : Server) : Prop where
  rest : SameRest st st'
  todo : st'.todo = st.todo

theorem SameMind.refl (st : Server) : SameMind st st := ⟨.refl st, rfl⟩

/-- A write to one node that keeps its name, its slots, its slaves and its lack of a
link. -/
theorem LoadInv.modNode (h : LoadInv R conf seen st my) {p : NodePtr} (hp : p ∈ st.nodes)
    {f : ClusterNode → ClusterNode} {seen' : List ConfLine} {my' : Option NodePtr}
    (hname : (f (st.heap p)).name = (st.heap p).name) (hslots : (f (st.heap p)).slots = (st.heap p).slots)
    (hnum : (f (st.heap p)).numslots = (st.heap p).numslots) (hslaves : (f (st.heap p)).slaves = (st.heap p).slaves)
    (hslaveof : (f (st.heap p)).slaveof = (st.heap p).slaveof) (hlink : (f (st.heap p)).link = none)
    (hnode : (∃ l ∈ seen', Loaded l (f (st.heap p))) ∨
      (Blank (f (st.heap p)) ∧ ∀ l ∈ seen', l.name ≠ (st.heap p).name))
    (hother : ∀ l ∈ seen', l.name ≠ (st.heap p).name → l ∈ seen) (hseen : ∀ l ∈ seen, l ∈ seen')
    (hmy : ∀ q, my' = some q ↔ q ∈ st.nodes ∧ ((st.modNode p f).heap q).flags.myself = true) :
    LoadInv R conf seen' (st.modNode p f) my' := by
  have hfield : ∀ {α : Type} (φ : ClusterNode → α), φ (f (st.heap p)) = φ (st.heap p) →
      ∀ q, φ ((st.modNode p f).heap q) = φ (st.heap q) := by
    intro α φ hφ q
    rw [modNode_heap]
    split
    · rename_i e
      rw [hφ, e]
    · rfl
  have hn := hfield ClusterNode.name hname
  refine ⟨h.dict.congr rfl rfl fun q _ => hn q, ?_, ?_, ?_, h.migrating, h.importing, ?_, ?_, ?_, hmy⟩
  · exact Ownership.Consistent.congr h.slots (fun _ => Iff.rfl) rfl (fun q _ => hfield ClusterNode.slots hslots q)
      fun q _ => hfield ClusterNode.numslots hnum q
  · exact h.agree.congr (fun _ => Iff.rfl) (fun q _ => hfield ClusterNode.slaves hslaves q)
      fun q _ => hfield ClusterNode.slaveof hslaveof q
  · intro q hq
    rw [modNode_heap]
    split
    · exact hlink
    · exact h.link q hq
  · intro q hq
    by_cases e : q = p
    · rw [e, modNode_heap_self, hname]
      exact hnode
    · rw [modNode_heap_ne e]
      rcases h.node q hq with ⟨l, hl, hload⟩ | ⟨hblank, hno⟩
      · exact .inl ⟨l, hseen l hl, hload⟩
      · refine .inr ⟨hblank, fun l hl heq => ?_⟩
        by_cases hlp : l.name = (st.heap p).name
        · exact e (h.dict.names q hq p hp (heq.symm.trans hlp))
        · exact hno l (hother l hl hlp) heq
  · intro q hq hR
    rw [hn q] at hR ⊢
    exact h.known q hq hR
  · intro l hl
    by_cases hlp : l.name = (st.heap p).name
    · exact ⟨p, hp, (hn p).trans hlp.symm⟩
    · obtain ⟨q, hq, hqn⟩ := h.lines l (hother l hl hlp)
      exact ⟨q, hq, (hn q).trans hqn⟩

/-! ### The steps of a line -/

theorem LoadInv.lookupOrCreate (env : Env) (h : LoadInv R conf seen st my) (name : NodeName)
    (hname : name ∈ R → ∃ l ∈ conf.lines, l.name = name) :
    ∃ st' p, lookupOrCreateNode env st name = (st', p) ∧ LoadInv R conf seen st' my ∧ SameMind st st' ∧
      p ∈ st'.nodes ∧ (st'.heap p).name = name ∧ ∀ q ∈ st.nodes, q ∈ st'.nodes ∧ st'.heap q = st.heap q := by
  unfold lookupOrCreateNode
  cases hl : clusterLookupNode st name with
  | some p =>
    obtain ⟨hp, hpn⟩ := clusterLookupNode_some hl
    exact ⟨st, p, rfl, h, .refl st, hp, hpn, fun q hq => ⟨hq, rfl⟩⟩
  | none =>
    have hnew := clusterAddNode_alloc h.dict { ctime := env.now, name := name, flags := {} }
    rw [hl, if_neg (by simp)] at hnew
    refine ⟨_, _, congrArg (·, st.nextPtr) hnew, ?_, ⟨⟨rfl, rfl, rfl, rfl, rfl, rfl, rfl, rfl, rfl, rfl, rfl, id⟩, rfl⟩,
      mem_enter.mpr (.inr rfl), by rw [enter_heap_self], fun q hq => ⟨mem_enter.mpr (.inl hq), enter_heap st _ (h.dict.fresh q hq)⟩⟩
    have hun := clusterLookupNode_none.mp hl
    refine ⟨h.dict.enter hl, h.slots.enter h.dict rfl rfl, mutual_enter h.dict rfl rfl h.agree, ?_,
      fun j q hq => mem_enter.mpr (.inl (h.migrating j q hq)), fun j q hq => mem_enter.mpr (.inl (h.importing j q hq)),
      ?_, ?_, ?_, ?_⟩
    · intro q hq
      rcases mem_enter.mp hq with hq | rfl
      · rw [enter_heap st _ (h.dict.fresh q hq)]
        exact h.link q hq
      · rw [enter_heap_self]
    · intro q hq
      rcases mem_enter.mp hq with hq | rfl
      · rw [enter_heap st _ (h.dict.fresh q hq)]
        exact h.node q hq
      · rw [enter_heap_self]
        refine .inr ⟨⟨rfl, rfl⟩, fun l hl heq => ?_⟩
        obtain ⟨q, hq, hqn⟩ := h.lines l hl
        exact hun q hq (hqn.trans heq)
    · intro q hq
      rcases mem_enter.mp hq with hq | rfl
      · rw [enter_heap st _ (h.dict.fresh q hq)]
        exact h.known q hq
      · rw [enter_heap_self]
        exact hname
    · intro l hl
      obtain ⟨q, hq, hqn⟩ := h.lines l hl
      refine ⟨q, mem_enter.mpr (.inl hq), ?_⟩
      rw [enter_heap st _ (h.dict.fresh q hq)]
      exact hqn
    · intro q
      rw [h.my_iff q]
      constructor
      · intro ⟨hq, hf⟩
        refine ⟨mem_enter.mpr (.inl hq), ?_⟩
        rw [enter_heap st _ (h.dict.fresh q hq)]
        exact hf
      · intro ⟨hq, hf⟩
        rcases mem_enter.mp hq with hq | rfl
        · rw [enter_heap st _ (h.dict.fresh q hq)] at hf
          exact ⟨hq, hf⟩
        · rw [enter_heap_self] at hf
          cases hf

/-- A step that changes slots, or links, and leaves the flags of every node as they are. -/
theorem LoadInv.keeps {part : Part} (h : LoadInv R conf seen st my) (hk : Keeps part st st') (hslots : SlotInv st')
    (hagree : Backlinks.Mutual st'.nodes (fun p => (st'.heap p).slaves) fun p => (st'.heap p).slaveof)
    (hnode : ∀ p ∈ st.nodes, saved (st'.heap p).flags = saved (st.heap p).flags ∧
      ((st'.heap p).slaveof = (st.heap p).slaveof ∨ ∃ l ∈ seen, l.master ≠ none ∧ Loaded l (st.heap p))) :
    LoadInv R conf seen st' my where
  dict := h.dict.congr hk.nodes hk.nextPtr fun p _ => (hk.same p).name
  slots := hslots
  agree := hagree
  link := by
    intro p hp
    rw [hk.nodes] at hp
    rw [(hk.same p).link]
    exact h.link p hp
  migrating := fun j q hq => hk.nodes ▸ h.migrating j q (hk.migrating j q hq)
  importing := fun j q hq => hk.nodes ▸ h.importing j q (hk.importing j q hq)
  node := by
    intro p hp
    rw [hk.nodes] at hp
    obtain ⟨hf, hso⟩ := hnode p hp
    have hload : ∀ l, Loaded l (st.heap p) → ((st'.heap p).slaveof ≠ none → l.master ≠ none) → Loaded l (st'.heap p) :=
      fun l hl hm => ⟨hl.1.trans (hk.same p).name.symm, hf.trans hl.2.1, hm⟩
    rcases hso with hso | ⟨l, hl, hm, hl'⟩
    · rcases h.node p hp with ⟨l, hl, hl'⟩ | ⟨hb, hno⟩
      · exact .inl ⟨l, hl, hload l hl' (hso ▸ hl'.2.2)⟩
      · refine .inr ⟨⟨hf.trans hb.1, hso.trans hb.2⟩, ?_⟩
        rw [(hk.same p).name]
        exact hno
    · exact .inl ⟨l, hl, hload l hl' fun _ => hm⟩
  known := by
    intro p hp
    rw [hk.nodes] at hp
    rw [(hk.same p).name]
    exact h.known p hp
  lines := by
    intro l hl
    obtain ⟨p, hp, hpn⟩ := h.lines l hl
    exact ⟨p, hk.nodes ▸ hp, (hk.same p).name.trans hpn⟩
  my_iff := by
    intro p
    rw [h.my_iff p, hk.nodes, (hk.same p).myself]

theorem SameMind.trans {st'' : Server} (h : SameMind st st') (h' : SameMind st' st'') : SameMind st st'' :=
  ⟨h.rest.trans h'.rest, h'.todo.trans h.todo⟩

theorem SameMind.modNode (st : Server) (p : NodePtr) (f : ClusterNode → ClusterNode) : SameMind st (st.modNode p f) :=
  ⟨⟨rfl, rfl, rfl, rfl, rfl, rfl, rfl, rfl, rfl, rfl, rfl, id⟩, rfl⟩

theorem SameMind.addSlave (st : Server) (m s : NodePtr) : SameMind st (clusterNodeAddSlave st m s) := by
  refine ⟨(Keeps.addSlave st m s).rest, ?_⟩
  unfold clusterNodeAddSlave
  split <;> rfl

theorem SameMind.addSlot (st : Server) (p : NodePtr) (j : Slot) : SameMind st (clusterAddSlot st p j) := by
  refine ⟨(Keeps.addSlot st p j).rest, ?_⟩
  unfold clusterAddSlot clusterNodeSetSlotBit
  split
  · rfl
  · dsimp only
    split <;> rfl

/-- The master field: the node joins the slaves of its master. -/
theorem LoadInv.loadMaster (env : Env) (h : LoadInv R conf seen st my) {p : NodePtr} (hp : p ∈ st.nodes)
    (hl : line ∈ seen) (hload : Loaded line (st.heap p)) (hso : (st.heap p).slaveof = none)
    (hname : ∀ name, line.master = some name → name ∈ R → ∃ l ∈ conf.lines, l.name = name) :
    LoadInv R conf seen (loadMaster env st p line.master) my ∧ SameMind st (loadMaster env st p line.master) ∧
      p ∈ (Cluster.loadMaster env st p line.master).nodes := by
  unfold Cluster.loadMaster
  split
  · exact ⟨h, .refl st, hp⟩
  · rename_i name hm
    obtain ⟨s, m, heq, hs, hmind, hmem, -, hold⟩ := h.lookupOrCreate env name (hname name hm)
    rw [heq]
    dsimp only
    obtain ⟨hps, hheap⟩ := hold p hp
    have hk := (Keeps.setSlaveof s p (some m)).trans (Keeps.addSlave _ m p)
    have hnot : p ∉ (s.heap m).slaves := fun hin => by
      have := ((hs.agree.mem_children m hmem p).mp hin).2
      rw [hheap, hso] at this
      cases this
    have hslaves1 : ∀ q, ((s.modNode p fun n => { n with slaveof := some m }).heap q).slaves = (s.heap q).slaves :=
      fun q => modNode_field ClusterNode.slaves (f := fun n => { n with slaveof := some m }) (fun _ => rfl) s p q
    have hrole := addSlave_role (s.modNode p fun n => { n with slaveof := some m }) m p
    have hslaveof : ∀ q, ((clusterNodeAddSlave (s.modNode p fun n => { n with slaveof := some m }) m p).heap q).slaveof =
        if q = p then some m else (s.heap q).slaveof := by
      intro q
      have h1 : ((s.modNode p fun n => { n with slaveof := some m }).heap q).slaveof =
          if q = p then some m else (s.heap q).slaveof := by
        rw [modNode_heap]
        split <;> rfl
      rw [← h1]
      have h2 := congrArg NodeRole.slaveof (hrole q)
      split at h2
      · rename_i e
        rw [e]
        rw [e] at h2
        exact h2
      · exact h2
    refine ⟨hs.keeps hk (hs.slots.keeps hk (by decide)) ?_ ?_, hmind.trans ((SameMind.modNode s p _).trans (.addSlave _ m p)),
      hk.nodes ▸ hps⟩
    · rw [hk.nodes]
      refine hs.agree.setParent hps (o := some m) (fun m' e => Option.some.inj e ▸ hmem) (fun q _ => ?_)
        fun q _ => hslaveof q
      have h2 := congrArg NodeRole.slaves (hrole q)
      rw [hheap, hso, if_neg (by simp)]
      by_cases e : q = m
      · rw [if_pos e] at h2
        have h3 : ((clusterNodeAddSlave (s.modNode p fun n => { n with slaveof := some m }) m p).heap q).slaves = _ := h2
        rw [h3]
        simp only [hslaves1, hnot, ↓reduceIte, e]
      · rw [if_neg e] at h2
        have h3 : ((clusterNodeAddSlave (s.modNode p fun n => { n with slaveof := some m }) m p).heap q).slaves = _ := h2
        rw [h3, if_neg (fun e' => e (Option.some.inj e').symm), List.append_nil]
        exact hslaves1 q
    · intro q hq
      have hflags : saved ((clusterNodeAddSlave (s.modNode p fun n => { n with slaveof := some m }) m p).heap q).flags =
          saved ((s.modNode p fun n => { n with slaveof := some m }).heap q).flags := by
        unfold clusterNodeAddSlave
        split
        · rfl
        · exact modNode_field (fun n => saved n.flags)
            (f := fun n => { n with slaves := n.slaves ++ [p], flags := { n.flags with migrateTo := true } })
            (fun _ => rfl) _ m q
      refine ⟨hflags.trans (modNode_field (fun n => saved n.flags) (f := fun n => { n with slaveof := some m })
        (fun _ => rfl) s p q), ?_⟩
      by_cases e : q = p
      · refine .inr ⟨line, hl, by simp [hm], ?_⟩
        rw [e, hheap]
        exact hload
      · rw [hslaveof q, if_neg e]
        exact .inl rfl

theorem LoadInv.addSlot (h : LoadInv R conf seen st my) {p : NodePtr} (hp : p ∈ st.nodes) (j : Slot) :
    LoadInv R conf seen (clusterAddSlot st p j) my := by
  have hk := Keeps.addSlot st p j
  refine h.keeps hk ?_ ?_ fun q _ => ⟨?_, .inl ((hk.same q).slaveof (by decide))⟩
  · cases hj : st.slots j with
    | none => exact h.slots.addSlot hp hj
    | some n =>
      rw [clusterAddSlot, if_pos (by simp [hj])]
      exact h.slots
  · rw [hk.nodes]
    exact h.agree.congr (fun _ => Iff.rfl) (fun q _ => (hk.same q).slaves (by decide))
      fun q _ => (hk.same q).slaveof (by decide)
  · unfold saved
    rw [(hk.same q).master (by decide), (hk.same q).slave (by decide), (hk.same q).myself, (hk.same q).handshake,
      (hk.same q).pfail]

theorem LoadInv.openSlot (env : Env) (h : LoadInv R conf seen st my) (mig : Bool) {s : Slot × NodeName}
    (hname : s.2 ∈ R → ∃ l ∈ conf.lines, l.name = s.2) :
    LoadInv R conf seen (loadOpenSlot env mig st s) my ∧ SameMind st (loadOpenSlot env mig st s) := by
  obtain ⟨s', q, heq, hs, hmind, hmem, -, -⟩ := h.lookupOrCreate env _ hname
  unfold loadOpenSlot
  rw [heq]
  have hupdate : ∀ f : Slot → Option NodePtr, (∀ j q, f j = some q → q ∈ s'.nodes) →
      ∀ j q', Function.update f s.1 (some q) j = some q' → q' ∈ s'.nodes := by
    intro f hf j q' hq'
    rw [Function.update_apply] at hq'
    split at hq'
    · exact Option.some.inj hq' ▸ hmem
    · exact hf j q' hq'
  cases mig with
  | true =>
    exact ⟨⟨hs.dict.congr rfl rfl fun _ _ => rfl, hs.slots, hs.agree, hs.link, hupdate _ hs.migrating, hs.importing,
      hs.node, hs.known, hs.lines, hs.my_iff⟩,
      ⟨hmind.rest.trans ⟨rfl, rfl, rfl, rfl, rfl, rfl, rfl, rfl, rfl, rfl, rfl, id⟩, hmind.todo⟩⟩
  | false =>
    exact ⟨⟨hs.dict.congr rfl rfl fun _ _ => rfl, hs.slots, hs.agree, hs.link, hs.migrating, hupdate _ hs.importing,
      hs.node, hs.known, hs.lines, hs.my_iff⟩,
      ⟨hmind.rest.trans ⟨rfl, rfl, rfl, rfl, rfl, rfl, rfl, rfl, rfl, rfl, rfl, id⟩, hmind.todo⟩⟩

/-! ### A line, and the file -/

/-- Address and flags of the line: the node has its line now. -/
theorem LoadInv.fields (env : Env) (h : LoadInv R conf seen st my) {p : NodePtr} (hp : p ∈ st.nodes)
    (hpn : (st.heap p).name = line.name) (hnew : ∀ l ∈ seen, l.name ≠ line.name)
    (hmy : line.flags.myself = true → my = none) :
    LoadInv R conf (line :: seen) (st.modNode p (loadNodeFields env line)) (if line.flags.myself then some p else my) ∧
      Loaded line (loadNodeFields env line (st.heap p)) ∧ (st.heap p).slaveof = none := by
  have hblank : Blank (st.heap p) := by
    rcases h.node p hp with ⟨l, hl, hload⟩ | ⟨hb, -⟩
    · exact absurd (hload.1.trans hpn) (hnew l hl)
    · exact hb
  have hflags : saved ((st.heap p).flags.or line.flags) = saved line.flags := by
    have hb := hblank.1
    simp only [saved, NodeFlags.mk.injEq] at hb
    simp only [saved, NodeFlags.or, hb, Bool.false_or]
  have hload : Loaded line (loadNodeFields env line (st.heap p)) :=
    ⟨hpn.symm, hflags, fun hne => absurd hblank.2 hne⟩
  refine ⟨h.modNode hp rfl rfl rfl rfl rfl (h.link p hp) (.inl ⟨line, List.mem_cons_self, hload⟩) (fun l hl hne => ?_)
    (fun l hl => List.mem_cons_of_mem _ hl) (fun q => ?_), hload, hblank.2⟩
  · rcases List.mem_cons.mp hl with rfl | hl
    · exact absurd hpn.symm hne
    · exact hl
  · have hself : (st.heap p).flags.myself = false := congrArg NodeFlags.myself hblank.1
    have hline : (loadNodeFields env line (st.heap p)).flags.myself = line.flags.myself :=
      saved_myself hflags
    rw [modNode_heap]
    by_cases e : q = p
    · rw [if_pos e, hline, e]
      split
      · rename_i hm
        exact ⟨fun _ => ⟨hp, hm⟩, fun _ => rfl⟩
      · rename_i hm
        rw [h.my_iff p, hself]
        exact ⟨fun hf => absurd hf.2 (by simp), fun hf => absurd hf.2 hm⟩
    · rw [if_neg e]
      split
      · rename_i hm
        have hq := h.my_iff q
        rw [hmy hm] at hq
        rw [← hq]
        exact ⟨fun heq => absurd (Option.some.inj heq).symm e, nofun⟩
      · exact h.my_iff q

theorem LoadInv.times (env : Env) (h : LoadInv R conf seen st my) {p : NodePtr} (hp : p ∈ st.nodes) :
    LoadInv R conf seen (st.modNode p (loadNodeTimes env line)) my := by
  refine h.modNode hp rfl rfl rfl rfl rfl (h.link p hp) (h.node p hp) (fun _ hl _ => hl) (fun _ => id) fun q => ?_
  rw [modNode_field (fun n => n.flags.myself) (f := loadNodeTimes env line) (fun _ => rfl) st p q]
  exact h.my_iff q

/-- One line. -/
theorem LoadInv.loadLine (env : Env) (hconf : ConfOK R x conf) (h : LoadInv R conf seen st my) (hl : line ∈ conf.lines)
    (hsub : ∀ l ∈ seen, l ∈ conf.lines) (hnew : ∀ l ∈ seen, l.name ≠ line.name) :
    Within (fun r => LoadInv R conf (line :: seen) r.1 r.2 ∧ SameMind st r.1) (fun _ => False)
      (Cluster.loadLine env (st, my) line) := by
  obtain ⟨s1, p, heq, h1, hmind1, hp1, hpn1, -⟩ := h.lookupOrCreate env line.name fun _ => ⟨line, hl, rfl⟩
  have hmy : line.flags.myself = true → my = none := by
    intro hm
    cases my with
    | none => rfl
    | some q =>
      obtain ⟨hq, hf⟩ := (h.my_iff q).mp rfl
      rcases h.node q hq with ⟨l, hls, hload⟩ | ⟨hb, -⟩
      · have hlm : l.flags.myself = true := (saved_myself hload.2.1).symm.trans hf
        have hlx := (hconf.myself_iff l (hsub l hls)).mp hlm
        exact absurd (hlx.trans ((hconf.myself_iff line hl).mp hm).symm) (hnew l hls)
      · have hbm : (st.heap q).flags.myself = false := congrArg NodeFlags.myself hb.1
        rw [hbm] at hf
        cases hf
  obtain ⟨h2, hload, hso⟩ := h1.fields env hp1 hpn1 hnew hmy
  have hrefs : ∀ r ∈ line.refs, r ∈ R → ∃ l ∈ conf.lines, l.name = r := hconf.refs line hl
  -- everything after the flags
  have hrest : ∀ my', LoadInv R conf (line :: seen) (s1.modNode p (loadNodeFields env line)) my' →
      LoadInv R conf (line :: seen)
        (line.importing.foldl (loadOpenSlot env false) (line.migrating.foldl (loadOpenSlot env true)
          (line.slots.foldl (fun st j => clusterAddSlot st p j)
            ((Cluster.loadMaster env (s1.modNode p (loadNodeFields env line)) p line.master).modNode p
              (loadNodeTimes env line))))) my' ∧
        SameMind st (line.importing.foldl (loadOpenSlot env false) (line.migrating.foldl (loadOpenSlot env true)
          (line.slots.foldl (fun st j => clusterAddSlot st p j)
            ((Cluster.loadMaster env (s1.modNode p (loadNodeFields env line)) p line.master).modNode p
              (loadNodeTimes env line))))) := by
    intro my' h2
    have hload' : Loaded line ((s1.modNode p (loadNodeFields env line)).heap p) := by
      rw [modNode_heap_self]
      exact hload
    have hso' : ((s1.modNode p (loadNodeFields env line)).heap p).slaveof = none := by
      rw [modNode_heap_self]
      exact hso
    obtain ⟨h3, hmind3, hp3⟩ := h2.loadMaster env hp1 List.mem_cons_self hload' hso' fun name hm =>
      hrefs name (by simp [ConfLine.refs, hm])
    generalize Cluster.loadMaster env (s1.modNode p (loadNodeFields env line)) p line.master = s3 at h3 hmind3 hp3 ⊢
    have h4 : LoadInv R conf (line :: seen) (s3.modNode p (loadNodeTimes env line)) my' := h3.times env hp3
    have hmind4 := ((hmind1.trans (SameMind.modNode s1 p _)).trans hmind3).trans
      (SameMind.modNode s3 p (loadNodeTimes env line))
    have h5 := Stepwise.foldl_invariant (f := fun st j => clusterAddSlot st p j)
      (Q := fun s => (LoadInv R conf (line :: seen) s my' ∧ SameMind st s) ∧ p ∈ s.nodes) line.slots _ ⟨⟨h4, hmind4⟩, hp3⟩
      fun s hq j _ => ⟨⟨hq.1.1.addSlot hq.2 j, hq.1.2.trans (.addSlot s p j)⟩, (Keeps.addSlot s p j).nodes ▸ hq.2⟩
    have h6 := Stepwise.foldl_invariant (f := loadOpenSlot env true)
      (Q := fun s => LoadInv R conf (line :: seen) s my' ∧ SameMind st s) line.migrating _ h5.1
      fun s hq o ho => by
        obtain ⟨hs, hm⟩ := hq
        obtain ⟨h', hm'⟩ := hs.openSlot env true (hrefs o.2 (by
          simp only [ConfLine.refs, List.mem_append, List.mem_map]
          exact .inl (.inr ⟨o, ho, rfl⟩)))
        exact ⟨h', hm.trans hm'⟩
    exact Stepwise.foldl_invariant (f := loadOpenSlot env false)
      (Q := fun s => LoadInv R conf (line :: seen) s my' ∧ SameMind st s) line.importing _ h6
      fun s hq o ho => by
        obtain ⟨hs, hm⟩ := hq
        obtain ⟨h', hm'⟩ := hs.openSlot env false (hrefs o.2 (by
          simp only [ConfLine.refs, List.mem_append, List.mem_map]
          exact .inr ⟨o, ho, rfl⟩))
        exact ⟨h', hm.trans hm'⟩
  unfold Cluster.loadLine
  rw [heq]
  dsimp only
  split
  · rename_i hm
    rw [if_pos hm] at h2
    rw [hmy hm]
    exact hrest _ h2
  · rename_i hm
    rw [if_neg hm] at h2
    exact hrest _ h2

/-- The whole file: at the end every line was read. -/
theorem LoadInv.loadLines (env : Env) (hconf : ConfOK R x conf) (rest : List ConfLine) (h : LoadInv R conf seen st my)
    (hrest : ∀ l ∈ rest, l ∈ conf.lines) (hsub : ∀ l ∈ seen, l ∈ conf.lines) (hnd : (rest.map ConfLine.name).Nodup)
    (hnew : ∀ l ∈ rest, ∀ l' ∈ seen, l'.name ≠ l.name) :
    Within (fun r => SameMind st r.1 ∧ ∃ all, LoadInv R conf all r.1 r.2 ∧ (∀ l ∈ all, l ∈ conf.lines) ∧
      (∀ l ∈ seen, l ∈ all) ∧ ∀ l ∈ rest, l ∈ all) (fun _ => False) (rest.foldlM (Cluster.loadLine env) (st, my)) := by
  induction rest generalizing seen st my with
  | nil => exact ⟨.refl st, seen, h, hsub, fun _ => id, by simp⟩
  | cons line rest ih =>
    rw [List.foldlM_cons]
    rw [List.map_cons, List.nodup_cons] at hnd
    have hl := hrest line List.mem_cons_self
    refine Within.bind (h.loadLine env hconf hl hsub (hnew line List.mem_cons_self)) fun r ⟨hs, hmind⟩ => ?_
    obtain ⟨s, my'⟩ := r
    refine Within.mono (ih hs (fun l hl => hrest l (List.mem_cons_of_mem _ hl)) ?_ hnd.2 ?_) ?_ fun _ => id
    · intro l hl'
      rcases List.mem_cons.mp hl' with rfl | hl'
      · exact hl
      · exact hsub l hl'
    · intro l hl' l' hl''
      rcases List.mem_cons.mp hl'' with rfl | hl''
      · exact fun e => hnd.1 (e ▸ List.mem_map_of_mem hl')
      · exact hnew l (List.mem_cons_of_mem _ hl') l' hl''
    · intro r ⟨hm, all, hall, hallsub, hseen, hin⟩
      refine ⟨hmind.trans hm, all, hall, hallsub, fun l hl' => hseen l (List.mem_cons_of_mem _ hl'), fun l hl' => ?_⟩
      rcases List.mem_cons.mp hl' with rfl | hl'
      · exact hseen _ List.mem_cons_self
      · exact hin l hl'

/-! ### `clusterInit` -/

/-- What a process that starts has in memory outside the node table. -/
structure Booted (prev st : Server) : Prop where
  currentEpoch : prev.conf.currentEpoch ≤ st.currentEpoch
  lastVoteEpoch : st.lastVoteEpoch = prev.conf.lastVoteEpoch
  authCount : st.failoverAuthCount = 0
  authAcks : st.failoverAuthAcks = []
  authSent : st.failoverAuthSent = false
  authEpoch : st.failoverAuthEpoch = 0
  sndbuf : st.sndbuf = []
  conf : st.conf = prev.conf
  log : st.log = prev.log
  zklc : st.zklc = none
  zk : st.zk = prev.zk

theorem clusterGetMaxEpoch_spec (st : Server) :
    st.currentEpoch ≤ clusterGetMaxEpoch st ∧ ∀ p ∈ st.nodes, (st.heap p).configEpoch ≤ clusterGetMaxEpoch st := by
  have hfold : ∀ (l : List ℕ) (a : ℕ), a ≤ l.foldl max a ∧ ∀ e ∈ l, e ≤ l.foldl max a := by
    intro l
    induction l with
    | nil => exact fun a => ⟨le_rfl, nofun⟩
    | cons e l ih =>
      intro a
      obtain ⟨ha, hl⟩ := ih (max a e)
      refine ⟨(le_max_left a e).trans ha, fun e' he' => ?_⟩
      rcases List.mem_cons.mp he' with rfl | he'
      · exact (le_max_right a _).trans ha
      · exact hl e' he'
  refine ⟨le_max_right _ _, fun p hp => le_trans ?_ (le_max_left _ _)⟩
  exact (hfold _ 0).2 _ (List.mem_map_of_mem hp)

/-- What is loaded is the state of a process: `n` is the node of `x`. -/
theorem LoadInv.nodeInv (hconf : ConfOK R x conf) (hx : x ∈ R) (h : LoadInv R conf seen st my)
    (hsub : ∀ l ∈ seen, l ∈ conf.lines) (hall : ∀ l ∈ conf.lines, l ∈ seen) (hbuf : st.sndbuf = [])
    (hc : st.conf = conf) (hauth : st.failoverAuthEpoch = 0) :
    ∃ n, my = some n ∧
      NodeInv R x { st with myself := n, currentEpoch := max (clusterGetMaxEpoch st) st.currentEpoch } := by
  have hline : ∀ p ∈ st.nodes, (∃ l ∈ seen, l.name = (st.heap p).name) → ∃ l ∈ seen, Loaded l (st.heap p) := by
    intro p hp ⟨l, hl, hn⟩
    rcases h.node p hp with hload | ⟨-, hno⟩
    · exact hload
    · exact absurd hn (hno l hl)
  obtain ⟨lx, hlx, hlxn⟩ := hconf.myself
  obtain ⟨n, hn, hnn⟩ := h.lines lx (hall lx hlx)
  have hnx : (st.heap n).name = x := hnn.trans hlxn
  obtain ⟨l, hl, hload⟩ := hline n hn ⟨lx, hall lx hlx, hnn.symm⟩
  have hln : l.name = x := hload.1.trans hnx
  have hflag : (st.heap n).flags.myself = true :=
    (saved_myself hload.2.1).trans ((hconf.myself_iff l (hsub l hl)).mpr hln)
  have hmy : my = some n := (h.my_iff n).mpr ⟨hn, hflag⟩
  obtain ⟨hmax, hmaxp⟩ := clusterGetMaxEpoch_spec st
  refine ⟨n, hmy, hx, ⟨h.dict.congr rfl rfl fun _ _ => rfl, hn, hnx, ?_, ?_⟩, h.slots, ⟨h.agree, ?_⟩, ?_,
    ⟨fun p hp => (hmaxp p hp).trans (le_max_left _ _), ?_⟩, ⟨?_, h.migrating, h.importing⟩, ?_, ?_⟩
  · intro p hp
    have hp' := h.my_iff p
    rw [hmy] at hp'
    constructor
    · exact fun hf => (Option.some.inj (hp'.mpr ⟨hp, hf⟩)).symm
    · exact fun e => (hp'.mp (congrArg some e.symm)).2
  · have hpf : (saved (st.heap n).flags).pfail = (saved l.flags).pfail := congrArg _ hload.2.1
    exact hpf.trans (hconf.me_pfail l (hsub l hl) hln)
  · intro p hp hso
    rcases h.node p hp with ⟨l, hl, hload⟩ | ⟨hb, -⟩
    · obtain ⟨hs, hm⟩ := hconf.master l (hsub l hl) (hload.2.2 hso)
      have hsl : (saved (st.heap p).flags).slave = (saved l.flags).slave := congrArg _ hload.2.1
      have hma : (saved (st.heap p).flags).master = (saved l.flags).master := congrArg _ hload.2.1
      have hha : (saved (st.heap p).flags).handshake = (saved l.flags).handshake := congrArg _ hload.2.1
      exact ⟨hsl.trans hs, hma.trans hm, hha.trans (hconf.handshake l (hsub l hl))⟩
    · exact absurd hb.2 hso
  · intro p hp hR
    obtain ⟨lp, hlp, hlpn⟩ := h.known p hp hR
    obtain ⟨l, hl, hload⟩ := hline p hp ⟨lp, hall lp hlp, hlpn⟩
    have hlR : l.name ∈ R := by
      rw [hload.1]
      exact hR
    have hsl : (saved (st.heap p).flags).slave = (saved l.flags).slave := congrArg _ hload.2.1
    have hma : (saved (st.heap p).flags).master = (saved l.flags).master := congrArg _ hload.2.1
    have hha : (saved (st.heap p).flags).handshake = (saved l.flags).handshake := congrArg _ hload.2.1
    refine ⟨?_, hha.trans (hconf.handshake l (hsub l hl))⟩
    rcases hconf.role l (hsub l hl) hlR with h' | h'
    · exact .inl (hma.trans h')
    · exact .inr (hsl.trans h')
  · change st.failoverAuthEpoch ≤ _
    rw [hauth]
    exact Nat.zero_le _
  · intro p hp l hl
    have hnone : (st.heap p).link = none := h.link p hp
    have hsome : (st.heap p).link = some l := hl
    rw [hnone] at hsome
    cases hsome
  · intro m hm
    have hmem : m ∈ st.sndbuf := hm
    rw [hbuf] at hmem
    cases hmem
  · change ConfOK R x st.conf
    rw [hc]
    exact hconf

/-- The loop starts without a node. -/
theorem LoadInv.start (hnodes : st.nodes = []) (hslots : ∀ j, st.slots j = none)
    (hmig : ∀ j, st.migratingSlotsTo j = none) (himp : ∀ j, st.importingSlotsFrom j = none) :
    LoadInv R conf [] st none where
  dict := ⟨by simp [hnodes], by simp [hnodes], by simp [hnodes]⟩
  slots := ⟨by simp [hslots], by simp [hnodes], by simp [hnodes]⟩
  agree := ⟨by simp [hnodes], by simp [hnodes], by simp [hnodes]⟩
  link := by simp [hnodes]
  migrating := by simp [hmig]
  importing := by simp [himp]
  node := by simp [hnodes]
  known := by simp [hnodes]
  lines := by simp
  my_iff := by simp [hnodes]


theorem clusterLoadConfig_inv (env : Env) (prev : Server) (hx : x ∈ R) (hconf : ConfOK R x prev.conf) :
    Within (fun st => NodeInv R x st ∧ Booted prev st) (fun _ => False)
      (clusterLoadConfig env (freshServer env prev) prev.conf) := by
  unfold clusterLoadConfig
  extract_lets s0
  have h0 : LoadInv R prev.conf [] s0 none := LoadInv.start rfl (fun _ => rfl) (fun _ => rfl) fun _ => rfl
  refine Within.bind (LoadInv.loadLines env hconf prev.conf.lines h0 (fun _ => id) (by simp) hconf.names (by simp))
    fun r ⟨hmind, all, hall, hsub, _, hin⟩ => ?_
  obtain ⟨s, my⟩ := r
  have hbuf : s.sndbuf = [] := hmind.rest.sndbuf
  have hc : s.conf = prev.conf := hmind.rest.conf
  have hauth : s.failoverAuthEpoch = 0 := hmind.rest.failoverAuthEpoch
  obtain ⟨n, hmy, hinv⟩ := hall.nodeInv hconf hx hsub hin hbuf hc hauth
  have hcur : s.currentEpoch = prev.conf.currentEpoch := hmind.rest.currentEpoch
  change my = some n at hmy
  rw [hmy]
  refine ⟨hinv, ⟨?_, hmind.rest.lastVoteEpoch, hmind.rest.failoverAuthCount, hmind.rest.failoverAuthAcks,
    hmind.rest.failoverAuthSent, hauth, hbuf, hc, hmind.rest.log, hmind.rest.zklc, hmind.rest.zk⟩⟩
  rw [← hcur]
  exact le_max_right _ _

/-- **A process that starts with a nodes.conf it saved is in a good state.** -/
theorem clusterInit_inv (env : Env) (prev : Server) (hx : x ∈ R) (hconf : ConfOK R x prev.conf) :
    Within (fun st => NodeInv R x st ∧ Booted prev st) (fun _ => False) (clusterInit env prev) := by
  unfold clusterInit
  refine Within.bind (clusterLoadConfig_inv env prev hx hconf) fun s ⟨hi, hb⟩ => ?_
  extract_lets s1
  have h1 : Soft R s s1 := by
    refine .modData s s.myself fun n => ?_
    exact ⟨.of_eq rfl, rfl, rfl⟩
  have h2 := h1.trans (clusterUpdateMyselfFlags_soft (R := R) env s1)
  have hr := h2.rest
  have hm : Moves { R := R } s (clusterUpdateMyselfFlags env s1) := Soft.moves (c := { R := R }) h2
  refine ⟨hi.moves hm, ⟨?_, hr.lastVoteEpoch.trans hb.lastVoteEpoch, hr.failoverAuthCount.trans hb.authCount,
    hr.failoverAuthAcks.trans hb.authAcks, hr.failoverAuthSent.trans hb.authSent,
    hr.failoverAuthEpoch.trans hb.authEpoch, hr.sndbuf.trans hb.sndbuf, hr.conf.trans hb.conf, hr.log.trans hb.log,
    hr.zklc.trans hb.zklc, hr.zk.trans hb.zk⟩⟩
  rw [hr.currentEpoch]
  exact hb.currentEpoch

end RedisZk.Cluster
