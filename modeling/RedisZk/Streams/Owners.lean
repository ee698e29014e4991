/-
# The owners of the pending entries

The PEL of a group and those of its consumers index the same NACKs: they are the main
index and the lists of `SharedIndex`. `Sound` is what every function keeps of a group;
while a NACK goes from one consumer to another, or is new and has none, it is `Floating`.
What each function does to a group is what it does to the owners of the entries.

Key definitions: `Sound`, `owners`, `Floating`.
Key theorems: `streamLookupConsumer_spec`, `Sound.lift`, `Sound.force`, `Floating.lookup`, `Floating.land`, `deliverEntry_spec`.
-/
import RedisZk.Lib.SharedIndex
import RedisZk.Streams.Commands

namespace RedisZk.Streams

open Function SharedIndex

/-! ### What a group holds -/

namespace StreamCG

/-- The consumer of a NACK. -/
def cell (g : StreamCG) (n : ℕ) : Option (Option ℕ) := (g.nacks n).map StreamNACK.consumer

/-- The PEL of a consumer. -/
def lists (g : StreamCG) (a : ℕ) : Option (StreamID → Option ℕ) := (g.heap a).map fun c => c.pel.find

def names (g : StreamCG) (a : ℕ) : Option Sds := (g.heap a).map StreamConsumer.name

/-- The name of the consumer that an entry is pending for. -/
def owners (g : StreamCG) (id : StreamID) : Option Sds := (holder g.pel.find g.cell id).bind g.names

end StreamCG

structure Sound (g : StreamCG) : Prop where
  owned : Owned g.pel.find g.cell g.lists
  members : ∀ name a, g.consumers.find name = some a ↔ g.names a = some name
  low_nack : ∀ n, g.fresh ≤ n → g.cell n = none
  low_consumer : ∀ a, g.fresh ≤ a → g.names a = none

/-- Consumers stay, with their names. -/
def Names (g g' : StreamCG) : Prop := ∀ a name, g.names a = some name → g'.names a = some name

theorem Names.trans {g g' g'' : StreamCG} (h : Names g g') (h' : Names g' g'') : Names g g'' :=
  fun a name ha => h' a name (h a name ha)

theorem Names.of_eq {g g' : StreamCG} (h : g'.names = g.names) : Names g g' := by
  intro a name ha
  rw [h]
  exact ha

section Views

variable (g : StreamCG) (n a : ℕ) (nk : StreamNACK) (c : StreamConsumer)

@[simp]
theorem cell_setNack : (g.setNack n nk).cell = update g.cell n (some nk.consumer) := by
  funext m
  by_cases hm : m = n
  · simp [StreamCG.cell, StreamCG.setNack, hm]
  · simp [StreamCG.cell, StreamCG.setNack, hm]

@[simp]
theorem lists_setNack : (g.setNack n nk).lists = g.lists := rfl

@[simp]
theorem names_setNack : (g.setNack n nk).names = g.names := rfl

@[simp]
theorem cell_setConsumer : (g.setConsumer a c).cell = g.cell := rfl

@[simp]
theorem lists_setConsumer : (g.setConsumer a c).lists = update g.lists a (some c.pel.find) := by
  funext b
  by_cases hb : b = a
  · simp [StreamCG.lists, StreamCG.setConsumer, hb]
  · simp [StreamCG.lists, StreamCG.setConsumer, hb]

@[simp]
theorem names_setConsumer : (g.setConsumer a c).names = update g.names a (some c.name) := by
  funext b
  by_cases hb : b = a
  · simp [StreamCG.names, StreamCG.setConsumer, hb]
  · simp [StreamCG.names, StreamCG.setConsumer, hb]

end Views

section Facts

variable {g g' : StreamCG} {a b n : ℕ} {id : StreamID} {name : Sds} {c : StreamConsumer} {nk : StreamNACK}

theorem names_eq_some : g.names a = some name ↔ ∃ c, g.heap a = some c ∧ c.name = name := Option.map_eq_some_iff

theorem heap_of_lists {l : StreamID → Option ℕ} (h : g.lists a = some l) : ∃ c, g.heap a = some c ∧ c.pel.find = l :=
  Option.map_eq_some_iff.mp h

theorem nacks_of_cell {o : Option ℕ} (h : g.cell n = some o) : ∃ nk, g.nacks n = some nk ∧ nk.consumer = o :=
  Option.map_eq_some_iff.mp h

theorem lists_of_heap (h : g.heap a = some c) : g.lists a = some c.pel.find := by
  rw [StreamCG.lists, h, Option.map_some]

theorem nack_eq (h : g.nacks n = some nk) : g.nack n = .ok nk := by
  rw [StreamCG.nack, h]

theorem consumer_eq (h : g.heap a = some c) : g.consumer a = .ok c := by
  rw [StreamCG.consumer, h]

theorem link_eq (h : g.heap a = some c) :
    g.link a id n = .ok (g.setConsumer a { c with pel := c.pel.insert id n }) := by
  simp only [StreamCG.link, consumer_eq h, bind, Except.bind]

theorem unlink_eq (h : g.heap a = some c) : g.unlink a id = .ok (g.setConsumer a { c with pel := c.pel.erase id }) := by
  simp only [StreamCG.unlink, consumer_eq h, bind, Except.bind]

theorem free_eq (h : g.nacks n = some nk) :
    streamFreeNACK g n = .ok { g with nacks := fun m => if m = n then none else g.nacks m } := by
  simp only [streamFreeNACK, nack_eq h, bind, Except.bind]

theorem names_setConsumer_self (h : g.heap a = some c) (c' : StreamConsumer) (hc : c'.name = c.name) :
    (g.setConsumer a c').names = g.names := by
  rw [names_setConsumer, hc, update_eq_self_iff, StreamCG.names, h, Option.map_some]

theorem Sound.empty (last_id : StreamID) : Sound { last_id := last_id } where
  owned := Owned.empty _ (by intro o l h; cases h) _
  members := by
    intro name a
    constructor
    · intro h
      cases h
    · intro h
      cases h
  low_nack _ _ := rfl
  low_consumer _ _ := rfl

/-- The NACK of a pending entry, and its consumer. -/
theorem Sound.pending (h : Sound g) (hid : g.pel.find id = some n) :
    ∃ nk a c, g.nacks n = some nk ∧ nk.consumer = some a ∧ g.heap a = some c ∧ c.pel.find id = some n := by
  obtain ⟨a, l, hcell, hl, hlid⟩ := h.owned.owner hid
  obtain ⟨nk, hnk, hown⟩ := nacks_of_cell hcell
  obtain ⟨c, hc, rfl⟩ := heap_of_lists hl
  exact ⟨nk, a, c, hnk, hown, hc, hlid⟩

theorem Sound.listed (h : Sound g) (hc : g.heap a = some c) (hid : c.pel.find id = some n) :
    g.pel.find id = some n ∧ ∃ nk, g.nacks n = some nk ∧ nk.consumer = some a := by
  obtain ⟨hm, hcell⟩ := h.owned.listed (lists_of_heap hc) hid
  exact ⟨hm, nacks_of_cell hcell⟩

theorem Sound.nack_lt (h : Sound g) (hn : g.nacks n = some nk) : n < g.fresh := by
  by_contra hge
  have hnone := h.low_nack n (not_lt.mp hge)
  rw [StreamCG.cell, hn] at hnone
  cases hnone

/-- No pending entry has the NACK that is created next. -/
theorem Sound.not_fresh (h : Sound g) (id : StreamID) : g.pel.find id ≠ some g.fresh := by
  intro hid
  obtain ⟨nk, -, -, hnk, -⟩ := h.pending hid
  exact lt_irrefl _ (h.nack_lt hnk)

theorem holder_of_pending (hid : g.pel.find id = some n) (hnk : g.nacks n = some nk) (hown : nk.consumer = some a) :
    holder g.pel.find g.cell id = some a := by
  rw [holder, hid, Option.bind_some, StreamCG.cell, hnk, Option.map_some, hown, Option.join_some]

theorem Sound.holder_named (h : Sound g) (ha : holder g.pel.find g.cell id = some a) : ∃ name, g.names a = some name := by
  unfold holder at ha
  obtain ⟨n, hid, hn⟩ := Option.bind_eq_some_iff.mp ha
  obtain ⟨nk, a', c, hnk, hown, hc, -⟩ := h.pending hid
  have hself : g.cell n = some (some a') := by rw [StreamCG.cell, hnk, Option.map_some, hown]
  rw [hself, Option.join_some, Option.some.injEq] at hn
  subst hn
  exact ⟨c.name, names_eq_some.mpr ⟨c, hc, rfl⟩⟩

theorem Sound.owners_none_iff (h : Sound g) : g.owners id = none ↔ g.pel.find id = none := by
  constructor
  · intro ho
    by_contra hne
    obtain ⟨n, hid⟩ := Option.ne_none_iff_exists'.mp hne
    obtain ⟨nk, a, c, hnk, hown, hc, -⟩ := h.pending hid
    rw [StreamCG.owners, holder_of_pending hid hnk hown, Option.bind_some, StreamCG.names, hc] at ho
    cases ho
  · intro hid
    rw [StreamCG.owners, holder, hid]
    rfl

/-- Where the NACKs are owned as before, so are the entries. -/
theorem Sound.owners_eq (h : Sound g) (hh : holder g'.pel.find g'.cell = holder g.pel.find g.cell) (hn : Names g g') :
    g'.owners = g.owners := by
  funext id
  rw [StreamCG.owners, StreamCG.owners, hh]
  cases ha : holder g.pel.find g.cell id with
  | none => rfl
  | some a =>
    obtain ⟨name, hname⟩ := h.holder_named ha
    rw [Option.bind_some, Option.bind_some, hname, hn a name hname]

theorem Sound.owners_update (h : Sound g)
    (hh : holder g'.pel.find g'.cell = update (holder g.pel.find g.cell) id (some a)) (hn : Names g g')
    (ha : g'.names a = some name) : g'.owners = update g.owners id (some name) := by
  funext id'
  rw [StreamCG.owners, hh]
  by_cases hid : id' = id
  · rw [hid, update_self, update_self, Option.bind_some, ha]
  · rw [update_of_ne hid, update_of_ne hid, StreamCG.owners]
    cases hb : holder g.pel.find g.cell id' with
    | none => rfl
    | some b =>
      obtain ⟨name', hname⟩ := h.holder_named hb
      rw [Option.bind_some, Option.bind_some, hname, hn b name' hname]

end Facts

/-! ### Consumers are looked up -/

section Functions

variable {g : StreamCG} {a n : ℕ} {id : StreamID} {name : Sds} {c : StreamConsumer} {nk : StreamNACK} {now : ℤ}

/-- The consumer is there afterwards, and nothing else changes. -/
theorem streamLookupConsumer_spec (h : Sound g) (now : ℤ) (name : Sds) :
    ∃ g' a, streamLookupConsumer g now name = .ok (g', a) ∧ Sound g' ∧ g'.names a = some name ∧ Names g g' ∧
      g'.owners = g.owners ∧ g'.last_id = g.last_id ∧ g'.pel = g.pel ∧ g'.nacks = g.nacks := by
  unfold streamLookupConsumer
  cases hf : g.consumers.find name with
  | none =>
    have hfresh : g.names g.fresh = none := h.low_consumer _ le_rfl
    have hlists : g.lists g.fresh = none := by
      rw [StreamCG.names, Option.map_eq_none_iff] at hfresh
      rw [StreamCG.lists, hfresh, Option.map_none]
    let c : StreamConsumer := { seen_time := now, name := name }
    let g' : StreamCG := { g.setConsumer g.fresh c with
      consumers := g.consumers.insert name g.fresh, fresh := g.fresh + 1 }
    have hnames' : g'.names = update g.names g.fresh (some name) := names_setConsumer g g.fresh c
    have hnames : Names g g' := by
      intro b name' hb
      have hne : b ≠ g.fresh := by
        rintro rfl
        rw [hfresh] at hb
        cases hb
      rw [hnames', update_of_ne hne, hb]
    refine ⟨g', g.fresh, rfl, ⟨?_, ?_, ?_, ?_⟩, ?_, hnames, h.owners_eq rfl hnames, rfl, rfl, rfl⟩
    · have hl : g'.lists = update g.lists g.fresh (some fun _ => none) := lists_setConsumer g g.fresh c
      rw [hl]
      exact h.owned.enroll hlists
    · intro name' a
      rw [hnames', show g'.consumers = g.consumers.insert name g.fresh from rfl, SortedMap.find_insert]
      by_cases hn : name' = name
      · rw [if_pos hn, hn]
        by_cases ha : a = g.fresh
        · simp [ha]
        · rw [update_of_ne ha, ← h.members, hf]
          simp [Ne.symm ha]
      · rw [if_neg hn, h.members]
        by_cases ha : a = g.fresh
        · rw [ha, update_self, hfresh]
          simp [Ne.symm hn]
        · rw [update_of_ne ha]
    · exact fun n hn => h.low_nack n (Nat.le_of_succ_le hn)
    · intro b hb
      change g.fresh + 1 ≤ b at hb
      rw [hnames', update_of_ne (by omega)]
      exact h.low_consumer b (by omega)
    · rw [hnames', update_self]
  | some a =>
    obtain ⟨c, hc, hname⟩ := names_eq_some.mp ((h.members name a).mp hf)
    have hnames : (g.setConsumer a { c with seen_time := now }).names = g.names :=
      names_setConsumer_self hc _ rfl
    have hlists : (g.setConsumer a { c with seen_time := now }).lists = g.lists := by
      rw [lists_setConsumer, update_eq_self_iff, StreamCG.lists, hc, Option.map_some]
    refine ⟨g.setConsumer a { c with seen_time := now }, a, ?_, ⟨?_, ?_, ?_, ?_⟩, ?_, .of_eq hnames,
      h.owners_eq rfl (.of_eq hnames), rfl, rfl, rfl⟩
    · simp only [consumer_eq hc, bind, Except.bind]
    · rw [hlists]
      exact h.owned
    · intro name' b
      rw [hnames]
      exact h.members name' b
    · exact h.low_nack
    · rw [hnames]
      exact h.low_consumer
    · rw [hnames]
      exact (h.members name a).mp hf

/-! ### A NACK changes hands -/

/-- A pending entry goes from its consumer `o` to `a`, in a group where the PEL of `a` may have been written
under this ID before. -/
theorem Sound.assign (h : Sound g) (g' : StreamCG) {o : ℕ} {l l' : StreamID → Option ℕ} (hid : g.pel.find id = some n)
    (hcell : g.cell n = some (some o)) (ha : g.lists a = some l) (hl : ∀ id', id' ≠ id → l' id' = l id')
    (hpel : g'.pel = g.pel) (hcons : g'.consumers = g.consumers) (hcell' : g'.cell = g.cell)
    (hlists' : g'.lists = update g.lists a (some l')) (hnames : g'.names = g.names) (hfresh : g.fresh ≤ g'.fresh)
    (hname : g.names a = some name) (nk' : StreamNACK) (hnk' : nk'.consumer = some a) :
    ∃ g1 g2, g'.unlink o id = .ok g1 ∧ (g1.setNack n nk').link a id n = .ok g2 ∧ Sound g2 ∧
      g2.owners = update g.owners id (some name) ∧ g2.names = g.names ∧ g2.last_id = g'.last_id ∧
      g2.nacks n = some nk' := by
  obtain ⟨o', lo, hcello, hlo, hloid⟩ := h.owned.owner hid
  rw [hcell, Option.some.injEq, Option.some.injEq] at hcello
  subst hcello
  have hlo' : g'.lists o = some (if o = a then l' else lo) := by
    rw [hlists', update_apply]
    split
    · rfl
    · exact hlo
  obtain ⟨co, hco, hcol⟩ := heap_of_lists hlo'
  let g1 := g'.setConsumer o { co with pel := co.pel.erase id }
  have hg1 : g1.lists = update g'.lists o (some (update (if o = a then l' else lo) id none)) := by
    simp only [g1, lists_setConsumer, SortedMap.find_erase_eq_update, hcol]
  have hla : g1.lists a = some (if o = a then update l' id none else l') := by
    rw [hg1, update_apply]
    by_cases hoa : o = a
    · simp only [hoa, if_pos]
    · rw [if_neg (Ne.symm hoa), if_neg hoa, hlists', update_self]
  obtain ⟨ca, hca, hcal⟩ := heap_of_lists hla
  have hca' : (g1.setNack n nk').heap a = some ca := hca
  let g2 := (g1.setNack n nk').setConsumer a { ca with pel := ca.pel.insert id n }
  have hnames1 : g1.names = g.names := (names_setConsumer_self hco { co with pel := co.pel.erase id } rfl).trans hnames
  have hnames2 : g2.names = g.names := (names_setConsumer_self hca' { ca with pel := ca.pel.insert id n } rfl).trans hnames1
  have hcell2 : g2.cell = update g.cell n (some (some a)) := by
    simp only [g2, g1, cell_setConsumer, cell_setNack, hcell', hnk']
  have hmid : update g.lists o (some (update lo id none)) a = some (if o = a then update l id none else l) := by
    rw [update_apply]
    by_cases hoa : o = a
    · subst hoa
      rw [hlo, Option.some.injEq] at ha
      simp only [if_pos, ha]
    · rw [if_neg (Ne.symm hoa), if_neg hoa, ha]
  have hlists2 : g2.lists = update (update g.lists o (some (update lo id none))) a
      (some (update (if o = a then update l id none else l) id (some n))) := by
    have hown : g2.lists = update (update g'.lists o (some (update (if o = a then l' else lo) id none))) a
        (some (update (if o = a then update l' id none else l') id (some n))) := by
      simp only [g2, lists_setConsumer, lists_setNack, SortedMap.find_insert_eq_update, hcal, hg1]
    rw [hown]
    have hsame : update (if o = a then update l' id none else l') id (some n) =
        update (if o = a then update l id none else l) id (some n) := by
      funext id'
      by_cases hne : id' = id
      · rw [hne, update_self, update_self]
      · rw [update_of_ne hne, update_of_ne hne]
        split
        · rw [update_of_ne hne, update_of_ne hne, hl id' hne]
        · exact hl id' hne
    rw [hsame]
    funext b
    by_cases hba : b = a
    · rw [hba, update_self, update_self]
    · rw [update_of_ne hba, update_of_ne hba, hlists']
      by_cases hbo : b = o
      · subst hbo
        rw [update_self, update_self, if_neg hba]
      · rw [update_of_ne hbo, update_of_ne hbo, update_of_ne hba]
  have howned := h.owned.move hid hlo hloid hmid
  rw [← hlists2, ← hcell2] at howned
  have hpel2 : g2.pel = g.pel := hpel
  refine ⟨g1, g2, unlink_eq hco, link_eq hca', ⟨?_, ?_, ?_, ?_⟩, ?_, hnames2, rfl, if_pos rfl⟩
  · rw [hpel2]
    exact howned
  · intro name' b
    rw [hnames2]
    change g'.consumers.find name' = some b ↔ _
    rw [hcons]
    exact h.members name' b
  · intro m hm
    change g'.fresh ≤ m at hm
    have hlow := h.low_nack m (hfresh.trans hm)
    have hne : m ≠ n := by
      rintro rfl
      rw [hcell] at hlow
      cases hlow
    rw [hcell2, update_of_ne hne, hlow]
  · intro b hb
    rw [hnames2]
    exact h.low_consumer b (hfresh.trans hb)
  · refine h.owners_update ?_ (.of_eq hnames2) (by rw [hnames2]; exact hname)
    rw [hpel2, hcell2]
    have hins : holder (update g.pel.find id (some n)) (update g.cell n (some (some a))) =
        update (holder g.pel.find g.cell) id (some a) :=
      holder_insert (fun k' hk' hm => hk' (h.owned.distinct hm hid)) a
    rwa [show update g.pel.find id (some n) = g.pel.find by rw [← hid, update_eq_self]] at hins

/-- An entry that was not pending is, with the NACK created last. -/
theorem Sound.pend (h : Sound g) (g' : StreamCG) {l : StreamID → Option ℕ} (hid : g.pel.find id = none)
    (ha : g.lists a = some l) (hname : g.names a = some name)
    (hpel : g'.pel.find = update g.pel.find id (some g.fresh)) (hcons : g'.consumers = g.consumers)
    (hcell : g'.cell = update g.cell g.fresh (some (some a)))
    (hlists : g'.lists = update g.lists a (some (update l id (some g.fresh)))) (hnames : g'.names = g.names)
    (hfresh : g'.fresh = g.fresh + 1) : Sound g' ∧ g'.owners = update g.owners id (some name) := by
  refine ⟨⟨?_, ?_, ?_, ?_⟩, ?_⟩
  · rw [hpel, hcell, hlists]
    exact h.owned.add hid h.not_fresh ha
  · rw [hcons, hnames]
    exact h.members
  · intro n hn
    rw [hcell, update_of_ne (by omega)]
    exact h.low_nack n (by omega)
  · intro b hb
    rw [hnames]
    exact h.low_consumer b (by omega)
  · refine h.owners_update (a := a) ?_ (.of_eq hnames) (by rw [hnames]; exact hname)
    rw [hpel, hcell]
    exact holder_insert (fun k' _ => h.not_fresh k') a

theorem tryInsertConsumer_new (hc : g.heap a = some c) (hid : c.pel.find id = none) :
    tryInsertConsumer g a id n = .ok (g.setConsumer a { c with pel := c.pel.insert id n }, true) := by
  simp only [tryInsertConsumer, consumer_eq hc, hid, link_eq hc, bind, Except.bind, Option.isSome_none,
    Bool.false_eq_true, if_false]

theorem tryInsertConsumer_old (hc : g.heap a = some c) (hid : c.pel.find id ≠ none) :
    tryInsertConsumer g a id n = .ok (g, false) := by
  simp only [tryInsertConsumer, consumer_eq hc, bind, Except.bind, Option.isSome_iff_ne_none.mpr hid, if_true]

/-- A list of the group that is not written to after all. -/
theorem Sound.not_listed (h : Sound g) (hc : g.heap a = some c) (hid : g.pel.find id = none) : c.pel.find id = none := by
  cases hcid : c.pel.find id with
  | none => rfl
  | some n =>
    have hpend := (h.listed hc hcid).1
    rw [hid] at hpend
    cases hpend

/-- The entry is pending for the consumer. -/
theorem deliverEntry_spec (h : Sound g) (hname : g.names a = some name) (now : ℤ) (id : StreamID) :
    ∃ g' n nk, deliverEntry g now a id = .ok (g', n) ∧ Sound g' ∧ g'.owners = update g.owners id (some name) ∧
      g'.names = g.names ∧ g'.last_id = g.last_id ∧ g'.nacks n = some nk ∧ nk.consumer = some a := by
  obtain ⟨c, hc, hcn⟩ := names_eq_some.mp hname
  have hl := lists_of_heap hc
  let nk : StreamNACK := { delivery_time := now, delivery_count := 1, consumer := some a }
  let g0 : StreamCG := { g.setNack g.fresh nk with fresh := g.fresh + 1 }
  have hcreate : streamCreateNACK g now (some a) = (g0, g.fresh) := rfl
  have hc0 : g0.heap a = some c := hc
  cases hid : g.pel.find id with
  | none =>
    let g1 : StreamCG := { g0 with pel := g.pel.insert id g.fresh }
    have hc1 : g1.heap a = some c := hc
    have hgroup : tryInsertGroup g0 id g.fresh = (g1, true) := by
      rw [tryInsertGroup, if_neg (by simp [show g0.pel = g.pel from rfl, hid])]
      rfl
    let g' := g1.setConsumer a { c with pel := c.pel.insert id g.fresh }
    have hnames : g'.names = g.names := names_setConsumer_self hc1 { c with pel := c.pel.insert id g.fresh } rfl
    have hlists : g'.lists = update g.lists a (some (update c.pel.find id (some g.fresh))) := by
      simp only [g', lists_setConsumer, SortedMap.find_insert_eq_update]
      rfl
    obtain ⟨hsound, howners⟩ := h.pend g' hid hl hname (SortedMap.find_insert_eq_update g.pel id g.fresh) rfl
      (cell_setNack g g.fresh nk) hlists hnames rfl
    refine ⟨g', g.fresh, nk, ?_, hsound, howners, hnames, rfl, if_pos rfl, rfl⟩
    simp only [deliverEntry, hcreate, hgroup, tryInsertConsumer_new hc1 (h.not_listed hc hid), bind, Except.bind,
      Bool.true_eq_false, if_false]
    rfl
  | some n =>
    obtain ⟨nk0, o, co, hnk0, hown, hco, hcoid⟩ := h.pending hid
    have hcell : g.cell n = some (some o) := by rw [StreamCG.cell, hnk0, Option.map_some, hown]
    have hgroup : tryInsertGroup g0 id g.fresh = (g0, false) := by
      rw [tryInsertGroup, if_pos (by simp [show g0.pel = g.pel from rfl, hid])]
    have hfree : ∀ m, g.cell m = none → update g.cell m none = g.cell := by
      intro m hm
      rw [← hm, update_eq_self]
    -- The PEL of the consumer may get the NACK that is freed next; the entry of the ID is written again at the end.
    obtain ⟨g1, l', b, htry, hl', hpel, hcons, hnacks, hlists, hnames, hfresh, hlast⟩ :
        ∃ g1 l' b, tryInsertConsumer g0 a id g.fresh = .ok (g1, b) ∧ (∀ id', id' ≠ id → l' id' = c.pel.find id') ∧
          g1.pel = g.pel ∧ g1.consumers = g.consumers ∧ g1.nacks = g0.nacks ∧ g1.lists = update g.lists a (some l') ∧
          g1.names = g.names ∧ g1.fresh = g.fresh + 1 ∧ g1.last_id = g.last_id := by
      by_cases hcid : c.pel.find id = none
      · refine ⟨_, _, _, tryInsertConsumer_new hc0 hcid, ?_, rfl, rfl, rfl, lists_setConsumer _ _ _,
          names_setConsumer_self hc0 _ rfl, rfl, rfl⟩
        intro id' hne
        exact SortedMap.find_insert_of_ne _ _ hne
      · refine ⟨g0, c.pel.find, false, tryInsertConsumer_old hc0 hcid, fun _ _ => rfl, rfl, rfl, rfl, ?_, rfl, rfl, rfl⟩
        rw [← hl, update_eq_self]
        rfl
    let g2 : StreamCG := { g1 with nacks := fun m => if m = g.fresh then none else g1.nacks m }
    have hnk1 : g1.nacks g.fresh = some nk := by
      rw [hnacks]
      exact if_pos rfl
    have hcell2 : g2.cell = g.cell := by
      funext m
      by_cases hm : m = g.fresh
      · rw [hm, h.low_nack _ le_rfl]
        simp [g2, StreamCG.cell]
      · simp [g2, g0, StreamCG.cell, hnacks, hm, StreamCG.setNack]
    obtain ⟨g3, g4, hunlink, hlink, hsound, howners, hnames4, hlast4, hnk4⟩ :=
      h.assign g2 hid hcell hl hl' hpel hcons hcell2 hlists hnames (by change g.fresh ≤ g1.fresh; omega) hname nk rfl
    have hpel2 : g2.pel.find id = some n := by
      change g1.pel.find id = _
      rw [hpel, hid]
    obtain ⟨nk2, hnk2, hown2⟩ := nacks_of_cell (hcell2 ▸ hcell)
    refine ⟨g4, n, nk, ?_, hsound, howners, hnames4, hlast4.trans hlast, hnk4, rfl⟩
    simp only [deliverEntry, hcreate, hgroup, htry, free_eq hnk1, bind, Except.bind, if_true]
    rw [show g1.pel.find id = some n from hpel2]
    simp only [show ({ g1 with nacks := fun m => if m = g.fresh then none else g1.nacks m } : StreamCG) = g2 from rfl,
      nack_eq hnk2, StreamCG.owner, hown2, hunlink]
    rw [hlink]

/-! ### A NACK between two consumers -/

end Functions

/-- The group without an entry and its NACK. -/
def StreamCG.without (g : StreamCG) (id : StreamID) (n : ℕ) : StreamCG :=
  { g with pel := g.pel.erase id, nacks := fun m => if m = n then none else g.nacks m }

/-- The entry of `id` has a NACK that no consumer lists; all else is as it should be, and belongs to
whom it belonged to. -/
structure Floating (g : StreamCG) (id : StreamID) (n : ℕ) (nk : StreamNACK) (owners : StreamID → Option Sds) : Prop where
  found : g.pel.find id = some n
  nack : g.nacks n = some nk
  low : n < g.fresh
  sound : Sound (g.without id n)
  owners : (g.without id n).owners = update owners id none

section Floating

variable {g g' : StreamCG} {a n : ℕ} {id : StreamID} {name : Sds} {c : StreamConsumer} {nk : StreamNACK}
  {owners : StreamID → Option Sds}

theorem pel_without : (g.without id n).pel.find = update g.pel.find id none := SortedMap.find_erase_eq_update ..

theorem cell_without : (g.without id n).cell = update g.cell n none := by
  funext m
  by_cases hm : m = n
  · simp [StreamCG.cell, StreamCG.without, hm]
  · simp [StreamCG.cell, StreamCG.without, hm]

/-- A pending entry is taken from its consumer. -/
theorem Sound.lift (h : Sound g) (hid : g.pel.find id = some n) :
    ∃ nk a g1, g.nacks n = some nk ∧ nk.consumer = some a ∧ g.unlink a id = .ok g1 ∧ g1.names = g.names ∧
      g1.last_id = g.last_id ∧ Floating g1 id n nk g.owners := by
  obtain ⟨nk, a, c, hnk, hown, hc, hcid⟩ := h.pending hid
  let g1 := g.setConsumer a { c with pel := c.pel.erase id }
  have hnames : g1.names = g.names := names_setConsumer_self hc { c with pel := c.pel.erase id } rfl
  have hcell : (g1.without id n).cell = update g.cell n none := cell_without
  refine ⟨nk, a, g1, hnk, hown, unlink_eq hc, hnames, rfl, ⟨hid, hnk, h.nack_lt hnk, ⟨?_, ?_, ?_, ?_⟩, ?_⟩⟩
  · rw [hcell, pel_without]
    change Owned _ _ g1.lists
    rw [lists_setConsumer, SortedMap.find_erase_eq_update]
    exact h.owned.drop hid (lists_of_heap hc) hcid
  · change ∀ name b, g.consumers.find name = some b ↔ g1.names b = some name
    rw [hnames]
    exact h.members
  · intro m hm
    rw [hcell, update_apply]
    split
    · rfl
    · exact h.low_nack m hm
  · intro b hb
    change g1.names b = none
    rw [hnames]
    exact h.low_consumer b hb
  · funext id'
    rw [StreamCG.owners, hcell, pel_without, show g1.pel.find = g.pel.find from rfl, h.owned.holder_drop hid,
      update_apply, update_apply]
    change (if id' = id then none else holder g.pel.find g.cell id').bind g1.names = _
    rw [hnames]
    split
    · rfl
    · rfl

/-- `FORCE` adds an entry whose NACK has no consumer yet. -/
theorem Sound.force (h : Sound g) (hid : g.pel.find id = none) (hnew : g'.nacks g.fresh = some nk)
    (hpel : g'.pel = g.pel.insert id g.fresh) (hnacks : ∀ m, m ≠ g.fresh → g'.nacks m = g.nacks m)
    (hcons : g'.consumers = g.consumers) (hheap : g'.heap = g.heap) (hfresh : g'.fresh = g.fresh + 1) :
    Floating g' id g.fresh nk g.owners := by
  have hpel' : (g'.without id g.fresh).pel.find = g.pel.find := by
    rw [pel_without, hpel, SortedMap.find_insert_eq_update, update_idem, ← hid, update_eq_self]
  have hcell : (g'.without id g.fresh).cell = g.cell := by
    funext m
    by_cases hm : m = g.fresh
    · rw [cell_without, hm, update_self, h.low_nack _ le_rfl]
    · rw [cell_without, update_of_ne hm, StreamCG.cell, hnacks m hm, StreamCG.cell]
  have hnames : (g'.without id g.fresh).names = g.names := by
    funext b
    rw [StreamCG.names, StreamCG.names, ← hheap]
    rfl
  refine ⟨?_, hnew, by omega, ⟨?_, ?_, ?_, ?_⟩, ?_⟩
  · rw [hpel, SortedMap.find_insert_self]
  · rw [hpel', hcell]
    have hlists : (g'.without id g.fresh).lists = g.lists := by
      funext b
      rw [StreamCG.lists, StreamCG.lists, ← hheap]
      rfl
    rw [hlists]
    exact h.owned
  · rw [hnames]
    change ∀ name b, g'.consumers.find name = some b ↔ _
    rw [hcons]
    exact h.members
  · intro m hm
    rw [hcell]
    exact h.low_nack m (by change g'.fresh ≤ m at hm; omega)
  · intro b hb
    rw [hnames]
    exact h.low_consumer b (by change g'.fresh ≤ b at hb; omega)
  · rw [h.owners_eq (by rw [hpel', hcell]) (.of_eq hnames)]
    have hnone := h.owners_none_iff.mpr hid
    rw [← hnone, update_eq_self]

theorem streamLookupConsumer_frame (g : StreamCG) (pel : SortedMap StreamID ℕ) (nacks : ℕ → Option StreamNACK) (now : ℤ)
    (name : Sds) : streamLookupConsumer { g with pel := pel, nacks := nacks } now name =
      (streamLookupConsumer g now name).map fun r => ({ r.1 with pel := pel, nacks := nacks }, r.2) := by
  unfold streamLookupConsumer StreamCG.consumer
  cases g.consumers.find name with
  | none => rfl
  | some a =>
    cases ha : g.heap a with
    | none => simp only [ha, bind, Except.bind, Except.map]
    | some c =>
      simp only [ha, bind, Except.bind, Except.map]
      rfl

/-- The consumer that is to have the NACK is looked up. -/
theorem Floating.lookup (h : Floating g id n nk owners) (now : ℤ) (name : Sds) :
    ∃ g' a, streamLookupConsumer g now name = .ok (g', a) ∧ g'.names a = some name ∧ Names g g' ∧
      g'.last_id = g.last_id ∧ Floating g' id n nk owners := by
  obtain ⟨g1, a, hlook, hsound, hname, hnames, howners, hlast, hpel, hnacks⟩ := streamLookupConsumer_spec h.sound now name
  have hframe := streamLookupConsumer_frame (g.without id n) g.pel g.nacks now name
  rw [hlook] at hframe
  let g' : StreamCG := { g1 with pel := g.pel, nacks := g.nacks }
  have hwithout : g'.without id n = g1 := by
    have hp : g1.pel = g.pel.erase id := hpel
    have hn : g1.nacks = fun m => if m = n then none else g.nacks m := hnacks
    rw [StreamCG.without, ← hp, ← hn]
  have hlow : n < g'.fresh := by
    by_contra hge
    have hstrict : g.fresh ≤ g1.fresh := by
      unfold streamLookupConsumer at hlook
      split at hlook
      · cases hlook
        exact Nat.le_succ _
      · rename_i a' _
        cases hc : (g.without id n).consumer a' with
        | error e => simp only [hc, bind, Except.bind] at hlook; cases hlook
        | ok c =>
          simp only [hc, bind, Except.bind] at hlook
          cases hlook
          exact le_rfl
    exact hge (lt_of_lt_of_le h.low hstrict)
  refine ⟨g', a, hframe, hname, hnames, hlast, h.found, h.nack, hlow, ?_, ?_⟩
  · rw [hwithout]
    exact hsound
  · rw [hwithout, howners, h.owners]

/-- The NACK is given to a consumer. -/
theorem Floating.land (h : Floating g id n nk owners) (hname : g.names a = some name) (nk' : StreamNACK)
    (hown : nk'.consumer = some a) :
    ∃ g2, (g.setNack n nk').link a id n = .ok g2 ∧ Sound g2 ∧ g2.owners = update owners id (some name) ∧
      g2.names = g.names ∧ g2.last_id = g.last_id ∧ g2.nacks n = some nk' := by
  obtain ⟨c, hc, hcn⟩ := names_eq_some.mp hname
  have hc' : (g.setNack n nk').heap a = some c := hc
  let g2 := (g.setNack n nk').setConsumer a { c with pel := c.pel.insert id n }
  have hnames : g2.names = g.names := names_setConsumer_self hc' { c with pel := c.pel.insert id n } rfl
  have hnone : (g.without id n).pel.find id = none := by rw [pel_without, update_self]
  have hunused : ∀ k, (g.without id n).pel.find k ≠ some n := by
    intro k hk
    obtain ⟨nk1, -, -, hnk1, -⟩ := h.sound.pending hk
    have hgone : (g.without id n).nacks n = none := if_pos rfl
    rw [hgone] at hnk1
    cases hnk1
  have hpel2 : g2.pel.find = update (g.without id n).pel.find id (some n) := by
    rw [pel_without, update_idem, ← h.found, update_eq_self]
    rfl
  have hcell2 : g2.cell = update (g.without id n).cell n (some (some a)) := by
    rw [cell_without, update_idem, ← hown]
    exact cell_setNack g n nk'
  have hlists2 : g2.lists = update (g.without id n).lists a (some (update c.pel.find id (some n))) := by
    simp only [g2, lists_setConsumer, SortedMap.find_insert_eq_update]
    rfl
  refine ⟨g2, link_eq hc', ⟨?_, ?_, ?_, ?_⟩, ?_, hnames, rfl, if_pos rfl⟩
  · rw [hpel2, hcell2, hlists2]
    exact h.sound.owned.add hnone hunused (lists_of_heap hc)
  · rw [hnames]
    exact h.sound.members
  · intro m hm
    change g.fresh ≤ m at hm
    have hlow := h.low
    rw [hcell2, update_of_ne (by omega)]
    exact h.sound.low_nack m hm
  · intro b hb
    rw [hnames]
    exact h.sound.low_consumer b hb
  · have hholder : holder g2.pel.find g2.cell =
        update (holder (g.without id n).pel.find (g.without id n).cell) id (some a) := by
      rw [hpel2, hcell2]
      exact holder_insert (fun k' _ => hunused k') a
    rw [h.sound.owners_update hholder (.of_eq hnames) (by rw [hnames]; exact hname), h.owners, update_idem]

end Floating

end RedisZk.Streams
