/-
# Pending entries are owned exactly once

Every command keeps the groups of a stream `Sound`, and what it does wrong is not about
NACKs and consumers (`Mild`): so in every run an entry of a group PEL has one NACK,
which is listed under the same ID by the consumer that it names, and by no other.

Key definitions: `Mild`, `OwnedOnce`.
Key theorems: `ackEntries_spec`, `streamDelConsumer_spec`, `streamReplyWithRange_spec`, `claimEntries_spec`, `pending_owned_once`.
-/
import RedisZk.Streams.Owners

namespace RedisZk.Streams

open Function SharedIndex Stepwise

/-- A failure that is not about NACKs and consumers. -/
def Mild : Abort → Prop
  | .stream _ => True
  | .freedNack | .freedConsumer | .noNack | .halfCreated => False

theorem ofStream_mild {α : Type} (r : Except LpAbort α) : Within (fun _ => True) Mild (ofStream r) := by
  cases r with
  | ok a => exact trivial
  | error e => exact trivial

section Functions

variable {g g' : StreamCG} {a n : ℕ} {id : StreamID} {name : Sds} {c : StreamConsumer} {nk : StreamNACK} {now : ℤ}

/-! ### Acknowledgements -/

/-- The entry is not pending any more. -/
theorem ackEntry_spec (h : Sound g) (id : StreamID) :
    ∃ g', ackEntry g id = .ok (g', (g.owners id).isSome) ∧ Sound g' ∧ g'.owners = update g.owners id none ∧
      g'.last_id = g.last_id := by
  unfold ackEntry
  cases hid : g.pel.find id with
  | none =>
    have hnone := h.owners_none_iff.mpr hid
    refine ⟨g, ?_, h, ?_, rfl⟩
    · simp only [hnone, Option.isSome_none]
    · rw [← hnone, update_eq_self]
  | some n =>
    obtain ⟨nk, a, g1, hnk, hown, hunlink, hnames, hlast, hfloat⟩ := h.lift hid
    have hsome : (g.owners id).isSome = true := by
      rw [Option.isSome_iff_ne_none, Ne, h.owners_none_iff, hid]
      nofun
    refine ⟨g1.without id n, ?_, hfloat.sound, hfloat.owners, hlast⟩
    have hnk' : ({ g with pel := g.pel.erase id } : StreamCG).nack n = .ok nk := nack_eq hnk
    have hunlink' : ({ g with pel := g.pel.erase id } : StreamCG).unlink a id = .ok { g1 with pel := g1.pel.erase id } := by
      unfold StreamCG.unlink StreamCG.consumer at hunlink ⊢
      cases hc : g.heap a with
      | none =>
        rw [hc] at hunlink
        cases hunlink
      | some c =>
        simp only [hc, bind, Except.bind] at hunlink ⊢
        cases hunlink
        rfl
    have hfree : streamFreeNACK { g1 with pel := g1.pel.erase id } n = .ok (g1.without id n) := free_eq hfloat.nack
    simp only [bind, Except.bind, hnk', StreamCG.owner, hown, hunlink', hfree, hsome]

/-- The IDs of an argument list, until one that is no ID. -/
def leadingIDs (ids : List (Option StreamID)) : List StreamID := (ids.takeWhile Option.isSome).filterMap fun id => id

theorem ackEntries_spec : ∀ (ids : List (Option StreamID)) {g : StreamCG}, Sound g →
    ∃ g' k, ackEntries g ids = .ok (g', k) ∧ Sound g' ∧
      g'.owners = (fun id => if id ∈ leadingIDs ids then none else g.owners id) ∧ g'.last_id = g.last_id ∧
      (k = 0 → g'.owners = g.owners)
  | [], g, h => ⟨g, 0, rfl, h, by simp [leadingIDs], rfl, fun _ => rfl⟩
  | none :: ids, g, h => ⟨g, 0, rfl, h, by simp [leadingIDs], rfl, fun _ => rfl⟩
  | some id :: ids, g, h => by
    obtain ⟨g1, hack, hsound1, howners1, hlast1⟩ := ackEntry_spec h id
    obtain ⟨g2, k, hacks, hsound2, howners2, hlast2, hzero⟩ := ackEntries_spec ids hsound1
    refine ⟨g2, k + (g.owners id).isSome.toNat, ?_, hsound2, ?_, hlast2.trans hlast1, ?_⟩
    · simp only [ackEntries, hack, hacks, bind, Except.bind]
    · rw [howners2]
      have hlead : leadingIDs (some id :: ids) = id :: leadingIDs ids := by simp [leadingIDs]
      funext id'
      rw [hlead, howners1, update_apply]
      simp only [List.mem_cons]
      split
      · simp [*]
      · by_cases hid : id' = id
        · simp [hid]
        · simp [*]
    · intro hk
      rw [hzero (by omega), howners1]
      have hnone : g.owners id = none := by
        cases ho : g.owners id with
        | none => rfl
        | some name =>
          rw [ho] at hk
          simp at hk
      rw [← hnone, update_eq_self]

/-! ### Consumers that are deleted -/

/-- The entries of a consumer's PEL leave the group, while the consumer still lists them. -/
theorem forgetEntries_spec : ∀ (entries : List (StreamID × ℕ)) (hs : entries.Pairwise fun x y => x.1 < y.1) {g : StreamCG},
    Owned g.pel.find g.cell (update g.lists a (some (SortedMap.mk entries hs).find)) →
    ∃ g', forgetEntries g entries = .ok g' ∧ Owned g'.pel.find g'.cell (update g.lists a (some fun _ => none)) ∧
      g'.heap = g.heap ∧ g'.consumers = g.consumers ∧ g'.fresh = g.fresh ∧ g'.last_id = g.last_id ∧
      (∀ m, g.cell m = none → g'.cell m = none) ∧
      ∀ id, holder g'.pel.find g'.cell id =
        if (SortedMap.mk entries hs).find id = none then holder g.pel.find g.cell id else none
  | [], hs, g, h => ⟨g, rfl, h, rfl, rfl, rfl, rfl, fun _ h => h, fun _ => rfl⟩
  | (id, n) :: rest, hs, g, h => by
    obtain ⟨hlow, hs'⟩ := List.pairwise_cons.mp hs
    have hfirst : (SortedMap.mk ((id, n) :: rest) hs).find id = some n :=
      SortedMap.find_eq_some_iff.mpr List.mem_cons_self
    obtain ⟨hid, hcell⟩ := h.listed (update_self ..) hfirst
    obtain ⟨nk, hnk, -⟩ := nacks_of_cell hcell
    let g1 := g.without id n
    have hfree : streamFreeNACK { g with pel := g.pel.erase id } n = .ok g1 := free_eq hnk
    have hrest : update (SortedMap.mk ((id, n) :: rest) hs).find id none = (SortedMap.mk rest hs').find := by
      have herase : (SortedMap.mk ((id, n) :: rest) hs).erase id = SortedMap.mk rest hs' := by
        apply SortedMap.ext
        simp only [SortedMap.erase, List.filter_cons, ne_eq, not_true_eq_false, decide_false, Bool.false_eq_true, if_false]
        rw [List.filter_eq_self]
        intro e he
        simpa using (hlow e he).ne'
      rw [← SortedMap.find_erase_eq_update, herase]
    have howned : Owned g1.pel.find g1.cell (update g1.lists a (some (SortedMap.mk rest hs').find)) := by
      have hdrop := h.drop hid (update_self ..) hfirst
      rw [update_idem, hrest] at hdrop
      rw [pel_without, cell_without]
      exact hdrop
    obtain ⟨g2, hforget, howned2, hheap, hcons, hfresh, hlast, hlow2, hhold⟩ := forgetEntries_spec rest hs' howned
    refine ⟨g2, ?_, howned2, hheap, hcons, hfresh, hlast, ?_, ?_⟩
    · simp only [forgetEntries, hfree, bind, Except.bind, hforget]
    · intro m hm
      refine hlow2 m ?_
      rw [cell_without, update_apply]
      split
      · rfl
      · exact hm
    · intro id'
      rw [hhold id', pel_without, cell_without, h.holder_drop hid, ← hrest]
      by_cases hne : id' = id
      · rw [hne, update_self, update_self, hfirst]
        simp
      · rw [update_of_ne hne, update_of_ne hne]

/-- The consumer is gone, and nothing is pending for it. -/
theorem streamDelConsumer_spec (h : Sound g) (name : Sds) :
    ∃ g', streamDelConsumer g name = .ok g' ∧ Sound g' ∧
      g'.owners = (fun id => if g.owners id = some name then none else g.owners id) ∧ g'.last_id = g.last_id := by
  unfold streamDelConsumer
  cases hf : g.consumers.find name with
  | none =>
    refine ⟨g, rfl, h, ?_, rfl⟩
    funext id
    rw [if_neg]
    intro ho
    obtain ⟨a, -, ha⟩ := Option.bind_eq_some_iff.mp ho
    rw [(h.members name a).mpr ha] at hf
    cases hf
  | some a =>
    have hname := (h.members name a).mp hf
    obtain ⟨c, hc, hcn⟩ := names_eq_some.mp hname
    have hl := lists_of_heap hc
    have howned : Owned g.pel.find g.cell (update g.lists a (some c.pel.find)) := by
      rw [← hl, update_eq_self]
      exact h.owned
    obtain ⟨g1, hforget, howned1, hheap, hcons, hfresh, hlast, hlow, hhold⟩ :=
      forgetEntries_spec c.pel.entries c.pel.sorted howned
    let g2 : StreamCG := { g1 with consumers := g1.consumers.erase name, heap := fun b => if b = a then none else g1.heap b }
    have hlists1 : g1.lists = g.lists := by
      funext b
      rw [StreamCG.lists, hheap, StreamCG.lists]
    have hlists2 : g2.lists = update (update g.lists a (some fun _ => none)) a none := by
      rw [update_idem, ← hlists1]
      funext b
      by_cases hb : b = a
      · simp [g2, StreamCG.lists, hb]
      · simp [g2, StreamCG.lists, hb]
    have hnames2 : g2.names = update g.names a none := by
      funext b
      by_cases hb : b = a
      · simp [g2, StreamCG.names, hb]
      · simp [g2, StreamCG.names, hb, hheap]
    have hc1 : g1.consumer a = .ok c := consumer_eq (by rw [hheap]; exact hc)
    refine ⟨g2, ?_, ⟨?_, ?_, ?_, ?_⟩, ?_, hlast⟩
    · simp only [consumer_eq hc, bind, Except.bind, hforget, streamFreeConsumer]
      rw [show ({ g1 with consumers := g1.consumers.erase name } : StreamCG).consumer a = .ok c from hc1]
    · rw [hlists2]
      exact howned1.dismiss (update_self ..) fun _ => rfl
    · intro name' b
      rw [hnames2, show g2.consumers = g1.consumers.erase name from rfl, hcons, SortedMap.find_erase]
      by_cases hn : name' = name
      · rw [if_pos hn, hn]
        by_cases hb : b = a
        · simp [hb]
        · rw [update_of_ne hb, ← h.members, hf]
          simp [Ne.symm hb]
      · rw [if_neg hn, h.members]
        by_cases hb : b = a
        · rw [hb, update_self, hname]
          simp [Ne.symm hn]
        · rw [update_of_ne hb]
    · intro m hm
      exact hlow m (h.low_nack m (by rw [← hfresh]; exact hm))
    · intro b hb
      rw [hnames2, update_apply]
      split
      · rfl
      · exact h.low_consumer b (by rw [← hfresh]; exact hb)
    · funext id
      rw [StreamCG.owners, show holder g2.pel.find g2.cell id = _ from hhold id, hnames2]
      cases hh : holder g.pel.find g.cell id with
      | none => simp [StreamCG.owners, hh]
      | some b =>
        have howner : g.owners id = g.names b := by rw [StreamCG.owners, hh, Option.bind_some]
        rw [howner]
        by_cases hb : b = a
        · subst hb
          simp [hname]
        · have hother : g.names b ≠ some name := by
            rw [Ne, ← h.members, hf]
            simp [Ne.symm hb]
          have hnot : c.pel.find id = none := by
            cases hcid : c.pel.find id with
            | none => rfl
            | some n =>
              obtain ⟨hid, nk, hnk, hown⟩ := h.listed hc hcid
              rw [holder_of_pending hid hnk hown, Option.some.injEq] at hh
              exact absurd hh.symm hb
          rw [if_pos hnot, Option.bind_some, update_of_ne hb, if_neg hother]

/-! ### Deliveries -/

theorem streamPropagateXCLAIM_eq (groupname : Sds) (hnk : g.nacks n = some nk) (hown : nk.consumer = some a)
    (hname : g.names a = some name) : streamPropagateXCLAIM g groupname id n =
      .ok (.xclaim groupname name id nk.delivery_time nk.delivery_count g.last_id) := by
  obtain ⟨c, hc, hcn⟩ := names_eq_some.mp hname
  simp only [streamPropagateXCLAIM, nack_eq hnk, StreamCG.owner, hown, consumer_eq hc, hcn, bind, Except.bind]

/-- The last delivered ID does not matter. -/
theorem Sound.last_id (h : Sound g) (id : StreamID) : Sound { g with last_id := id } :=
  ⟨h.owned, h.members, h.low_nack, h.low_consumer⟩

/-- The entries that are delivered belong to the consumer, unless they need no acknowledgement. -/
theorem streamReplyWithRange_spec (groupname : Sds) (now : ℤ) (noack : Bool) : ∀ (ids : List StreamID) {g : StreamCG}
    (propagate : Bool), Sound g → g.names a = some name →
    ∃ g' ps, streamReplyWithRange groupname now a noack g propagate ids = .ok (g', ps) ∧ Sound g'
  | [], g, propagate, h, _ => ⟨g, [], rfl, h⟩
  | id :: ids, g, propagate, h, hname => by
    let newer : Bool := streamCompareID id g.last_id = .gt
    let g0 : StreamCG := if newer then { g with last_id := id } else g
    have hg0 : Sound g0 ∧ g0.names a = some name := by
      unfold g0
      split
      · exact ⟨h.last_id id, hname⟩
      · exact ⟨h, hname⟩
    cases noack with
    | false =>
      obtain ⟨g1, n, nk, hdeliver, hsound1, -, hnames1, -, hnk, hown⟩ := deliverEntry_spec hg0.1 hg0.2 now id
      have hname1 : g1.names a = some name := by rw [hnames1, hg0.2]
      obtain ⟨g2, ps, hrest, hsound2⟩ := streamReplyWithRange_spec groupname now false ids (propagate || newer) hsound1 hname1
      refine ⟨g2, .xclaim groupname name id nk.delivery_time nk.delivery_count g1.last_id :: ps, ?_, hsound2⟩
      simp only [g0, newer] at hdeliver hrest
      simp only [streamReplyWithRange, Bool.not_false, if_true, decide_eq_true_eq] at hdeliver hrest ⊢
      simp only [hdeliver, hrest, streamPropagateXCLAIM_eq groupname hnk hown hname1, bind, Except.bind]
    | true =>
      obtain ⟨g2, ps, hrest, hsound2⟩ := streamReplyWithRange_spec groupname now true ids (propagate || newer) hg0.1 hg0.2
      refine ⟨g2, (if propagate || newer then [streamPropagateGroupID g0 groupname] else []) ++ ps, ?_, hsound2⟩
      simp only [g0, newer] at hrest
      simp only [streamReplyWithRange, Bool.not_true, Bool.false_eq_true, if_false, decide_eq_true_eq] at hrest ⊢
      simp only [hrest, bind, Except.bind, g0, newer, decide_eq_true_eq]

/-- Deliveries of the history only change when and how often an entry was delivered. -/
theorem redeliver_spec (s : Stream) (now : ℤ) : ∀ (entries : List (StreamID × ℕ)) {g : StreamCG}, Sound g →
    (∀ e ∈ entries, ∃ nk, g.nacks e.2 = some nk) →
    Within (fun g' => Sound g' ∧ g'.owners = g.owners ∧ g'.last_id = g.last_id) Mild (redeliver s now g entries) := by
  intro entries
  induction entries with
  | nil =>
    intro g h _
    exact ⟨h, rfl, rfl⟩
  | cons e rest ih =>
    obtain ⟨id, n⟩ := e
    intro g h hlive
    unfold redeliver
    refine Within.bind (Q := fun _ => True) (ofStream_mild _) fun found _ => ?_
    split
    · exact ih h fun e he => hlive e (List.mem_cons_of_mem _ he)
    · obtain ⟨nk, hnk⟩ := hlive (id, n) List.mem_cons_self
      rw [nack_eq hnk]
      let nk' : StreamNACK := { nk with delivery_time := now, delivery_count := (nk.delivery_count + 1) % 2 ^ 64 }
      have hcell : (g.setNack n nk').cell = g.cell := by
        rw [cell_setNack, update_eq_self_iff, StreamCG.cell, hnk, Option.map_some]
      have hsound : Sound (g.setNack n nk') := by
        refine ⟨?_, h.members, ?_, h.low_consumer⟩
        · rw [hcell]
          exact h.owned
        · rw [hcell]
          exact h.low_nack
      have howners : (g.setNack n nk').owners = g.owners := h.owners_eq (by rw [hcell]; rfl) (.of_eq rfl)
      refine Within.mono (ih hsound fun e he => ?_) ?_ fun _ h => h
      · by_cases hen : e.2 = n
        · exact ⟨nk', if_pos hen⟩
        · obtain ⟨nk1, hnk1⟩ := hlive e (List.mem_cons_of_mem _ he)
          exact ⟨nk1, by rw [← hnk1]; exact if_neg hen⟩
      · rintro g' ⟨hsound', howners', hlast'⟩
        exact ⟨hsound', howners'.trans howners, hlast'⟩

theorem fromConsumerPEL_spec (s : Stream) (now : ℤ) (h : Sound g) (hname : g.names a = some name) (start : StreamID)
    (count : ℕ) : Within (fun g' => Sound g' ∧ g'.owners = g.owners ∧ g'.last_id = g.last_id) Mild
      (streamReplyWithRangeFromConsumerPEL s now g start count a) := by
  obtain ⟨c, hc, -⟩ := names_eq_some.mp hname
  simp only [streamReplyWithRangeFromConsumerPEL, consumer_eq hc, bind, Except.bind]
  refine redeliver_spec s now _ h fun e he => ?_
  have hmem : e ∈ c.pel.entries := by
    split at he
    · exact List.mem_of_mem_filter he
    · exact List.mem_of_mem_filter (List.mem_of_mem_take he)
  obtain ⟨-, nk, hnk, -⟩ := h.listed hc (SortedMap.find_eq_some_iff.mpr hmem)
  exact ⟨nk, hnk⟩

/-! ### Claims -/

/-- What a claim of an ID comes to: nothing, or the entry belongs to the claimant. -/
def Claimed (g : StreamCG) (name : Sds) (id : StreamID) (r : StreamCG × Option ℕ × Option ℕ) : Prop :=
  Sound r.1 ∧ Names g r.1 ∧ r.1.last_id = g.last_id ∧ (∀ a, r.2.1 = some a → r.1.names a = some name) ∧
    match r.2.2 with
    | none => r.1.owners = g.owners
    | some n => r.1.owners = update g.owners id (some name) ∧
      ∃ nk a, r.1.nacks n = some nk ∧ nk.consumer = some a ∧ r.1.names a = some name

/-- The claimant is looked up once. -/
theorem claimant_spec {owners : StreamID → Option Sds} {consumer : Option ℕ} (h : Floating g id n nk owners)
    (hcons : ∀ a, consumer = some a → g.names a = some name) (now : ℤ) :
    ∃ g' a, claimant g now name consumer = .ok (g', a) ∧ g'.names a = some name ∧ Names g g' ∧
      g'.last_id = g.last_id ∧ Floating g' id n nk owners := by
  cases consumer with
  | some a => exact ⟨g, a, rfl, hcons a rfl, fun _ _ ha => ha, rfl, h⟩
  | none => exact h.lookup now name

/-- The end of a claim: a NACK that no consumer lists goes to the claimant. -/
theorem claim_land {g0 : StreamCG} {consumer : Option ℕ} (h : Floating g id n nk g0.owners) (hnames : Names g0 g)
    (hlast : g.last_id = g0.last_id) (hcons : ∀ a, consumer = some a → g.names a = some name) (now time : ℤ) (count : ℕ) :
    ∃ g1 a g2, claimant g now name consumer = .ok (g1, a) ∧
      (g1.setNack n { delivery_time := time, delivery_count := count, consumer := some a }).link a id n = .ok g2 ∧
      Claimed g0 name id (g2, some a, some n) := by
  obtain ⟨g1, a, hlook, hname, hnames1, hlast1, hfloat⟩ := claimant_spec h hcons now
  obtain ⟨g2, hlink, hsound, howners, hnames2, hlast2, hnk⟩ :=
    hfloat.land hname { delivery_time := time, delivery_count := count, consumer := some a } rfl
  have hname2 : g2.names a = some name := by rw [hnames2, hname]
  refine ⟨g1, a, g2, hlook, hlink, hsound, (hnames.trans hnames1).trans (.of_eq hnames2), ?_, ?_, howners, _, a, hnk, rfl, hname2⟩
  · rw [hlast2, hlast1, hlast]
  · intro b hb
    rw [Option.some.injEq] at hb
    rw [← hb, hname2]

/-- A new NACK under `FORCE`. -/
theorem claimNack_force (s : Stream) (now : ℤ) (h : Sound g) (hid : g.pel.find id = none) {si : StreamIterator}
    {e : StreamID × ℤ} (hfind : streamIteratorGetID s (streamIteratorStart s (some id) (some id) false) = .ok (si, some e)) :
    ∃ g1 nk, claimNack s g now true id = .ok (g1, some g.fresh) ∧ g1.nack g.fresh = .ok nk ∧ nk.consumer = none ∧
      g1.names = g.names ∧ g1.last_id = g.last_id ∧ Floating g1 id g.fresh nk g.owners := by
  let nk : StreamNACK := { delivery_time := now, delivery_count := 1, consumer := none }
  let g1 : StreamCG := { g.setNack g.fresh nk with fresh := g.fresh + 1, pel := g.pel.insert id g.fresh }
  have hfloat : Floating g1 id g.fresh nk g.owners := h.force hid (if_pos rfl) rfl (fun m hm => if_neg hm) rfl rfl rfl
  refine ⟨g1, nk, ?_, nack_eq hfloat.nack, rfl, rfl, rfl, hfloat⟩
  simp only [claimNack, hid, hfind, ofStream, Except.mapError, bind, Except.bind, if_true]
  rfl

theorem claimEntry_spec (s : Stream) (h : Sound g) {consumer : Option ℕ}
    (hcons : ∀ a, consumer = some a → g.names a = some name) (now : ℤ) (o : Claim) (id : StreamID) :
    Within (Claimed g name id) Mild (claimEntry s g now name o consumer id) := by
  have hidle : Claimed g name id (g, consumer, none) := ⟨h, fun _ _ ha => ha, rfl, hcons, rfl⟩
  have hskip : claimNack s g now o.force id = .ok (g, none) →
      Within (Claimed g name id) Mild (claimEntry s g now name o consumer id) := by
    intro hnack
    simp only [claimEntry, hnack, bind, Except.bind]
    exact hidle
  cases hid : g.pel.find id with
  | some n =>
    obtain ⟨nk, a, g1, hnk, hown, hunlink, hnames, hlast, hfloat⟩ := h.lift hid
    have hnack : claimNack s g now o.force id = .ok (g, some n) := by simp only [claimNack, hid]
    simp only [claimEntry, hnack, bind, Except.bind, nack_eq hnk]
    split
    · exact hidle
    · simp only [unlinkOwner, hown, hunlink]
      obtain ⟨g2, b, g3, hlook, hlink, hclaimed⟩ := claim_land hfloat (.of_eq hnames) hlast
        (fun a ha => by rw [hnames]; exact hcons a ha) now o.deliverytime
        (if o.retrycount ≥ 0 then o.retrycount.toNat
          else if !o.justid then (nk.delivery_count + 1) % 2 ^ 64 else nk.delivery_count)
      simp only [hlook, hlink]
      exact hclaimed
  | none =>
    cases hforce : o.force with
    | false =>
      refine hskip ?_
      simp only [claimNack, hid, hforce, Bool.false_eq_true, if_false]
    | true =>
      cases hfind : streamIteratorGetID s (streamIteratorStart s (some id) (some id) false) with
      | error e =>
        simp only [claimEntry, claimNack, hid, hforce, hfind, ofStream, Except.mapError, bind, Except.bind, if_true]
        exact trivial
      | ok found =>
        obtain ⟨si, e⟩ := found
        cases e with
        | none =>
          refine hskip ?_
          simp only [claimNack, hid, hforce, hfind, ofStream, Except.mapError, bind, Except.bind, if_true]
        | some e =>
          obtain ⟨g1, nk, hnack, hnk, hown, hnames, hlast, hfloat⟩ := claimNack_force s now h hid hfind
          obtain ⟨g2, b, g3, hlook, hlink, hclaimed⟩ := claim_land hfloat (.of_eq hnames) hlast
            (fun a ha => by rw [hnames]; exact hcons a ha) now o.deliverytime
            (if o.retrycount ≥ 0 then o.retrycount.toNat
              else if !o.justid then (nk.delivery_count + 1) % 2 ^ 64 else nk.delivery_count)
          simp only [claimEntry, hforce, hnack, hnk, hown, Option.isSome_none, Bool.false_eq_true, false_and, if_false,
            unlinkOwner, bind, Except.bind, hlook, hlink]
          exact hclaimed

theorem claimEntries_spec (s : Stream) (groupname : Sds) (now : ℤ) (o : Claim) : ∀ (ids : List StreamID) {g : StreamCG}
    {consumer : Option ℕ}, Sound g → (∀ a, consumer = some a → g.names a = some name) →
    Within (fun r => Sound r.1) Mild (claimEntries s groupname now name o g consumer ids)
  | [], g, consumer, h, _ => h
  | id :: ids, g, consumer, h, hcons => by
    unfold claimEntries
    refine Within.bind (claimEntry_spec s h hcons now o id) fun r hr => ?_
    obtain ⟨g1, consumer1, nack⟩ := r
    obtain ⟨hsound, -, -, hcons1, heffect⟩ := hr
    cases nack with
    | none => exact claimEntries_spec s groupname now o ids hsound hcons1
    | some n =>
      obtain ⟨-, nk, a, hnk, hown, hname⟩ := heffect
      have hprop : streamPropagateXCLAIM g1 groupname id n = _ := streamPropagateXCLAIM_eq groupname hnk hown hname
      simp only [hprop]
      exact Within.bind (Q := fun _ => True) trivial fun p _ =>
        Within.bind (claimEntries_spec s groupname now o ids hsound hcons1) fun r hr => hr

end Functions

/-! ### Commands -/

/-- Every group is sound. -/
def AllSound (key : Option GroupedStream) : Prop :=
  ∀ s, key = some s → ∀ name g, s.cgroups.find name = some g → Sound g

section Commands

variable {key : Option GroupedStream} {s : GroupedStream} {g : StreamCG} {group consumer : Sds} {now : ℤ}

theorem AllSound.of (h : ∀ name g, s.cgroups.find name = some g → Sound g) : AllSound (some s) := by
  intro s' hs
  rw [Option.some.injEq] at hs
  exact hs ▸ h

/-- The entries do not matter. -/
theorem AllSound.entries (h : AllSound (some s)) (s' : Stream) : AllSound (some { s with toStream := s' }) :=
  .of fun name g hg => h s rfl name g hg

theorem AllSound.getD (h : AllSound key) : AllSound (some (key.getD {})) := by
  cases key with
  | none => exact .of fun name g hg => by cases hg
  | some s => exact h

theorem AllSound.setGroup (h : AllSound (some s)) (hg : Sound g) : AllSound (some (s.setGroup group g)) := by
  refine .of fun name g' hg' => ?_
  rw [GroupedStream.setGroup, SortedMap.find_insert] at hg'
  split at hg'
  · cases hg'
    exact hg
  · exact h s rfl name g' hg'

theorem withGroup_spec {f : GroupedStream → StreamCG → Except Abort (StreamCG × List Command)} (h : AllSound key)
    (hf : ∀ s g, Sound g → Within (fun r => Sound r.1) Mild (f s g)) :
    Within (fun r => AllSound r.1) Mild (withGroup key group f) := by
  unfold withGroup
  cases key with
  | none => exact h
  | some s =>
    dsimp only
    cases hg : s.cgroups.find group with
    | none => exact h
    | some g => exact Within.bind (hf s g (h s rfl group g hg)) fun r hr => h.setGroup hr

theorem serveGroup_spec (h : Sound g) (noack : Bool) (count : ℕ) :
    Within (fun r => Sound r.1) Mild (serveGroup now s g group consumer noack count) := by
  obtain ⟨g1, a, hlook, hsound, hname, -⟩ := streamLookupConsumer_spec h now consumer
  simp only [serveGroup, hlook]
  refine Within.bind (Q := fun r => r = (g1, a)) rfl ?_
  rintro _ rfl
  refine Within.bind (Q := fun _ => True) (ofStream_mild _) fun entries _ => ?_
  obtain ⟨g2, ps, hreply, hsound2⟩ :=
    streamReplyWithRange_spec group now noack (entries.map Prod.fst) false hsound hname
  simp only [hreply]
  exact hsound2

theorem xaddCommand_spec (h : AllSound key) (lim : NodeLimits) (opts : List Maxlen) (id : Option StreamID)
    (fields : List (Sds × Sds)) : Within (fun r => AllSound r.1) Mild (xaddCommand lim now key opts id fields) := by
  unfold xaddCommand
  split
  · exact h
  · split
    · exact h
    · dsimp only
      split
      · exact h.getD
      · refine Within.bind (Q := fun _ => True) (ofStream_mild _) fun added _ => ?_
        split
        · exact h.getD
        · rename_i s' added
          have hs' := h.getD.entries s'
          split
          · exact hs'
          · refine Within.bind (Q := fun r : GroupedStream × ℕ => AllSound (some r.1)) ?_ fun r hr => hr
            exact Within.bind (Q := fun _ => True) (ofStream_mild _) fun r _ => hs'.entries r.1

theorem xtrimCommand_spec (h : AllSound key) (opts : List Maxlen) :
    Within (fun r => AllSound r.1) Mild (xtrimCommand key opts) := by
  unfold xtrimCommand
  split
  · exact h
  · split
    · exact h
    · exact h
    · refine Within.bind (Q := fun r : GroupedStream × ℕ => AllSound (some r.1)) ?_ fun r hr => hr
      exact Within.bind (Q := fun _ => True) (ofStream_mild _) fun r _ => h.entries r.1

theorem xdelCommand_spec (h : AllSound key) (ids : List (Option StreamID)) :
    Within (fun r => AllSound r.1) Mild (xdelCommand key ids) := by
  unfold xdelCommand
  split
  · exact h
  · split
    · exact Within.bind (Q := fun _ => True) (ofStream_mild _) fun r _ => h.entries r.1
    · exact h

theorem xgroupCreateCommand_spec (h : AllSound key) (id : IdArg) (mkstream : Bool) :
    Within (fun r => AllSound r.1) Mild (xgroupCreateCommand key group id mkstream) := by
  unfold xgroupCreateCommand
  split
  · exact h
  · dsimp only
    split
    · exact h
    · split
      · exact h.getD
      · rename_i i _ _ s' hs'
        have hcreate : s' = (key.getD {}).setGroup group { last_id := i } := by
          unfold streamCreateCG at hs'
          split at hs'
          · cases hs'
          · exact (Option.some.inj hs').symm
        rw [within_ok, hcreate]
        exact h.getD.setGroup (.empty i)

theorem xgroupDestroyCommand_spec (h : AllSound key) :
    Within (fun r => AllSound r.1) Mild (xgroupDestroyCommand key group) := by
  unfold xgroupDestroyCommand
  split
  · exact h
  · split
    · exact h
    · refine AllSound.of fun name g hg => ?_
      rw [SortedMap.find_erase] at hg
      split at hg
      · cases hg
      · exact h _ rfl name g hg

theorem xclaimCommand_spec (h : AllSound key) (minidle : ℤ) (ids : List StreamID) (opts : List ClaimOpt) :
    Within (fun r => AllSound r.1) Mild (xclaimCommand now key group consumer minidle ids opts) := by
  refine withGroup_spec h fun s g hg => ?_
  split
  · exact hg
  · rename_i o _
    have hg' : Sound (if streamCompareID o.last_id g.last_id = .gt then { g with last_id := o.last_id } else g) := by
      split
      · exact hg.last_id _
      · exact hg
    dsimp only
    exact Within.bind (claimEntries_spec s.toStream group now (sanitize now o) ids hg' nofun) fun r hr => hr

theorem xreadCommand_spec (h : AllSound key) (noack : Bool) (count : ℕ) (id : Option StreamID) :
    Within (fun r => AllSound r.1) Mild (xreadCommand now key group consumer noack count id) := by
  refine withGroup_spec h fun s g hg => ?_
  split
  · obtain ⟨g1, a, hlook, hsound, hname, -⟩ := streamLookupConsumer_spec hg now consumer
    simp only [hlook]
    refine Within.bind (Q := fun r => r = (g1, a)) rfl ?_
    rintro _ rfl
    exact Within.bind (fromConsumerPEL_spec s.toStream now hsound hname _ count) fun g2 hg2 => hg2.1
  · split
    · exact hg
    · refine Within.bind (Q := fun _ => True) (ofStream_mild _) fun maxid _ => ?_
      split
      · exact hg
      · split
        · exact serveGroup_spec hg noack count
        · exact hg

/-- A command keeps every group sound. -/
theorem run_spec (h : AllSound key) (lim : NodeLimits) (c : Command) :
    Within (fun r => AllSound r.1) Mild (run lim now key c) := by
  cases c with
  | xadd opts id fields => exact xaddCommand_spec h lim opts id fields
  | xtrim opts => exact xtrimCommand_spec h opts
  | xdel ids => exact xdelCommand_spec h ids
  | xgroupCreate group id mkstream => exact xgroupCreateCommand_spec h id mkstream
  | xgroupSetid group id =>
    refine withGroup_spec h fun s g hg => ?_
    split
    · exact hg
    · exact hg.last_id _
  | xgroupDestroy group => exact xgroupDestroyCommand_spec h
  | xgroupDelconsumer group consumer =>
    refine withGroup_spec h fun s g hg => ?_
    obtain ⟨g', hdel, hsound, -⟩ := streamDelConsumer_spec hg consumer
    simp only [hdel]
    exact hsound
  | xack group ids =>
    refine withGroup_spec h fun s g hg => ?_
    obtain ⟨g', k, hack, hsound, -⟩ := ackEntries_spec ids hg
    simp only [hack]
    exact hsound
  | xreadgroup group consumer noack count id => exact xreadCommand_spec h noack count id
  | xclaim group consumer minidle ids opts => exact xclaimCommand_spec h minidle ids opts

theorem occur_spec (h : AllSound key) (e : Event) : Within (fun r => AllSound r.1) Mild (occur key e) := by
  cases e with
  | command lim now c => exact run_spec h lim c
  | blocked now group consumer noack count =>
    refine withGroup_spec h fun s g hg => ?_
    split
    · exact serveGroup_spec hg noack count
    · exact hg

end Commands

/-! ### Runs -/

/-- The two indices of a group: every ID of its PEL has a NACK of its own, whose consumer is one of the group's;
the consumer's PEL, and no other, has that NACK, under that ID; and the PEL of a consumer has nothing else. -/
structure OwnedOnce (g : StreamCG) : Prop where
  members : ∀ {name a}, g.consumers.find name = some a → ∃ c, g.heap a = some c ∧ c.name = name
  owner : ∀ {id n}, g.pel.find id = some n → ∃ nk a c, g.nacks n = some nk ∧ nk.consumer = some a ∧
    g.consumers.find c.name = some a ∧ g.heap a = some c ∧ c.pel.find id = some n
  single : ∀ {id id' n}, g.pel.find id = some n → g.pel.find id' = some n → id = id'
  only : ∀ {name a c id n}, g.consumers.find name = some a → g.heap a = some c → c.pel.find id = some n →
    g.pel.find id = some n ∧ ∃ nk, g.nacks n = some nk ∧ nk.consumer = some a

theorem Sound.ownedOnce {g : StreamCG} (h : Sound g) : OwnedOnce g where
  members hf := names_eq_some.mp ((h.members _ _).mp hf)
  owner hid := by
    obtain ⟨nk, a, c, hnk, hown, hc, hcid⟩ := h.pending hid
    exact ⟨nk, a, c, hnk, hown, (h.members _ _).mpr (names_eq_some.mpr ⟨c, hc, rfl⟩), hc, hcid⟩
  single h1 h2 := h.owned.distinct h1 h2
  only _ hc hid := h.listed hc hid

/-- **Pending entries are owned exactly once.** In every run, of every group; and no command reads
a NACK or a consumer that is not there, or finds a NACK half created. -/
theorem pending_owned_once {key : Option GroupedStream} (hrun : StreamRun key) :
    (∀ s, key = some s → ∀ name g, s.cgroups.find name = some g → OwnedOnce g) ∧
      ∀ e x, occur key e = .error x → ∃ y, x = .stream y := by
  have hsound : AllSound key := by
    refine hrun.invariant (I := AllSound) (fun s hs => hs ▸ nofun) ?_
    rintro key e key' - hI ⟨hnext, -⟩
    have hocc := occur_spec hI e
    unfold next at hnext
    split at hnext
    · rename_i key'' _ hok
      cases hnext
      exact hocc.ok hok
    · cases hnext
  refine ⟨fun s hs name g hg => (hsound s hs name g hg).ownedOnce, ?_⟩
  intro e x hx
  have hmild := (occur_spec hsound e).error hx
  cases x with
  | stream y => exact ⟨y, rfl⟩
  | freedNack => exact hmild.elim
  | freedConsumer => exact hmild.elim
  | noNack => exact hmild.elim
  | halfCreated => exact hmild.elim

/-- An entry that is read by one consumer, read again by another after the group was set back, and claimed by a third. -/
theorem pending_owned_once_sample : ∃ s g, StreamRun (some s) ∧ s.cgroups.find [103] = some g ∧
    (∃ n, g.pel.find ⟨1, 0⟩ = some n) ∧ OwnedOnce g := by
  let lim : NodeLimits := ⟨4096, 100⟩
  let test : Option GroupedStream → Bool := fun key =>
    key.any fun s => (s.cgroups.find [103]).any fun g => (g.pel.find ⟨1, 0⟩).isSome
  obtain ⟨key, hrun, htest⟩ := Run.replay (fun _ _ _ _ => trivial)
    [.command lim 0 (.xadd [] (some ⟨1, 0⟩) [([102], [118])]),
      .command lim 0 (.xgroupCreate [103] (.id ⟨0, 0⟩) false),
      .command lim 0 (.xreadgroup [103] [97] false 0 none),
      .command lim 0 (.xgroupSetid [103] (.id ⟨0, 0⟩)),
      .command lim 0 (.xreadgroup [103] [98] false 0 none),
      .command lim 0 (.xclaim [103] [99] 0 [⟨1, 0⟩] [])] (.start rfl : StreamRun none)
    (show replay next (fun _ _ _ => true) test none _ = true by decide)
  obtain ⟨s, rfl, hs⟩ := (Option.any_eq_true _ _).mp htest
  obtain ⟨g, hg, hpel⟩ := (Option.any_eq_true _ _).mp hs
  exact ⟨s, g, hrun, hg, Option.isSome_iff_exists.mp hpel, (pending_owned_once hrun).1 s rfl _ g hg⟩

end RedisZk.Streams
