/-
# What XCLAIM claims

Over a stream that holds its entries, the claims of XCLAIM end: every listed entry that is
claimable when the command starts belongs to the consumer afterwards, as the claims of the other
entries leave it alone.

Key definitions: `Claimable`, `Frame`.
Key theorems: `claimEntry_frame`, `claimEntry_done`, `claimEntries_done`.
-/
import RedisZk.Streams.Edits
import RedisZk.Streams.Pending

namespace RedisZk.Streams

open Function Stepwise

/-- An entry that is pending and has been idle for long enough, or a live one that is not pending with `FORCE`. -/
def Claimable (ns : List Node) (now : ℤ) (o : Claim) (g : StreamCG) (id : StreamID) : Prop :=
  (∃ n nk, g.pel.find id = some n ∧ g.nacks n = some nk ∧ ¬ (o.minidle ≠ 0 ∧ now - nk.delivery_time < o.minidle)) ∨
    (g.pel.find id = none ∧ o.force = true ∧ ∃ e ∈ content ns, e.id = id)

/-- The pending entries of the other IDs are as they were. -/
def Frame (id : StreamID) (g g' : StreamCG) : Prop :=
  ∀ id', id' ≠ id → g'.pel.find id' = g.pel.find id' ∧ ∀ n, g.pel.find id' = some n → g'.nacks n = g.nacks n

variable {s : Stream} {ns : List Node} {g g' : StreamCG} {a n : ℕ} {id : StreamID} {name : Sds} {nk : StreamNACK} {now : ℤ}
  {o : Claim}

/-! ### What stays -/

theorem unlink_frame (h : g.unlink a id = .ok g') : g'.pel = g.pel ∧ g'.nacks = g.nacks := by
  obtain ⟨c, -, hc⟩ := bind_eq_ok h
  cases hc
  exact ⟨rfl, rfl⟩

theorem link_frame (h : g.link a id n = .ok g') : g'.pel = g.pel ∧ g'.nacks = g.nacks := by
  obtain ⟨c, -, hc⟩ := bind_eq_ok h
  cases hc
  exact ⟨rfl, rfl⟩

theorem unlinkOwner_frame (h : unlinkOwner g nk id = .ok g') : g'.pel = g.pel ∧ g'.nacks = g.nacks := by
  unfold unlinkOwner at h
  split at h
  · cases h
    exact ⟨rfl, rfl⟩
  · exact unlink_frame h

theorem claimant_frame {consumer : Option ℕ} (h : claimant g now name consumer = .ok (g', a)) :
    g'.pel = g.pel ∧ g'.nacks = g.nacks := by
  unfold claimant at h
  split at h
  · cases h
    exact ⟨rfl, rfl⟩
  · unfold streamLookupConsumer at h
    split at h
    · cases h
      exact ⟨rfl, rfl⟩
    · obtain ⟨c, -, hc⟩ := bind_eq_ok h
      cases hc
      exact ⟨rfl, rfl⟩

/-- The NACK is the one of the ID, or a new one. -/
theorem claimNack_frame {force : Bool} {nack : Option ℕ} (h : claimNack s g now force id = .ok (g', nack)) :
    (g' = g ∧ nack = g.pel.find id) ∨
      (nack = some g.fresh ∧ g'.pel = g.pel.insert id g.fresh ∧ ∀ m, m ≠ g.fresh → g'.nacks m = g.nacks m) := by
  unfold claimNack at h
  split at h
  · rename_i n hn
    cases h
    exact .inl ⟨rfl, hn.symm⟩
  · rename_i hn
    split at h
    · obtain ⟨found, -, hfound⟩ := bind_eq_ok h
      dsimp only at hfound
      split at hfound
      · cases hfound
        exact .inl ⟨rfl, hn.symm⟩
      · cases hfound
        exact .inr ⟨rfl, rfl, fun m hm => if_neg hm⟩
    · cases h
      exact .inl ⟨rfl, hn.symm⟩

/-- A claim leaves the other pending entries as they are. -/
theorem claimEntry_frame (hg : Sound g) {consumer : Option ℕ} {r : StreamCG × Option ℕ × Option ℕ}
    (h : claimEntry s g now name o consumer id = .ok r) : Frame id g r.1 := by
  obtain ⟨⟨g1, nack⟩, hnack, h⟩ := bind_eq_ok h
  dsimp only at h
  -- the NACK, which no other entry has
  have hown : Frame id g g1 ∧ ∀ n, nack = some n → ∀ id', id' ≠ id → g.pel.find id' ≠ some n := by
    rcases claimNack_frame hnack with ⟨rfl, hfind⟩ | ⟨hnew, hpel, hnacks⟩
    · refine ⟨fun id' _ => ⟨rfl, fun _ _ => rfl⟩, ?_⟩
      intro n hn id' hid' hother
      exact hid' (hg.owned.distinct hother (hfind.symm.trans hn))
    · refine ⟨fun id' hid' => ⟨?_, ?_⟩, ?_⟩
      · rw [hpel, SortedMap.find_insert, if_neg hid']
      · intro n hn
        refine hnacks n ?_
        rintro rfl
        exact hg.not_fresh id' hn
      · rintro n hn id' -
        rw [hnew, Option.some.injEq] at hn
        rw [← hn]
        exact hg.not_fresh id'
  obtain ⟨hframe, hother⟩ := hown
  cases nack with
  | none =>
    cases h
    exact hframe
  | some n =>
    obtain ⟨nk, -, h⟩ := bind_eq_ok h
    split at h
    · cases h
      exact hframe
    · obtain ⟨g2, hunlink, h⟩ := bind_eq_ok h
      obtain ⟨⟨g3, b⟩, hlook, h⟩ := bind_eq_ok h
      obtain ⟨g4, hlink, h⟩ := bind_eq_ok h
      cases h
      obtain ⟨hpel2, hnacks2⟩ := unlinkOwner_frame hunlink
      obtain ⟨hpel3, hnacks3⟩ := claimant_frame hlook
      obtain ⟨hpel4, hnacks4⟩ := link_frame hlink
      intro id' hid'
      obtain ⟨hfind, hsame⟩ := hframe id' hid'
      refine ⟨?_, fun m hm => ?_⟩
      · rw [hpel4]
        show g3.pel.find id' = _
        rw [hpel3, hpel2, hfind]
      · have hne : m ≠ n := by
          rintro rfl
          exact hother m rfl id' hid' hm
        rw [hnacks4]
        show (if m = n then _ else g3.nacks m) = _
        rw [if_neg hne, hnacks3, hnacks2, hsame m hm]

/-! ### What is claimed -/

/-- One claim: it ends, and takes the entry if it can. -/
theorem claimEntry_done (h : Represents s ns) (hg : Sound g) {consumer : Option ℕ}
    (hcons : ∀ a, consumer = some a → g.names a = some name) (now : ℤ) (o : Claim) (id : StreamID) :
    ∃ r, claimEntry s g now name o consumer id = .ok r ∧ Claimed g name id r ∧
      (Claimable ns now o g id → r.2.2 ≠ none) := by
  have hidle : Claimed g name id (g, consumer, none) := ⟨hg, fun _ _ ha => ha, rfl, hcons, rfl⟩
  cases hid : g.pel.find id with
  | some n =>
    obtain ⟨nk, a, g1, hnk, hown, hunlink, hnames, hlast, hfloat⟩ := hg.lift hid
    have hnack : claimNack s g now o.force id = .ok (g, some n) := by simp only [claimNack, hid]
    simp only [claimEntry, hnack, bind, Except.bind, nack_eq hnk]
    split
    · rename_i hyoung
      refine ⟨_, rfl, hidle, ?_⟩
      rintro (⟨n', nk', hn', hnk', hold⟩ | ⟨hnone, -⟩)
      · rw [hid, Option.some.injEq] at hn'
        rw [← hn', hnk, Option.some.injEq] at hnk'
        rw [hnk'] at hyoung
        exact absurd hyoung.2 hold
      · rw [hid] at hnone
        cases hnone
    · simp only [unlinkOwner, hown, hunlink]
      obtain ⟨g2, b, g3, hlook, hlink, hclaimed⟩ := claim_land hfloat (.of_eq hnames) hlast
        (fun a ha => by rw [hnames]; exact hcons a ha) now o.deliverytime
        (if o.retrycount ≥ 0 then o.retrycount.toNat
          else if !o.justid then (nk.delivery_count + 1) % 2 ^ 64 else nk.delivery_count)
      simp only [hlook, hlink]
      exact ⟨_, rfl, hclaimed, fun _ => Option.some_ne_none _⟩
  | none =>
    have hskip : claimNack s g now o.force id = .ok (g, none) → ¬ Claimable ns now o g id →
        ∃ r, claimEntry s g now name o consumer id = .ok r ∧ Claimed g name id r ∧
          (Claimable ns now o g id → r.2.2 ≠ none) := by
      intro hnack hnot
      simp only [claimEntry, hnack, bind, Except.bind]
      exact ⟨_, rfl, hidle, fun hyes => absurd hyes hnot⟩
    have hpending : ∀ n, g.pel.find id ≠ some n := by
      intro n hn
      rw [hid] at hn
      cases hn
    cases hforce : o.force with
    | false =>
      refine hskip ?_ ?_
      · simp only [claimNack, hid, hforce, Bool.false_eq_true, if_false]
      · rintro (⟨n, -, hn, -⟩ | ⟨-, hyes, -⟩)
        · exact hpending n hn
        · rw [hforce] at hyes
          cases hyes
    | true =>
      rcases find_spec h id with ⟨e, he, hide, si, L, hfind, -, -⟩ | ⟨hno, si, hfind⟩
      · obtain ⟨g1, nk, hnack, hnk, hown, hnames, hlast, hfloat⟩ := claimNack_force s now hg hid hfind
        obtain ⟨g2, b, g3, hlook, hlink, hclaimed⟩ := claim_land hfloat (.of_eq hnames) hlast
          (fun a ha => by rw [hnames]; exact hcons a ha) now o.deliverytime
          (if o.retrycount ≥ 0 then o.retrycount.toNat
            else if !o.justid then (nk.delivery_count + 1) % 2 ^ 64 else nk.delivery_count)
        simp only [claimEntry, hforce, hnack, hnk, hown, Option.isSome_none, Bool.false_eq_true, false_and, if_false,
          unlinkOwner, bind, Except.bind, hlook, hlink]
        exact ⟨_, rfl, hclaimed, fun _ => Option.some_ne_none _⟩
      · refine hskip ?_ ?_
        · simp only [claimNack, hid, hforce, hfind, ofStream, Except.mapError, bind, Except.bind, if_true]
        · rintro (⟨n, -, hn, -⟩ | ⟨-, -, e, he, hide⟩)
          · exact hpending n hn
          · exact hno e he hide

theorem Claimable.frame {id' : StreamID} (h : Claimable ns now o g id') (hframe : Frame id g g')
    (hne : id' ≠ id) : Claimable ns now o g' id' := by
  obtain ⟨hfind, hsame⟩ := hframe id' hne
  rcases h with ⟨n, nk, hn, hnk, hold⟩ | ⟨hnone, hlive⟩
  · exact .inl ⟨n, nk, hfind.trans hn, (hsame n hn).trans hnk, hold⟩
  · exact .inr ⟨hfind.trans hnone, hlive⟩

/-- **What XCLAIM does.** It ends, and the listed entries that can be claimed belong to the consumer. -/
theorem claimEntries_done (h : Represents s ns) (groupname : Sds) (now : ℤ) (o : Claim) : ∀ (ids : List StreamID)
    {g : StreamCG} {consumer : Option ℕ}, Sound g → (∀ a, consumer = some a → g.names a = some name) →
    ∃ g' ps, claimEntries s groupname now name o g consumer ids = .ok (g', ps) ∧ Sound g' ∧ g'.last_id = g.last_id ∧
      (∀ id, g'.owners id = g.owners id ∨ (id ∈ ids ∧ g'.owners id = some name)) ∧
      ∀ id ∈ ids, Claimable ns now o g id → g'.owners id = some name
  | [], g, consumer, hg, _ => ⟨g, [], rfl, hg, rfl, fun _ => .inl rfl, nofun⟩
  | id :: ids, g, consumer, hg, hcons => by
    obtain ⟨⟨g1, consumer1, nack⟩, hclaim, ⟨hsound, hnames, hlast, hcons1, heffect⟩, htaken⟩ :=
      claimEntry_done h hg hcons now o id
    have hframe : Frame id g g1 := claimEntry_frame hg hclaim
    obtain ⟨g2, ps, hclaims, hsound2, hlast2, howners2, hdone⟩ := claimEntries_done h groupname now o ids hsound hcons1
    have howners1 : ∀ id', g1.owners id' = g.owners id' ∨ (id' = id ∧ g1.owners id' = some name) := by
      intro id'
      cases nack with
      | none => exact .inl (congrFun heffect id')
      | some n =>
        obtain ⟨heffect, -⟩ := heffect
        by_cases hid : id' = id
        · exact .inr ⟨hid, by rw [heffect, hid, update_self]⟩
        · exact .inl (by rw [heffect, update_of_ne hid])
    have hfirst : Claimable ns now o g id → g1.owners id = some name := by
      intro hyes
      cases nack with
      | none => exact absurd rfl (htaken hyes)
      | some n =>
        obtain ⟨heffect, -⟩ := heffect
        rw [heffect, update_self]
    have hresult : ∃ ps', claimEntries s groupname now name o g consumer (id :: ids) = .ok (g2, ps') := by
      unfold claimEntries
      rw [hclaim, ok_bind]
      cases nack with
      | none => exact ⟨ps, hclaims⟩
      | some n =>
        obtain ⟨-, nk, a, hnk, hown, hname⟩ := heffect
        have hprop : streamPropagateXCLAIM g1 groupname id n = _ := streamPropagateXCLAIM_eq groupname hnk hown hname
        dsimp only
        rw [hprop, ok_bind, hclaims]
        exact ⟨_, rfl⟩
    obtain ⟨ps', hresult⟩ := hresult
    refine ⟨g2, ps', hresult, hsound2, hlast2.trans hlast, fun id' => ?_, fun id' hmem hyes => ?_⟩
    · rcases howners2 id' with hsame | ⟨hmem, hnew⟩
      · rcases howners1 id' with hsame1 | ⟨hid, hnew⟩
        · exact .inl (hsame.trans hsame1)
        · exact .inr ⟨by rw [hid]; exact List.mem_cons_self, hsame.trans hnew⟩
      · exact .inr ⟨List.mem_cons_of_mem _ hmem, hnew⟩
    · by_cases hid : id' = id
      · rcases howners2 id' with hsame | ⟨-, hnew⟩
        · rw [hsame, hid]
          exact hfirst (hid ▸ hyes)
        · exact hnew
      · have hmem' : id' ∈ ids := by
          rcases List.mem_cons.mp hmem with heq | hmem
          · exact absurd heq hid
          · exact hmem
        exact hdone id' hmem' (hyes.frame hframe hid)

end RedisZk.Streams
