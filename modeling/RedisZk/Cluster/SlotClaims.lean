/-
# Claims of slots, in any order

A node that claims slots announces its configEpoch and its bitmap; the header
raises the epochs, and `clusterUpdateSlotsConfigWith` rebinds each claimed slot
whose owner has a lower configEpoch. Slot by slot this is one bid of
`RedisZk.Lib.Bids`, so the order of the claims makes no difference, if every
claimant claims once, with an epoch not below the one it had, and for every slot
it owned.

Key definitions: `raiseEpochs`, `processClaims`, `rebound`.
Key theorems: `clusterUpdateSlotsConfigWith_rebound`, `claims_order_independent`.
-/
import RedisZk.Cluster.Consistency
import RedisZk.Lib.Bids

namespace RedisZk.Cluster

open Relation
open Stepwise (Within)
open Bids (Bid Settles Fair LevelAfter)

variable {st st' : Server} {c : Ctx} {R : Finset NodeName} {x : NodeName}

/-- A claim: the node, its epoch and its bitmap. -/
abbrev SlotClaim := Bid NodePtr Slot

/-- What the header of the claim does to the epochs. -/
def raiseEpochs (st : Server) (claim : SlotClaim) : Server :=
  { st with currentEpoch := max st.currentEpoch claim.rank }.modNode claim.node fun n =>
    { n with configEpoch := max n.configEpoch claim.rank }

def processClaim (st : Server) (claim : Env × SlotClaim) : Except Abort Server :=
  clusterUpdateSlotsConfigWith claim.1 (raiseEpochs st claim.2) claim.2.node claim.2.rank claim.2.wants

/-- The claims are heard one after the other. -/
def processClaims (st : Server) (claims : List (Env × SlotClaim)) : Except Abort Server :=
  claims.foldlM processClaim st

/-! ### One claim -/

/-- Who owns slot `j` after the claim of `sender`. -/
def rebound (st : Server) (sender : NodePtr) (e : ℕ) (claimed : Bitmap) (j : Slot) : Option NodePtr :=
  if claimed j = false then st.slots j
  else match st.slots j with
    | none => some sender
    | some n => if (st.heap n).configEpoch < e then some sender else some n

/-- What a claim does to the table, the roles aside. -/
structure Rebound (st st' : Server) (sender : NodePtr) (e : ℕ) (claimed : Bitmap) : Prop where
  nodes : st'.nodes = st.nodes
  myself : st'.myself = st.myself
  configEpoch : ∀ n, (st'.heap n).configEpoch = (st.heap n).configEpoch
  importing : ∀ j, st'.importingSlotsFrom j = none
  slots : ∀ j, st'.slots j = rebound st sender e claimed j

/-- A slot that is not being imported. -/
theorem updateSlot_rebound (env : Env) {sender : NodePtr} {e : ℕ} {cm : Option NodePtr} {s : SlotScan} {slots : Bitmap}
    {j : Slot} (hi : NodeInv (R : Set NodeName) x s.st) (hs : sender ∈ s.st.nodes) (hne : sender ≠ s.st.myself)
    (himp : s.st.importingSlotsFrom j = none) (hj : slots j = true) :
    Within (fun b : SlotScan => SlotRun { R := R } s.st b.st ∧
      b.st.slots = Function.update s.st.slots j (rebound s.st sender e slots j)) (fun _ => False)
      (updateSlot env sender e cm s j) := by
  have hsame : ∀ n, s.st.slots j = some n → (¬ (s.st.heap n).configEpoch < e ∨ n = sender) →
      SlotRun { R := R } s.st s.st ∧ s.st.slots = Function.update s.st.slots j (rebound s.st sender e slots j) := by
    intro n hn hcase
    refine ⟨.refl s.st, ?_⟩
    have hval : rebound s.st sender e slots j = s.st.slots j := by
      rw [rebound, if_neg (by simp [hj]), hn]
      rcases hcase with hlt | rfl
      · exact if_neg hlt
      · exact ite_self _
    rw [hval, Function.update_eq_self]
  obtain ⟨s', heq, hm, hk, hslots, -, -⟩ := clusterDelSlot_spec (c := { R := R }) hi.slots j
  have hrun : SlotRun { R := R } s.st (clusterAddSlot s' sender j) := by
    refine SlotRun.trans ⟨hm, hk⟩ (.addSlot (hk.nodes ▸ hs) (by rw [hslots, Function.update_self]) fun e => ?_)
    rw [hk.myself] at e
    exact absurd e hne
  have hadd : (clusterAddSlot s' sender j).slots = Function.update s.st.slots j (some sender) := by
    have hj' : s'.slots j = none := by rw [hslots, Function.update_self]
    have hmem : sender ∈ s'.nodes := hk.nodes ▸ hs
    obtain ⟨fl, ha⟩ := clusterAddSlot_unbound hj' ((hi.moves hm).slots.bit_clear hmem (j := j) (by simp [hj']))
    rw [ha]
    change Function.update s'.slots j (some sender) = _
    rw [hslots, Function.update_idem]
  unfold updateSlot
  split
  · rename_i howner
    exact hsame sender howner (.inr rfl)
  · rw [himp, if_neg (by simp)]
    cases hcur : s.st.slots j with
    | none =>
      dsimp only
      rw [if_pos rfl, heq]
      refine ⟨hrun.trans (.doBeforeSleep _ _), hadd.trans ?_⟩
      congr 1
      rw [rebound, if_neg (by simp [hj]), hcur]
    | some n =>
      dsimp only
      by_cases hlt : (s.st.heap n).configEpoch < e
      · rw [if_pos (decide_eq_true hlt), heq]
        refine ⟨hrun.trans (.doBeforeSleep _ _), hadd.trans ?_⟩
        congr 1
        rw [rebound, if_neg (by simp [hj]), hcur]
        exact (if_pos hlt).symm
      · rw [if_neg (by simpa using hlt)]
        exact hsame n hcur (.inl hlt)

theorem rebound_congr {sender : NodePtr} {e : ℕ} {claimed : Bitmap} {j : Slot} (hslots : st'.slots j = st.slots j)
    (hepoch : ∀ n, (st'.heap n).configEpoch = (st.heap n).configEpoch) :
    rebound st' sender e claimed j = rebound st sender e claimed j := by
  unfold rebound
  simp only [hslots, hepoch]

theorem updateSlotLoop_rebound (env : Env) {sender : NodePtr} {e : ℕ} {cm : Option NodePtr} {slots : Bitmap}
    (l : List Slot) (s : SlotScan) (hnd : l.Nodup) (hi : NodeInv (R : Set NodeName) x s.st) (hs : sender ∈ s.st.nodes)
    (hne : sender ≠ s.st.myself) (himp : ∀ j, s.st.importingSlotsFrom j = none) :
    Within (fun b : SlotScan => SlotRun { R := R } s.st b.st ∧
      ∀ j, b.st.slots j = if j ∈ l then rebound s.st sender e slots j else s.st.slots j) (fun _ => False)
      (l.foldlM (fun s j => if slots j then updateSlot env sender e cm s j else .ok s) s) := by
  induction l generalizing s with
  | nil => exact ⟨.refl s.st, by simp⟩
  | cons j l ih =>
    rw [List.foldlM_cons]
    obtain ⟨hj, hnd⟩ := List.nodup_cons.mp hnd
    have hturn : Within (fun b : SlotScan => SlotRun { R := R } s.st b.st ∧
        b.st.slots = Function.update s.st.slots j (rebound s.st sender e slots j)) (fun _ => False)
        (if slots j then updateSlot env sender e cm s j else .ok s) := by
      split
      · rename_i hclaim
        exact updateSlot_rebound env hi hs hne (himp j) hclaim
      · rename_i hclaim
        refine ⟨.refl s.st, ?_⟩
        rw [rebound, if_pos (by simpa using hclaim), Function.update_eq_self]
    refine Within.bind hturn fun b ⟨hrun, hb⟩ => ?_
    have hib : NodeInv (R : Set NodeName) x b.st := hi.moves hrun.moves
    have himpb : ∀ k, b.st.importingSlotsFrom k = none := by
      intro k
      by_contra hk
      obtain ⟨q, hq⟩ := Option.ne_none_iff_exists'.mp hk
      have hold := hrun.keeps.importing k q hq
      rw [himp k] at hold
      cases hold
    refine Within.mono (ih b hnd hib (hrun.moves.mem hs) (hrun.keeps.myself ▸ hne) himpb) ?_ fun _ => id
    intro b' ⟨hrun', hb'⟩
    refine ⟨hrun.trans hrun', fun k => ?_⟩
    rw [hb' k]
    have hcfg : ∀ n, (b.st.heap n).configEpoch = (s.st.heap n).configEpoch := fun n =>
      (hrun.keeps.same n).configEpoch (by decide)
    by_cases hk : k = j
    · subst hk
      rw [if_neg hj, if_pos List.mem_cons_self, hb, Function.update_self]
    · have hsl : b.st.slots k = s.st.slots k := by rw [hb, Function.update_of_ne hk]
      rw [rebound_congr hsl hcfg, hsl]
      simp only [List.mem_cons, hk, false_or]

theorem allSlots_nodup : allSlots.Nodup := by
  unfold allSlots
  exact List.nodup_finRange _

/-- The frame of a claim: after the loop over the slots, at most the role of `myself`
changes. -/
theorem clusterUpdateSlotsConfigWith_frame (env : Env) (hi : NodeInv (R : Set NodeName) x st) {sender : NodePtr}
    (hs : sender ∈ st.nodes) (hne : sender ≠ st.myself) (himp : ∀ j, st.importingSlotsFrom j = none) (e : ℕ)
    (slots : Bitmap) :
    Within (fun st' => Rebound st st' sender e slots) (fun _ => True)
      (clusterUpdateSlotsConfigWith env st sender e slots) := by
  have hloop := @updateSlotLoop_rebound R x env sender e (curMaster st) slots
    allSlots ⟨st, false, []⟩ allSlots_nodup hi hs hne himp
  unfold clusterUpdateSlotsConfigWith
  dsimp only
  rw [if_neg hne]
  refine Within.bind (Within.mono hloop (fun _ => id) fun _ => False.elim) fun s ⟨hrun, hslots⟩ => ?_
  have hk : Keeps .slots st s.st := hrun.keeps
  have himps : ∀ {st' : Server}, (∀ j q, st'.importingSlotsFrom j = some q → st.importingSlotsFrom j = some q) →
      ∀ j, st'.importingSlotsFrom j = none := by
    intro st' hst j
    by_contra hj
    obtain ⟨q, hq⟩ := Option.ne_none_iff_exists'.mp hj
    have hold := hst j q hq
    rw [himp j] at hold
    cases hold
  have hself : Rebound st s.st sender e slots := by
    refine ⟨hk.nodes, hk.myself, fun n => (hk.same n).configEpoch (by decide), himps hk.importing, fun j => ?_⟩
    have hj := hslots j
    rw [if_pos (mem_allSlots j)] at hj
    exact hj
  have hlog : ∀ ev, Rebound st (s.st.logEvent ev) sender e slots := fun ev =>
    ⟨hself.nodes, hself.myself, hself.configEpoch, hself.importing, hself.slots⟩
  have hdirty : Rebound st (if s.dirtySlots = [] then s.st else s.st.logEvent (.delKeysInSlots s.dirtySlots)) sender e
      slots := by
    split
    · exact hself
    · exact hlog _
  split
  · exact hself
  · split
    · split
      · trivial
      · split
        · cases hset : clusterSetMaster s.st sender with
          | error a => trivial
          | ok st2 =>
            have hl := Keeps.setMaster hset
            refine ⟨hl.nodes.trans hself.nodes, hl.myself.trans hself.myself, fun n => ?_, ?_, fun j => ?_⟩
            · exact ((hl.same n).configEpoch (by decide)).trans (hself.configEpoch n)
            · exact himps fun j q hq => hk.importing j q (hl.importing j q hq)
            · exact (congrFun (hl.slots (by decide)) j).trans (hself.slots j)
        · exact hdirty
    · exact hdirty

/-- A claim heard by a process that follows somebody or serves slots itself. -/
theorem clusterUpdateSlotsConfigWith_rebound (env : Env) (hi : NodeInv (R : Set NodeName) x st) (hf : FollowInv st)
    (sender : NodePtr) (hs : sender ∈ st.nodes) (hne : sender ≠ st.myself)
    (himp : ∀ j, st.importingSlotsFrom j = none) (e : ℕ) (slots : Bitmap) :
    ∃ st', clusterUpdateSlotsConfigWith env st sender e slots = .ok st' ∧ NodeInv (R : Set NodeName) x st' ∧
      FollowInv st' ∧ Rebound st st' sender e slots := by
  have hdoes := clusterUpdateSlotsConfigWith_does (c := { R := R }) env hi hs e slots
  have hframe := clusterUpdateSlotsConfigWith_frame env hi hs hne himp e slots
  have hfollow : ∀ s, Moves { R := R } st s → FollowInv s := fun s hm =>
    FollowInv.changes (c := { R := R }) rfl hi id id nofun hm.change hf
  cases hr : clusterUpdateSlotsConfigWith env st sender e slots with
  | ok st' =>
    rw [hr] at hdoes hframe
    exact ⟨st', rfl, hi.moves hdoes, hfollow st' hdoes, hframe⟩
  | error a =>
    rw [hr] at hdoes
    obtain ⟨s, hm, hc⟩ := hdoes
    obtain ⟨h1, -, h3⟩ := (hfollow s hm).not_cause
    cases a with
    | nullCurmaster => exact absurd hc h1
    | setMasterSlots => exact absurd hc h3
    | _ => exact hc.elim

/-! ### All claims -/

theorem raiseEpochs_moves (hi : NodeInv (R : Set NodeName) x st) {claim : SlotClaim} (hn : claim.node ∈ st.nodes) :
    Moves { R := R } st (raiseEpochs st claim) := by
  have hraise : Move { R := R } st { st with currentEpoch := max st.currentEpoch claim.rank } :=
    .raise st _ (le_max_left _ _)
  have hle : max (st.heap claim.node).configEpoch claim.rank ≤ max st.currentEpoch claim.rank :=
    max_le_max (hi.epochs.config _ hn) le_rfl
  have hlearn := Reshape.learn (c := { R := R }) { st with currentEpoch := max st.currentEpoch claim.rank } claim.node
    (max (st.heap claim.node).configEpoch claim.rank) hn hle
  have heq : raiseEpochs st claim = ({ st with currentEpoch := max st.currentEpoch claim.rank } : Server).modNode
      claim.node fun n => { n with configEpoch := max (st.heap claim.node).configEpoch claim.rank } := by
    unfold raiseEpochs Server.modNode
    rfl
  rw [heq]
  exact (ReflTransGen.single hraise).tail (.reshape hlearn)

/-- A table in which claims are heard: no slot is being imported, and the process follows
somebody or serves slots itself. -/
structure Hears (R : Finset NodeName) (x : NodeName) (st : Server) : Prop where
  inv : NodeInv (R : Set NodeName) x st
  follow : FollowInv st
  importing : ∀ j, st.importingSlotsFrom j = none

/-- One claim is heard: the owners, and the epoch of the claimant. -/
theorem processClaim_rebound (env : Env) (h : Hears R x st) (claim : SlotClaim) (hin : claim.node ∈ st.nodes)
    (hne : claim.node ≠ st.myself) :
    ∃ st', processClaim st (env, claim) = .ok st' ∧ Hears R x st' ∧ st'.nodes = st.nodes ∧ st'.myself = st.myself ∧
      (∀ n, (st'.heap n).configEpoch =
        if n = claim.node then max (st.heap n).configEpoch claim.rank else (st.heap n).configEpoch) ∧
      ∀ j, st'.slots j = if claim.wants j = false then st.slots j else match st.slots j with
        | none => some claim.node
        | some n => if n ≠ claim.node ∧ claim.rank ≤ (st.heap n).configEpoch then some n else some claim.node := by
  have hm := raiseEpochs_moves h.inv hin
  have hcfg : ∀ n, ((raiseEpochs st claim).heap n).configEpoch =
      if n = claim.node then max (st.heap n).configEpoch claim.rank else (st.heap n).configEpoch := by
    intro n
    unfold raiseEpochs
    rw [modNode_heap]
    split
    · rename_i hn
      rw [hn]
    · rfl
  obtain ⟨st', hok, hi', hf', hreb⟩ := clusterUpdateSlotsConfigWith_rebound env (h.inv.moves hm)
    (FollowInv.changes (c := { R := R }) rfl h.inv id id nofun hm.change h.follow) claim.node
    (hm.mem hin) hne h.importing claim.rank claim.wants
  refine ⟨st', hok, ⟨hi', hf', hreb.importing⟩, hreb.nodes, hreb.myself, fun n => ?_, fun j => ?_⟩
  · rw [hreb.configEpoch, hcfg]
  · have hval : st'.slots j = rebound (raiseEpochs st claim) claim.node claim.rank claim.wants j := hreb.slots j
    have hraise : (raiseEpochs st claim).slots j = st.slots j := rfl
    rw [hval, rebound, hraise]
    split
    · rfl
    · cases hcur : st.slots j with
      | none => rfl
      | some n =>
        dsimp only
        rw [hcfg]
        by_cases hn : n = claim.node
        · rw [if_pos hn, hn, ite_self]
          exact (if_neg fun h => h.1 rfl).symm
        · rw [if_neg hn]
          by_cases hlt : (st.heap n).configEpoch < claim.rank
          · rw [if_pos hlt, if_neg fun h => Nat.not_lt.mpr h.2 hlt]
          · rw [if_neg hlt, if_pos ⟨hn, Nat.not_lt.mp hlt⟩]

/-- After the claims `done`, for a table that began as `st0`. -/
structure ClaimsInv (R : Finset NodeName) (x : NodeName) (st0 : Server) (done : List SlotClaim) (st : Server) : Prop
    extends Hears R x st where
  nodes : st.nodes = st0.nodes
  myself : st.myself = st0.myself
  level : LevelAfter (fun n => (st0.heap n).configEpoch) (fun n => (st.heap n).configEpoch) done
  owner : ∀ j, Settles (st0.slots j) (fun n => (st0.heap n).configEpoch) done j (st.slots j)

theorem ClaimsInv.claim {st0 : Server} {done : List SlotClaim} {claim : SlotClaim} (env : Env)
    (hfair : Fair st0.slots (fun n => (st0.heap n).configEpoch) (done ++ [claim])) (hnew : claim ∉ done)
    (hmem : claim.node ∈ st0.nodes) (hne : claim.node ≠ st0.myself) (h : ClaimsInv R x st0 done st) :
    ∃ st', processClaim st (env, claim) = .ok st' ∧ ClaimsInv R x st0 (done ++ [claim]) st' := by
  obtain ⟨st', hok, hh, hnodes, hmy, hcfg, hslots⟩ :=
    processClaim_rebound env h.toHears claim (h.nodes ▸ hmem) (h.myself ▸ hne)
  refine ⟨st', hok, hh, hnodes.trans h.nodes, hmy.trans h.myself, ⟨?_, ?_⟩, ?_⟩
  · intro b hb
    change (st'.heap b.node).configEpoch = b.rank
    rw [hcfg]
    rcases List.mem_append.mp hb with hb | hb
    · have hbn : b.node ≠ claim.node := by
        intro e
        rw [hfair.once b (List.mem_append_left _ hb) claim (by simp) e] at hb
        exact hnew hb
      rw [if_neg hbn]
      exact h.level.1 b hb
    · -- the claimant has its first level still, which its epoch is not below
      rw [List.mem_singleton.mp hb, if_pos rfl]
      have hfirst : (st.heap claim.node).configEpoch = (st0.heap claim.node).configEpoch := by
        refine h.level.2 claim.node fun b hb e => hnew ?_
        rw [← hfair.once b (List.mem_append_left _ hb) claim (by simp) e]
        exact hb
      have hle : (st0.heap claim.node).configEpoch ≤ claim.rank := hfair.level claim (by simp)
      rw [hfirst]
      exact max_eq_right hle
  · intro n hn
    change (st'.heap n).configEpoch = (st0.heap n).configEpoch
    rw [hcfg, if_neg fun e => hn claim (by simp) e.symm]
    exact h.level.2 n fun b hb => hn b (List.mem_append_left _ hb)
  · intro j
    refine Settles.snoc hfair hnew h.level (h.owner j) ?_ ?_
    · rintro (hw | ⟨n, hn, hcur, hle⟩)
      · rw [hslots, if_pos hw]
      · rw [hslots]
        split
        · rfl
        · rw [hcur]
          exact if_pos ⟨hn, hle⟩
    · intro hw hlt
      rw [hslots, if_neg (by simp [hw])]
      split
      · rfl
      · rename_i n hcur
        exact if_neg fun hno => Nat.not_lt.mpr hno.2 (hlt n hno.1 hcur)

theorem ClaimsInv.claims {st0 : Server} (rest : List (Env × SlotClaim)) (done : List SlotClaim)
    (hfair : Fair st0.slots (fun n => (st0.heap n).configEpoch) (done ++ rest.map Prod.snd))
    (hnd : (done ++ rest.map Prod.snd).Nodup)
    (hmem : ∀ claim ∈ rest.map Prod.snd, claim.node ∈ st0.nodes ∧ claim.node ≠ st0.myself)
    (h : ClaimsInv R x st0 done st) :
    ∃ st', processClaims st rest = .ok st' ∧ ClaimsInv R x st0 (done ++ rest.map Prod.snd) st' := by
  induction rest generalizing done st with
  | nil => exact ⟨st, rfl, by simpa using h⟩
  | cons r rest ih =>
    obtain ⟨env, claim⟩ := r
    have happ : done ++ List.map Prod.snd ((env, claim) :: rest) = (done ++ [claim]) ++ rest.map Prod.snd := by simp
    rw [happ] at hfair hnd ⊢
    have hnew : claim ∉ done := by
      have hnd' := (List.nodup_append.mp hnd).1
      exact fun hin => (List.nodup_append.mp hnd').2.2 claim hin claim (by simp) rfl
    obtain ⟨hm, hne⟩ := hmem claim (by simp)
    obtain ⟨st1, hok, h1⟩ := h.claim env (hfair.congr fun b hb => List.mem_append_left _ hb) hnew hm hne
    obtain ⟨st2, hok2, h2⟩ := ih _ hfair hnd (fun b hb => hmem b (List.mem_cons_of_mem _ hb)) h1
    refine ⟨st2, ?_, h2⟩
    rw [processClaims, List.foldlM_cons, hok]
    exact hok2

theorem ClaimsInv.start (hi : NodeInv (R : Set NodeName) x st) (hf : FollowInv st)
    (himp : ∀ j, st.importingSlotsFrom j = none) : ClaimsInv R x st [] st :=
  ⟨⟨hi, hf, himp⟩, rfl, rfl, ⟨by simp, fun _ _ => rfl⟩, fun _ => .inl ⟨by simp, rfl⟩⟩

/-- **The order of the claims does not matter.** No slot is being imported, and every claimant is
another node of the table, claims once, with an epoch of its own that is not below its
configEpoch, and for every slot it owned. Then in every order all claims are
processed, and the owner of a slot is in the end its claimant with the greatest epoch,
if that exceeds the configEpoch of the first owner or there was none, and else the
first owner. -/
theorem claims_order_independent (hi : NodeInv (R : Set NodeName) x st) (hf : FollowInv st)
    (himp : ∀ j, st.importingSlotsFrom j = none) {claims claims' : List (Env × SlotClaim)}
    (hfair : Fair st.slots (fun n => (st.heap n).configEpoch) (claims.map Prod.snd))
    (hnd : (claims.map Prod.snd).Nodup)
    (hmem : ∀ claim ∈ claims.map Prod.snd, claim.node ∈ st.nodes ∧ claim.node ≠ st.myself)
    (hperm : (claims'.map Prod.snd).Perm (claims.map Prod.snd)) :
    ∃ st1 st2, processClaims st claims = .ok st1 ∧ processClaims st claims' = .ok st2 ∧ st1.slots = st2.slots ∧
      ∀ j, Settles (st.slots j) (fun n => (st.heap n).configEpoch) (claims.map Prod.snd) j (st1.slots j) := by
  have hin : ∀ b, b ∈ claims'.map Prod.snd ↔ b ∈ claims.map Prod.snd := fun b => hperm.mem_iff
  obtain ⟨st1, hok1, h1⟩ := ClaimsInv.claims claims [] hfair hnd hmem (.start hi hf himp)
  obtain ⟨st2, hok2, h2⟩ := ClaimsInv.claims claims' [] (hfair.congr fun b => (hin b).mp)
    (hperm.nodup_iff.mpr hnd) (fun b hb => hmem b ((hin b).mp hb)) (.start hi hf himp)
  refine ⟨st1, st2, hok1, hok2, funext fun j => ?_, h1.owner⟩
  exact (h1.owner j).unique hfair.rank ((h2.owner j).congr hin)

/-- The table of slave A, as it starts. -/
def sampleTable : Server := (coldStart (sampleEnv 0) (layout sampleCluster 3)).node slaveA

/-- The claim of these slots. -/
def claimOf (node : NodePtr) (rank : ℕ) (slots : List ℕ) : Env × SlotClaim :=
  (sampleEnv 0, ⟨node, rank, fun j => decide (j.val ∈ slots)⟩)

theorem sampleTable_slots : sampleTable.slots = Function.update (Function.update (Function.update (fun _ => none)
    ⟨0, by decide⟩ (some 0)) ⟨1, by decide⟩ (some 3)) ⟨2, by decide⟩ (some 4) :=
  rfl

/-- Masters V and W claim slot 0 besides their own. -/
def sampleClaims : List (Env × SlotClaim) := [claimOf 3 5 [0, 1], claimOf 4 4 [0, 2]]

theorem sampleTable_epochs : (sampleTable.heap 3).configEpoch = 2 ∧ (sampleTable.heap 4).configEpoch = 3 := by decide

theorem sampleClaims_fair :
    Fair sampleTable.slots (fun n => (sampleTable.heap n).configEpoch) (sampleClaims.map Prod.snd) := by
  refine ⟨by simp [sampleClaims, claimOf], by simp [sampleClaims, claimOf], ?_, ?_⟩
  · intro b hb
    rcases List.mem_pair.mp hb with rfl | rfl
    · change (sampleTable.heap 3).configEpoch ≤ 5
      rw [sampleTable_epochs.1]
      decide
    · change (sampleTable.heap 4).configEpoch ≤ 4
      rw [sampleTable_epochs.2]
      decide
  · intro b hb s hs
    rw [sampleTable_slots] at hs
    simp only [Function.update_apply] at hs
    rcases List.mem_pair.mp hb with rfl | rfl
    · by_cases h1 : s = ⟨1, by decide⟩
      · subst h1
        rfl
      · split_ifs at hs <;> cases hs
    · by_cases h2 : s = ⟨2, by decide⟩
      · subst h2
        rfl
      · split_ifs at hs <;> cases hs

theorem sampleTable_hears : Hears clusterProcesses slaveA sampleTable where
  inv := (SysInv.init sampleCluster_init).node slaveA slaveA_mem
  follow := sampleCluster_follow slaveA slaveA_mem
  importing _ := rfl

theorem claimants_known : (3 ∈ sampleTable.nodes ∧ 3 ≠ sampleTable.myself) ∧
    4 ∈ sampleTable.nodes ∧ 4 ≠ sampleTable.myself := by
  decide

theorem claims_order_independent_sample : ∃ st1 st2, processClaims sampleTable sampleClaims = .ok st1 ∧
    processClaims sampleTable sampleClaims.reverse = .ok st2 ∧ st1.slots = st2.slots := by
  have hmem : ∀ claim ∈ sampleClaims.map Prod.snd, claim.node ∈ sampleTable.nodes ∧ claim.node ≠ sampleTable.myself := by
    intro b hb
    rcases List.mem_pair.mp hb with rfl | rfl
    · exact claimants_known.1
    · exact claimants_known.2
  have hperm : (sampleClaims.reverse.map Prod.snd).Perm (sampleClaims.map Prod.snd) :=
    (List.reverse_perm sampleClaims).map _
  obtain ⟨st1, st2, h1, h2, heq, -⟩ := claims_order_independent sampleTable_hears.inv sampleTable_hears.follow
    sampleTable_hears.importing sampleClaims_fair (by simp [sampleClaims, claimOf]) hmem hperm
  exact ⟨st1, st2, h1, h2, heq⟩

theorem processClaims_pair {s s' : Server} {first second : Env × SlotClaim} (h1 : processClaim st first = .ok s)
    (h2 : processClaim s second = .ok s') : processClaims st [first, second] = .ok s' := by
  rw [processClaims, List.foldlM_cons, h1]
  change (processClaim s second >>= pure) = .ok s'
  rw [h2]
  rfl

/-- Master V, which serves slot 1, announces a new epoch without its slot, and master W claims
the slot with an epoch between: who serves it depends on which of them is heard first. -/
theorem claims_order_matters : ∃ st1 st2,
    processClaims sampleTable [claimOf 3 5 [], claimOf 4 4 [1]] = .ok st1 ∧
    processClaims sampleTable [claimOf 4 4 [1], claimOf 3 5 []] = .ok st2 ∧
    st1.slots ⟨1, by decide⟩ = some 3 ∧ st2.slots ⟨1, by decide⟩ = some 4 := by
  have hslot : sampleTable.slots ⟨1, by decide⟩ = some 3 := rfl
  have hV := sampleTable_epochs.1
  obtain ⟨sV, hokV, hhV, hnV, hmV, hcV, hsV⟩ := processClaim_rebound (sampleEnv 0) sampleTable_hears
    (claimOf 3 5 []).2 claimants_known.1.1 claimants_known.1.2
  obtain ⟨sVW, hokVW, -, -, -, -, hsVW⟩ := processClaim_rebound (sampleEnv 0) hhV (claimOf 4 4 [1]).2
    (hnV ▸ claimants_known.2.1) (hmV ▸ claimants_known.2.2)
  obtain ⟨sW, hokW, hhW, hnW, hmW, hcW, hsW⟩ := processClaim_rebound (sampleEnv 0) sampleTable_hears
    (claimOf 4 4 [1]).2 claimants_known.2.1 claimants_known.2.2
  obtain ⟨sWV, hokWV, -, -, -, -, hsWV⟩ := processClaim_rebound (sampleEnv 0) hhW (claimOf 3 5 []).2
    (hnW ▸ claimants_known.1.1) (hmW ▸ claimants_known.1.2)
  refine ⟨sVW, sWV, ?_, ?_, ?_, ?_⟩
  · exact processClaims_pair hokV hokVW
  · exact processClaims_pair hokW hokWV
  · simp [hsVW, hsV, hslot, hcV, hV, claimOf]
  · simp [hsWV, hsW, hslot, hV, claimOf]

end RedisZk.Cluster
