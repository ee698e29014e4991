/-
# Commands that are all or nothing

XACK, XDEL and XCLAIM from their arguments: an error leaves everything as it was, and otherwise
every listed ID is processed. XDEL and XCLAIM look at all the arguments before they change
anything. XACK does not: it acknowledges the IDs before one that is invalid, and then replies
with an error.

Key definitions: `AllOrNothing`, `Acked`, `Deleted`, `ClaimedAll`, `NothingLost`.
Key theorems: `xackCommand_iff`, `xdelCommand_iff`, `xclaimCommand_all`, `all_or_nothing_iff`, `xack_half_done`.
-/
import Mathlib
import RedisZk.Streams.Arguments
import RedisZk.Streams.Claims

namespace RedisZk.Streams

open Function Stepwise

/-! ### Runs -/

/-- XSETID leaves the groups alone. -/
theorem edit_sound {key key' : Option GroupedStream} {e : Edit} (h : AllSound key) (he : edit key e = some key') :
    AllSound key' := by
  cases e with
  | event e =>
    have hnext : next key e = some key' := he
    unfold next at hnext
    split at hnext
    · rename_i key'' ps hok
      cases hnext
      exact (occur_spec h e).ok hok
    · cases hnext
  | xsetid id =>
    cases hset : xsetidCommand key id with
    | error e =>
      simp only [edit, hset] at he
      cases he
    | ok key'' =>
      simp only [edit, hset] at he
      cases he
      unfold xsetidCommand at hset
      split at hset
      · rename_i s id
        split at hset
        · obtain ⟨maxid, -, hset⟩ := bind_eq_ok hset
          cases maxid with
          | none => cases hset
          | some maxid =>
            dsimp only at hset
            cases hset
            split
            · exact h
            · exact h.entries { s.toStream with last_id := id }
        · cases hset
          exact h.entries { s.toStream with last_id := id }
      · cases hset
        exact h

/-- In every run every group is sound. -/
theorem run_sound {key : Option GroupedStream} (hrun : EditRun key) : AllSound key := by
  refine hrun.invariant (I := AllSound) (fun s hs => hs ▸ nofun) ?_
  rintro key e key' - h ⟨hedit, -⟩
  exact edit_sound h hedit

namespace Arguments

open Networking (string2ll)

/-! ### What a command should do -/

/-- The command ends, with an error and nothing changed, or without one and all done. -/
def AllOrNothing (key : Option Object) (r : Except Abort (Option Object × Reply)) (Done : Option Object → Prop) : Prop :=
  ∃ key' reply, r = .ok (key', reply) ∧ ((reply.IsError ∧ key' = key) ∨ (¬ reply.IsError ∧ Done key'))

/-- The groups but one are as they were, and so are the entries. -/
def SameBut (group : Sds) (s s' : GroupedStream) : Prop :=
  s'.toStream = s.toStream ∧ ∀ name, name ≠ group → s'.cgroups.find name = s.cgroups.find name

/-- Every listed ID is acknowledged: it is not pending in the group any more, and the others are pending as before. -/
def Acked (group : Sds) (argv : List Sds) (key key' : Option Object) : Prop :=
  ∀ s g, key = some (.stream s) → s.cgroups.find group = some g →
    (∀ arg ∈ argv, streamParseStrictID arg ≠ none) ∧
    ∃ s' g', key' = some (.stream s') ∧ SameBut group s s' ∧ s'.cgroups.find group = some g' ∧ g'.last_id = g.last_id ∧
      g'.owners = fun id => if some id ∈ argv.map streamParseStrictID then none else g.owners id

/-- Every listed ID is deleted. -/
def Deleted (argv : List Sds) (key key' : Option Object) : Prop :=
  ∀ s, key = some (.stream s) → ∀ ns, Represents s.toStream ns →
    (∀ arg ∈ argv, streamParseStrictID arg ≠ none) ∧
    ∃ s' ns', key' = some (.stream s') ∧ s'.cgroups = s.cgroups ∧ s'.last_id = s.last_id ∧ Represents s'.toStream ns' ∧
      content ns' = (content ns).filter fun e => some e.id ∉ argv.map streamParseStrictID

/-- Every listed ID that can be claimed belongs to the consumer, and the others to whom they did. -/
def ClaimedAll (now : ℤ) (group consumer minidle : Sds) (argv : List Sds) (key key' : Option Object) : Prop :=
  ∃ s g m o s' g', key = some (.stream s) ∧ s.cgroups.find group = some g ∧ string2ll minidle = some m ∧
    parseOptions now { minidle := if m < 0 then 0 else m } (claimOptions argv) = .ok o ∧ key' = some (.stream s') ∧
    SameBut group s s' ∧ s'.cgroups.find group = some g' ∧ g'.last_id = max g.last_id o.last_id ∧
    (∀ id, g'.owners id = g.owners id ∨ (id ∈ claimIDs argv ∧ g'.owners id = some consumer)) ∧
    ∀ id ∈ claimIDs argv, ∀ ns, Represents s.toStream ns → Claimable ns now o g id → g'.owners id = some consumer

/-- No ID that stands before an invalid one is pending in the group. -/
def NothingLost (group : Sds) (argv : List Sds) (key : Option Object) : Prop :=
  ∀ s g, key = some (.stream s) → s.cgroups.find group = some g →
    (∀ arg ∈ argv, streamParseStrictID arg ≠ none) ∨
      ∀ id ∈ leadingIDs (argv.map streamParseStrictID), g.pel.find id = none

/-- The deletions make no listpack too long, if the arguments are all IDs. -/
def DeletionsFit (argv : List Sds) (key : Option Object) : Prop :=
  ∀ s ns, key = some (.stream s) → Represents s.toStream ns → (∀ arg ∈ argv, streamParseStrictID arg ≠ none) →
    DeletesFit (argv.filterMap streamParseStrictID) ns

/-! ### XACK -/

section Commands

variable {key : Option Object} {s : GroupedStream} {g : StreamCG} {group : Sds} {argv : List Sds} {id : StreamID}

theorem mem_leadingIDs (hall : ∀ arg ∈ argv, streamParseStrictID arg ≠ none) :
    id ∈ leadingIDs (argv.map streamParseStrictID) ↔ some id ∈ argv.map streamParseStrictID := by
  have htake : (argv.map streamParseStrictID).takeWhile Option.isSome = argv.map streamParseStrictID := by
    refine List.takeWhile_eq_self_iff.mpr fun o ho => ?_
    obtain ⟨arg, harg, rfl⟩ := List.mem_map.mp ho
    exact Option.isSome_iff_ne_none.mpr (hall arg harg)
  rw [leadingIDs, htake, List.mem_filterMap]
  constructor
  · rintro ⟨o, ho, heq⟩
    exact heq ▸ ho
  · intro h
    exact ⟨some id, h, rfl⟩

/-- The loop of XACK, until an argument that is no ID. -/
theorem ackLoop_spec : ∀ (argv : List Sds) (k : ℕ) {g : StreamCG}, Sound g → ∃ g' reply,
    ackLoop g k argv = .ok (g', reply) ∧ Sound g' ∧ g'.last_id = g.last_id ∧
      g'.owners = (fun id => if id ∈ leadingIDs (argv.map streamParseStrictID) then none else g.owners id) ∧
      (reply.IsError ↔ ∃ arg ∈ argv, streamParseStrictID arg = none) ∧
      ((∀ id ∈ leadingIDs (argv.map streamParseStrictID), g.pel.find id = none) → g' = g)
  | [], k, g, h => ⟨g, .integer k, rfl, h, rfl, by simp [leadingIDs], by simp [Reply.IsError], fun _ => rfl⟩
  | arg :: argv, k, g, h => by
    rw [ackLoop, List.map_cons]
    cases harg : streamParseStrictID arg with
    | none => exact ⟨g, .error invalidID, rfl, h, rfl, by simp [leadingIDs], by simp [Reply.IsError, harg], fun _ => rfl⟩
    | some id =>
      have hlead : leadingIDs (some id :: argv.map streamParseStrictID) =
          id :: leadingIDs (argv.map streamParseStrictID) := by simp [leadingIDs]
      obtain ⟨g1, hack, hsound1, howners1, hlast1⟩ := ackEntry_spec h id
      obtain ⟨g2, reply, hloop, hsound2, hlast2, howners2, herror, hsame⟩ :=
        ackLoop_spec argv (k + (g.owners id).isSome.toNat) hsound1
      dsimp only
      rw [hack, ok_bind, hlead]
      refine ⟨g2, reply, hloop, hsound2, hlast2.trans hlast1, ?_, ?_, ?_⟩
      · funext id'
        rw [howners2, howners1]
        simp only [List.mem_cons, update_apply]
        by_cases hmem : id' ∈ leadingIDs (argv.map streamParseStrictID)
        · simp [hmem]
        · by_cases hid : id' = id
          · simp [hid]
          · simp [hmem, hid]
      · rw [herror]
        simp [harg]
      · intro hnone
        have hfree : ackEntry g id = .ok (g, false) := by
          rw [ackEntry, hnone id List.mem_cons_self]
        rw [hack, Except.ok.injEq, Prod.mk.injEq] at hfree
        rw [hfree.1] at hsame
        exact hsame fun id' hid' => hnone id' (List.mem_cons_of_mem _ hid')

theorem setGroup_same (hg : s.cgroups.find group = some g) : s.setGroup group g = s := by
  rw [GroupedStream.setGroup, SortedMap.insert_of_find hg]

theorem sameBut_setGroup (g : StreamCG) : SameBut group s (s.setGroup group g) := by
  refine ⟨rfl, fun name hname => ?_⟩
  rw [GroupedStream.setGroup, SortedMap.find_insert, if_neg hname]

theorem find_setGroup (g : StreamCG) : (s.setGroup group g).cgroups.find group = some g := SortedMap.find_insert_self ..

/-- XACK is all or nothing exactly if it loses nothing. -/
theorem xackCommand_iff (hsound : ∀ s, key = some (.stream s) → AllSound (some s)) (group : Sds) (argv : List Sds) :
    AllOrNothing key (xackCommand key group argv) (Acked group argv key) ↔ NothingLost group argv key := by
  cases key with
  | none => exact ⟨fun _ => nofun, fun _ => ⟨_, _, rfl, .inr ⟨id, nofun⟩⟩⟩
  | some object =>
    cases object with
    | other => exact ⟨fun _ => nofun, fun _ => ⟨_, _, rfl, .inl ⟨trivial, rfl⟩⟩⟩
    | stream s =>
      cases hg : s.cgroups.find group with
      | none =>
        have hcommand : xackCommand (some (.stream s)) group argv = .ok (some (.stream s), .integer 0) := by
          simp only [xackCommand, hg]
        rw [hcommand]
        have hno : ∀ s' g, some (Object.stream s) = some (.stream s') → s'.cgroups.find group ≠ some g := by
          intro s' g hs' hg'
          cases hs'
          rw [hg] at hg'
          cases hg'
        exact ⟨fun _ s' g hs' hg' => absurd hg' (hno s' g hs'),
          fun _ => ⟨_, _, rfl, .inr ⟨id, fun s' g hs' hg' => absurd hg' (hno s' g hs')⟩⟩⟩
      | some g =>
        have hgsound : Sound g := hsound s rfl s rfl group g hg
        obtain ⟨g', reply, hloop, -, hlast, howners, herror, hsame⟩ := ackLoop_spec argv 0 hgsound
        have hcommand : xackCommand (some (.stream s)) group argv = .ok (some (.stream (s.setGroup group g')), reply) := by
          simp only [xackCommand, hg, hloop, bind, Except.bind]
        rw [hcommand]
        have hdone : (∀ arg ∈ argv, streamParseStrictID arg ≠ none) →
            Acked group argv (some (.stream s)) (some (.stream (s.setGroup group g'))) := by
          intro hall s1 g1 hs1 hg1
          cases hs1
          rw [hg] at hg1
          cases hg1
          refine ⟨hall, _, g', rfl, sameBut_setGroup g', find_setGroup g', hlast, ?_⟩
          rw [howners]
          funext id
          simp only [mem_leadingIDs hall]
        constructor
        · rintro ⟨key', reply', heq, hcases⟩ s1 g1 hs1 hg1
          cases hs1
          rw [hg] at hg1
          cases hg1
          cases heq
          rcases hcases with ⟨-, hkey⟩ | ⟨hno, hacked⟩
          · refine .inr fun id hid => ?_
            have hback : g' = g := by
              have hfind : (s.setGroup group g').cgroups.find group = some g' := find_setGroup g'
              rw [Object.stream.inj (Option.some.inj hkey), hg] at hfind
              exact (Option.some.inj hfind).symm
            rw [← hgsound.owners_none_iff, ← hback, howners]
            exact if_pos hid
          · exact .inl (hacked s g rfl hg).1
        · intro hlost
          refine ⟨_, _, rfl, ?_⟩
          by_cases hall : ∀ arg ∈ argv, streamParseStrictID arg ≠ none
          · exact .inr ⟨fun he => by
              obtain ⟨arg, harg, hnone⟩ := herror.mp he
              exact hall arg harg hnone, hdone hall⟩
          · have hnone := (hlost s g rfl hg).resolve_left hall
            push Not at hall
            rw [hsame hnone, setGroup_same hg]
            exact .inl ⟨herror.mpr hall, rfl⟩

/-! ### XDEL -/

theorem all_valid : (argv.map streamParseStrictID).all Option.isSome = true ↔ ∀ arg ∈ argv, streamParseStrictID arg ≠ none := by
  rw [List.all_eq_true]
  constructor
  · intro h arg harg
    exact Option.isSome_iff_ne_none.mp (h _ (List.mem_map_of_mem harg))
  · intro h o ho
    obtain ⟨arg, harg, rfl⟩ := List.mem_map.mp ho
    exact Option.isSome_iff_ne_none.mpr (h arg harg)

/-- XDEL is all or nothing exactly if the listpacks take the marks. -/
theorem xdelCommand_iff (hrep : ∀ s, key = some (.stream s) → Represented s.toStream) (argv : List Sds) :
    AllOrNothing key (xdelCommand key argv) (Deleted argv key) ↔ DeletionsFit argv key := by
  cases key with
  | none => exact ⟨fun _ => nofun, fun _ => ⟨_, _, rfl, .inr ⟨id, nofun⟩⟩⟩
  | some object =>
    cases object with
    | other => exact ⟨fun _ => nofun, fun _ => ⟨_, _, rfl, .inl ⟨trivial, rfl⟩⟩⟩
    | stream s =>
      obtain ⟨ns, hns⟩ := hrep s rfl
      rw [xdelCommand]
      by_cases hall : ∀ arg ∈ argv, streamParseStrictID arg ≠ none
      · rw [if_pos (all_valid.mpr hall)]
        constructor
        · rintro ⟨key', reply, heq, -⟩ s1 ns1 hs1 hns1 -
          cases hs1
          by_contra hfits
          rw [(deleteEntries_spec _ hns1).2 hfits] at heq
          cases heq
        · intro hfits
          have hmem : ∀ id, id ∈ argv.filterMap streamParseStrictID ↔ some id ∈ argv.map streamParseStrictID := by
            intro id
            rw [List.mem_filterMap, List.mem_map]
          obtain ⟨s', deleted, ns', hdel, hrep', hlast, hcontent⟩ :=
            (deleteEntries_spec _ hns).1 (hfits s ns rfl hns hall)
          rw [hdel]
          refine ⟨_, _, rfl, .inr ⟨id, fun s1 hs1 ns1 hns1 => ?_⟩⟩
          cases hs1
          obtain ⟨s2, deleted2, ns2, hdel2, hrep2, -, hcontent2⟩ :=
            (deleteEntries_spec _ hns1).1 (hfits s ns1 rfl hns1 hall)
          rw [hdel] at hdel2
          cases hdel2
          refine ⟨hall, _, ns2, rfl, rfl, hlast, hrep2, ?_⟩
          rw [hcontent2]
          simp only [hmem]
      · rw [if_neg (mt all_valid.mp hall)]
        refine ⟨fun _ s1 ns1 hs1 _ hall1 => absurd hall1 hall, fun _ => ⟨_, _, rfl, .inl ⟨trivial, rfl⟩⟩⟩

/-! ### XCLAIM -/

/-- The elements of the reply are found. -/
theorem claimReply_spec {s : Stream} {ns : List Node} (h : Represents s ns) (justid : Bool) :
    ∀ ps : List Synthetic, ∃ eles, claimReply s justid ps = .ok eles
  | [] => ⟨[], rfl⟩
  | .setid _ _ :: ps => claimReply_spec h justid ps
  | .xclaim _ _ id _ _ _ :: ps => by
    obtain ⟨eles, heles⟩ := claimReply_spec h justid ps
    rw [claimReply, heles]
    cases justid with
    | true => exact ⟨_, rfl⟩
    | false =>
      rw [if_neg (by simp), streamRange_spec h]
      dsimp only [ofStream, Except.mapError]
      rw [ok_bind]
      split
      · exact ⟨_, rfl⟩
      · exact ⟨_, rfl⟩

/-- XCLAIM is all or nothing. -/
theorem xclaimCommand_all (hrun : ∀ s, key = some (.stream s) → EditRun (some s)) (now : ℤ)
    (name group consumer minidle : Sds) (argv : List Sds) :
    AllOrNothing key (xclaimCommand now key name group consumer minidle argv)
      (ClaimedAll now group consumer minidle argv key) := by
  have herror : ∀ text, AllOrNothing key (.ok (key, .error text)) (ClaimedAll now group consumer minidle argv key) :=
    fun text => ⟨_, _, rfl, .inl ⟨trivial, rfl⟩⟩
  unfold xclaimCommand
  split
  · exact herror _
  · exact herror _
  · rename_i s
    split
    · exact herror _
    · rename_i g hg
      split
      · exact herror _
      · rename_i m hm
        split
        · exact herror _
        · rename_i o ho
          have hminidle : string2ll minidle = some m := by
            unfold getLongLongFromObjectOrReply at hm
            split at hm
            · cases hm
            · rename_i v hv
              cases hm
              exact hv
          obtain ⟨ns, hns⟩ := run_represented (hrun s rfl) s rfl
          have hsound : Sound g := run_sound (hrun s rfl) s rfl group g hg
          obtain ⟨g1, hg1⟩ : ∃ g1, g1 = if streamCompareID o.last_id g.last_id = .gt then { g with last_id := o.last_id } else g :=
            ⟨_, rfl⟩
          have hlast1 : g1.last_id = max g.last_id o.last_id := by
            rw [hg1]
            split
            · rename_i hgt
              exact (max_eq_right (streamCompareID_gt.mp hgt).le).symm
            · rename_i hle
              exact (max_eq_left (not_lt.mp (mt streamCompareID_gt.mpr hle))).symm
          have hsame : g1.pel = g.pel ∧ g1.nacks = g.nacks ∧ g1.owners = g.owners ∧ Sound g1 := by
            rw [hg1]
            split
            · exact ⟨rfl, rfl, rfl, hsound.last_id _⟩
            · exact ⟨rfl, rfl, rfl, hsound⟩
          obtain ⟨hpel, hnacks, howners, hsound1⟩ := hsame
          obtain ⟨g2, ps, hclaims, -, hlast2, hothers, -⟩ := @claimEntries_done s.toStream ns consumer hns group now
            (sanitize now o) (claimIDs argv) g1 none hsound1 nofun
          obtain ⟨eles, heles⟩ := claimReply_spec hns o.justid ps
          rw [← hg1]
          dsimp only
          rw [hclaims, ok_bind]
          dsimp only
          rw [heles]
          refine ⟨_, _, rfl, .inr ⟨id, s, g, m, o, _, g2, rfl, hg, hminidle, ho, rfl, sameBut_setGroup g2, find_setGroup g2,
            hlast2.trans hlast1, ?_, ?_⟩⟩
          · intro id
            rw [← howners]
            exact hothers id
          · intro id hid ns' hns' hyes
            obtain ⟨g3, ps3, hclaims3, -, -, -, hdone3⟩ := @claimEntries_done s.toStream ns' consumer hns' group now
              (sanitize now o) (claimIDs argv) g1 none hsound1 nofun
            rw [hclaims] at hclaims3
            cases hclaims3
            refine hdone3 id hid ?_
            have hforce : (sanitize now o).force = o.force := by
              unfold sanitize
              split <;> rfl
            have hidle : (sanitize now o).minidle = o.minidle := by
              unfold sanitize
              split <;> rfl
            rw [Claimable, hpel, hnacks, hforce, hidle]
            exact hyes

/-! ### The three commands -/

/-- **When the commands are all or nothing**: XCLAIM always, XDEL if the listpacks take the marks, XACK exactly
if no ID before an invalid one is pending. -/
theorem all_or_nothing_iff (hrun : ∀ s, key = some (.stream s) → EditRun (some s)) (group : Sds) (argv : List Sds) :
    (AllOrNothing key (xackCommand key group argv) (Acked group argv key) ↔ NothingLost group argv key) ∧
    (AllOrNothing key (xdelCommand key argv) (Deleted argv key) ↔ DeletionsFit argv key) ∧
    ∀ now name consumer minidle, AllOrNothing key (xclaimCommand now key name group consumer minidle argv)
      (ClaimedAll now group consumer minidle argv key) :=
  ⟨xackCommand_iff (fun s hs => run_sound (hrun s hs)) group argv,
    xdelCommand_iff (fun s hs => run_represented (hrun s hs) s rfl) argv,
    fun now name consumer minidle => xclaimCommand_all hrun now name group consumer minidle argv⟩

end Commands

/-- An entry of the group `g` that was read, and is pending. -/
theorem pending_reached : ∃ s g, EditRun (some s) ∧ s.cgroups.find [103] = some g ∧ g.pel.find ⟨1, 0⟩ ≠ none := by
  let lim : NodeLimits := ⟨4096, 100⟩
  let test : Option GroupedStream → Bool := fun key =>
    key.any fun s => (s.cgroups.find [103]).any fun g => (g.pel.find ⟨1, 0⟩).isSome
  obtain ⟨key, hrun, htest⟩ := Run.replay (fun _ _ _ _ => trivial)
    [.event (.command lim 0 (.xadd [] (some ⟨1, 0⟩) [([102], [118])])),
      .event (.command lim 0 (.xgroupCreate [103] (.id ⟨0, 0⟩) false)),
      .event (.command lim 0 (.xreadgroup [103] [97] false 0 none))] (.start rfl : EditRun none)
    (show replay edit (fun _ _ _ => true) test none _ = true by decide)
  obtain ⟨s, rfl, hs⟩ := (Option.any_eq_true _ _).mp htest
  obtain ⟨g, hg, hpel⟩ := (Option.any_eq_true _ _).mp hs
  exact ⟨s, g, hrun, hg, Option.isSome_iff_ne_none.mp hpel⟩

/-- `XACK s g 1-0 x`: the error comes after 1-0 was acknowledged. -/
theorem xack_half_done : ∃ s, EditRun (some s) ∧
    ¬ AllOrNothing (some (.stream s)) (xackCommand (some (.stream s)) [103] [[49, 45, 48], [120]])
      (Acked [103] [[49, 45, 48], [120]] (some (.stream s))) := by
  obtain ⟨s, g, hrun, hg, hpending⟩ := pending_reached
  refine ⟨s, hrun, ?_⟩
  rw [xackCommand_iff fun s' hs' => by
    cases hs'
    exact run_sound hrun]
  intro hlost
  have hids : [[49, 45, 48], [120]].map streamParseStrictID = [some ⟨1, 0⟩, none] := by decide
  rcases hlost s g rfl hg with hall | hnone
  · exact hall [120] (by simp) (by decide)
  · rw [hids] at hnone
    exact hpending (hnone ⟨1, 0⟩ (by decide))

/-- `XACK s g 1-0`, of one that is pending. -/
theorem all_or_nothing_iff_pending : ∃ s, EditRun (some s) ∧
    AllOrNothing (some (.stream s)) (xackCommand (some (.stream s)) [103] [[49, 45, 48]])
      (Acked [103] [[49, 45, 48]] (some (.stream s))) := by
  obtain ⟨s, g, hrun, hg, hpending⟩ := pending_reached
  have hrun' : ∀ s', some (Object.stream s) = some (.stream s') → EditRun (some s') := by
    intro s' hs'
    cases hs'
    exact hrun
  refine ⟨s, hrun, (all_or_nothing_iff hrun' [103] [[49, 45, 48]]).1.mpr fun s' g' _ _ => .inl ?_⟩
  decide

end Arguments
end RedisZk.Streams
