/-
# Every stream holds entries

The commands of `Commands`, and XSETID, which may set the last ID back to that of the last live
entry. In every run the radix tree of the stream holds the listpacks of some nodes, as
`Represents` says: the groups change no entry, an addition, a deletion and a trimming do what
their lemmas say, and XSETID leaves the last ID at or behind every live entry.

Key definitions: `xsetidCommand`, `Edit`, `EditRun`.
Key theorems: `xsetidCommand_spec`, `occur_represented`, `run_represented`.
-/
import RedisZk.Streams.Deletes

namespace RedisZk.Streams

open Stepwise

/-! ### XSETID -/

/-- The ID is `none` if it is no ID. -/
def xsetidCommand (key : Option GroupedStream) (id : Option StreamID) : Except Abort (Option GroupedStream) :=
  match key, id with
  | some s, some id => do
    if s.length > 0 then
      match ← ofStream (streamLastValidID s.toStream) with
      | none => .error (.stream .null) -- `maxid` is read unset
      | some maxid => .ok (some (if streamCompareID id maxid = .lt then s else { s with last_id := id }))
    else .ok (some { s with last_id := id })
  | key, _ => .ok key

/-- An event of `Commands`, or XSETID. -/
inductive Edit
  | event (e : Event)
  | xsetid (id : Option StreamID)

/-- The object at the key after an event; `none` if the server stops. -/
def edit (key : Option GroupedStream) : Edit → Option (Option GroupedStream)
  | .event e => next key e
  | .xsetid id =>
    match xsetidCommand key id with
    | .ok key' => some key'
    | .error _ => none

/-- The states of the key, from none on. -/
abbrev EditRun : Option GroupedStream → Prop := Run (· = none) (Steps edit fun _ _ _ => True)

/-! ### What every command leaves -/

/-- The stream holds the listpacks of some nodes. -/
def Represented (s : Stream) : Prop := ∃ ns, Represents s ns

/-- If there is a stream, it does. -/
def KeyRepresented (key : Option GroupedStream) : Prop := ∀ s, key = some s → Represented s.toStream

theorem represents_streamNew : Represents streamNew [] :=
  ⟨rfl, rfl, nofun, .nil, nofun⟩

theorem KeyRepresented.getD {key : Option GroupedStream} (h : KeyRepresented key) : Represented (key.getD {}).toStream := by
  cases key with
  | none => exact ⟨[], represents_streamNew⟩
  | some s => exact h s rfl

theorem keyRepresented_some {s : GroupedStream} : KeyRepresented (some s) ↔ Represented s.toStream :=
  ⟨fun h => h s rfl, fun h _ hs => Option.some.inj hs ▸ h⟩

/-- The ways a command stops: a listpack that would be too long. -/
def IsTooLong : Abort → Prop
  | .stream e => TooLong e
  | _ => False

theorem ofStream_within {α : Type} {Q : α → Prop} {r : Except LpAbort α} (h : Within Q TooLong r) :
    Within Q IsTooLong (ofStream r) := by
  cases r with
  | ok a => exact h
  | error e => exact h

theorem streamTrimByLength_within {s : Stream} (h : Represented s) (maxlen : ℕ) (approx : Bool) :
    Within (fun r => Represented r.1) TooLong (streamTrimByLength s maxlen approx) := by
  obtain ⟨ns, h⟩ := h
  obtain ⟨hyes, hno⟩ := streamTrimByLength_spec h maxlen approx
  by_cases hfits : TrimFits maxlen approx ns
  · obtain ⟨s', htrim, hrep, -⟩ := hyes hfits
    rw [htrim]
    exact ⟨_, hrep⟩
  · rw [hno hfits]
    exact rfl

section Commands

variable {key : Option GroupedStream}

theorem trim_within {s : GroupedStream} (h : Represented s.toStream) (o : Maxlen) :
    Within (fun r => Represented r.1.toStream) IsTooLong (trim s o) := by
  unfold trim
  refine Within.bind (ofStream_within (streamTrimByLength_within h o.count.toNat o.approx)) ?_
  rintro ⟨s', deleted⟩ hs'
  exact hs'

theorem streamAppendItem_within {s : Stream} (h : Represented s) (lim : NodeLimits) (ms : U64) (argv : List (Sds × Sds))
    (use_id : Option StreamID) :
    Within (fun r => ∀ s' id, r = some (s', id) → Represented s') TooLong (streamAppendItem lim ms s argv use_id) := by
  obtain ⟨ns, h⟩ := h
  by_cases hid : s.last_id < use_id.getD (streamNextID ms s.last_id)
  · refine Within.mono (streamAppendItem_spec h lim ms argv hid) ?_ fun _ h => h
    rintro r ⟨s', ns', hr, hrep, -, -⟩ s'' id hs''
    rw [hr, Option.some.injEq, Prod.mk.injEq] at hs''
    rw [← hs''.1]
    exact ⟨ns', hrep⟩
  · rw [streamAppendItem_refused lim ms s argv hid]
    exact nofun

theorem xaddCommand_within (h : KeyRepresented key) (lim : NodeLimits) (now : ℤ) (opts : List Maxlen) (id : Option StreamID)
    (fields : List (Sds × Sds)) :
    Within (fun r => KeyRepresented r.1) IsTooLong (xaddCommand lim now key opts id fields) := by
  unfold xaddCommand
  split
  · exact h
  · split
    · exact h
    · dsimp only
      split
      · exact keyRepresented_some.mpr h.getD
      · refine Within.bind (ofStream_within (streamAppendItem_within h.getD lim (toUInt64 now) fields id)) ?_
        intro r hr
        split
        · exact keyRepresented_some.mpr h.getD
        · rename_i s' added
          have hs' := hr s' added rfl
          split
          · exact keyRepresented_some.mpr hs'
          · refine Within.bind (trim_within (s := { key.getD {} with toStream := s' }) hs' _) ?_
            rintro ⟨s'', deleted⟩ hs''
            exact keyRepresented_some.mpr hs''

theorem xtrimCommand_within (h : KeyRepresented key) (opts : List Maxlen) :
    Within (fun r => KeyRepresented r.1) IsTooLong (xtrimCommand key opts) := by
  unfold xtrimCommand
  split
  · exact h
  · rename_i s
    split
    · exact h
    · exact h
    · refine Within.bind (trim_within (h s rfl) _) ?_
      rintro ⟨s', deleted⟩ hs'
      exact keyRepresented_some.mpr hs'

theorem deleteEntries_within (ids : List StreamID) {s : Stream} (h : Represented s) :
    Within (fun r => Represented r.1) TooLong (deleteEntries s ids) := by
  obtain ⟨ns, h⟩ := h
  obtain ⟨hyes, hno⟩ := deleteEntries_spec ids h
  by_cases hfits : DeletesFit ids ns
  · obtain ⟨s', deleted, ns', hdel, hrep, -⟩ := hyes hfits
    rw [hdel]
    exact ⟨ns', hrep⟩
  · rw [hno hfits]
    exact rfl

theorem xdelCommand_within (h : KeyRepresented key) (ids : List (Option StreamID)) :
    Within (fun r => KeyRepresented r.1) IsTooLong (xdelCommand key ids) := by
  unfold xdelCommand
  split
  · exact h
  · rename_i s
    split
    · refine Within.bind (ofStream_within (deleteEntries_within _ (h s rfl))) ?_
      rintro ⟨s', deleted⟩ hs'
      exact keyRepresented_some.mpr hs'
    · exact h

variable {r : Option GroupedStream × List Command}

/-- A command on a group leaves the entries alone. -/
theorem withGroup_stream {group : Sds} {f : GroupedStream → StreamCG → Except Abort (StreamCG × List Command)} (h : KeyRepresented key)
    (hr : withGroup key group f = .ok r) : KeyRepresented r.1 := by
  unfold withGroup at hr
  split at hr
  · cases hr
    exact h
  · rename_i s
    split at hr
    · cases hr
      exact h
    · rename_i g _
      cases hf : f s g with
      | error e =>
        rw [hf] at hr
        cases hr
      | ok a =>
        rw [hf] at hr
        cases hr
        exact keyRepresented_some.mpr (h s rfl)

theorem xgroupCreateCommand_stream {group : Sds} {id : IdArg} {mkstream : Bool} (h : KeyRepresented key)
    (hr : xgroupCreateCommand key group id mkstream = .ok r) :
    KeyRepresented r.1 := by
  unfold xgroupCreateCommand at hr
  split at hr
  · cases hr
    exact h
  · dsimp only at hr
    split at hr
    · cases hr
      exact h
    · split at hr
      · cases hr
        exact keyRepresented_some.mpr h.getD
      · rename_i i _ _ s' hs'
        cases hr
        unfold streamCreateCG at hs'
        split at hs'
        · cases hs'
        · rw [← Option.some.inj hs']
          exact keyRepresented_some.mpr h.getD

theorem xgroupDestroyCommand_stream {group : Sds} (h : KeyRepresented key)
    (hr : xgroupDestroyCommand key group = .ok r) : KeyRepresented r.1 := by
  unfold xgroupDestroyCommand at hr
  split at hr
  · cases hr
    exact h
  · rename_i s
    split at hr
    · cases hr
      exact h
    · cases hr
      exact keyRepresented_some.mpr (h s rfl)

/-- Every command keeps the entries in order. -/
theorem occur_represented (h : KeyRepresented key) {e : Event}
    (hr : occur key e = .ok r) : KeyRepresented r.1 := by
  cases e with
  | blocked now group consumer noack count => exact withGroup_stream h hr
  | command lim now c =>
    cases c with
    | xadd opts id fields => exact (xaddCommand_within h lim now opts id fields).ok hr
    | xtrim opts => exact (xtrimCommand_within h opts).ok hr
    | xdel ids => exact (xdelCommand_within h ids).ok hr
    | xgroupCreate group id mkstream => exact xgroupCreateCommand_stream h hr
    | xgroupDestroy group => exact xgroupDestroyCommand_stream h hr
    | xgroupSetid group id => exact withGroup_stream h hr
    | xgroupDelconsumer group consumer => exact withGroup_stream h hr
    | xack group ids => exact withGroup_stream h hr
    | xreadgroup group consumer noack count id => exact withGroup_stream h hr
    | xclaim group consumer minidle ids opts => exact withGroup_stream h hr

/-- XSETID is refused below the last live entry, and nothing else stops it. -/
theorem xsetidCommand_spec {s : GroupedStream} {ns : List Node} (h : Represents s.toStream ns) (id : StreamID) :
    xsetidCommand (some s) (some id) =
      .ok (some (if ∀ e ∈ content ns, e.id ≤ id then { s with last_id := id } else s)) := by
  have hlen := h.length_eq
  have hsorted := h.sorted
  unfold xsetidCommand
  dsimp only
  rw [streamLastValidID_spec h]
  rcases List.eq_nil_or_concat (content ns) with hnil | ⟨es, e, hes⟩
  · rw [hnil, List.length_nil] at hlen
    rw [if_neg (by omega), hnil, if_pos nofun]
  · rw [List.concat_eq_append] at hes
    rw [hes, List.length_append, List.length_singleton] at hlen
    rw [if_pos (by omega), hes, List.getLast?_concat]
    have hlt : streamCompareID id e.id = .lt ↔ id < e.id := by
      rw [StreamID.lt_iff, StreamID.num, StreamID.num]
      have ha := id.seq.isLt
      have hb := e.id.seq.isLt
      unfold streamCompareID
      simp only [gt_iff_lt, Fin.lt_def]
      split_ifs <;> simp <;> omega
    show Except.ok (some (if streamCompareID id e.id = .lt then s else { s with last_id := id })) = _
    by_cases hid : id < e.id
    · rw [if_pos (hlt.mpr hid), if_neg]
      intro hall
      exact absurd (hall e (by simp)) hid.not_ge
    · rw [if_neg (mt hlt.mp hid), if_pos]
      intro x hx
      rw [hes] at hsorted
      rcases List.mem_append.mp hx with hx | hx
      · exact ((List.pairwise_append.mp hsorted).2.2 x hx e List.mem_cons_self).le.trans (not_lt.mp hid)
      · rw [List.mem_singleton.mp hx]
        exact not_lt.mp hid

/-- The last ID may be set to any that is not before a live entry. -/
theorem Represents.setid {s : Stream} {ns : List Node} (h : Represents s ns) {id : StreamID}
    (hid : ∀ e ∈ content ns, e.id ≤ id) : Represents { s with last_id := id } ns :=
  ⟨h.rax, h.length, h.ok, h.before, fun n hn e he => hid e (mem_content.mpr ⟨n, hn, he⟩)⟩

theorem edit_represented (h : KeyRepresented key) {e : Edit} {key' : Option GroupedStream} (he : edit key e = some key') :
    KeyRepresented key' := by
  cases e with
  | event e =>
    have hnext : next key e = some key' := he
    unfold next at hnext
    split at hnext
    · rename_i key'' ps hok
      cases hnext
      exact occur_represented h hok
    · cases hnext
  | xsetid id =>
    cases key with
    | none =>
      cases he
      exact h
    | some s =>
      cases id with
      | none =>
        cases he
        exact h
      | some id =>
        obtain ⟨ns, hrep⟩ := h s rfl
        simp only [edit, xsetidCommand_spec hrep id] at he
        cases he
        split
        · rename_i hall
          exact keyRepresented_some.mpr ⟨ns, hrep.setid hall⟩
        · exact h

/-- **In every run the stream holds its entries in order**, in nodes that are never without a live one. -/
theorem run_represented (hrun : EditRun key) : KeyRepresented key := by
  refine hrun.invariant (I := KeyRepresented) (fun s hs => hs ▸ nofun) ?_
  rintro key e key' - h ⟨hedit, -⟩
  exact edit_represented h hedit

end Commands

end RedisZk.Streams
