/-
# Deleting entries

A deletion marks the entry of its ID, and counts the mark; the node goes with its last live
entry. It succeeds exactly if the listpacks left are not too long.

Key definitions: `Node.markAt`, `Leaves`, `removed`, `DeletesFit`.
Key theorems: `removeEntry_spec`, `streamDeleteItem_spec`, `deleteEntries_spec`.
-/
import RedisZk.Streams.Commands
import RedisZk.Streams.Trim

namespace RedisZk.Streams

open Stepwise

variable {s : Stream} {ns pre post : List Node} {n : Node}

/-! ### Marking one entry -/

variable {es es' : List Entry} {e : Entry}

/-- The node with an entry marked. -/
def Node.markAt (n : Node) (es : List Entry) (e : Entry) (es' : List Entry) : Node :=
  { n with entries := es ++ e.mark :: es' }

theorem live_markAt (n : Node) (es : List Entry) (e : Entry) (es' : List Entry) :
    live (n.markAt es e es').entries = live es ++ live es' := by
  rw [Node.markAt, live_append, live_cons_deleted (e := e.mark) rfl]

theorem live_split (hsplit : n.entries = es ++ e :: es') (hd : e.deleted = false) :
    live n.entries = live es ++ e :: live es' := by
  rw [hsplit, live_append, live_cons_live hd]

theorem valid_markAt (hsplit : n.entries = es ++ e :: es') (hd : e.deleted = false) :
    (n.markAt es e es').valid + 1 = n.valid := by
  rw [Node.valid_eq, Node.valid_eq, live_markAt, live_split hsplit hd]
  simp only [List.length_append, List.length_cons]
  omega

theorem deleted_markAt (hsplit : n.entries = es ++ e :: es') (hd : e.deleted = false) :
    (n.markAt es e es').deleted = n.deleted + 1 := by
  simp only [Node.deleted, Node.markAt, hsplit, List.countP_append, List.countP_cons, hd, Entry.mark]
  simp
  omega

theorem Node.Ok.markAt (hn : n.Ok) (hsplit : n.entries = es ++ e :: es') (hd : e.deleted = false) (hmore : n.valid ≠ 1)
    (hfits : lpBytes (n.markAt es e es').eles ≤ UINT32_MAX) : (n.markAt es e es').Ok := by
  have hvalid := valid_markAt hsplit hd
  have hnonempty := hn.nonempty
  refine hn.of_sublist rfl rfl (by omega) hfits ?_ ?_
  · rw [live_markAt, live_split hsplit hd]
    exact List.Sublist.append_left (List.sublist_cons_self ..) _
  · intro x hx
    rcases List.mem_append.mp hx with hx | hx
    · exact ⟨x, by simp [hsplit, hx], rfl, rfl, rfl⟩
    · rcases List.mem_cons.mp hx with rfl | hx
      · exact ⟨e, by simp [hsplit], rfl, rfl, rfl⟩
      · exact ⟨x, by simp [hsplit, hx], rfl, rfl, rfl⟩

/-! ### The iterator -/

/-- The nodes are left, unless one of their listpacks would be too long. -/
def Leaves {α : Type} (r : Except LpAbort (Stream × α)) (last_id : StreamID) (ns : List Node) (Q : α → Prop) : Prop :=
  ((∀ n ∈ ns, lpBytes n.eles ≤ UINT32_MAX) → ∃ s' a, r = .ok (s', a) ∧ Represents s' ns ∧ s'.last_id = last_id ∧ Q a) ∧
    (¬ (∀ n ∈ ns, lpBytes n.eles ≤ UINT32_MAX) → r = .error .tooLong)

/-- The entry that the iterator is at is removed, with its node if it is the last one there. -/
theorem removeEntry_spec (h : Represents s ns) {si : StreamIterator} {L : List Entry} (hhit : Hit s ns si e L)
    (hd : e.deleted = false) (current : StreamID) : ∃ pre n post es es', ns = pre ++ n :: post ∧ n.entries = es ++ e :: es' ∧
    Leaves (streamIteratorRemoveEntry s si current) s.last_id
      (pre ++ (if n.valid = 1 then [] else [n.markAt es e es']) ++ post) fun _ => True := by
  obtain ⟨n, R, es, es', ms, hmem, hemitted, -, -⟩ := hhit
  obtain ⟨pre, post, hns⟩ := List.append_of_mem hmem
  refine ⟨pre, n, post, es, es', hns, hemitted.split, ?_⟩
  have hsplit := hemitted.split
  have hok := h.ok n hmem
  have hvalid := Node.valid_lt hok
  have hdeleted := Node.deleted_lt hok
  have hmarked := valid_markAt hsplit hd
  -- the listpack with the flag set, and its counters as they were
  have heles : n.eles = (n.header ++ es.flatMap (Entry.eles n.master)) ++ ll2string e.flags ::
      ((e.eles n.master).tail ++ es'.flatMap (Entry.eles n.master)) := Node.eles_split hsplit
  have hflags : lpGetInteger n.eles (some (n.pos es)) = .ok (e.flags : ℤ) :=
    lpGetInteger_split heles (n.pos_eq es) (.ofNat e.flags_lt)
  obtain ⟨rest, hrest⟩ : ∃ rest, n.header ++ (es ++ e.mark :: es').flatMap (Entry.eles n.master) =
      ll2string n.valid :: ll2string n.deleted :: rest := ⟨_, rfl⟩
  have hfirst : lpReplaceInteger n.eles (some (n.pos es)) (setFlag e.flags STREAM_ITEM_FLAG_DELETED) =
      .ok (ll2string n.valid :: ll2string n.deleted :: rest) := by
    have hmark : (n.header ++ es.flatMap (Entry.eles n.master)) ++ ll2string e.mark.flags ::
        ((e.eles n.master).tail ++ es'.flatMap (Entry.eles n.master)) =
          n.header ++ (es ++ e.mark :: es').flatMap (Entry.eles n.master) := by
      rw [List.flatMap_append, List.flatMap_cons, Entry.eles_mark]
      simp
    have hbytes := hok.fits
    rw [heles, ← lpBytes_mark] at hbytes
    rw [heles, lpReplaceInteger_eq _ _ _ (n.pos_eq es), Entry.setFlag_mark, lpGrown_fits hbytes, hmark, hrest]
  have hnew : (n.markAt es e es').eles = ll2string (n.valid - 1 : ℕ) :: ll2string (n.deleted + 1 : ℕ) :: rest := by
    have htail : rest = ll2string (n.names.length : ℤ) :: (n.names ++ [ll2string 0]) ++
        (es ++ e.mark :: es').flatMap (Entry.eles n.master) := by
      have := List.cons.inj (List.cons.inj hrest).2
      exact this.2.symm
    rw [Node.eles, Node.header, deleted_markAt hsplit hd, show (n.markAt es e es').valid = n.valid - 1 by omega, htail]
    rfl
  have hfits1 : lpBytes (ll2string n.valid :: ll2string n.deleted :: rest) ≤ UINT32_MAX := by
    have hbytes := hok.fits
    rw [heles, ← lpBytes_mark] at hbytes
    rw [← hrest, List.flatMap_append, List.flatMap_cons, Entry.eles_mark]
    simpa using hbytes
  have hlength : n.valid ≤ s.length := by
    rw [h.length, hns, List.map_append, List.map_cons, List.sum_append, List.sum_cons]
    omega
  have hreads : lpGetInteger (ll2string n.valid :: ll2string n.deleted :: rest) (some 0) = .ok (n.valid : ℤ) :=
    lpGetInteger_split (show _ = [] ++ _ :: _ from rfl) rfl (.ofNat (by omega))
  have hothers : (∀ m ∈ pre ++ (if n.valid = 1 then [] else [n.markAt es e es']) ++ post, lpBytes m.eles ≤ UINT32_MAX) ↔
      (n.valid ≠ 1 → lpBytes (n.markAt es e es').eles ≤ UINT32_MAX) := by
    have hall := Node.Ok.fits_of_mem h.ok
    rw [hns] at hall
    constructor
    · intro hfits hmore
      exact hfits _ (by simp [hmore])
    · intro hfits m hm
      rcases List.mem_append.mp hm with hm | hm
      · rcases List.mem_append.mp hm with hm | hm
        · exact hall m (by simp [hm])
        · split at hm
          · simp at hm
          · rename_i hmore
            rw [List.mem_singleton.mp hm]
            exact hfits hmore
      · exact hall m (by simp [hm])
  unfold streamIteratorRemoveEntry
  rw [hemitted.inside.lp, hemitted.inside.master, hemitted.lp_flags]
  dsimp only
  rw [hflags, ok_bind, hfirst, ok_bind]
  have hhead : lpFirst (ll2string n.valid :: ll2string n.deleted :: rest) = some 0 := rfl
  rw [Leaves, hothers, hhead, hreads, ok_bind]
  by_cases hone : n.valid = 1
  · rw [if_pos (by exact_mod_cast hone), ok_bind, if_pos hone]
    refine ⟨fun _ => ⟨_, _, rfl, ?_, rfl, trivial⟩, fun hno => absurd (fun hmore => absurd hone hmore) hno⟩
    rw [List.append_nil]
    exact h.remove hns (by omega)
  · have hcount : lpReplaceInteger (ll2string n.valid :: ll2string n.deleted :: rest) (some 0) ((n.valid : ℤ) - 1) =
        .ok (ll2string (n.valid - 1 : ℕ) :: ll2string n.deleted :: rest) := by
      have hcast : ((n.valid : ℤ) - 1) = ((n.valid - 1 : ℕ) : ℤ) := by omega
      have hbytes : lpBytes ([] ++ ll2string (n.valid - 1 : ℕ) :: ll2string n.deleted :: rest) ≤ UINT32_MAX := by
        rw [lpBytes_replace]
        rw [show ll2string n.valid :: ll2string n.deleted :: rest =
          [] ++ ll2string n.valid :: ll2string n.deleted :: rest from rfl, lpBytes_replace] at hfits1
        exact (Nat.add_le_add_left (lpEleBytes_mono (Nat.sub_le ..) (by omega)) _).trans hfits1
      rw [hcast]
      exact (lpReplaceInteger_eq [] (ll2string n.deleted :: rest) (ll2string n.valid) rfl _).trans (lpGrown_fits hbytes)
    have hread : lpGetInteger (ll2string (n.valid - 1 : ℕ) :: ll2string n.deleted :: rest) (some 1) =
        .ok (n.deleted : ℤ) :=
      lpGetInteger_split (show _ = [_] ++ _ :: _ from rfl) rfl (.ofNat (by omega))
    have hmarks : lpReplaceInteger (ll2string (n.valid - 1 : ℕ) :: ll2string n.deleted :: rest) (some 1)
        ((n.deleted : ℤ) + 1) = lpGrown (n.markAt es e es').eles := by
      rw [hnew, ← Nat.cast_add_one]
      exact lpReplaceInteger_eq [ll2string (n.valid - 1 : ℕ)] rest (ll2string n.deleted) rfl _
    rw [if_neg (by exact_mod_cast hone), hcount, ok_bind, lpNext_lt (by simp), ok_bind, hread, ok_bind, hmarks, if_neg hone]
    by_cases hfits : lpBytes (n.markAt es e es').eles ≤ UINT32_MAX
    · rw [lpGrown_fits hfits, ok_bind, ok_bind]
      refine ⟨fun _ => ⟨_, _, rfl, ?_, rfl, trivial⟩, fun hno => absurd (fun _ => hfits) hno⟩
      rw [List.append_assoc]
      refine @Represents.replace s ns pre post n (n.markAt es e es') h hns rfl (hok.markAt hsplit hd hone hfits) ?_ _ ?_
      · rw [live_markAt, live_split hsplit hd]
        exact List.Sublist.append_left (List.sublist_cons_self ..) _
      · omega
    · rw [lpGrown_tooLong hfits]
      exact ⟨fun hall => absurd (hall hone) hfits, fun _ => rfl⟩

/-! ### Nodes -/

/-- The live entries with the ID are marked. -/
def markID (id : StreamID) (es : List Entry) : List Entry :=
  es.map fun e => if e.deleted = false ∧ e.id = id then e.mark else e

/-- What is left of a node. -/
def Node.remove (id : StreamID) (n : Node) : List Node :=
  if ∃ e ∈ live n.entries, e.id = id then
    if n.valid = 1 then [] else [{ n with entries := markID id n.entries }]
  else [n]

/-- The nodes without the entry of the ID. -/
def removed (id : StreamID) (ns : List Node) : List Node := ns.flatMap (Node.remove id)

/-- No listpack gets too long while the entries of the IDs are deleted in turn. -/
def DeletesFit : List StreamID → List Node → Prop
  | [], _ => True
  | id :: ids, ns => (∀ n ∈ removed id ns, lpBytes n.eles ≤ UINT32_MAX) ∧ DeletesFit ids (removed id ns)

variable {id : StreamID}

theorem live_markID (id : StreamID) (es : List Entry) : live (markID id es) = (live es).filter fun e => e.id ≠ id := by
  induction es with
  | nil => rfl
  | cons e es ih =>
    rw [markID, List.map_cons, ← markID]
    cases hd : e.deleted with
    | true => rw [if_neg (by simp), live_cons_deleted hd, live_cons_deleted hd, ih]
    | false =>
      by_cases hid : e.id = id
      · rw [if_pos ⟨rfl, hid⟩, live_cons_deleted (e := e.mark) rfl, live_cons_live hd, List.filter_cons_of_neg (by simp [hid]),
          ih]
      · rw [if_neg (fun h => hid h.2), live_cons_live hd, live_cons_live hd, List.filter_cons_of_pos (by simp [hid]), ih]

theorem markID_of_no {es : List Entry} (h : ∀ e ∈ live es, e.id ≠ id) : markID id es = es := by
  have hsame : ∀ e ∈ es, (if e.deleted = false ∧ e.id = id then e.mark else e) = e := by
    intro e he
    rw [if_neg]
    rintro ⟨hd, hid⟩
    exact h e (mem_live.mpr ⟨he, hd⟩) hid
  rw [markID, List.map_congr_left hsame, List.map_id']

theorem content_removed (id : StreamID) (ns : List Node) :
    content (removed id ns) = (content ns).filter fun e => e.id ≠ id := by
  induction ns with
  | nil => rfl
  | cons n ns ih =>
    rw [removed, List.flatMap_cons, ← removed, content_append, content_cons, List.filter_append, ih]
    congr 1
    rw [Node.remove]
    split_ifs with hsome hone
    · obtain ⟨e, he, hid⟩ := hsome
      rw [n.valid_eq, List.length_eq_one_iff] at hone
      obtain ⟨x, hx⟩ := hone
      rw [hx, List.mem_singleton] at he
      rw [hx, List.filter_cons_of_neg (by simp [← he, hid])]
      rfl
    · rw [content_cons, live_markID]
      exact List.append_nil _
    · rw [content_cons, List.filter_eq_self.mpr]
      · exact List.append_nil _
      · intro e he
        simpa using fun hid => hsome ⟨e, he, hid⟩

/-- Nodes without an entry of the ID. -/
theorem removed_of_no {ns : List Node} (h : ∀ e ∈ content ns, e.id ≠ id) : removed id ns = ns := by
  have hnode : ∀ m ∈ ns, Node.remove id m = [m] := by
    intro m hm
    rw [Node.remove, if_neg]
    rintro ⟨x, hx, hid⟩
    exact h x (mem_content.mpr ⟨m, hm, hx⟩) hid
  rw [removed, List.flatMap_congr hnode, List.flatMap_singleton']

/-- The nodes without an entry that is in one of them. -/
theorem removed_split (h : Represents s ns) {es es' : List Entry} {e : Entry} (hns : ns = pre ++ n :: post)
    (hsplit : n.entries = es ++ e :: es') (hd : e.deleted = false) :
    removed e.id ns = pre ++ (if n.valid = 1 then [] else [n.markAt es e es']) ++ post := by
  have hsorted := h.sorted
  have hcontent : content ns = (content pre ++ live es) ++ e :: (live es' ++ content post) := by
    rw [hns, content_append, content_cons, live_split hsplit hd]
    simp
  rw [hcontent] at hsorted
  obtain ⟨-, hafter, hbefore⟩ := List.pairwise_append.mp hsorted
  have hlow : ∀ x ∈ content pre ++ live es, x.id ≠ e.id := fun x hx => (hbefore x hx e List.mem_cons_self).ne
  have hhigh : ∀ x ∈ live es' ++ content post, x.id ≠ e.id := fun x hx => ((List.pairwise_cons.mp hafter).1 x hx).ne'
  have hmark : markID e.id n.entries = es ++ e.mark :: es' := by
    have hes := markID_of_no fun x hx => hlow x (List.mem_append_right _ hx)
    have hes' := markID_of_no fun x hx => hhigh x (List.mem_append_left _ hx)
    rw [markID] at hes hes' ⊢
    rw [hsplit, List.map_append, List.map_cons, hes, hes', if_pos ⟨hd, rfl⟩]
  have hnode : Node.remove e.id n = if n.valid = 1 then [] else [n.markAt es e es'] := by
    rw [Node.remove, if_pos ⟨e, by rw [live_split hsplit hd]; simp, rfl⟩, hmark]
    rfl
  rw [hns, removed, List.flatMap_append, List.flatMap_cons, ← removed, ← removed, hnode,
    removed_of_no fun x hx => hlow x (List.mem_append_left _ hx),
    removed_of_no fun x hx => hhigh x (List.mem_append_right _ hx), List.append_assoc]

/-! ### Streams -/

/-- **What a deletion does.** The entry of the ID, if there is one, is not among the entries any more. -/
theorem streamDeleteItem_spec (h : Represents s ns) (id : StreamID) :
    Leaves (streamDeleteItem s id) s.last_id (removed id ns) fun d => d = true ↔ ∃ e ∈ content ns, e.id = id := by
  unfold streamDeleteItem
  rcases find_spec h id with ⟨e, he, rfl, si', L, hget, hhit, -⟩ | ⟨hno, si', hget⟩
  · rw [hget, ok_bind]
    obtain ⟨hmem, hd⟩ := mem_live.mp he
    obtain ⟨pre, n, post, es, es', hns, hsplit, hyes, hno⟩ := removeEntry_spec h hhit hd e.id
    rw [removed_split h hns hsplit hd]
    constructor
    · intro hfits
      obtain ⟨s', si'', hremove, hrep, hlast, -⟩ := hyes hfits
      dsimp only
      rw [hremove]
      exact ⟨s', true, rfl, hrep, hlast, fun _ => ⟨e, he, rfl⟩, fun _ => rfl⟩
    · intro hfits
      dsimp only
      rw [hno hfits]
      rfl
  · rw [hget, ok_bind]
    rw [removed_of_no hno]
    refine ⟨fun _ => ⟨s, false, rfl, h, rfl, nofun, ?_⟩, fun hfits => absurd (Node.Ok.fits_of_mem h.ok) hfits⟩
    rintro ⟨e, he, hid⟩
    exact absurd hid (hno e he)

theorem deleteEntries_spec : ∀ (ids : List StreamID) {s : Stream} {ns : List Node}, Represents s ns →
    (DeletesFit ids ns → ∃ s' deleted ns', deleteEntries s ids = .ok (s', deleted) ∧ Represents s' ns' ∧
        s'.last_id = s.last_id ∧ content ns' = (content ns).filter fun e => e.id ∉ ids) ∧
      (¬ DeletesFit ids ns → deleteEntries s ids = .error .tooLong)
  | [], s, ns, h => ⟨fun _ => ⟨s, 0, ns, rfl, h, rfl, by simp⟩, fun hno => absurd trivial hno⟩
  | id :: ids, s, ns, h => by
    obtain ⟨hyes, hno⟩ := streamDeleteItem_spec h id
    rw [DeletesFit, deleteEntries]
    by_cases hfits : ∀ n ∈ removed id ns, lpBytes n.eles ≤ UINT32_MAX
    · obtain ⟨s1, d, hdel, hrep, hlast, -⟩ := hyes hfits
      obtain ⟨hyes', hno'⟩ := deleteEntries_spec ids hrep
      rw [hdel, ok_bind]
      dsimp only
      constructor
      · rintro ⟨-, hrest⟩
        obtain ⟨s2, deleted, ns', hdels, hrep', hlast', hcontent⟩ := hyes' hrest
        rw [hdels]
        refine ⟨s2, _, ns', rfl, hrep', hlast'.trans hlast, ?_⟩
        rw [hcontent, content_removed, List.filter_filter]
        congr 1
        funext e
        simp [Bool.and_comm]
      · intro hnot
        rw [hno' fun hrest => hnot ⟨hfits, hrest⟩]
        rfl
    · rw [hno hfits]
      exact ⟨fun hall => absurd hall.1 hfits, fun _ => rfl⟩

end RedisZk.Streams
