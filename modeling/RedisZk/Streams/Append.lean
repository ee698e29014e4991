/-
# Adding an entry

An ID that is not greater than the last one is refused with nothing changed. Any other entry
becomes the last one of its stream, in the tail node or in a node of its own, and the stream
holds what it held before, and the entry behind it; only a listpack that would be too long
stops this. Elements are stored with the length that a `uint32_t` keeps of theirs.

Key definitions: `stored`, `Appended`.
Key theorems: `streamCompareID_gt`, `newNode_spec`, `countEntry_spec`, `appendEntry_spec`, `streamAppendItem_spec`.
-/
import RedisZk.Streams.Ranges

namespace RedisZk.Streams

open Stepwise

/-! ### IDs -/

theorem streamCompareID_gt {a b : StreamID} : streamCompareID a b = .gt ↔ b < a := by
  have ha := a.seq.isLt
  have hb := b.seq.isLt
  rw [StreamID.lt_iff, StreamID.num, StreamID.num]
  unfold streamCompareID
  simp only [gt_iff_lt, Fin.lt_def]
  split_ifs <;> simp <;> omega

theorem streamIncrID_num {id : StreamID} (h : id ≠ .max) : (streamIncrID id).num = id.num + 1 := by
  have hms := id.ms.isLt
  have hseq := id.seq.isLt
  have hmax : U64.max.val = 2 ^ 64 - 1 := by decide
  unfold streamIncrID
  by_cases hs : id.seq = U64.max
  · have hm : id.ms ≠ U64.max := fun hm => h (StreamID.ext hm hs)
    have hm' : id.ms.val ≠ 2 ^ 64 - 1 := fun he => hm (Fin.ext (he.trans hmax.symm))
    have hs' : id.seq.val = 2 ^ 64 - 1 := (congrArg Fin.val hs).trans hmax
    rw [if_pos hs, if_neg hm, StreamID.num, StreamID.num, Fin.val_add_one_of_lt' (by omega)]
    simp only [Fin.val_zero]
    omega
  · have hs' : id.seq.val ≠ 2 ^ 64 - 1 := fun he => hs (Fin.ext (he.trans hmax.symm))
    rw [if_neg hs, StreamID.num, StreamID.num]
    show id.ms.val * 2 ^ 64 + (id.seq + 1).val = _
    rw [Fin.val_add_one_of_lt' (by omega)]
    omega

/-- The next ID is greater than the last one, but for the very last one, behind which it starts again from 0. -/
theorem lt_streamNextID {ms : U64} {last_id : StreamID} (h : last_id ≠ .max) : last_id < streamNextID ms last_id := by
  unfold streamNextID
  split
  · rename_i hlt
    have hseq := last_id.seq.isLt
    have hlt : last_id.ms.val < ms.val := hlt
    rw [StreamID.lt_iff, StreamID.num, StreamID.num]
    simp only [Fin.val_zero]
    omega
  · rw [StreamID.lt_iff, streamIncrID_num h]
    exact Nat.lt_succ_self _

/-! ### Elements -/

/-- What is kept of an element whose size goes through a `uint32_t`. -/
def stored (ele : Sds) : Sds := ele.take (ele.length % 2 ^ 32)

theorem stored_eq {ele : Sds} (h : ele.length < 2 ^ 32) : stored ele = ele := by
  rw [stored, Nat.mod_eq_of_lt h, List.take_length]

/-- A field and its value are kept. -/
def storedPair (fv : Sds × Sds) : Sds × Sds := (stored fv.1, stored fv.2)

theorem lpAppend_stored (lp : Listpack) (x : Sds) : Within (Written (lp ++ [stored x])) TooLong (lpAppend lp x) :=
  lpGrown_spec _

theorem lpAppends_stored : ∀ (xs : List Sds) {lp : Listpack}, lpBytes lp ≤ UINT32_MAX →
    Within (Written (lp ++ xs.map stored)) TooLong (lpAppends lp xs)
  | [], lp, hlp => ⟨(List.append_nil lp).symm, by rwa [List.map_nil, List.append_nil]⟩
  | x :: xs, lp, _ => by
    refine Within.bind (lpAppend_stored lp x) ?_
    rintro lp' ⟨rfl, hlp'⟩
    have hrest := lpAppends_stored xs hlp'
    rwa [List.append_assoc] at hrest

/-- The length of a field list, as a text: one that is too long for its text to be short leads to a listpack that is too long. -/
theorem stored_length {n : ℕ} (h : n < 2 ^ 31) : stored (ll2string (n : ℤ)) = ll2string (n : ℤ) :=
  stored_eq (ll2string_length (.ofNat (by omega)))

/-! ### The master entry -/

/-- The elements of a master entry of a new node. -/
def masterEles (argv : List (Sds × Sds)) : Listpack :=
  ll2string 1 :: ll2string 0 :: ll2string argv.length :: ((argv.map storedPair).map Prod.fst ++ [ll2string 0])

theorem newNode_spec (argv : List (Sds × Sds)) :
    Within (fun lp => Written (masterEles argv) lp ∧ argv.length < 2 ^ 31) TooLong (newNode argv) := by
  have hone : IsInt64 1 := ⟨by norm_num, by norm_num⟩
  have hzero : IsInt64 0 := ⟨by norm_num, by norm_num⟩
  unfold newNode
  refine Within.bind (lpAppendInteger_spec _ hone) ?_
  rintro lp1 ⟨rfl, -⟩
  refine Within.bind (lpAppendInteger_spec _ hzero) ?_
  rintro lp2 ⟨rfl, -⟩
  refine Within.bind (lpAppend_stored _ (ll2string argv.length)) ?_
  rintro lp3 ⟨rfl, hfits⟩
  refine Within.bind (lpAppends_stored _ hfits) ?_
  rintro lp4 ⟨rfl, hfits⟩
  have hlt : argv.length < 2 ^ 31 := by
    have hlen := length_lt_of_bytes hfits
    simp only [List.length_append, List.length_map] at hlen
    omega
  refine Within.mono (lpAppendInteger_spec _ hzero) ?_ fun _ => id
  intro lp hlp
  refine ⟨?_, hlt⟩
  rw [stored_length hlt] at hlp
  simpa [masterEles, lpNew, storedPair, Function.comp_def] using hlp

/-! ### The entry -/

/-- The entry that is appended. -/
def newEntry (id : StreamID) (argv : List (Sds × Sds)) (same : Bool) : Entry :=
  { id := id, fields := argv.map storedPair, same := same }

theorem newEntry_flags (id : StreamID) (argv : List (Sds × Sds)) (same : Bool) :
    (newEntry id argv same).flags = if same then STREAM_ITEM_FLAG_SAMEFIELDS else STREAM_ITEM_FLAG_NONE := by
  cases same <;> rfl

theorem appendEntry_spec {lp : Listpack} (master id : StreamID) (argv : List (Sds × Sds)) (same : Bool) :
    Within (Written (lp ++ (newEntry id argv same).eles master)) TooLong
      (appendEntry lp (if same then STREAM_ITEM_FLAG_SAMEFIELDS else STREAM_ITEM_FLAG_NONE) master id argv) := by
  have hflags : IsInt64 (if same then STREAM_ITEM_FLAG_SAMEFIELDS else STREAM_ITEM_FLAG_NONE : ℕ) := by
    cases same <;> exact .ofNat (by decide)
  have hhas : hasFlag (if same then STREAM_ITEM_FLAG_SAMEFIELDS else STREAM_ITEM_FLAG_NONE : ℕ)
      STREAM_ITEM_FLAG_SAMEFIELDS = same := by
    cases same <;> decide
  have hlen := (newEntry id argv same).body_length
  unfold appendEntry
  refine Within.bind (lpAppendInteger_spec _ hflags) ?_
  rintro lp1 ⟨rfl, -⟩
  refine Within.bind (lpAppendInteger_spec _ (toInt64_isInt64 _)) ?_
  rintro lp2 ⟨rfl, -⟩
  refine Within.bind (lpAppendInteger_spec _ (toInt64_isInt64 _)) ?_
  rintro lp3 ⟨rfl, hfits⟩
  rw [hhas]
  cases same with
  | true =>
    rw [if_pos rfl]
    refine Within.bind (lpAppends_stored _ hfits) ?_
    rintro lp4 ⟨rfl, hfits⟩
    have hlt := length_lt_of_bytes hfits
    simp only [List.length_append, List.length_map, List.length_cons, List.length_nil] at hlt
    refine Within.mono (lpAppendInteger_spec _ (v := argv.length + 3) ⟨by omega, by omega⟩) ?_ fun _ h => h
    intro lp' hlp'
    have hbody : (newEntry id argv true).body = (argv.map Prod.snd).map stored := by
      simp [newEntry, Entry.body, storedPair, Function.comp_def]
    have hcount : ((3 + (newEntry id argv true).body.length : ℕ) : ℤ) = argv.length + 3 := by
      rw [hbody, List.length_map, List.length_map]
      push_cast
      omega
    rw [Entry.eles, newEntry_flags, hcount, hbody]
    simpa [newEntry] using hlp'
  | false =>
    rw [if_neg (by simp)]
    refine Within.bind (lpAppend_stored _ (ll2string argv.length)) ?_
    rintro lp4 ⟨rfl, hfits⟩
    refine Within.bind (lpAppends_stored _ hfits) ?_
    rintro lp5 ⟨rfl, hfits⟩
    have hlt := length_lt_of_bytes hfits
    have hpairs := Entry.flatMap_pair_length argv
    simp only [List.length_append, List.length_map, hpairs] at hlt
    refine Within.mono (lpAppendInteger_spec _ (v := argv.length + 3 + (argv.length + 1)) ⟨by omega, by omega⟩) ?_
      fun _ h => h
    intro lp' hlp'
    have hbody : (newEntry id argv false).body =
        ll2string argv.length :: (argv.flatMap fun fv => [fv.1, fv.2]).map stored := by
      simp [newEntry, Entry.body, storedPair, List.flatMap_map, List.map_flatMap]
    have hcount : ((3 + (newEntry id argv false).body.length : ℕ) : ℤ) = argv.length + 3 + (argv.length + 1) := by
      rw [hbody, List.length_cons, List.length_map, hpairs]
      push_cast
      omega
    rw [stored_length (by omega)] at hlp'
    rw [Entry.eles, newEntry_flags, hcount, hbody]
    simpa [newEntry] using hlp'

/-! ### The tail node -/

theorem sameFields_spec {lp : Listpack} : ∀ (argv : List (Sds × Sds)) {names A B : Listpack} {p : ℕ},
    lp = A ++ (names ++ B) → B ≠ [] → p = A.length → argv.length = names.length →
    sameFields lp (some p) argv = .ok (decide (argv.map Prod.fst = names))
  | [], names, A, B, p, _, _, _, hlen => by
    rw [List.length_nil, eq_comm, List.length_eq_zero_iff] at hlen
    rw [hlen, sameFields]
    rfl
  | (field, value) :: argv, [], A, B, p, _, _, _, hlen => by
    rw [List.length_cons, List.length_nil] at hlen
    omega
  | (field, value) :: argv, name :: names, A, B, p, hlp, hB, hp, hlen => by
    have hBlen := List.length_pos_of_ne_nil hB
    have hlplen := congrArg List.length hlp
    simp only [List.length_append, List.length_cons] at hlplen hlen
    have hget : lpGet lp (some p) = .ok name := lpGet_split (by rw [hlp]; rfl) hp
    have hnext : lpNext lp (some p) = .ok (some (p + 1)) := lpNext_lt (by omega)
    rw [sameFields, hget]
    simp only [bind, Except.bind, hnext]
    by_cases hne : field = name
    · have hrest := @sameFields_spec lp argv names (A ++ [name]) B (p + 1) (by rw [hlp]; simp) hB (by simp [hp]) (by omega)
      rw [if_neg (by simpa using hne), hrest, hne]
      simp
    · rw [if_pos hne]
      simp [hne]

theorem length_lt_of_mem {lp : Listpack} {x : Sds} (h : lpBytes lp ≤ UINT32_MAX) (hx : x ∈ lp) : x.length < 2 ^ 32 := by
  cases hv : lpStringToInt64 x with
  | some v =>
    have hlen := ll2string_length (isInt64_lpStringToInt64 hv)
    rwa [ll2string_lpStringToInt64 hv] at hlen
  | none =>
    have hle : lpEleBytes x ≤ (lp.map lpEleBytes).sum := by
      obtain ⟨a, b, rfl⟩ := List.append_of_mem hx
      rw [List.map_append, List.sum_append, List.map_cons, List.sum_cons]
      omega
    have hlen : x.length ≤ lpEnclen x := by
      unfold lpEnclen
      rw [hv]
      dsimp only
      split_ifs <;> omega
    have hele : lpEleBytes x = lpEnclen x + lpEncodeBacklen (lpEnclen x) := rfl
    unfold lpBytes UINT32_MAX at h
    omega

namespace Node

variable {n : Node}

/-- The node with one more entry. -/
def push (n : Node) (e : Entry) : Node := { n with entries := n.entries ++ [e] }

theorem valid_lt (hn : n.Ok) : n.valid < 2 ^ 31 := by
  have hlt := n.entries_lt
  have hlen := length_lt_of_bytes hn.fits
  have hle : n.valid ≤ n.entries.length := List.countP_le_length
  omega

theorem deleted_lt (hn : n.Ok) : n.deleted < 2 ^ 31 := by
  have hlt := n.entries_lt
  have hlen := length_lt_of_bytes hn.fits
  have hle : n.deleted ≤ n.entries.length := List.countP_le_length
  omega

theorem read_valid (hn : n.Ok) : lpGetInteger n.eles (some 0) = .ok (n.valid : ℤ) :=
  lpGetInteger_split (show n.eles = [] ++ _ :: _ from rfl) rfl (.ofNat (by have := valid_lt hn; omega))

theorem eles_push {e : Entry} (he : e.deleted = false) :
    (n.push e).eles = (ll2string (n.valid + 1 : ℕ) :: n.eles.tail) ++ e.eles n.master := by
  have hvalid : (n.push e).valid = n.valid + 1 := by simp [valid, push, he]
  have hdeleted : (n.push e).deleted = n.deleted := by simp [deleted, push, he]
  simp only [eles, header, hvalid, hdeleted, List.cons_append, List.tail_cons]
  simp [push]

end Node

/-- The entry is counted, and has the flags that its fields give it. -/
theorem countEntry_eq {n : Node} (hn : n.Ok) (argv : List (Sds × Sds)) :
    countEntry n.eles argv = (do
      let lp ← lpGrown (ll2string (n.valid + 1 : ℕ) :: n.eles.tail)
      .ok (lp, if decide (argv.map Prod.fst = n.names) then STREAM_ITEM_FLAG_SAMEFIELDS else STREAM_ITEM_FLAG_NONE)) := by
  have hlt := length_lt_of_bytes hn.fits
  have hvalid := Node.valid_lt hn
  have hheader : n.eles = n.header ++ n.entries.flatMap (Entry.eles n.master) := rfl
  have hheaderlen := Node.header_length n
  have hlen : n.header.length ≤ n.eles.length := by
    rw [hheader, List.length_append]
    omega
  have hfirst : lpFirst n.eles = some 0 := lpFirst_cons
  have hreplace : lpReplaceInteger n.eles (some 0) ((n.valid : ℤ) + 1) =
      lpGrown (ll2string (n.valid + 1 : ℕ) :: n.eles.tail) := by
    rw [Nat.cast_add, Nat.cast_one]
    exact lpReplaceInteger_eq [] n.eles.tail (ll2string n.valid) rfl _
  obtain ⟨lp, hlp⟩ : ∃ lp, lp = ll2string (n.valid + 1 : ℕ) :: n.eles.tail := ⟨_, rfl⟩
  have heles : lp = [ll2string (n.valid + 1 : ℕ), ll2string n.deleted] ++ ll2string n.names.length ::
      ((n.names ++ [ll2string 0]) ++ n.entries.flatMap (Entry.eles n.master)) := by
    rw [hlp]
    rfl
  have hlplen : lp.length = n.eles.length := by
    rw [hlp]
    rfl
  have hnexts : lpNexts lp (some 0) 2 = .ok (some 2) := lpNexts_lt 2 (by omega)
  have hcount : lpGetInteger lp (some 2) = .ok (n.names.length : ℤ) :=
    lpGetInteger_split heles rfl (.ofNat (by omega))
  have hnext : lpNext lp (some 2) = .ok (some 3) := lpNext_lt (by omega)
  unfold countEntry
  rw [hfirst]
  dsimp only
  rw [Node.read_valid hn, ok_bind, hreplace, ← hlp]
  by_cases hfits : lpBytes lp ≤ UINT32_MAX
  · rw [lpGrown_fits hfits, ok_bind, ok_bind, hnexts, ok_bind, hcount, ok_bind, hnext, ok_bind]
    by_cases heq : (argv.length : ℤ) = n.names.length
    · have hsame := @sameFields_spec lp argv n.names [ll2string (n.valid + 1 : ℕ), ll2string n.deleted,
        ll2string n.names.length] ([ll2string 0] ++ n.entries.flatMap (Entry.eles n.master)) 3 (by rw [heles]; simp)
        (by simp) rfl (by exact_mod_cast heq)
      rw [if_pos heq, hsame, ok_bind]
    · have hnot : argv.map Prod.fst ≠ n.names := fun h => heq (by rw [← h, List.length_map])
      rw [if_neg heq, decide_eq_false hnot]
      rfl
  · rw [lpGrown_tooLong hfits]
    rfl

theorem countEntry_spec {n : Node} (hn : n.Ok) (argv : List (Sds × Sds)) :
    Within (fun r => Written (ll2string (n.valid + 1 : ℕ) :: n.eles.tail) r.1 ∧
      r.2 = if decide (argv.map Prod.fst = n.names) then STREAM_ITEM_FLAG_SAMEFIELDS else STREAM_ITEM_FLAG_NONE)
      TooLong (countEntry n.eles argv) := by
  rw [countEntry_eq hn]
  refine Within.bind (lpGrown_spec _) ?_
  intro lp hlp
  exact ⟨hlp, rfl⟩

/-! ### The stream -/

/-- The nodes after an entry was added, in the tail node or in a new one. -/
inductive Appended (id : StreamID) (argv : List (Sds × Sds)) (ns : List Node) : List Node → Prop
  | tail {ms : List Node} {n : Node} (hns : ns = ms ++ [n]) :
      Appended id argv ns (ms ++ [n.push (newEntry id argv (decide (argv.map Prod.fst = n.names)))])
  | fresh : Appended id argv ns (ns ++ [⟨id, (argv.map storedPair).map Prod.fst, [newEntry id argv true]⟩])

theorem Appended.content {id : StreamID} {argv : List (Sds × Sds)} {ns ns' : List Node} (h : Appended id argv ns ns') :
    ∃ same, content ns' = Streams.content ns ++ [newEntry id argv same] := by
  cases h with
  | @tail ms n hns =>
    refine ⟨decide (argv.map Prod.fst = n.names), ?_⟩
    rw [hns, content_append, content_append, content_cons, content_cons, Node.push, live_append]
    simp [Streams.content, live, newEntry]
  | fresh =>
    refine ⟨true, ?_⟩
    rw [content_append, content_cons]
    simp [Streams.content, live, newEntry]

section Stream

variable {s : Stream} {ns ms : List Node} {n : Node} {id : StreamID} {argv : List (Sds × Sds)} {lp : Listpack}

/-- The stream with the entry in a node of its own. -/
theorem Represents.fresh (h : Represents s ns) (hid : s.last_id < id)
    (hlp : Written (masterEles argv ++ (newEntry id argv true).eles id) lp) :
    Represents { rax := s.rax.insert id lp, length := s.length + 1, last_id := id }
      (ns ++ [⟨id, (argv.map storedPair).map Prod.fst, [newEntry id argv true]⟩]) := by
  obtain ⟨hlp, hfits⟩ := hlp
  have heles : (⟨id, (argv.map storedPair).map Prod.fst, [newEntry id argv true]⟩ : Node).eles =
      masterEles argv ++ (newEntry id argv true).eles id := by
    simp [Node.eles, Node.header, Node.valid, Node.deleted, newEntry, masterEles]
  have hkeys : ∀ e ∈ s.rax.entries, e.1 < id := by
    intro e he
    rw [h.rax] at he
    obtain ⟨n, hn, rfl⟩ := List.mem_map.mp he
    exact (h.key_le n hn).trans_lt hid
  constructor
  · rw [SortedMap.entries_insert_last hkeys, h.rax, List.map_append, hlp, ← heles]
    rfl
  · rw [h.length]
    simp [Node.valid, newEntry]
  · intro n hn
    rcases List.mem_append.mp hn with hn | hn
    · exact h.ok n hn
    · rw [List.mem_singleton.mp hn]
      refine ⟨by simp [Node.valid, newEntry], by rw [heles]; exact hfits, ?_, by simp [live, newEntry], ?_⟩
      · intro e he
        rw [List.mem_singleton.mp he]
        exact le_rfl
      · intro e he _
        rw [List.mem_singleton.mp he]
        rfl
  · rw [List.pairwise_append]
    refine ⟨h.before, List.pairwise_singleton .., ?_⟩
    intro m hm n hn e he
    rw [List.mem_singleton.mp hn]
    exact (h.last m hm e he).trans_lt hid
  · intro n hn e he
    rcases List.mem_append.mp hn with hn | hn
    · exact (h.last n hn e he).trans hid.le
    · rw [List.mem_singleton.mp hn] at he
      rw [List.mem_singleton.mp (mem_live.mp he).1]
      exact le_rfl

/-- The stream with the entry in its tail node. -/
theorem Represents.tail (h : Represents s ns) (hns : ns = ms ++ [n]) (hid : s.last_id < id) {same : Bool}
    (hsame : same = decide (argv.map Prod.fst = n.names))
    (hlp : Written ((ll2string (n.valid + 1 : ℕ) :: n.eles.tail) ++ (newEntry id argv same).eles n.master) lp) :
    Represents { rax := s.rax.insert n.master lp, length := s.length + 1, last_id := id }
      (ms ++ [n.push (newEntry id argv same)]) := by
  obtain ⟨hlp, hfits⟩ := hlp
  have heles := n.eles_push (e := newEntry id argv same) rfl
  rw [← heles] at hlp hfits
  have hrax : s.rax.entries = ms.map Node.binding ++ (n.master, n.eles) :: [] := by
    rw [h.rax, hns, List.map_append]
    rfl
  have hn : n ∈ ns := by simp [hns]
  have hok := h.ok n hn
  have hlive : live (n.push (newEntry id argv same)).entries = live n.entries ++ [newEntry id argv same] := by
    rw [Node.push, live_append]
    rfl
  have hlast := h.last n hn
  constructor
  · rw [SortedMap.entries_insert_split hrax, List.map_append, hlp]
    rfl
  · rw [h.length, hns]
    simp [Node.valid, Node.push, newEntry]
    omega
  · intro m hm
    rcases List.mem_append.mp hm with hm | hm
    · exact h.ok m (by simp [hns, hm])
    · rw [List.mem_singleton.mp hm]
      refine ⟨?_, hfits, ?_, ?_, ?_⟩
      · simp [Node.valid, Node.push, newEntry]
      · intro e he
        rcases List.mem_append.mp he with he | he
        · exact hok.above e he
        · rw [List.mem_singleton.mp he]
          exact (h.key_le n hn).trans hid.le
      · rw [hlive, List.pairwise_append]
        refine ⟨hok.sorted, List.pairwise_singleton .., ?_⟩
        intro e he e' he'
        rw [List.mem_singleton.mp he']
        exact (hlast e he).trans_lt hid
      · intro e he hs
        rcases List.mem_append.mp he with he | he
        · exact hok.same e he hs
        · rw [List.mem_singleton.mp he] at hs ⊢
          have hnames : argv.map Prod.fst = n.names := of_decide_eq_true (hsame.symm.trans hs)
          have hstored : ∀ x ∈ n.names, stored x = x := fun x hx =>
            stored_eq (length_lt_of_mem hok.fits (by simp [Node.eles, Node.header, hx]))
          show (argv.map storedPair).map Prod.fst = n.names
          rw [List.map_map, ← List.map_id n.names, ← hnames, List.map_map]
          refine List.map_congr_left fun fv hfv => hstored fv.1 ?_
          rw [← hnames]
          exact List.mem_map_of_mem hfv
  · rw [List.pairwise_append]
    have hbefore := h.before
    rw [hns, List.pairwise_append] at hbefore
    refine ⟨hbefore.1, List.pairwise_singleton .., ?_⟩
    intro m hm n' hn' e he
    rw [List.mem_singleton.mp hn']
    exact hbefore.2.2 m hm n List.mem_cons_self e he
  · intro m hm e he
    rcases List.mem_append.mp hm with hm | hm
    · exact (h.last m (by simp [hns, hm]) e he).trans hid.le
    · rw [List.mem_singleton.mp hm, hlive] at he
      rcases List.mem_append.mp he with he | he
      · exact (hlast e he).trans hid.le
      · rw [List.mem_singleton.mp he]
        exact le_rfl

/-- The tail node, or nothing. -/
theorem tailNode_spec (h : Represents s ns) (lim : NodeLimits) :
    tailNode lim s = .ok none ∨ ∃ ms n, ns = ms ++ [n] ∧ tailNode lim s = .ok (some (n.master, n.eles)) ∧
      s.rax.last? = some (n.master, n.eles) := by
  rcases List.eq_nil_or_concat ns with rfl | ⟨ms, n, hns⟩
  · have hlast : s.rax.last? = none := by
      rw [SortedMap.last?, h.rax]
      rfl
    refine .inl ?_
    unfold tailNode
    rw [hlast]
  · rw [List.concat_eq_append] at hns
    have hlast : s.rax.last? = some (n.master, n.eles) := by
      rw [SortedMap.last?, h.rax, hns, List.map_append, List.getLast?_append]
      rfl
    have hcount : lpGetInteger n.eles (lpFirst n.eles) = .ok (n.valid : ℤ) := Node.read_valid (h.ok n (by simp [hns]))
    unfold tailNode
    rw [hlast]
    dsimp only
    split
    · exact .inl rfl
    · split
      · rw [hcount, ok_bind]
        split
        · exact .inl rfl
        · exact .inr ⟨ms, n, hns, rfl, rfl⟩
      · exact .inr ⟨ms, n, hns, rfl, rfl⟩

/-- An entry is added in a node of its own. -/
theorem addFresh_spec (h : Represents s ns) (hid : s.last_id < id) (argv : List (Sds × Sds)) :
    Within (fun r => ∃ s' ns', r = some (s', id) ∧ Represents s' ns' ∧ Appended id argv ns ns' ∧ s'.last_id = id)
      TooLong (do
        let lp ← newNode argv
        let lp ← appendEntry lp STREAM_ITEM_FLAG_SAMEFIELDS id id argv
        .ok (some (({ rax := s.rax.insert id lp, length := s.length + 1, last_id := id } : Stream), id))) := by
  refine Within.bind (newNode_spec argv) ?_
  rintro lp ⟨⟨rfl, -⟩, -⟩
  refine Within.bind (appendEntry_spec id id argv true) ?_
  intro lp hlp
  exact ⟨_, _, rfl, h.fresh hid hlp, .fresh, rfl⟩

/-- An entry is added in the tail node. -/
theorem addTail_spec (h : Represents s ns) (hns : ns = ms ++ [n]) (hid : s.last_id < id) (argv : List (Sds × Sds)) :
    Within (fun r => ∃ s' ns', r = some (s', id) ∧ Represents s' ns' ∧ Appended id argv ns ns' ∧ s'.last_id = id)
      TooLong (do
        let (lp, flags) ← countEntry n.eles argv
        let lp ← appendEntry lp flags n.master id argv
        .ok (some (({ rax := s.rax.insert n.master lp, length := s.length + 1, last_id := id } : Stream), id))) := by
  refine Within.bind (countEntry_spec (h.ok n (by simp [hns])) argv) ?_
  rintro ⟨lp, flags⟩ ⟨⟨rfl, -⟩, hflags⟩
  dsimp only at hflags ⊢
  rw [hflags]
  refine Within.bind (appendEntry_spec n.master id argv _) ?_
  intro lp hlp
  exact ⟨_, _, rfl, h.tail hns hid rfl hlp, .tail hns, rfl⟩

/-- An ID that is not greater than the last one is refused. -/
theorem streamAppendItem_refused (lim : NodeLimits) (ms : U64) (s : Stream) (argv : List (Sds × Sds))
    {use_id : Option StreamID} (hid : ¬ s.last_id < use_id.getD (streamNextID ms s.last_id)) :
    streamAppendItem lim ms s argv use_id = .ok none := by
  have hno : streamCompareID (use_id.getD (streamNextID ms s.last_id)) s.last_id ≠ .gt := mt streamCompareID_gt.mp hid
  unfold streamAppendItem
  dsimp only
  rw [if_pos hno]

/-- **What an addition does.** The entry is the last one of the stream, which is otherwise as it was. -/
theorem streamAppendItem_spec (h : Represents s ns) (lim : NodeLimits) (ms : U64) (argv : List (Sds × Sds))
    {use_id : Option StreamID} (hid : s.last_id < use_id.getD (streamNextID ms s.last_id)) :
    Within (fun r => ∃ s' ns', r = some (s', use_id.getD (streamNextID ms s.last_id)) ∧ Represents s' ns' ∧
        Appended (use_id.getD (streamNextID ms s.last_id)) argv ns ns' ∧
        s'.last_id = use_id.getD (streamNextID ms s.last_id))
      TooLong (streamAppendItem lim ms s argv use_id) := by
  unfold streamAppendItem
  generalize use_id.getD (streamNextID ms s.last_id) = id at hid ⊢
  have hyes : streamCompareID id s.last_id = .gt := streamCompareID_gt.mpr hid
  dsimp only
  rw [if_neg (not_not_intro hyes)]
  rcases tailNode_spec h lim with hnode | ⟨ms, n, hns, hnode, hlast⟩
  · rw [hnode, ok_bind]
    exact addFresh_spec h hid argv
  · rw [hnode, ok_bind, hlast]
    dsimp only
    split
    · exact addFresh_spec h hid argv
    · exact addTail_spec h hns hid argv

end Stream

end RedisZk.Streams
