/-
# Additions that have room

When an addition succeeds: an entry that leaves its listpack short enough is added, to the tail
node if this is not full (`streamAppendItem_tail`), and to the first node of an empty stream
(`streamAppendItem_first`).

Key definitions: `Entry.argEles`, `HasRoom`.
Key theorems: `lpAppends_fits`, `appendEntry_fits`, `streamAppendItem_tail`, `streamAppendItem_first`.
-/
import RedisZk.Streams.Trim

namespace RedisZk.Streams

open Stepwise

/-! ### Elements -/

theorem lpBytes_append (lp xs : Listpack) : lpBytes (lp ++ xs) = lpBytes lp + (xs.map lpEleBytes).sum := by
  unfold lpBytes
  rw [List.map_append, List.sum_append]
  omega

theorem lpAppends_append (xs ys : List Sds) (lp : Listpack) :
    lpAppends lp (xs ++ ys) = lpAppends lp xs >>= fun lp => lpAppends lp ys := by
  induction xs generalizing lp with
  | nil => rfl
  | cons x xs ih =>
    rw [List.cons_append, lpAppends, lpAppends, bind_assoc]
    exact bind_congr fun lp => ih lp

theorem lpAppends_fits : ∀ (xs : List Sds) {lp : Listpack}, lpBytes (lp ++ xs.map stored) ≤ UINT32_MAX →
    lpAppends lp xs = .ok (lp ++ xs.map stored)
  | [], lp, _ => by rw [lpAppends, List.map_nil, List.append_nil]
  | x :: xs, lp, h => by
    have hsplit : lp ++ (x :: xs).map stored = (lp ++ [stored x]) ++ xs.map stored := by simp
    rw [hsplit] at h ⊢
    have hone : lpBytes (lp ++ [stored x]) ≤ UINT32_MAX := by
      rw [lpBytes_append] at h
      omega
    have hfirst : lpAppend lp x = .ok (lp ++ [stored x]) := lpGrown_fits hone
    rw [lpAppends, hfirst, ok_bind, lpAppends_fits xs h]

/-! ### The entry -/

/-- The elements that an addition appends. -/
def Entry.argEles (master id : StreamID) (argv : List (Sds × Sds)) (same : Bool) : List Sds :=
  [ll2string (if same then STREAM_ITEM_FLAG_SAMEFIELDS else STREAM_ITEM_FLAG_NONE : ℕ),
    ll2string (toInt64 (id.ms - master.ms)), ll2string (toInt64 (id.seq - master.seq))] ++
  if same then argv.map Prod.snd ++ [ll2string (argv.length + 3)]
  else ll2string argv.length :: (argv.flatMap fun fv => [fv.1, fv.2]) ++ [ll2string (argv.length + 3 + (argv.length + 1))]

theorem appendEntry_eq (lp : Listpack) (master id : StreamID) (argv : List (Sds × Sds)) (same : Bool) :
    appendEntry lp (if same then STREAM_ITEM_FLAG_SAMEFIELDS else STREAM_ITEM_FLAG_NONE) master id argv =
      lpAppends lp (Entry.argEles master id argv same) := by
  have hhas : hasFlag (if same then STREAM_ITEM_FLAG_SAMEFIELDS else STREAM_ITEM_FLAG_NONE : ℕ)
      STREAM_ITEM_FLAG_SAMEFIELDS = same := by
    cases same <;> decide
  have hlast : ∀ r : Except LpAbort Listpack, (r >>= fun lp => Except.ok lp) = r := fun r => bind_pure r
  unfold appendEntry Entry.argEles
  rw [hhas, lpAppends_append]
  cases same with
  | true => simp [lpAppends, lpAppends_append, lpAppendInteger, hlast]
  | false => simp [lpAppends, lpAppends_append, lpAppendInteger, hlast]

theorem stored_argEles (master id : StreamID) {argv : List (Sds × Sds)} (hlen : argv.length < 2 ^ 30) (same : Bool) :
    (Entry.argEles master id argv same).map stored = (newEntry id argv same).eles master := by
  have hstored : ∀ {v : ℤ}, IsInt64 v → stored (ll2string v) = ll2string v := fun hv => stored_eq (ll2string_length hv)
  have hflags : stored (ll2string (if same then STREAM_ITEM_FLAG_SAMEFIELDS else STREAM_ITEM_FLAG_NONE : ℕ)) =
      ll2string (newEntry id argv same).flags := by
    rw [newEntry_flags]
    exact hstored (by cases same <;> exact .ofNat (by decide))
  have hms := hstored (toInt64_isInt64 (id.ms - master.ms))
  have hseq := hstored (toInt64_isInt64 (id.seq - master.seq))
  have hpairs := Entry.flatMap_pair_length argv
  have hid : (newEntry id argv same).id = id := rfl
  unfold Entry.argEles Entry.eles
  cases same with
  | true =>
    have hbody : (newEntry id argv true).body = (argv.map Prod.snd).map stored := by
      simp [newEntry, Entry.body, storedPair, Function.comp_def]
    have hcount : ((3 + (newEntry id argv true).body.length : ℕ) : ℤ) = argv.length + 3 := by
      rw [hbody, List.length_map, List.length_map]
      push_cast
      omega
    have hlast := hstored (v := argv.length + 3) ⟨by omega, by omega⟩
    rw [hcount, hbody, ← hflags]
    simp [hlast, hms, hseq, hid]
  | false =>
    have hbody : (newEntry id argv false).body =
        ll2string argv.length :: (argv.flatMap fun fv => [fv.1, fv.2]).map stored := by
      simp [newEntry, Entry.body, storedPair, List.flatMap_map, List.map_flatMap]
    have hcount : ((3 + (newEntry id argv false).body.length : ℕ) : ℤ) = argv.length + 3 + (argv.length + 1) := by
      rw [hbody, List.length_cons, List.length_map, hpairs]
      push_cast
      omega
    have hlast := hstored (v := argv.length + 3 + (argv.length + 1)) ⟨by omega, by omega⟩
    have hnum := hstored (v := argv.length) ⟨by omega, by omega⟩
    rw [hcount, hbody, ← hflags]
    simp [hlast, hnum, hms, hseq, hid]

variable {s : Stream} {ns ms : List Node} {n : Node} {id : StreamID} {argv : List (Sds × Sds)}

theorem appendEntry_fits {lp : Listpack} {master : StreamID} {same : Bool} (hlen : argv.length < 2 ^ 30)
    (hfits : lpBytes (lp ++ (newEntry id argv same).eles master) ≤ UINT32_MAX) :
    appendEntry lp (if same then STREAM_ITEM_FLAG_SAMEFIELDS else STREAM_ITEM_FLAG_NONE) master id argv =
      .ok (lp ++ (newEntry id argv same).eles master) := by
  rw [← stored_argEles master id hlen same] at hfits ⊢
  rw [appendEntry_eq, lpAppends_fits _ hfits]

/-! ### The first node -/

theorem newNode_fits (hlen : argv.length < 2 ^ 30) (hfits : lpBytes (masterEles argv) ≤ UINT32_MAX) :
    newNode argv = .ok (masterEles argv) := by
  have hlast : ∀ r : Except LpAbort Listpack, (r >>= fun lp => Except.ok lp) = r := fun r => bind_pure r
  have heq : newNode argv = lpAppends lpNew ([ll2string 1, ll2string 0, ll2string argv.length] ++
      argv.map Prod.fst ++ [ll2string 0]) := by
    simp [newNode, lpAppends, lpAppends_append, lpAppendInteger, hlast]
  have hone : stored (ll2string 1) = ll2string 1 := stored_eq (ll2string_length ⟨by norm_num, by norm_num⟩)
  have hzero : stored (ll2string 0) = ll2string 0 := stored_eq (ll2string_length ⟨by norm_num, by norm_num⟩)
  have hnum : stored (ll2string argv.length) = ll2string argv.length := stored_length (by omega)
  have hmaster : lpNew ++ ([ll2string 1, ll2string 0, ll2string argv.length] ++ argv.map Prod.fst ++ [ll2string 0]).map stored =
      masterEles argv := by
    simp [lpNew, masterEles, hone, hzero, hnum, storedPair, Function.comp_def]
  rw [← hmaster] at hfits ⊢
  rw [heq, lpAppends_fits _ hfits]

/-- The first entry of a stream without nodes. -/
theorem streamAppendItem_first (h : Represents s []) (lim : NodeLimits) (ms : U64) (hid : s.last_id < id)
    (hlen : argv.length < 2 ^ 30) (hfits : lpBytes (masterEles argv ++ (newEntry id argv true).eles id) ≤ UINT32_MAX) :
    ∃ s', streamAppendItem lim ms s argv (some id) = .ok (some (s', id)) ∧ s'.last_id = id ∧
      Represents s' [⟨id, (argv.map storedPair).map Prod.fst, [newEntry id argv true]⟩] := by
  have hyes : streamCompareID id s.last_id = .gt := streamCompareID_gt.mpr hid
  have hmaster : lpBytes (masterEles argv) ≤ UINT32_MAX := by
    rw [lpBytes_append] at hfits
    omega
  have hnode : tailNode lim s = .ok none := by
    rcases tailNode_spec h lim with hnode | ⟨ms, n, hns, -⟩
    · exact hnode
    · simp at hns
  refine ⟨_, ?_, rfl, h.fresh hid ⟨rfl, hfits⟩⟩
  unfold streamAppendItem
  rw [Option.getD_some]
  dsimp only
  rw [if_neg (not_not_intro hyes), hnode, ok_bind]
  dsimp only
  rw [newNode_fits hlen hmaster, ok_bind, ok_bind]
  dsimp only
  have happend := @appendEntry_fits id argv (masterEles argv) id true hlen hfits
  rw [if_pos rfl] at happend
  rw [happend, ok_bind]

/-! ### The tail node -/

/-- The tail node takes another entry. -/
def HasRoom (lim : NodeLimits) (n : Node) : Prop :=
  lpBytes n.eles < lim.stream_node_max_bytes ∧ (lim.stream_node_max_entries ≠ 0 → n.valid < lim.stream_node_max_entries)

/-- An entry in the tail node. -/
theorem streamAppendItem_tail (h : Represents s ns) (hns : ns = ms ++ [n]) (lim : NodeLimits) (now : U64)
    (hid : s.last_id < id) (hroom : HasRoom lim n) (hlen : argv.length < 2 ^ 30) {same : Bool}
    (hsame : same = decide (argv.map Prod.fst = n.names))
    (hfits : lpBytes (n.push (newEntry id argv same)).eles ≤ UINT32_MAX) :
    ∃ s', streamAppendItem lim now s argv (some id) = .ok (some (s', id)) ∧ s'.last_id = id ∧
      Represents s' (ms ++ [n.push (newEntry id argv same)]) := by
  have hyes : streamCompareID id s.last_id = .gt := streamCompareID_gt.mpr hid
  have hn : n.Ok := h.ok n (by simp [hns])
  have hlast : s.rax.last? = some (n.master, n.eles) := by
    rw [SortedMap.last?, h.rax, hns, List.map_append, List.getLast?_append]
    rfl
  have hcount : lpGetInteger n.eles (lpFirst n.eles) = .ok (n.valid : ℤ) := Node.read_valid hn
  have hnode : tailNode lim s = .ok (some (n.master, n.eles)) := by
    obtain ⟨hbytes, hentries⟩ := hroom
    unfold tailNode
    rw [hlast]
    dsimp only
    rw [if_neg (by omega)]
    split
    · rename_i hmax
      rw [hcount, ok_bind, if_neg (by have := hentries hmax; omega)]
    · rfl
  rw [Node.eles_push rfl] at hfits
  have hcounted : lpBytes (ll2string (n.valid + 1 : ℕ) :: n.eles.tail) ≤ UINT32_MAX := by
    rw [lpBytes_append] at hfits
    omega
  refine ⟨_, ?_, rfl, h.tail hns hid hsame ⟨rfl, hfits⟩⟩
  unfold streamAppendItem
  rw [Option.getD_some]
  dsimp only
  rw [if_neg (not_not_intro hyes), hnode, ok_bind, hlast]
  dsimp only
  rw [if_neg hroom.1.not_ge, countEntry_eq hn, lpGrown_fits hcounted, ok_bind, ok_bind, ← hsame]
  dsimp only
  rw [ok_bind]
  dsimp only
  rw [appendEntry_fits hlen hfits, ok_bind]

end RedisZk.Streams
