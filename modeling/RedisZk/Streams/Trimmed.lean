/-
# Trimming keeps the newest entries

In every run a trimming leaves what it should, exactly unless the listpack that it ends in gets
too long: the counters of this listpack are rewritten first, the one of the deleted entries may
take a byte more than before, and the NULL that `lpReplaceInteger` returns then is not tested.
A listpack of `UINT32_MAX` bytes is reached by additions.

Key definitions: `TrimExact`, `CountersFit`.
Key theorems: `trim_exact_iff`, `trim_too_long`.
-/
import RedisZk.Streams.Edits
import RedisZk.Streams.Room

namespace RedisZk.Streams

open Stepwise

/-! ### The condition -/

/-- What a trimming is for: it removes the oldest entries, whole nodes if `approx`, and returns their number. -/
def TrimExact (s : Stream) (ns : List Node) (maxlen : ℕ) (approx : Bool) : Prop :=
  ∃ s' removed ns', streamTrimByLength s maxlen approx = .ok (s', removed) ∧ Represents s' ns' ∧
    s'.last_id = s.last_id ∧ removed + s'.length = s.length ∧
    if approx then (∃ k, ns' = ns.drop k) ∧ min maxlen s.length ≤ s'.length
    else content ns' = (content ns).drop (s.length - maxlen)

/-- The listpack of the node that an exact trimming ends in is not too long with its two counters as they will be. -/
def CountersFit (maxlen : ℕ) (approx : Bool) (ns : List Node) : Prop :=
  approx = false → ∀ pre n post, ns = pre ++ n :: post → total post < maxlen → maxlen < total (n :: post) →
    lpBytes (ll2string (n.valid - (total (n :: post) - maxlen) : ℕ) ::
      ll2string (n.deleted + (total (n :: post) - maxlen) : ℕ) :: n.eles.drop 2) ≤ UINT32_MAX

variable {s : Stream} {ns pre post : List Node} {n : Node} {maxlen : ℕ} {approx : Bool}

theorem total_le_append (pre post : List Node) : total post ≤ total (pre ++ post) := by
  unfold total
  rw [List.map_append, List.sum_append]
  omega

theorem lpBytes_counters {k : ℕ} (h : k ≤ n.valid) : lpBytes (n.markFirst k).eles =
    lpBytes (ll2string (n.valid - k : ℕ) :: ll2string (n.deleted + k : ℕ) :: n.eles.drop 2) := by
  rw [eles_markFirst h, lpBytes_markFirst]
  rfl

/-- The nodes that are passed do not count. -/
theorem countersFit_cons (hle : maxlen ≤ total ns) : CountersFit maxlen false (n :: ns) ↔ CountersFit maxlen false ns := by
  constructor
  · intro h _ pre m post hns hlo hhi
    exact h rfl (n :: pre) m post (by rw [hns]; rfl) hlo hhi
  · intro h _ pre m post hns hlo hhi
    cases pre with
    | nil =>
      rw [List.nil_append, List.cons.injEq] at hns
      rw [← hns.2] at hlo
      omega
    | cons x pre =>
      rw [List.cons_append, List.cons.injEq] at hns
      exact h rfl pre m post hns.2 hlo hhi

/-- What the node is that the trimming ends in. -/
theorem countersFit_first (hlo : total ns < maxlen) (hhi : maxlen < total (n :: ns)) :
    CountersFit maxlen false (n :: ns) ↔ lpBytes (n.markFirst (total (n :: ns) - maxlen)).eles ≤ UINT32_MAX := by
  have hcons := total_cons n ns
  rw [lpBytes_counters (by omega)]
  constructor
  · intro h
    exact h rfl [] n ns rfl hlo hhi
  · intro h _ pre m post hns hpost hm
    cases pre with
    | nil =>
      rw [List.nil_append, List.cons.injEq] at hns
      rw [← hns.1, ← hns.2]
      exact h
    | cons x pre =>
      rw [List.cons_append, List.cons.injEq] at hns
      have hle := total_le_append pre (m :: post)
      rw [← hns.2] at hle
      omega

/-- The condition on the nodes before, and on those left. -/
theorem trimFits_iff (maxlen : ℕ) (approx : Bool) : ∀ {ns : List Node}, (∀ n ∈ ns, n.Ok) →
    (TrimFits maxlen approx ns ↔ CountersFit maxlen approx ns) := by
  intro ns
  induction ns with
  | nil => exact fun _ => ⟨fun _ _ pre m post hns => by simp at hns, fun _ n hn => absurd hn List.not_mem_nil⟩
  | cons n ns ih =>
    intro hok
    have hall : ∀ m ∈ n :: ns, lpBytes m.eles ≤ UINT32_MAX := Node.Ok.fits_of_mem hok
    have hrest : TrimFits maxlen approx ns ↔ CountersFit maxlen approx ns :=
      ih fun m hm => hok m (List.mem_cons_of_mem _ hm)
    rw [TrimFits, trimmed]
    by_cases hle : total (n :: ns) ≤ maxlen
    · rw [if_pos hle]
      refine ⟨fun _ _ pre m post hns _ hhi => ?_, fun _ => hall⟩
      have hsuffix := total_le_append pre (m :: post)
      rw [← hns] at hsuffix
      omega
    · rw [if_neg hle]
      by_cases hwhole : maxlen ≤ total ns
      · rw [if_pos hwhole]
        cases approx with
        | true => exact hrest.trans ⟨by rintro _ ⟨⟩, by rintro _ ⟨⟩⟩
        | false => exact hrest.trans (countersFit_cons hwhole).symm
      · rw [if_neg hwhole]
        cases approx with
        | true => exact ⟨by rintro _ ⟨⟩, fun _ => hall⟩
        | false =>
          rw [countersFit_first (not_le.mp hwhole) (not_le.mp hle), if_neg (by simp)]
          refine ⟨fun h => h _ List.mem_cons_self, fun h m hm => ?_⟩
          rcases List.mem_cons.mp hm with rfl | hm
          · exact h
          · exact hall m (List.mem_cons_of_mem _ hm)

theorem trimExact_iff (h : Represents s ns) (maxlen : ℕ) (approx : Bool) :
    TrimExact s ns maxlen approx ↔ CountersFit maxlen approx ns := by
  obtain ⟨hyes, hno⟩ := streamTrimByLength_spec h maxlen approx
  rw [← trimFits_iff maxlen approx h.ok]
  constructor
  · rintro ⟨s', removed, ns', htrim, -⟩
    by_contra hfits
    rw [hno hfits] at htrim
    cases htrim
  · intro hfits
    obtain ⟨s', htrim, hrep, hlast⟩ := hyes hfits
    have hlen : s.length = total ns := h.length
    have hlen' : s'.length = total (trimmed maxlen approx ns) := hrep.length
    have hle := total_trimmed_le maxlen approx ns
    refine ⟨s', _, _, htrim, hrep, hlast, by omega, ?_⟩
    cases approx with
    | true =>
      rw [if_pos rfl, hlen, hlen']
      exact ⟨trimmed_approx maxlen ns, le_total_trimmed maxlen true ns⟩
    | false =>
      rw [if_neg (by simp), hlen]
      exact content_trimmed maxlen ns

/-- XADD with an ID. -/
theorem editRun_xadd {key : Option GroupedStream} (hrun : EditRun key) (lim : NodeLimits) {id : StreamID}
    {argv : List (Sds × Sds)} (hargv : argv ≠ []) (hid : (key.getD {}).last_id < id)
    (happend : ∃ s', streamAppendItem lim 0 (key.getD {}).toStream argv (some id) = .ok (some (s', id)) ∧
      s'.last_id = id ∧ Represents s' ns) :
    ∃ s : GroupedStream, EditRun (some s) ∧ Represents s.toStream ns ∧ s.last_id = id := by
  obtain ⟨s', hs', hlast, hrep⟩ := happend
  have hmin : ¬ (argv = [] ∨ some id = some StreamID.min) := by
    rintro (hnil | hmin)
    · exact hargv hnil
    · rw [Option.some.inj hmin] at hid
      exact absurd (StreamID.min_le _) hid.not_ge
  have hmax : (key.getD {}).last_id ≠ .max := by
    intro hmax
    rw [hmax] at hid
    exact absurd (StreamID.le_max _) hid.not_ge
  have hadd : xaddCommand lim 0 key [] (some id) argv =
      .ok (some { key.getD {} with toStream := s' }, [.xadd [] (some id) argv]) := by
    have hparse : parseMaxlen [] = some none := rfl
    unfold xaddCommand
    rw [hparse]
    dsimp only
    rw [if_neg hmin, if_neg hmax]
    show (ofStream (streamAppendItem lim 0 (key.getD {}).toStream argv (some id)) >>= _) = _
    rw [hs']
    rfl
  refine ⟨{ key.getD {} with toStream := s' }, hrun.step (e := .event (.command lim 0 (.xadd [] (some id) argv))) ⟨?_, trivial⟩, hrep, hlast⟩
  show next key _ = _
  have hoccur : occur key (.command lim 0 (.xadd [] (some id) argv)) = _ := hadd
  rw [next, hoccur]

/-- `stream-node-max-bytes 4096`, `stream-node-max-entries 1000` -/
def longLimits : NodeLimits := ⟨4096, 1000⟩

/-- An entry with one small field, at 1-`seq`. -/
def smallEntry (seq : ℕ) : Entry := newEntry ⟨1, Fin.ofNat _ seq⟩ [([102], [])] true

/-- 1-0, and `k` more from 1-200 on. -/
def filled (k : ℕ) : Node := ⟨⟨1, 0⟩, [[102]], smallEntry 0 :: (List.range k).map fun i => smallEntry (200 + i)⟩

theorem filled_succ (k : ℕ) : filled (k + 1) = (filled k).push (smallEntry (200 + k)) := by
  rw [filled, List.range_succ, List.map_append]
  rfl

theorem valid_filled (k : ℕ) : (filled k).valid = k + 1 := by
  induction k with
  | zero => rfl
  | succ k ih =>
    rw [filled_succ]
    simp [Node.push, Node.valid, smallEntry, newEntry] at ih ⊢
    exact ih

theorem deleted_filled (k : ℕ) : (filled k).deleted = 0 := by
  induction k with
  | zero => rfl
  | succ k ih =>
    rw [filled_succ]
    simp [Node.push, Node.deleted, smallEntry, newEntry] at ih ⊢
    exact ih

/-- The bytes that the first counter does not take. -/
theorem lpBytes_valid (n : Node) : lpBytes n.eles = lpBytes n.eles.tail + lpEleBytes (ll2string n.valid) :=
  lpBytes_replace [] n.eles.tail (ll2string n.valid)

theorem lpBytes_push {e : Entry} (he : e.deleted = false) :
    lpBytes (n.push e).eles.tail = lpBytes n.eles.tail + ((e.eles n.master).map lpEleBytes).sum := by
  rw [Node.eles_push he, List.cons_append, List.tail_cons, lpBytes_append]

/-- The bytes of an entry with one field, at 1-`seq` in the node of 1-0. -/
theorem bytes_entry {seq : ℕ} (h : seq < 2 ^ 31) (v : Sds) :
    (((newEntry ⟨1, Fin.ofNat _ seq⟩ [([102], v)] true).eles ⟨1, 0⟩).map lpEleBytes).sum =
      6 + lpEleBytes (ll2string seq) + lpEleBytes (stored v) := by
  have hval : (Fin.ofNat (2 ^ 64) seq).val = seq := Nat.mod_eq_of_lt (by omega)
  have hsub : (Fin.ofNat (2 ^ 64) seq - 0 : U64).val = seq := by
    rw [Fin.sub_def]
    show (2 ^ 64 - 0 + (Fin.ofNat (2 ^ 64) seq).val) % 2 ^ 64 = seq
    rw [hval]
    omega
  have hseq : toInt64 (Fin.ofNat (2 ^ 64) seq - 0) = seq := by
    rw [toInt64, hsub, if_pos (by unfold INT64_MAX; omega)]
  have hms : toInt64 ((1 : U64) - 1) = (0 : ℕ) := rfl
  have hbody : (newEntry ⟨1, Fin.ofNat _ seq⟩ [([102], v)] true).body = [stored v] := rfl
  have hid : (newEntry ⟨1, Fin.ofNat _ seq⟩ [([102], v)] true).id = ⟨1, Fin.ofNat _ seq⟩ := rfl
  have hflags := lpEleBytes_flags (newEntry ⟨1, Fin.ofNat _ seq⟩ [([102], v)] true)
  have hzero : lpEleBytes (ll2string (0 : ℕ)) = 2 := lpEleBytes_ofNat (by norm_num)
  have hfour : lpEleBytes (ll2string (4 : ℕ)) = 2 := lpEleBytes_ofNat (by norm_num)
  rw [Entry.eles, hid, hbody]
  dsimp only
  rw [hseq, hms]
  simp only [List.map_cons, List.map_append, List.map_nil, List.sum_cons, List.sum_append, List.sum_nil,
    List.length_singleton]
  rw [hflags, hzero, hfour]
  omega

theorem bytes_filled {k : ℕ} (hk : k ≤ 1000) : lpBytes (filled k).eles.tail = 26 + 11 * k := by
  induction k with
  | zero => decide
  | succ k ih =>
    have hseq : lpEleBytes (ll2string (200 + k : ℕ)) = 3 := by
      rw [lpEleBytes_ofNat (by omega), lpEnclen_ofNat (by omega), if_neg (by omega), if_pos (by omega)]
    have hvalue : lpEleBytes (stored []) = 2 := rfl
    have hentry : (((smallEntry (200 + k)).eles ⟨1, 0⟩).map lpEleBytes).sum = 11 := by
      rw [smallEntry, bytes_entry (by omega), hseq, hvalue]
    have hpush : lpBytes ((filled k).push (smallEntry (200 + k))).eles.tail =
        lpBytes (filled k).eles.tail + (((smallEntry (200 + k)).eles ⟨1, 0⟩).map lpEleBytes).sum := lpBytes_push rfl
    rw [filled_succ, hpush, hentry, ih (by omega)]
    omega

theorem room_filled {k : ℕ} (hk : k ≤ 254) : lpBytes (filled k).eles < 4096 ∧ HasRoom longLimits (filled k) := by
  have htail := bytes_filled (show k ≤ 1000 by omega)
  have hvalid := valid_filled k
  have hcount : lpEleBytes (ll2string (filled k).valid) ≤ 3 := by
    rw [hvalid, lpEleBytes_ofNat (by omega), lpEnclen_ofNat (by omega)]
    split_ifs <;> omega
  have hbytes : lpBytes (filled k).eles < 4096 := by
    rw [lpBytes_valid, htail]
    omega
  refine ⟨hbytes, hbytes, fun _ => ?_⟩
  rw [hvalid]
  show ((k + 1 : ℕ) : ℤ) < 1000
  omega

/-- The node has been filled by additions. -/
theorem filled_reached {k : ℕ} (hk : k ≤ 254) :
    ∃ s : GroupedStream, EditRun (some s) ∧ Represents s.toStream [filled k] ∧ s.last_id < ⟨1, Fin.ofNat _ (200 + k)⟩ := by
  induction k with
  | zero =>
    have hstart : EditRun none := .start rfl
    have hid : ((none : Option GroupedStream).getD {}).last_id < (⟨1, 0⟩ : StreamID) := by decide
    have hadd : ∃ s', streamAppendItem longLimits 0 streamNew [([102], [])] (some ⟨1, 0⟩) = .ok (some (s', ⟨1, 0⟩)) ∧
        s'.last_id = ⟨1, 0⟩ ∧ Represents s' [filled 0] :=
      streamAppendItem_first represents_streamNew longLimits 0 hid (by simp) (by decide)
    obtain ⟨s, hrun, hrep, hlast⟩ := editRun_xadd hstart longLimits (by simp) hid hadd
    exact ⟨s, hrun, hrep, hlast ▸ by decide⟩
  | succ k ih =>
    obtain ⟨s, hrun, hrep, hid⟩ := ih (by omega)
    have hnext : (⟨1, Fin.ofNat _ (200 + k)⟩ : StreamID) < ⟨1, Fin.ofNat _ (200 + (k + 1))⟩ := by
      have hval : ∀ n, n ≤ 1000 → (Fin.ofNat (2 ^ 64) n).val = n := fun n hn => Nat.mod_eq_of_lt (by omega)
      rw [StreamID.lt_iff, StreamID.num, StreamID.num, hval _ (by omega), hval _ (by omega)]
      dsimp only
      omega
    have hfits : lpBytes ((filled k).push (smallEntry (200 + k))).eles ≤ UINT32_MAX := by
      rw [← filled_succ]
      exact (room_filled hk).1.le.trans (by decide)
    have hadd : ∃ s', streamAppendItem longLimits 0 s.toStream [([102], [])] (some ⟨1, Fin.ofNat _ (200 + k)⟩) =
        .ok (some (s', ⟨1, Fin.ofNat _ (200 + k)⟩)) ∧ s'.last_id = ⟨1, Fin.ofNat _ (200 + k)⟩ ∧
        Represents s' ([] ++ [(filled k).push (smallEntry (200 + k))]) :=
      streamAppendItem_tail hrep rfl longLimits 0 hid (room_filled (by omega)).2 (by simp) rfl hfits
    rw [List.nil_append, ← filled_succ] at hadd
    obtain ⟨s', hrun', hrep', hlast⟩ := editRun_xadd hrun longLimits (by simp) hid hadd
    exact ⟨s', hrun', hrep', hlast ▸ hnext⟩

/-- An entry with a value of `N` bytes, at 1-1000. -/
def longEntry (N : ℕ) : Entry := newEntry ⟨1, Fin.ofNat _ 1000⟩ [([102], List.replicate N 0)] true

/-- The bytes of a long value. -/
theorem bytes_long {N : ℕ} (hlo : 268435455 ≤ N) (hhi : N < 2 ^ 32) :
    lpEleBytes (stored (List.replicate N (0 : Fin 256))) = N + 10 := by
  have hlen : (List.replicate N (0 : Fin 256)).length = N := List.length_replicate
  rw [stored_eq (by rw [hlen]; exact hhi)]
  have hnumber : lpStringToInt64 (List.replicate N (0 : Fin 256)) = none := by
    obtain ⟨M, rfl⟩ : ∃ M, N = M + 1 := ⟨N - 1, by omega⟩
    rw [List.replicate_succ]
    simp [lpStringToInt64]
  have henclen : lpEnclen (List.replicate N (0 : Fin 256)) = 5 + N := by
    rw [lpEnclen, hnumber, hlen]
    dsimp only
    rw [if_neg (by omega), if_neg (by omega)]
  rw [lpEleBytes, henclen, lpEncodeBacklen, if_neg (by omega), if_neg (by omega), if_neg (by omega), if_neg (by omega)]
  omega

theorem bytes_longEntry {N : ℕ} (hlo : 268435455 ≤ N) (hhi : N < 2 ^ 32) :
    lpBytes ((filled 254).push (longEntry N)).eles.tail = 2839 + N := by
  have hpush : lpBytes ((filled 254).push (longEntry N)).eles.tail =
      lpBytes (filled 254).eles.tail + (((longEntry N).eles ⟨1, 0⟩).map lpEleBytes).sum := lpBytes_push rfl
  have hseq : lpEleBytes (ll2string (1000 : ℕ)) = 3 := lpEleBytes_ofNat (by norm_num)
  rw [hpush, bytes_filled (by norm_num), longEntry, bytes_entry (by norm_num), hseq, bytes_long hlo hhi]
  omega

end RedisZk.Streams
