/-
# SCAN misses no key

`dictScan` passes the entries of one bucket, or of a bucket of the smaller table
and of the buckets of the larger one it is divided into, and returns the next
cursor. The cursors of an iteration come in the order of their bits reversed, and
so do the hashes: those before the cursor have been passed, whatever the sizes of
the tables were when they were. A key that stays is therefore passed before the
cursor is 0 again.

Key definitions: `rev`, `dictScan`, `ScanState`, `ScanRun`.
Key theorems: `rev_eq_reverse`, `dictScan_spec`, `scan_passes_every_key`.
-/
import RedisZk.Dict.Refine
import RedisZk.Lib.RevCursor

namespace RedisZk.Hash

open Stepwise (Within Run Steps)
open RevCursor (pos pos_zero pos_lt lowMask blockEnd)

variable {κ ν : Type} {t : DictType κ} {w : Prop} {d d' : Dict κ ν} {key : κ} {ht ht' : DictHt κ ν} {v : BitVec 64}

/-! ### The code -/

/-- One turn of the loop of `rev`: the halves of every group of `2*s` bits change places. -/
def revStep : BitVec 64 × BitVec 64 → ℕ → BitVec 64 × BitVec 64
  | (mask, v), s =>
    let mask := mask ^^^ (mask <<< s)
    (mask, ((v >>> s) &&& mask) ||| ((v <<< s) &&& ~~~mask))

/-- `rev`, "Function to reverse bits". -/
def rev (v : BitVec 64) : BitVec 64 := ([32, 16, 8, 4, 2, 1].foldl revStep (BitVec.allOnes 64, v)).2

/-- `v |= ~m; v = rev(v); v++; v = rev(v);` -/
def nextCursor (m v : BitVec 64) : BitVec 64 := rev (rev (v ||| ~~~m) + 1)

/-- The loop over the expansions of the cursor in the larger table, which has at most as
many as it has buckets. -/
def scanExpansions (t1 : DictHt κ ν) (m0 : BitVec 64) :
    ℕ → BitVec 64 → List (κ × ν) → Except DictAbort (BitVec 64 × List (κ × ν))
  | 0, v, passed => .ok (v, passed)
  | fuel + 1, v, passed => do
    let c ← t1.bucket (idxOf v t1.sizemask)
    let v := nextCursor t1.sizemask v
    if v &&& (m0 ^^^ t1.sizemask) ≠ 0 then scanExpansions t1 m0 fuel v (passed ++ c) else .ok (v, passed ++ c)

/-- `dictScan`: the next cursor, and the entries passed to `fn`. -/
def dictScan (d : Dict κ ν) (v : BitVec 64) : Except DictAbort (BitVec 64 × List (κ × ν)) :=
  if dictSize d = 0 then .ok (0, [])
  else if dictIsRehashing d = false then do
    let c ← d.ht0.bucket (idxOf v d.ht0.sizemask)
    .ok (nextCursor d.ht0.sizemask v, c)
  else do
    -- t0 is the smaller table
    let (t0, t1) := if d.ht0.size > d.ht1.size then (d.ht1, d.ht0) else (d.ht0, d.ht1)
    let c ← t0.bucket (idxOf v t0.sizemask)
    scanExpansions t1 t0.sizemask t1.size v c

/-! ### The reversed cursor -/

/-- Where the mask is set the bit comes from `s` above, elsewhere from `s` below. -/
def Swaps (mask : BitVec 64) (s : ℕ) : Prop :=
  ∀ i < 64, if mask.getLsbD i then i + s = i ^^^ s else s ≤ i ∧ i - s = i ^^^ s

instance (mask : BitVec 64) (s : ℕ) : Decidable (Swaps mask s) := inferInstanceAs (Decidable (∀ i < 64, _))

theorem Swaps.getLsbD {mask : BitVec 64} {s : ℕ} (h : Swaps mask s) {i : ℕ} (hi : i < 64) :
    (((v >>> s) &&& mask) ||| ((v <<< s) &&& ~~~mask)).getLsbD i = v.getLsbD (i ^^^ s) := by
  have hs := h i hi
  rw [BitVec.getLsbD_or, BitVec.getLsbD_and, BitVec.getLsbD_and, BitVec.getLsbD_ushiftRight, BitVec.getLsbD_shiftLeft,
    BitVec.getLsbD_not, decide_eq_true hi]
  cases hm : mask.getLsbD i with
  | true =>
    rw [hm] at hs
    simp only [if_true] at hs
    rw [Nat.add_comm, hs]
    simp
  | false =>
    rw [hm] at hs
    obtain ⟨hle, hsub⟩ := hs
    rw [hsub]
    simp [hle]

theorem rev_getLsbD {i : ℕ} (hi : i < 64) :
    (rev v).getLsbD i = v.getLsbD (i ^^^ 1 ^^^ 2 ^^^ 4 ^^^ 8 ^^^ 16 ^^^ 32) := by
  have hlt : ∀ {j s : ℕ}, j < 64 → s < 64 → j ^^^ s < 64 := fun hj hs => Nat.xor_lt_two_pow (n := 6) hj hs
  simp only [rev, List.foldl_cons, List.foldl_nil, revStep]
  rw [Swaps.getLsbD (by decide) hi, Swaps.getLsbD (by decide) (hlt hi (by decide)),
    Swaps.getLsbD (by decide) (hlt (hlt hi (by decide)) (by decide)),
    Swaps.getLsbD (by decide) (hlt (hlt (hlt hi (by decide)) (by decide)) (by decide)),
    Swaps.getLsbD (by decide) (hlt (hlt (hlt (hlt hi (by decide)) (by decide)) (by decide)) (by decide)),
    Swaps.getLsbD (by decide) (hlt (hlt (hlt (hlt (hlt hi (by decide)) (by decide)) (by decide)) (by decide)) (by decide))]

/-- `rev` reverses the bits. -/
theorem rev_eq_reverse (v : BitVec 64) : rev v = v.reverse := by
  have hidx : ∀ i < 64, i ^^^ 1 ^^^ 2 ^^^ 4 ^^^ 8 ^^^ 16 ^^^ 32 = 64 - 1 - i := by decide
  apply BitVec.eq_of_getLsbD_eq
  intro i hi
  rw [rev_getLsbD hi, hidx i hi, BitVec.getLsbD_reverse, BitVec.getMsbD_eq_getLsbD, decide_eq_true hi, Bool.true_and]

theorem nextCursor_eq (m v : BitVec 64) : nextCursor m v = RevCursor.next m v := by
  rw [nextCursor, rev_eq_reverse, rev_eq_reverse, RevCursor.next]

/-! ### One call -/

/-- The place of a key in the order of the cursors. -/
def place (t : DictType κ) (key : κ) : ℕ := pos (t.hashFunction key)

/-- All entries with a place between two are passed. -/
def Covers (t : DictType κ) (l passed : List (κ × ν)) (r r' : ℕ) : Prop :=
  ∀ e ∈ l, r ≤ place t e.1 → place t e.1 < r' → e ∈ passed

theorem Covers.append {l passed c : List (κ × ν)} {r r' r'' : ℕ} (h : Covers t l passed r r')
    (hc : ∀ e ∈ l, r' ≤ place t e.1 → place t e.1 < r'' → e ∈ c) : Covers t l (passed ++ c) r r'' := by
  intro e he hle hlt
  by_cases hr : place t e.1 < r'
  · exact List.mem_append_left _ (h e he hle hr)
  · exact List.mem_append_right _ (hc e he (by omega) hlt)

theorem HtInv.mask (h : HtInv t w ht) (hs : ht.size ≠ 0) :
    ∃ k, k ≤ 63 ∧ ht.size = 2 ^ k ∧ ht.sizemask = lowMask 64 k := by
  rcases h.shape with ⟨h0, -⟩ | ⟨k, -, hk, hsize, hmask⟩
  · exact absurd h0 hs
  · exact ⟨k, hk, hsize, hmask⟩

/-- The bucket of a cursor has the entries of its block. -/
theorem HtInv.block (h : HtInv t w ht) {k : ℕ} (hk : k ≤ 64) (hmask : ht.sizemask = lowMask 64 k) {c : Chain κ ν}
    (hc : ht.table[idxOf v ht.sizemask]? = some c) :
    ∀ e ∈ ht.table.flatten, pos v ≤ place t e.1 → place t e.1 < blockEnd (2 ^ (64 - k)) (pos v) → e ∈ c := by
  intro e he hle hlt
  obtain ⟨j, b, hb, heb⟩ := Assoc.mem_flatten_iff.mp he
  have hsame : t.hashFunction e.1 &&& lowMask 64 k = v &&& lowMask 64 k :=
    (RevCursor.and_lowMask_eq_iff hk).mpr (RevCursor.div_eq_of_between hle hlt)
  have hj := h.placed j b hb e heb
  rw [idxOf, hmask, hsame] at hj
  rw [idxOf, hmask, hj, hb] at hc
  rw [← Option.some.inj hc]
  exact heb

theorem pos_nextCursor {k : ℕ} (hk : k ≤ 64) (v : BitVec 64) :
    pos (nextCursor (lowMask 64 k) v) = blockEnd (2 ^ (64 - k)) (pos v) % 2 ^ 64 := by
  rw [nextCursor_eq, RevCursor.pos_next hk]

/-- The end of a block is not after the last place. -/
theorem blockEnd_le {k : ℕ} (hk : k ≤ 64) (v : BitVec 64) : blockEnd (2 ^ (64 - k)) (pos v) ≤ 2 ^ 64 :=
  RevCursor.blockEnd_le_of_dvd (Nat.pow_dvd_pow 2 (by omega)) (pos_lt v)

/-- The loop over the expansions ends at the end of the block of the smaller table. -/
theorem scanExpansions_spec (h : HtInv t w ht) {k0 k1 : ℕ} (h01 : k0 ≤ k1) (hk1 : k1 ≤ 63) (hsize : ht.size ≠ 0)
    (hmask : ht.sizemask = lowMask 64 k1) {r : ℕ} (fuel : ℕ) (v : BitVec 64) (passed : List (κ × ν))
    (hfuel : blockEnd (2 ^ (64 - k0)) (pos v) / 2 ^ (64 - k1) ≤ pos v / 2 ^ (64 - k1) + fuel)
    (hcov : Covers t ht.table.flatten passed r (pos v)) :
    Within (fun out => pos out.1 = blockEnd (2 ^ (64 - k0)) (pos v) % 2 ^ 64 ∧ (∀ e ∈ passed, e ∈ out.2) ∧
        Covers t ht.table.flatten out.2 r (blockEnd (2 ^ (64 - k0)) (pos v))) (fun _ => ¬ w)
      (scanExpansions ht (lowMask 64 k0) fuel v passed) := by
  induction fuel generalizing v passed with
  | zero =>
    -- there is always an expansion left
    obtain ⟨q, hq⟩ : 2 ^ (64 - k1) ∣ blockEnd (2 ^ (64 - k0)) (pos v) :=
      (Nat.pow_dvd_pow 2 (by omega)).trans RevCursor.dvd_blockEnd
    have hlt := RevCursor.lt_blockEnd (Nat.two_pow_pos (64 - k0)) (pos v)
    rw [hq] at hlt hfuel
    rw [Nat.mul_div_cancel_left q (Nat.two_pow_pos _)] at hfuel
    have := Nat.div_lt_of_lt_mul hlt
    omega
  | succ fuel ih =>
    have hB0 := Nat.two_pow_pos (64 - k0)
    have hB1 := Nat.two_pow_pos (64 - k1)
    have hdvd : 2 ^ (64 - k1) ∣ 2 ^ (64 - k0) := Nat.pow_dvd_pow 2 (by omega)
    have hmono : blockEnd (2 ^ (64 - k1)) (pos v) ≤ blockEnd (2 ^ (64 - k0)) (pos v) := RevCursor.blockEnd_mono hdvd hB0
    have hend := blockEnd_le (show k0 ≤ 64 by omega) v
    have hlt := RevCursor.lt_blockEnd hB1 (pos v)
    unfold scanExpansions
    refine Within.bind (h.bucket hsize v) fun c hc => ?_
    have hcov' : Covers t ht.table.flatten (passed ++ c) r (blockEnd (2 ^ (64 - k1)) (pos v)) :=
      hcov.append (h.block (by omega) hmask hc)
    have hpos := pos_nextCursor (show k1 ≤ 64 by omega) v
    rw [hmask]
    dsimp only
    -- whether the loop goes on depends on whether this is the last expansion
    by_cases hlast : blockEnd (2 ^ (64 - k1)) (pos v) = blockEnd (2 ^ (64 - k0)) (pos v)
    · have hzero : nextCursor (lowMask 64 k1) v &&& (lowMask 64 k0 ^^^ lowMask 64 k1) = 0 := by
        rw [RevCursor.and_xor_eq_zero_iff h01 (by omega)]
        · rw [hpos, hlast, Nat.mod_mod_of_dvd _ (Nat.pow_dvd_pow 2 (by omega))]
          exact Nat.mod_eq_zero_of_dvd RevCursor.dvd_blockEnd
        · rw [hpos, Nat.mod_mod_of_dvd _ (Nat.pow_dvd_pow 2 (by omega))]
          exact Nat.mod_eq_zero_of_dvd RevCursor.dvd_blockEnd
      rw [if_neg (not_not_intro hzero)]
      refine ⟨?_, fun e he => List.mem_append_left _ he, ?_⟩
      · rw [← hlast]
        exact hpos
      · rw [← hlast]
        exact hcov'
    · have hinside : blockEnd (2 ^ (64 - k1)) (pos v) < blockEnd (2 ^ (64 - k0)) (pos v) := by omega
      have hmod : pos (nextCursor (lowMask 64 k1) v) = blockEnd (2 ^ (64 - k1)) (pos v) := by
        rw [hpos, Nat.mod_eq_of_lt (by omega)]
      have hne : nextCursor (lowMask 64 k1) v &&& (lowMask 64 k0 ^^^ lowMask 64 k1) ≠ 0 := by
        rw [Ne, RevCursor.and_xor_eq_zero_iff h01 (by omega) (by
          rw [hmod]
          exact Nat.mod_eq_zero_of_dvd RevCursor.dvd_blockEnd), hmod]
        intro hz
        have hle := RevCursor.blockEnd_le_of_dvd (Nat.dvd_of_mod_eq_zero hz) hlt
        omega
      rw [if_pos hne]
      have hsame : blockEnd (2 ^ (64 - k0)) (pos (nextCursor (lowMask 64 k1) v)) = blockEnd (2 ^ (64 - k0)) (pos v) := by
        rw [hmod]
        exact RevCursor.blockEnd_eq_of_between hlt.le hinside
      refine Within.mono (ih _ (passed ++ c) ?_ ?_) ?_ fun _ => id
      · rw [hsame, hmod, RevCursor.blockEnd_div hB1]
        omega
      · rw [hmod]
        exact hcov'
      · rintro out ⟨h1, h2, h3⟩
        rw [hsame] at h1 h3
        exact ⟨h1, fun e he => h2 e (List.mem_append_left _ he), h3⟩

/-- A call passes every entry from the place of the cursor on and before the place of the
next one, which is further on, or 0 after the last place. -/
theorem dictScan_spec (h : DictInv t w d) (v : BitVec 64) :
    Within (fun out => ∃ r, pos v < r ∧ r ≤ 2 ^ 64 ∧ pos out.1 = r % 2 ^ 64 ∧ Covers t (entries d) out.2 (pos v) r)
      (fun _ => ¬ w) (dictScan d v) := by
  unfold dictScan
  split
  · rename_i hzero
    refine ⟨2 ^ 64, pos_lt v, le_rfl, ?_, ?_⟩
    · rw [Nat.mod_self]
      exact pos_zero
    · rw [h.entries_eq_nil.mpr hzero]
      intro e he
      cases he
  · rename_i hne
    split
    · rename_i hidle
      have hs := h.size_ne_zero (fun hnil => hne (h.entries_eq_nil.mp hnil))
      obtain ⟨k, hk, -, hmask⟩ := h.ht0.mask hs
      refine Within.bind (h.ht0.bucket hs v) fun c hc => ?_
      refine ⟨_, RevCursor.lt_blockEnd (Nat.two_pow_pos (64 - k)) (pos v), blockEnd_le (by omega) v, ?_, ?_⟩
      · rw [hmask]
        exact pos_nextCursor (by omega) v
      · rw [h.entries_idle hidle]
        exact h.ht0.block (by omega) hmask hc
    · rename_i hactive
      obtain ⟨hs0, hs1⟩ := h.rehashing (by simpa using hactive)
      -- the two tables, the smaller one first
      have hboth : ∀ t0 t1 : DictHt κ ν, HtInv t w t0 → HtInv t w t1 → t0.size ≠ 0 → t1.size ≠ 0 → t0.size ≤ t1.size →
          (∀ e, e ∈ entries d ↔ e ∈ t0.table.flatten ∨ e ∈ t1.table.flatten) →
          Within (fun out => ∃ r, pos v < r ∧ r ≤ 2 ^ 64 ∧ pos out.1 = r % 2 ^ 64 ∧ Covers t (entries d) out.2 (pos v) r)
            (fun _ => ¬ w) (do
              let c ← t0.bucket (idxOf v t0.sizemask)
              scanExpansions t1 t0.sizemask t1.size v c) := by
        intro t0 t1 h0 h1 hs0 hs1 hle hentries
        obtain ⟨k0, hk0, hsize0, hmask0⟩ := h0.mask hs0
        obtain ⟨k1, hk1, hsize1, hmask1⟩ := h1.mask hs1
        have h01 : k0 ≤ k1 := (Nat.pow_le_pow_iff_right Nat.one_lt_two).mp (by rw [← hsize0, ← hsize1]; exact hle)
        refine Within.bind (h0.bucket hs0 v) fun c hc => ?_
        have hend := blockEnd_le (show k0 ≤ 64 by omega) v
        have hfuel : blockEnd (2 ^ (64 - k0)) (pos v) / 2 ^ (64 - k1) ≤ pos v / 2 ^ (64 - k1) + t1.size := by
          have hall : 2 ^ k1 * 2 ^ (64 - k1) = 2 ^ 64 := by
            rw [← Nat.pow_add, Nat.add_sub_cancel' (by omega)]
          have hdiv := Nat.div_le_div_right (c := 2 ^ (64 - k1)) hend
          rw [← hall, Nat.mul_div_cancel _ (Nat.two_pow_pos _), ← hsize1] at hdiv
          exact hdiv.trans (Nat.le_add_left _ _)
        rw [hmask0]
        refine Within.mono (scanExpansions_spec (r := pos v) h1 h01 hk1 hs1 hmask1 t1.size v c hfuel ?_) ?_ fun _ => id
        · intro e _ hle hlt
          omega
        · rintro out ⟨hout, hkeep, hcov⟩
          refine ⟨_, RevCursor.lt_blockEnd (Nat.two_pow_pos (64 - k0)) (pos v), hend, hout, ?_⟩
          intro e he hle hlt
          rcases (hentries e).mp he with he | he
          · exact hkeep e (h0.block (by omega) hmask0 hc e he hle hlt)
          · exact hcov e he hle hlt
      by_cases hsize : d.ht0.size > d.ht1.size
      · rw [if_pos hsize]
        refine hboth d.ht1 d.ht0 h.ht1 h.ht0 hs1 hs0 (by omega) fun e => ?_
        rw [entries, List.mem_append, or_comm]
      · rw [if_neg hsize]
        refine hboth d.ht0 d.ht1 h.ht0 h.ht1 hs0 hs1 (by omega) fun e => ?_
        rw [entries, List.mem_append]

/-! ### Whole iterations -/

/-- A dict, the cursor of an iteration over it, whether the iteration began, and the entries
passed to the callback so far. -/
structure ScanState (κ ν : Type) where
  dict : Dict κ ν
  cursor : BitVec 64 := 0
  began : Bool := false
  passed : List (κ × ν) := []

/-- Between two calls the dict is used in any way. -/
inductive ScanEvent (κ ν : Type)
  | op (op : DictOp κ ν)
  | scan

/-- The iteration is over when the cursor is 0 again. -/
def nextScan (t : DictType κ) (s : ScanState κ ν) : ScanEvent κ ν → Option (ScanState κ ν)
  | .op op =>
    match runOp t s.dict op with
    | .ok (d, _) => some { s with dict := d }
    | .error _ => none
  | .scan =>
    if s.began = true ∧ s.cursor = 0 then none
    else
      match dictScan s.dict s.cursor with
      | .ok (v, c) => some { s with cursor := v, began := true, passed := s.passed ++ c }
      | .error _ => none

def nextDict (t : DictType κ) (d : Dict κ ν) (op : DictOp κ ν) : Option (Dict κ ν) :=
  match runOp t d op with
  | .ok (d, _) => some d
  | .error _ => none

/-- A dict made by `dictCreate` and used by operations, which fit if `w`. -/
abbrev DictRun (t : DictType κ) (w : Prop) : Dict κ ν → Prop :=
  Run (fun d => d = {}) (Steps (nextDict t) fun d op _ => w → Fits d op)

/-- A key is in the dict. -/
def Present (t : DictType κ) (key : κ) (d : Dict κ ν) : Prop := ∃ e ∈ entries d, t.keyCompare key e.1 = true

/-- The operations between the calls fit if `w`. -/
def EventFits (w : Prop) (s : ScanState κ ν) : ScanEvent κ ν → Prop
  | .op op => w → Fits s.dict op
  | .scan => True

/-- An iteration that begins on any dict, and during which the key is present all the time. -/
abbrev ScanRun (t : DictType κ) (w : Prop) (key : κ) : ScanState κ ν → Prop :=
  Run (fun s => ∃ d, s = { dict := d } ∧ DictRun t w d ∧ Present t key d)
    (Steps (nextScan t) fun s e s' => EventFits w s e ∧ Present t key s'.dict)

theorem DictRun.inv (h : DictRun t w d) : DictInv t w d := by
  refine Run.invariant (I := DictInv t w) h (fun d hd => hd ▸ .empty) ?_
  rintro d op d' - hi ⟨hn, hfit⟩
  have hdoes := runOp_does hi op hfit
  unfold nextDict at hn
  split at hn
  · rename_i d1 out hr
    rw [hr] at hdoes
    rw [← Option.some.inj hn]
    exact hdoes.1
  · cases hn

/-- Among the entries passed there is one of the key. -/
def Passed (t : DictType κ) (key : κ) (passed : List (κ × ν)) : Prop := ∃ e ∈ passed, t.keyCompare key e.1 = true

/-- The keys before the cursor have been passed, and all of them when it is 0 again. -/
structure ScanInv (t : DictType κ) (w : Prop) (key : κ) (s : ScanState κ ν) : Prop where
  dict : DictInv t w s.dict
  present : Present t key s.dict
  before : place t key < pos s.cursor → Passed t key s.passed
  ended : s.began = true → s.cursor = 0 → Passed t key s.passed

/-- A call passes the key if its place is between the cursors. -/
theorem Covers.passed {c : List (κ × ν)} {r r' : ℕ} (h : Covers t (entries d) c r r') (hp : Present t key d)
    (hle : r ≤ place t key) (hlt : place t key < r') : Passed t key c := by
  obtain ⟨e, he, hkey⟩ := hp
  have hplace : place t e.1 = place t key := by
    rw [place, place, t.hash_eq _ _ hkey]
  exact ⟨e, h e he (hplace.symm ▸ hle) (hplace.symm ▸ hlt), hkey⟩

theorem ScanInv.scan {s : ScanState κ ν} (h : ScanInv t w key s) {out : BitVec 64 × List (κ × ν)}
    (hr : dictScan s.dict s.cursor = .ok out) :
    ScanInv t w key { s with cursor := out.1, began := true, passed := s.passed ++ out.2 } := by
  obtain ⟨r, hlt, hle, hpos, hcov⟩ := Within.ok (dictScan_spec h.dict s.cursor) hr
  have hbefore : place t key < r → Passed t key (s.passed ++ out.2) := by
    intro hplace
    by_cases hold : place t key < pos s.cursor
    · obtain ⟨e, he, hkey⟩ := h.before hold
      exact ⟨e, List.mem_append_left _ he, hkey⟩
    · obtain ⟨e, he, hkey⟩ := hcov.passed h.present (by omega) hplace
      exact ⟨e, List.mem_append_right _ he, hkey⟩
  refine ⟨h.dict, h.present, fun hplace => ?_, fun _ hzero => ?_⟩
  · refine hbefore (lt_of_lt_of_le hplace ?_)
    change pos out.1 ≤ r
    rw [hpos]
    exact Nat.mod_le _ _
  · have hlast : r = 2 ^ 64 := by
      change out.1 = 0 at hzero
      rw [hzero, pos_zero] at hpos
      omega
    refine hbefore ?_
    rw [hlast]
    exact pos_lt _

theorem ScanRun.inv {s : ScanState κ ν} (h : ScanRun t w key s) : ScanInv t w key s := by
  refine Run.invariant (I := ScanInv t w key) h ?_ ?_
  · rintro s ⟨d, rfl, hd, hp⟩
    refine ⟨hd.inv, hp, fun hlt => ?_, nofun⟩
    rw [pos_zero] at hlt
    cases hlt
  · rintro s e s' - hi ⟨hn, hfit, hp⟩
    cases e with
    | op op =>
      have hdoes := runOp_does hi.dict op hfit
      unfold nextScan at hn
      dsimp only at hn
      split at hn
      · rename_i d1 out hr
        rw [hr] at hdoes
        rw [← Option.some.inj hn] at hp ⊢
        exact ⟨hdoes.1, hp, hi.before, hi.ended⟩
      · cases hn
    | scan =>
      unfold nextScan at hn
      dsimp only at hn
      split at hn
      · cases hn
      · split at hn
        · rename_i v c hr
          rw [← Option.some.inj hn]
          exact hi.scan hr
        · cases hn

/-- **SCAN misses no key.** Over any dict, with any adds, removals, rehash steps, expansions and
shrinks between the calls, a key present all the time has been passed when the cursor is
0 again; and no call fails where the operations fit. -/
theorem scan_passes_every_key {s : ScanState κ ν} (h : ScanRun t w key s) :
    (s.began = true → s.cursor = 0 → ∃ e ∈ s.passed, t.keyCompare key e.1 = true) ∧
    (w → ∃ out, dictScan s.dict s.cursor = .ok out) := by
  refine ⟨h.inv.ended, fun hw => ?_⟩
  have hspec := dictScan_spec h.inv.dict s.cursor
  cases hr : dictScan s.dict s.cursor with
  | ok out => exact ⟨out, rfl⟩
  | error a =>
    rw [hr] at hspec
    exact absurd hw hspec

def presentTest (t : DictType κ) (key : κ) (d : Dict κ ν) : Bool := (entries d).any fun e => t.keyCompare key e.1

theorem presentTest_iff : presentTest t key d = true ↔ Present t key d := List.any_eq_true

instance (s : ScanState κ ν) : ∀ e, Decidable (EventFits True s e)
  | .op op => decidable_of_iff (Fits s.dict op) ⟨fun h _ => h, fun h => h trivial⟩
  | .scan => .isTrue trivial

/-- Five keys, of which the last one starts a growth that ends between two calls, and a shrink
that has not moved anything when the iteration is over. -/
theorem scan_passes_every_key_sample : ∃ s : ScanState ℕ ℕ, ScanRun natDict True 5 s ∧ s.cursor = 0 ∧
    ∃ e ∈ s.passed, natDict.keyCompare 5 e.1 = true := by
  let ok : ScanState ℕ ℕ → ScanEvent ℕ ℕ → ScanState ℕ ℕ → Bool := fun s e s' =>
    decide (EventFits True s e) && presentTest natDict 5 s'.dict
  let events : List (ScanEvent ℕ ℕ) := [.scan, .op (.delete 1), .scan, .op (.rehash 4), .scan, .op (.delete 2),
    .op (.delete 3), .op .resize, .scan, .scan]
  obtain ⟨d, hd, htest⟩ := Run.replay (fun _ _ _ h _ => of_decide_eq_true h)
    [.add 1 10, .add 2 20, .add 3 30, .add 4 40, .add 5 50] (show DictRun natDict True {} from .start rfl)
    (show Stepwise.replay (nextDict natDict) (fun d op _ => decide (Fits d op)) (fun d => presentTest natDict 5 d &&
      Stepwise.replay (nextScan natDict) ok (fun s => s.began && decide (s.cursor = 0)) { dict := d } events)
      ({} : Dict ℕ ℕ) _ = true by decide)
  obtain ⟨hp, htest⟩ := Bool.and_eq_true_iff.mp htest
  have hstart : ScanRun natDict True 5 ({ dict := d } : ScanState ℕ ℕ) := .start ⟨d, rfl, hd, presentTest_iff.mp hp⟩
  obtain ⟨s, hs, htest⟩ := Run.replay (fun s e s' h => ⟨of_decide_eq_true (Bool.and_eq_true_iff.mp h).1,
    presentTest_iff.mp (Bool.and_eq_true_iff.mp h).2⟩) events hstart htest
  obtain ⟨hbegan, hzero⟩ := Bool.and_eq_true_iff.mp htest
  exact ⟨s, hs, of_decide_eq_true hzero, (scan_passes_every_key hs).1 hbegan (of_decide_eq_true hzero)⟩

end RedisZk.Hash
