/-
# An intset is a sorted set of numbers

The block of an intset is the cells of a list: `Holds` says so, and that the list is in order and its
members fit the encoding. The search finds the place of a value in the list; adding and removing put
the value there or take it away, and where the encoding grows every cell is moved to its new place
before the value goes to one of the two ends. From the empty intset on every run of the two operations
holds the set that the same run builds (`intset_sorted_set`).

Key definitions: `Holds`, `Op`, `run`, `members`.
Key theorems: `intsetSearch_spec`, `upgradeLoop_spec`, `intsetAdd_spec`, `intsetRemove_spec`, `intset_sorted_set`.
-/
import Mathlib
import RedisZk.Intset.Blob
import RedisZk.Lib.Memory

namespace RedisZk.Intset

open Aof (wrap)
open Memory (put memmove cells)
open Streams (Sds IsInt64)
open Ziplist (signed ofSigned uint zrealloc)

/-! ### Encodings -/

def IsEncoding (w : ℕ) : Prop := w = 2 ∨ w = 4 ∨ w = 8

theorem IsEncoding.pos {w : ℕ} (h : IsEncoding w) : 2 ≤ w ∧ w ≤ 8 := by
  rcases h with rfl | rfl | rfl
  · omega
  · omega
  · omega

theorem cellSize_eq {w : ℕ} (h : IsEncoding w) : cellSize w = w := by
  rcases h with rfl | rfl | rfl
  · rfl
  · rfl
  · rfl

theorem isEncoding_valueEncoding (v : ℤ) : IsEncoding (intsetValueEncoding v) := by
  rw [intsetValueEncoding]
  split
  · exact .inr (.inr rfl)
  · split
    · exact .inr (.inl rfl)
    · exact .inl rfl

/-- The values that fit an encoding. -/
theorem valueEncoding_le {w : ℕ} (h : IsEncoding w) {v : ℤ} (hv : IsInt64 v) :
    intsetValueEncoding v ≤ w ↔ -2 ^ (8 * w - 1) ≤ v ∧ v < 2 ^ (8 * w - 1) := by
  obtain ⟨hlo, hhi⟩ := hv
  have h2 : INTSET_ENC_INT16 = 2 := rfl
  have h4 : INTSET_ENC_INT32 = 4 := rfl
  have h8 : INTSET_ENC_INT64 = 8 := rfl
  rw [intsetValueEncoding]
  rcases h with rfl | rfl | rfl
  · split
    · omega
    · split
      · omega
      · omega
  · split
    · omega
    · split
      · omega
      · omega
  · split
    · omega
    · split
      · omega
      · omega

theorem length_code (w : ℕ) (v : ℤ) : (signed w v).length = w := Ziplist.length_signed w v

theorem int_eq {n : ℕ} (h : n < 2 ^ 31) : int n = n := by
  rw [int, wrap]
  omega

theorem toNat_int {n : ℕ} (h : n < 2 ^ 32) : ((n : ℤ) % 2 ^ 32).toNat = n := by omega

theorem uint_eq {n : ℕ} (h : n < 2 ^ 32) : uint n = n := Nat.mod_eq_of_lt h

/-! ### Cells -/

variable {x : ℤ}

theorem intsetGetEncoded_cell {w : ℕ} (hw : IsEncoding w) {a : List ℤ} {s : Sds}
    (hc : is.contents = cells (signed w) a ++ (signed w x ++ s)) (hlo : -2 ^ (8 * w - 1) ≤ x) (hhi : x < 2 ^ (8 * w - 1)) :
    intsetGetEncoded is a.length w = some x := by
  have hlen : is.contents.length = a.length * w + (w + s.length) := by
    rw [hc, List.length_append, List.length_append, length_code, Memory.length_cells (length_code w)]
  have hdrop := Memory.drop_cells (length_code w) a (signed w x ++ s)
  have hpos := hw.pos
  rw [intsetGetEncoded, cellSize_eq hw, Int.toNat_natCast, if_pos ⟨Int.natCast_nonneg _, by rw [hlen, Nat.succ_mul]; omega⟩,
    hc, hdrop, Ziplist.ofSigned_signed (by omega) hlo hhi]

theorem intsetSet_cell {w : ℕ} (hw : IsEncoding w) (henc : is.encoding = w) {pos : ℕ} {a old s : Sds}
    (x : ℤ) (hc : is.contents = a ++ (old ++ s)) (ha : a.length = pos * w) (hold : old.length = w) :
    intsetSet is pos x = some { is with contents := a ++ (signed w x ++ s) } := by
  rw [intsetSet, if_pos (Int.natCast_nonneg _), henc, cellSize_eq hw, Int.toNat_natCast,
    Memory.put_split hc ha.symm (by rw [length_code, hold])]
  rfl

/-- What an intset holds, in order. -/
structure Holds (is : intset) (l : List ℤ) : Prop where
  encoding : IsEncoding is.encoding
  length : is.length = l.length
  contents : is.contents = cells (signed is.encoding) l
  sorted : l.Pairwise (· < ·)
  int64 : ∀ v ∈ l, IsInt64 v
  fits : ∀ v ∈ l, intsetValueEncoding v ≤ is.encoding
  small : l.length < 2 ^ 28

namespace Holds

variable {is : intset} {l : List ℤ} (h : Holds is l)

include h

theorem bounds {v : ℤ} (hv : v ∈ l) : -2 ^ (8 * is.encoding - 1) ≤ v ∧ v < 2 ^ (8 * is.encoding - 1) :=
  (valueEncoding_le h.encoding (h.int64 v hv)).mp (h.fits v hv)

theorem get {i : ℕ} (hi : i < l.length) : intsetGet is i = some l[i] := by
  have hsplit : l = l.take i ++ l[i] :: l.drop (i + 1) := by simp
  obtain ⟨hlo, hhi⟩ := h.bounds (List.getElem_mem hi)
  have hget := intsetGetEncoded_cell (a := l.take i) (x := l[i]) (s := cells (signed is.encoding) (l.drop (i + 1)))
    h.encoding (by rw [h.contents, ← Memory.cells_cons, ← Memory.cells_append, ← hsplit]) hlo hhi
  rwa [List.length_take, Nat.min_eq_left (by omega)] at hget

theorem getElem_le {i j : ℕ} (hij : i ≤ j) (hj : j < l.length) : l[i] ≤ l[j] := by
  rcases Nat.lt_or_eq_of_le hij with hlt | rfl
  · exact (List.pairwise_iff_getElem.mp h.sorted i j (by omega) hj hlt).le
  · exact le_rfl

end Holds

/-! ### The search -/

variable {l : List ℤ}

/-- The window of the loop is `lo`, …, `hi - 1`. -/
theorem searchLoop_spec (h : Holds is l) (value : ℤ) : ∀ (fuel lo hi : ℕ) (mid cur : ℤ),
    hi - lo < fuel → lo ≤ hi → hi ≤ l.length →
    (∀ i (hi : i < l.length), i < lo → l[i] < value) → (∀ i (hlt : i < l.length), hi ≤ i → value < l[i]) →
    (lo < hi ∨ cur ≠ value) →
    ∃ min mid' cur', searchLoop is value fuel lo (hi - 1) mid cur = some (min, mid', cur') ∧
      ((value = cur' ∧ ∃ k, ∃ hk : k < l.length, mid' = k ∧ l[k] = value) ∨
       (value ≠ cur' ∧ ∃ k : ℕ, min = k ∧ k ≤ l.length ∧ (∀ i (hi : i < l.length), i < k → l[i] < value) ∧
        ∀ i (hlt : i < l.length), k ≤ i → value < l[i])) := by
  intro fuel
  induction fuel with
  | zero => exact fun lo hi mid cur hfuel => absurd hfuel (Nat.not_lt_zero _)
  | succ fuel ih =>
    intro lo hi mid cur hfuel hle hn hbelow habove hcur
    rw [searchLoop]
    by_cases hlt : lo < hi
    · have hsmall := h.small
      have hmid : int (uint (uint ((lo : ℤ) % 2 ^ 32).toNat + uint ((hi - 1 : ℤ) % 2 ^ 32).toNat) / 2) =
          ((lo + (hi - 1)) / 2 : ℕ) := by
        have hhi : ((hi - 1 : ℤ) % 2 ^ 32).toNat = hi - 1 := by omega
        rw [toNat_int (show lo < 2 ^ 32 by omega), hhi, uint_eq (show lo < 2 ^ 32 by omega), uint_eq (show hi - 1 < 2 ^ 32 by omega),
          uint_eq (show lo + (hi - 1) < 2 ^ 32 by omega)]
        exact int_eq (show (lo + (hi - 1)) / 2 < 2 ^ 31 by omega)
      obtain ⟨m, hm⟩ : ∃ m, m = (lo + (hi - 1)) / 2 := ⟨_, rfl⟩
      have hml : m < l.length := by omega
      rw [if_pos (by omega), hmid, ← hm]
      dsimp only
      rw [h.get hml]
      show ∃ min mid' cur', (if value > l[m] then _ else _) = _ ∧ _
      split
      · rename_i hgt
        refine ih (m + 1) hi m l[m] (by omega) (by omega) hn (fun i hi hlt => ?_) habove (.inr (by omega))
        rcases Nat.lt_or_eq_of_le (Nat.lt_succ_iff.mp hlt) with hi' | rfl
        · have := List.pairwise_iff_getElem.mp h.sorted i m hi hml hi'
          omega
        · exact hgt
      · split
        · rename_i hle' hgt
          obtain ⟨min, mid', cur', heq, hres⟩ := ih lo m m l[m] (by omega) (by omega) hml.le hbelow (fun i hlt hi => by
            rcases Nat.lt_or_eq_of_le hi with hi' | rfl
            · have := List.pairwise_iff_getElem.mp h.sorted m i hml hlt hi'
              omega
            · exact hgt) (.inr (by omega))
          exact ⟨min, mid', cur', heq, hres⟩
        · exact ⟨_, _, _, rfl, .inl ⟨by omega, m, hml, rfl, by omega⟩⟩
    · rw [if_neg (by omega)]
      have heq : lo = hi := by omega
      subst heq
      exact ⟨_, _, _, rfl, .inr ⟨by omega, lo, rfl, hn, hbelow, habove⟩⟩

/-- **The search.** It finds the value, or the place between the smaller and the larger members. -/
theorem intsetSearch_spec (h : Holds is l) (value : ℤ) :
    (∃ a b, l = a ++ value :: b ∧ intsetSearch is value = some (true, a.length)) ∨
    ∃ a b, l = a ++ b ∧ (∀ x ∈ a, x < value) ∧ (∀ x ∈ b, value < x) ∧ intsetSearch is value = some (false, a.length) := by
  have hlength := h.length
  have hsmall := h.small
  rw [intsetSearch]
  by_cases hempty : is.length = 0
  · have hnil : l = [] := List.length_eq_zero_iff.mp (by omega)
    refine .inr ⟨[], [], hnil, List.forall_mem_nil _, List.forall_mem_nil _, ?_⟩
    rw [if_pos hempty, List.length_nil]
  · have hpos : 0 < l.length := by omega
    have hmax : int is.length - 1 = ((l.length - 1 : ℕ) : ℤ) := by
      rw [int_eq (by omega), hlength]
      omega
    have hlast : ((l.length - 1 : ℕ) : ℤ) = (l.length : ℤ) - 1 := by omega
    have hfirst : intsetGet is 0 = some l[0] := h.get hpos
    rw [if_neg hempty, hmax]
    dsimp only
    rw [h.get (i := l.length - 1) (by omega), hfirst]
    show (∃ a b, _ ∧ (if value > l[l.length - 1] then _ else if value < l[0] then _ else _) = _) ∨
      ∃ a b, _ ∧ _ ∧ _ ∧ (if value > l[l.length - 1] then _ else if value < l[0] then _ else _) = _
    split
    · rename_i hgt
      refine .inr ⟨l, [], (List.append_nil l).symm, fun x hx => ?_, List.forall_mem_nil _, by rw [hlength]⟩
      obtain ⟨i, hi, rfl⟩ := List.mem_iff_getElem.mp hx
      have hle := h.getElem_le (i := i) (j := l.length - 1) (by omega) (by omega)
      omega
    · split
      · rename_i hle hlt
        refine .inr ⟨[], l, rfl, List.forall_mem_nil _, fun x hx => ?_, rfl⟩
        obtain ⟨i, hi, rfl⟩ := List.mem_iff_getElem.mp hx
        have hle := h.getElem_le (i := 0) (j := i) (by omega) hi
        omega
      · obtain ⟨min, mid, cur, hloop, hres⟩ := searchLoop_spec h value (is.length + 1) 0 l.length (-1) (-1) (by omega) (by omega)
          le_rfl (fun i _ hi => absurd hi (Nat.not_lt_zero i)) (fun i hlt hi => absurd hlt (by omega)) (.inl hpos)
        have hloop' : searchLoop is value (is.length + 1) 0 ((l.length - 1 : ℕ) : ℤ) (-1) (-1) = some (min, mid, cur) := by
          rw [hlast]
          exact hloop
        rw [hloop']
        show (∃ a b, _ ∧ (if value = cur then _ else _) = _) ∨ ∃ a b, _ ∧ _ ∧ _ ∧ (if value = cur then _ else _) = _
        rcases hres with ⟨heq, k, hk, rfl, hval⟩ | ⟨hne, k, rfl, hk, hbelow, habove⟩
        · refine .inl ⟨l.take k, l.drop (k + 1), ?_, ?_⟩
          · rw [← hval, List.cons_getElem_drop_succ, List.take_append_drop]
          · rw [if_pos heq, List.length_take, Nat.min_eq_left hk.le, toNat_int (show k < 2 ^ 32 by omega)]
        · refine .inr ⟨l.take k, l.drop k, (List.take_append_drop k l).symm, fun x hx => ?_, fun x hx => ?_, ?_⟩
          · obtain ⟨i, hi, rfl⟩ := List.mem_iff_getElem.mp hx
            rw [List.length_take] at hi
            rw [List.getElem_take]
            exact hbelow i (by omega) (by omega)
          · obtain ⟨i, hi, rfl⟩ := List.mem_iff_getElem.mp hx
            rw [List.length_drop] at hi
            rw [List.getElem_drop]
            exact habove (k + i) (by omega) (by omega)
          · rw [if_neg hne, List.length_take, Nat.min_eq_left hk, toNat_int (show k < 2 ^ 32 by omega)]

/-! ### Adding a wider value -/

section

variable (fresh : ℕ → Fin 256)

/-- The block grows by bytes of any value. -/
theorem intsetResize_grow {len : ℕ} (hlen : len * is.encoding < 2 ^ 32)
    (hle : is.contents.length ≤ len * is.encoding) :
    ∃ gap : Sds, is.contents.length + gap.length = len * is.encoding ∧
      intsetResize fresh is len = { is with contents := is.contents ++ gap } := by
  refine ⟨(List.range' is.contents.length (len * is.encoding - is.contents.length)).map fresh, ?_, ?_⟩
  · rw [List.length_map, List.length_range']
    omega
  · rw [intsetResize, uint_eq hlen, zrealloc, List.take_of_length_le hle]

/-- The cells before `junk` are widened, and those behind it are already. -/
theorem upgradeLoop_spec {old new pre : ℕ} (hold : IsEncoding old) (hnew : IsEncoding new) (hle : old ≤ new) (l : List ℤ) :
    ∀ (is : intset) (junk s : Sds), (∀ x ∈ l, -2 ^ (8 * old - 1) ≤ x ∧ x < 2 ^ (8 * old - 1)) → is.encoding = new →
    is.contents = cells (signed old) l ++ (junk ++ s) → junk.length + l.length * old = (l.length + pre) * new →
    ∃ junk' : Sds, junk'.length = pre * new ∧
      upgradeLoop old pre l.length is = some { is with contents := junk' ++ (cells (signed new) l ++ s) } := by
  induction l using List.reverseRecOn with
  | nil =>
    intro is junk s _ _ hc hjunk
    refine ⟨junk, by simpa using hjunk, ?_⟩
    rw [List.length_nil, upgradeLoop]
    rw [Memory.cells_nil, List.nil_append] at hc ⊢
    rw [← hc]
  | append_singleton l x ih =>
    intro is junk s hfits henc hc hjunk
    have hx := hfits x (by simp)
    rw [List.length_append, List.length_singleton] at hjunk ⊢
    rw [Memory.cells_append, Memory.cells_cons, Memory.cells_nil, List.append_nil, List.append_assoc] at hc
    have hget := intsetGetEncoded_cell hold hc hx.1 hx.2
    -- the new place of the last cell begins behind the cells before it
    have hmul : l.length * old ≤ (l.length + pre) * new := Nat.mul_le_mul (by omega) hle
    rw [show l.length + 1 + pre = l.length + pre + 1 by omega, Nat.succ_mul, Nat.succ_mul] at hjunk
    obtain ⟨j, hj⟩ : ∃ j, j = (l.length + pre) * new - l.length * old := ⟨_, rfl⟩
    obtain ⟨room, hroom⟩ : ∃ room, room = signed old x ++ junk := ⟨_, rfl⟩
    have hroomlen : room.length = j + new := by
      rw [hroom, List.length_append, length_code]
      omega
    have hsplit : is.contents = cells (signed old) l ++ room.take j ++ (room.drop j ++ s) := by
      rw [hc, ← List.append_assoc (signed old x), ← hroom]
      conv_lhs => rw [← List.take_append_drop j room]
      simp only [List.append_assoc]
    have hset := @intsetSet_cell _ _ hnew henc (l.length + pre) _ _ _ x hsplit
        (by rw [List.length_append, Memory.length_cells (length_code old), List.length_take]; omega)
        (by rw [List.length_drop]; omega)
    obtain ⟨is1, his1⟩ : ∃ is1, is1 = { is with contents := cells (signed old) l ++ room.take j ++ (signed new x ++ s) } :=
      ⟨_, rfl⟩
    obtain ⟨junk', hjunk', hloop⟩ := ih is1 (room.take j) (signed new x ++ s) (fun y hy => hfits y (by simp [hy]))
      (by rw [his1]; exact henc) (by rw [his1, List.append_assoc]) (by rw [List.length_take]; omega)
    have hcells : cells (signed new) (l ++ [x]) ++ s = cells (signed new) l ++ (signed new x ++ s) := by
      simp [Memory.cells_append]
    refine ⟨junk', hjunk', ?_⟩
    rw [upgradeLoop, hget, hcells]
    show (intsetSet is ((l.length : ℤ) + (pre : ℤ)) x).bind _ = _
    rw [← Nat.cast_add, hset, Option.bind_some, ← his1, hloop, his1]

/-- A value that does not fit the encoding is before or behind all members. -/
theorem Holds.wider (h : Holds is l) {value : ℤ} (hv : IsInt64 value)
    (hwide : intsetValueEncoding value > is.encoding) (hx : x ∈ l) : if value < 0 then value < x else x < value := by
  have hnot := mt (valueEncoding_le h.encoding hv).mpr (by omega)
  obtain ⟨hlo, hhi⟩ := h.bounds hx
  have hpow : (0 : ℤ) < 2 ^ (8 * is.encoding - 1) := by positivity
  split
  · by_contra hle
    exact hnot ⟨by omega, by omega⟩
  · by_contra hle
    exact hnot ⟨by omega, by omega⟩

/-- The list with a value that does not fit its encoding. -/
def extend (value : ℤ) (l : List ℤ) : List ℤ := if value < 0 then value :: l else l ++ [value]

theorem intsetUpgradeAndAdd_spec (h : Holds is l) {value : ℤ} (hv : IsInt64 value)
    (hwide : intsetValueEncoding value > is.encoding) (hsmall : l.length + 1 < 2 ^ 28) :
    ∃ is', intsetUpgradeAndAdd fresh is value = some is' ∧ Holds is' (extend value l) := by
  have hlength := h.length
  have huint : uint (is.length + 1) = is.length + 1 := uint_eq (by omega)
  have hint : int is.length = l.length := by rw [hlength, int_eq (by omega)]
  have hnonneg : ¬ (l.length : ℤ) < 0 := by omega
  have hnew := isEncoding_valueEncoding value
  obtain ⟨hpos, hnewle⟩ := hnew.pos
  obtain ⟨new, hnewdef⟩ : ∃ new, new = intsetValueEncoding value := ⟨_, rfl⟩
  rw [← hnewdef] at hnew hwide hpos hnewle
  have hsize : is.contents.length = l.length * is.encoding := by
    rw [h.contents, Memory.length_cells (length_code _)]
  have hmul : l.length * is.encoding ≤ l.length * new := Nat.mul_le_mul le_rfl hwide.le
  have hmax : (l.length + 1) * new ≤ 2 ^ 28 * 8 := Nat.mul_le_mul hsmall.le hnewle
  have hsucc : (l.length + 1) * new = l.length * new + new := Nat.succ_mul _ _
  obtain ⟨gap, hgap, hresize⟩ := @intsetResize_grow fresh { is with encoding := new } (is.length + 1)
      (show (is.length + 1) * new < 2 ^ 32 by rw [hlength]; omega)
      (show is.contents.length ≤ (is.length + 1) * new by rw [hlength]; omega)
  have hgap' : is.contents.length + gap.length = (l.length + 1) * new := by rw [← hlength]; exact hgap
  obtain ⟨is1, his1⟩ : ∃ is1 : intset, is1 = { is with encoding := new, contents := is.contents ++ gap } := ⟨_, rfl⟩
  have hencoding : is1.encoding = new := by rw [his1]
  have hlength1 : is1.length = l.length := by rw [his1, ← hlength]
  have hfits : ∀ x ∈ l, -2 ^ (8 * is.encoding - 1) ≤ x ∧ x < 2 ^ (8 * is.encoding - 1) := fun x hx => h.bounds hx
  have hholds : ∀ is' : intset, is'.encoding = new → is'.length = l.length + 1 →
      is'.contents = cells (signed new) (extend value l) → Holds is' (extend value l) := by
    intro is' henc' hlength' hcontents'
    have hmem : ∀ v ∈ extend value l, v = value ∨ v ∈ l := by
      intro v hmem
      rw [extend] at hmem
      split at hmem
      · exact List.mem_cons.mp hmem
      · exact (List.mem_append.mp hmem).symm.imp_left List.mem_singleton.mp
    have hlen : (extend value l).length = l.length + 1 := by
      rw [extend]
      split
      · rfl
      · rw [List.length_append, List.length_singleton]
    refine ⟨by rw [henc']; exact hnew, by rw [hlength', hlen], by rw [henc']; exact hcontents', ?_, fun v hmem' => ?_,
      fun v hmem' => ?_, by rw [hlen]; exact hsmall⟩
    · rw [extend]
      split
      · rename_i hneg
        refine List.pairwise_cons.mpr ⟨fun x hx => ?_, h.sorted⟩
        simpa [hneg] using h.wider hv (by omega) hx
      · rename_i hneg
        refine List.pairwise_append.mpr ⟨h.sorted, List.pairwise_singleton _ _, fun x hx y hy => ?_⟩
        rw [List.mem_singleton.mp hy]
        simpa [hneg] using h.wider hv (by omega) hx
    · rcases hmem v hmem' with rfl | hold
      · exact hv
      · exact h.int64 v hold
    · rw [henc']
      rcases hmem v hmem' with rfl | hold
      · exact hnewdef.ge
      · exact (h.fits v hold).trans hwide.le
  have hresize1 : intsetResize fresh { is with encoding := new } (uint (is.length + 1)) = is1 := by
    rw [huint, hresize, his1]
  rw [intsetUpgradeAndAdd]
  simp only [hint, ← hnewdef]
  rw [if_neg hnonneg, Int.toNat_natCast, hresize1]
  by_cases hneg : value < 0
  · obtain ⟨junk, hjunk, hloop⟩ := @upgradeLoop_spec _ _ 1 h.encoding hnew hwide.le l is1 gap [] hfits
      hencoding (by rw [his1, List.append_nil, ← h.contents]) (by omega)
    have hset := @intsetSet_cell { is1 with contents := junk ++ (cells (signed new) l ++ []) } _ hnew hencoding
        0 [] junk (cells (signed new) l ++ []) value rfl (by simp) (by omega)
    rw [if_pos hneg]
    rw [Nat.cast_one] at hloop
    rw [Nat.cast_zero] at hset
    rw [hloop, some_bind, if_pos (by decide), hset]
    refine ⟨_, rfl, hholds _ hencoding ?_ ?_⟩
    · show uint (is1.length + 1) = l.length + 1
      rw [hlength1, ← hlength, huint]
    · show [] ++ (signed new value ++ (cells (signed new) l ++ [])) = _
      rw [extend, if_pos hneg, Memory.cells_cons, List.append_nil, List.nil_append]
  · obtain ⟨j, hj⟩ : ∃ j, j = gap.length - new := ⟨_, rfl⟩
    obtain ⟨junk, hjunk, hloop⟩ := @upgradeLoop_spec _ _ 0 h.encoding hnew hwide.le l is1 (gap.take j)
        (gap.drop j) hfits hencoding (by rw [his1, List.take_append_drop, ← h.contents])
        (by rw [List.length_take, Nat.add_zero]; omega)
    have hnil : junk = [] := List.length_eq_zero_iff.mp (by omega)
    subst hnil
    have hset := @intsetSet_cell { is1 with contents := [] ++ (cells (signed new) l ++ gap.drop j) } _ hnew
        hencoding l.length (cells (signed new) l) (gap.drop j) [] value (by simp)
        (Memory.length_cells (length_code new) l) (by rw [List.length_drop]; omega)
    rw [if_neg hneg]
    rw [Nat.cast_zero] at hloop
    rw [hloop, some_bind, if_neg (by decide)]
    show ∃ is', (intsetSet _ (int is1.length) value).bind _ = _ ∧ _
    have hint1 : int (is1.length : ℤ) = l.length := by rw [hlength1, ← hlength, hint, hlength]
    rw [hint1, hset]
    refine ⟨_, rfl, hholds _ hencoding ?_ ?_⟩
    · show uint (is1.length + 1) = l.length + 1
      rw [hlength1, ← hlength, huint]
    · show cells (signed new) l ++ (signed new value ++ []) = _
      rw [extend, if_neg hneg, Memory.cells_append, Memory.cells_cons, Memory.cells_nil]

/-! ### Adding and removing -/

/-- The cells behind `a` are moved, and the cell behind `a` is written. -/
theorem moveTail_up {w : ℕ} (hw : IsEncoding w) (henc : is.encoding = w) {a b : List ℤ} {gap : Sds} (x : ℤ)
    (hc : is.contents = cells (signed w) (a ++ b) ++ gap) (hlen : is.length = a.length + b.length) (hgap : gap.length = w)
    (hsmall : a.length + b.length < 2 ^ 28) :
    ((intsetMoveTail is a.length (uint (a.length + 1))).bind fun is => intsetSet is a.length x) =
      some { is with contents := cells (signed w) (a ++ x :: b) } := by
  obtain ⟨hpos, hle⟩ := hw.pos
  have hmul : b.length * w ≤ b.length * 8 := Nat.mul_le_mul le_rfl hle
  have hcount : uint (is.length + (2 ^ 32 - a.length)) = b.length := by
    rw [hlen, show a.length + b.length + (2 ^ 32 - a.length) = b.length + 2 ^ 32 by omega, uint, Nat.add_mod_right]
    exact Nat.mod_eq_of_lt (by omega)
  have hmove := @Memory.widen _ is.contents (cells (signed w) a) [] (cells (signed w) b) gap [] (signed w x)
      (a.length * w) ((a.length + 1) * w) (a.length * w) (b.length * w) (by rw [hc, Memory.cells_append]; simp)
      (Memory.length_cells (length_code w) a).symm (by rw [length_code, hgap, List.length_nil, Nat.zero_add])
      (by rw [Memory.length_cells (length_code w), length_code, Nat.succ_mul])
      (by rw [Memory.length_cells (length_code w), List.length_nil, Nat.add_zero])
      (Memory.length_cells (length_code w) b).symm
  rw [intsetMoveTail]
  simp only [hcount, henc, cellSize_eq hw]
  rw [uint_eq (show b.length * w < 2 ^ 32 by omega), uint_eq (show a.length + 1 < 2 ^ 32 by omega)]
  cases hm : memmove is.contents ((a.length + 1) * w) (a.length * w) (b.length * w) with
  | none =>
    rw [hm] at hmove
    cases hmove
  | some m =>
    rw [hm, Option.bind_some] at hmove
    rw [some_bind, Option.bind_some]
    rw [intsetSet, if_pos (Int.natCast_nonneg _)]
    show (put m _ (signed (cellSize w) x)).bind _ = _
    rw [cellSize_eq hw, Int.toNat_natCast, hmove, Memory.cells_append, Memory.cells_cons, List.append_nil]
    rfl

/-- The cells behind the one of `x` are moved over it. -/
theorem moveTail_down {w : ℕ} (hw : IsEncoding w) (henc : is.encoding = w) {a b : List ℤ}
    (hc : is.contents = cells (signed w) (a ++ x :: b)) (hlen : is.length = a.length + (b.length + 1))
    (hsmall : a.length + (b.length + 1) < 2 ^ 28) :
    ∃ rest : Sds, intsetMoveTail is (uint (a.length + 1)) a.length =
      some { is with contents := cells (signed w) (a ++ b) ++ rest } := by
  obtain ⟨hpos, hle⟩ := hw.pos
  have hmul : b.length * w ≤ b.length * 8 := Nat.mul_le_mul le_rfl hle
  have hcount : uint (is.length + (2 ^ 32 - (a.length + 1))) = b.length := by
    rw [hlen, show a.length + (b.length + 1) + (2 ^ 32 - (a.length + 1)) = b.length + 2 ^ 32 by omega, uint, Nat.add_mod_right]
    exact Nat.mod_eq_of_lt (by omega)
  have ha := Memory.length_cells (length_code w) a
  have hb := Memory.length_cells (length_code w) b
  have hx := length_code w x
  rw [Memory.cells_append, Memory.cells_cons] at hc
  have hsrc : is.contents.drop ((a.length + 1) * w) = cells (signed w) b := by
    have hfront : (a.length + 1) * w = (cells (signed w) a ++ signed w x).length := by
      rw [List.length_append, ha, hx, Nat.succ_mul]
    rw [hc, ← List.append_assoc, hfront, List.drop_left]
  obtain ⟨tail, htail⟩ : ∃ tail, tail = signed w x ++ cells (signed w) b := ⟨_, rfl⟩
  have htaillen : tail.length = w + b.length * w := by rw [htail, List.length_append, hx, hb]
  have hput := @Memory.put_split _ is.contents (cells (signed w) a) (tail.take (b.length * w))
      (tail.drop (b.length * w)) (cells (signed w) b) (a.length * w) (by rw [List.take_append_drop, htail, hc])
      ha.symm (by rw [hb, List.length_take]; omega)
  refine ⟨tail.drop (b.length * w), ?_⟩
  rw [intsetMoveTail, uint_eq (show a.length + 1 < 2 ^ 32 by omega)]
  simp only [hcount, henc, cellSize_eq hw]
  have hend : (a.length + 1) * w + b.length * w ≤ is.contents.length := by
    rw [hc, List.length_append, List.length_append, ha, hx, hb, Nat.succ_mul]
    omega
  have hmove : memmove is.contents (a.length * w) ((a.length + 1) * w) (b.length * w) =
      some (cells (signed w) (a ++ b) ++ tail.drop (b.length * w)) := by
    rw [memmove, if_pos hend, hsrc, List.take_of_length_le hb.le, hput, Memory.cells_append, List.append_assoc]
  rw [uint_eq (show b.length * w < 2 ^ 32 by omega), hmove]
  rfl

theorem pairwise_insert {a b : List ℤ} (h : (a ++ b).Pairwise (· < ·)) (ha : ∀ y ∈ a, y < x) (hb : ∀ y ∈ b, x < y) :
    (a ++ x :: b).Pairwise (· < ·) := by
  obtain ⟨hpa, hpb, hab⟩ := List.pairwise_append.mp h
  refine List.pairwise_append.mpr ⟨hpa, List.pairwise_cons.mpr ⟨hb, hpb⟩, fun y hy z hz => ?_⟩
  rcases List.mem_cons.mp hz with rfl | hz
  · exact ha y hy
  · exact hab y hy z hz

theorem mem_middle {a b : List ℤ} {x v : ℤ} : v ∈ a ++ x :: b ↔ v = x ∨ v ∈ a ++ b := by
  simp only [List.mem_append, List.mem_cons]
  tauto

/-- The members around a member are the others. -/
theorem mem_around {a b : List ℤ} (h : (a ++ x :: b).Pairwise (· < ·)) (v : ℤ) :
    v ∈ a ++ b ↔ v ∈ a ++ x :: b ∧ v ≠ x := by
  obtain ⟨-, hpb, hab⟩ := List.pairwise_append.mp h
  obtain ⟨hx, -⟩ := List.pairwise_cons.mp hpb
  have hne : v ∈ a ++ b → v ≠ x := by
    intro hv
    rcases List.mem_append.mp hv with hv | hv
    · exact (hab v hv x List.mem_cons_self).ne
    · exact (hx v hv).ne'
  rw [mem_middle]
  exact ⟨fun hv => ⟨.inr hv, hne hv⟩, fun ⟨hv, hvx⟩ => hv.resolve_left hvx⟩

theorem not_mem_of_gap {a b : List ℤ} (ha : ∀ y ∈ a, y < x) (hb : ∀ y ∈ b, x < y) : x ∉ a ++ b := by
  intro hx
  rcases List.mem_append.mp hx with hx | hx
  · exact absurd (ha x hx) (lt_irrefl x)
  · exact absurd (hb x hx) (lt_irrefl x)

theorem Holds.not_mem (h : Holds is l) {value : ℤ} (hwide : intsetValueEncoding value > is.encoding) :
    value ∉ l := fun hmem => absurd (h.fits value hmem) (by omega)

theorem intsetFind_spec (h : Holds is l) (value : ℤ) :
    intsetFind is value = some (decide (value ∈ l)) := by
  rw [intsetFind]
  split
  · rcases intsetSearch_spec h value with ⟨a, b, hl, hs⟩ | ⟨a, b, hl, ha, hb, hs⟩
    · rw [hs, decide_eq_true (by rw [hl]; simp)]
      rfl
    · rw [hs, decide_eq_false (by rw [hl]; exact not_mem_of_gap ha hb)]
      rfl
  · rename_i hwide
    rw [decide_eq_false (h.not_mem (by omega))]

/-! What the two operations do where the value fits the encoding, in terms of the search. -/

theorem intsetAdd_miss {is is1 is2 : intset} {value : ℤ} {pos : ℕ} (hfit : ¬ intsetValueEncoding value > is.encoding)
    (hs : intsetSearch is value = some (false, pos)) (hresize : intsetResize fresh is (uint (is.length + 1)) = is1)
    (hset : ((if pos < is1.length then intsetMoveTail is1 pos (uint (pos + 1)) else some is1).bind fun is =>
      intsetSet is (int pos) value) = some is2) :
    intsetAdd fresh is value = some ({ is2 with length := uint (is2.length + 1) }, true) := by
  rw [intsetAdd, if_neg hfit, hs, some_bind]
  simp only [Bool.false_eq_true, if_false, hresize]
  split at hset
  · rename_i hlt
    rw [if_pos hlt]
    show (intsetMoveTail is1 pos (uint (pos + 1))).bind _ = _
    cases hm : intsetMoveTail is1 pos (uint (pos + 1)) with
    | none =>
      rw [hm] at hset
      cases hset
    | some is3 =>
      rw [hm, Option.bind_some] at hset
      rw [Option.bind_some]
      show (intsetSet is3 (int pos) value).bind _ = _
      rw [hset]
      rfl
  · rename_i hlt
    rw [Option.bind_some] at hset
    rw [if_neg hlt, some_bind, hset]
    rfl

theorem intsetAdd_hit {value : ℤ} {pos : ℕ} (hfit : ¬ intsetValueEncoding value > is.encoding)
    (hs : intsetSearch is value = some (true, pos)) : intsetAdd fresh is value = some (is, false) := by
  rw [intsetAdd, if_neg hfit, hs]
  rfl

theorem intsetRemove_miss {value : ℤ} {pos : ℕ} (hfit : intsetValueEncoding value ≤ is.encoding)
    (hs : intsetSearch is value = some (false, pos)) : intsetRemove fresh is value = some (is, false) := by
  rw [intsetRemove, if_pos hfit, hs]
  rfl

theorem intsetRemove_hit {is is1 : intset} {value : ℤ} {pos len : ℕ}
    (hfit : intsetValueEncoding value ≤ is.encoding) (hs : intsetSearch is value = some (true, pos))
    (hlen : uint (is.length + (2 ^ 32 - 1)) = len)
    (hmove : (if pos < len then intsetMoveTail is (uint (pos + 1)) pos else some is) = some is1) :
    intsetRemove fresh is value = some ({ intsetResize fresh is1 len with length := len }, true) := by
  rw [intsetRemove, if_pos hfit, hs, some_bind]
  simp only [if_true, hlen]
  split at hmove
  · rename_i hlt
    rw [if_pos hlt, hmove]
    rfl
  · rename_i hlt
    cases hmove
    rw [if_neg hlt]
    rfl

/-- **Adding a value.** -/
theorem intsetAdd_spec (h : Holds is l) {value : ℤ} (hv : IsInt64 value)
    (hsmall : value ∉ l → l.length + 1 < 2 ^ 28) :
    ∃ is' l', intsetAdd fresh is value = some (is', decide (value ∉ l)) ∧ Holds is' l' ∧ ∀ v, v ∈ l' ↔ v = value ∨ v ∈ l := by
  by_cases hwide : intsetValueEncoding value > is.encoding
  · have hnot := h.not_mem hwide
    obtain ⟨is', hup, hholds⟩ := intsetUpgradeAndAdd_spec fresh h hv hwide (hsmall hnot)
    refine ⟨is', extend value l, ?_, hholds, fun v => ?_⟩
    · rw [intsetAdd, if_pos hwide, hup, decide_eq_true hnot]
      rfl
    · rw [extend]
      split
      · exact List.mem_cons
      · rw [List.mem_append, List.mem_singleton, or_comm]
  · have hlength := h.length
    rcases intsetSearch_spec h value with ⟨a, b, hl, hs⟩ | ⟨a, b, hl, ha, hb, hs⟩
    · have hmem : value ∈ l := by
        rw [hl]
        simp
      refine ⟨is, l, ?_, h, fun v => ⟨.inr, fun hv => ?_⟩⟩
      · rw [intsetAdd_hit fresh hwide hs, decide_eq_false (not_not.mpr hmem)]
      · rcases hv with rfl | hv
        · exact hmem
        · exact hv
    · have hnot : value ∉ l := by
        rw [hl]
        exact not_mem_of_gap ha hb
      have hsmall := hsmall hnot
      have hlen : l.length = a.length + b.length := by rw [hl, List.length_append]
      have hab : a.length + b.length < 2 ^ 28 := by omega
      have hint : int (a.length : ℤ) = a.length := int_eq (by omega)
      have huint : uint (is.length + 1) = is.length + 1 := uint_eq (by omega)
      have hsmall' : a.length + (b.length + 1) < 2 ^ 28 := by omega
      obtain ⟨hpos, hle⟩ := h.encoding.pos
      have hsize : is.contents.length = l.length * is.encoding := by
        rw [h.contents, Memory.length_cells (length_code _)]
      have hmax : (is.length + 1) * is.encoding ≤ 2 ^ 28 * 8 := Nat.mul_le_mul (by omega) hle
      have hsucc : (is.length + 1) * is.encoding = l.length * is.encoding + is.encoding := by rw [hlength, Nat.succ_mul]
      obtain ⟨gap, hgap, hresize⟩ := @intsetResize_grow fresh is (is.length + 1) (by omega) (by omega)
      have hresize' : intsetResize fresh is (uint (is.length + 1)) = { is with contents := is.contents ++ gap } := by
        rw [huint, hresize]
      have hgaplen : gap.length = is.encoding := by omega
      have hmove : ((intsetMoveTail { is with contents := is.contents ++ gap } a.length (uint (a.length + 1))).bind fun is =>
          intsetSet is a.length value) = some { is with contents := cells (signed is.encoding) (a ++ value :: b) } :=
        @moveTail_up { is with contents := is.contents ++ gap } _ h.encoding rfl _ _ _ value
            (by rw [← hl, ← h.contents]) (by rw [← hlen, ← hlength]) hgaplen hab
      have hend : ¬ a.length < is.length → intsetSet { is with contents := is.contents ++ gap } a.length value =
          some { is with contents := cells (signed is.encoding) (a ++ value :: b) } := by
        intro hnlt
        have hb : b = [] := List.length_eq_zero_iff.mp (by omega)
        subst hb
        rw [@intsetSet_cell { is with contents := is.contents ++ gap } _ h.encoding rfl _
            (cells (signed is.encoding) a) gap [] value
            (by rw [h.contents, hl, List.append_nil, List.append_nil]) (Memory.length_cells (length_code _) a)
            hgaplen,
          Memory.cells_append, Memory.cells_cons, Memory.cells_nil]
      have hwrite : ((if a.length < is.length then
            intsetMoveTail { is with contents := is.contents ++ gap } a.length (uint (a.length + 1))
          else some { is with contents := is.contents ++ gap }).bind fun is => intsetSet is (int a.length) value) =
            some { is with contents := cells (signed is.encoding) (a ++ value :: b) } := by
        rw [hint]
        split
        · exact hmove
        · rename_i hnlt
          rw [Option.bind_some, hend hnlt]
      refine ⟨{ is with contents := cells (signed is.encoding) (a ++ value :: b), length := uint (is.length + 1) },
        a ++ value :: b, ?_, ?_, fun v => by rw [mem_middle, hl]⟩
      · rw [intsetAdd_miss fresh hwide hs hresize' hwrite, decide_eq_true hnot]
      · have hmem : ∀ v ∈ a ++ value :: b, v = value ∨ v ∈ l := fun v hmem => by rwa [mem_middle, ← hl] at hmem
        refine ⟨h.encoding, ?_, rfl, pairwise_insert (hl ▸ h.sorted) ha hb, fun v hmem' => ?_, fun v hmem' => ?_, ?_⟩
        · show uint (is.length + 1) = _
          rw [huint, hlength, hlen, List.length_append, List.length_cons, Nat.add_assoc]
        · rcases hmem v hmem' with rfl | hold
          · exact hv
          · exact h.int64 v hold
        · rcases hmem v hmem' with rfl | hold
          · exact Nat.not_lt.mp hwide
          · exact h.fits v hold
        · rw [List.length_append, List.length_cons]
          exact hsmall'

/-- **Removing a value.** -/
theorem intsetRemove_spec (h : Holds is l) (value : ℤ) :
    ∃ is' l', intsetRemove fresh is value = some (is', decide (value ∈ l)) ∧ Holds is' l' ∧ ∀ v, v ∈ l' ↔ v ∈ l ∧ v ≠ value := by
  have hkeep : value ∉ l → ∀ v, v ∈ l ↔ v ∈ l ∧ v ≠ value := by
    intro hnot v
    exact ⟨fun hv => ⟨hv, fun heq => hnot (heq ▸ hv)⟩, fun hv => hv.1⟩
  by_cases hfit : intsetValueEncoding value ≤ is.encoding
  · rcases intsetSearch_spec h value with ⟨a, b, hl, hs⟩ | ⟨a, b, hl, ha, hb, hs⟩
    · have hmem : value ∈ l := by
        rw [hl]
        simp
      have hsmall := h.small
      have hlength := h.length
      obtain ⟨hpos, hle⟩ := h.encoding.pos
      have hlen : l.length = a.length + (b.length + 1) := by rw [hl, List.length_append, List.length_cons]
      have hmax : (a.length + b.length) * is.encoding ≤ 2 ^ 28 * 8 := Nat.mul_le_mul (by omega) hle
      have hpred : uint (is.length + (2 ^ 32 - 1)) = a.length + b.length := by
        rw [hlength, hlen, show a.length + (b.length + 1) + (2 ^ 32 - 1) = a.length + b.length + 2 ^ 32 by omega, uint,
          Nat.add_mod_right]
        exact Nat.mod_eq_of_lt (by omega)
      have hsize := Memory.length_cells (length_code is.encoding) (a ++ b)
      rw [List.length_append] at hsize
      -- with the last member nothing is moved; the cut drops what is behind the members that stay
      have hmoved : ∃ rest : Sds, intsetMoveTail is (uint (a.length + 1)) a.length =
          some { is with contents := cells (signed is.encoding) (a ++ b) ++ rest } :=
        moveTail_down h.encoding rfl (by rw [h.contents, hl]) (by rw [hlength, hlen]) (by rw [← hlen]; exact hsmall)
      have hend : ¬ a.length < a.length + b.length → ∃ rest : Sds,
          is = { is with contents := cells (signed is.encoding) (a ++ b) ++ rest } := by
        intro hnlt
        have hb : b = [] := List.length_eq_zero_iff.mp (by omega)
        subst hb
        refine ⟨signed is.encoding value, ?_⟩
        rw [List.append_nil, ← List.append_nil (signed is.encoding value), ← Memory.cells_nil (signed is.encoding),
          ← Memory.cells_cons, ← Memory.cells_append, ← hl, ← h.contents]
      obtain ⟨rest, hcutoff⟩ : ∃ rest : Sds,
          (if a.length < a.length + b.length then intsetMoveTail is (uint (a.length + 1)) a.length else some is) =
            some { is with contents := cells (signed is.encoding) (a ++ b) ++ rest } := by
        split
        · exact hmoved
        · rename_i hnlt
          obtain ⟨rest, hend⟩ := hend hnlt
          exact ⟨rest, congrArg some hend⟩
      have hcut : intsetResize fresh { is with contents := cells (signed is.encoding) (a ++ b) ++ rest } (a.length + b.length) =
          { is with contents := cells (signed is.encoding) (a ++ b) } := by
        have huint : uint ((a.length + b.length) * is.encoding) = (a.length + b.length) * is.encoding := uint_eq (by omega)
        have htake : zrealloc fresh (cells (signed is.encoding) (a ++ b) ++ rest) ((a.length + b.length) * is.encoding) =
            cells (signed is.encoding) (a ++ b) := by
          rw [zrealloc, ← hsize, List.take_left, List.length_append, Nat.sub_eq_zero_of_le (Nat.le_add_right _ _),
            List.range'_zero, List.map_nil, List.append_nil]
        rw [intsetResize]
        show ({ is with contents := zrealloc fresh _ (uint ((a.length + b.length) * is.encoding)) } : intset) = _
        rw [huint, htake]
      refine ⟨{ is with contents := cells (signed is.encoding) (a ++ b), length := a.length + b.length }, a ++ b, ?_, ?_,
        fun v => ?_⟩
      · rw [intsetRemove_hit fresh hfit hs hpred hcutoff, decide_eq_true hmem, hcut]
      · have hsub : ∀ v ∈ a ++ b, v ∈ l := fun v hv => by
          rw [hl, mem_middle]
          exact .inr hv
        refine ⟨h.encoding, ?_, rfl, ?_, fun v hv => h.int64 v (hsub v hv), fun v hv => h.fits v (hsub v hv), ?_⟩
        · rw [List.length_append]
        · refine h.sorted.sublist ?_
          rw [hl]
          exact (List.Sublist.refl a).append (List.sublist_cons_self _ _)
        · rw [List.length_append]
          omega
      · rw [hl]
        exact mem_around (hl ▸ h.sorted) v
    · have hnot : value ∉ l := by
        rw [hl]
        exact not_mem_of_gap ha hb
      exact ⟨is, l, by rw [intsetRemove_miss fresh hfit hs, decide_eq_false hnot], h, hkeep hnot⟩
  · have hnot := @Holds.not_mem _ _ h value (by omega)
    exact ⟨is, l, by rw [intsetRemove, if_neg hfit, decide_eq_false hnot], h, hkeep hnot⟩

end

/-! ### Runs -/

inductive Op
  | add (value : ℤ)
  | remove (value : ℤ)
deriving DecidableEq

namespace Op

def value : Op → ℤ
  | add v => v
  | remove v => v

/-- The operation on sets. -/
def apply (S : Finset ℤ) : Op → Finset ℤ
  | add v => insert v S
  | remove v => S.erase v

/-- The operation on intsets, with what is in the memory that it gets. -/
def run (fresh : ℕ → Fin 256) (is : intset) : Op → Option (intset × Bool)
  | add v => intsetAdd fresh is v
  | remove v => intsetRemove fresh is v

end Op

def members (ops : List Op) (S : Finset ℤ) : Finset ℤ := ops.foldl Op.apply S

/-- Which operations change the set. -/
def changes : List Op → Finset ℤ → List Bool
  | [], _ => []
  | op :: ops, S => decide (op.apply S ≠ S) :: changes ops (op.apply S)

/-- The intset and the `success` flags. -/
def run : List (Op × (ℕ → Fin 256)) → intset → Option (intset × List Bool)
  | [], is => some (is, [])
  | (op, fresh) :: ops, is => do
    let (is, success) ← op.run fresh is
    let (is, flags) ← run ops is
    some (is, success :: flags)

/-- The cells of an intset. -/
def decode (is : intset) : List (Option ℤ) := (List.range is.length).map fun i : ℕ => intsetGet is i

theorem holds_new : Holds intsetNew [] where
  encoding := .inl rfl
  length := rfl
  contents := rfl
  sorted := List.Pairwise.nil
  int64 := List.forall_mem_nil _
  fits := List.forall_mem_nil _
  small := by decide

theorem Holds.card (h : Holds is l) : l.toFinset.card = l.length :=
  List.toFinset_card_of_nodup (h.sorted.imp fun hlt => hlt.ne)

theorem Holds.decode_eq (h : Holds is l) : decode is = l.map some := by
  have hlength := h.length
  apply List.ext_getElem
  · rw [decode, List.length_map, List.length_map, List.length_range, hlength]
  · intro i hi _
    rw [decode, List.length_map, List.length_range] at hi
    simp only [decode, List.getElem_map, List.getElem_range]
    exact h.get (by omega)

/-- One operation does to the members what it does to the set. -/
theorem Op.run_spec (fresh : ℕ → Fin 256) (op : Op) (h : Holds is l) (hv : IsInt64 op.value)
    (hsmall : (op.apply l.toFinset).card < 2 ^ 28) :
    ∃ is' l', op.run fresh is = some (is', decide (op.apply l.toFinset ≠ l.toFinset)) ∧ Holds is' l' ∧
      l'.toFinset = op.apply l.toFinset := by
  cases op with
  | add v =>
    have hv : IsInt64 v := hv
    have hroom : v ∉ l → l.length + 1 < 2 ^ 28 := by
      intro hnot
      have hcard : (insert v l.toFinset).card < 2 ^ 28 := hsmall
      rwa [Finset.card_insert_of_notMem (by simpa using hnot), h.card] at hcard
    obtain ⟨is', l', hadd, hholds, hmem⟩ := intsetAdd_spec fresh h hv hroom
    refine ⟨is', l', ?_, hholds, ?_⟩
    · have hiff : insert v l.toFinset ≠ l.toFinset ↔ v ∉ l := by
        rw [ne_eq, Finset.insert_eq_self, List.mem_toFinset]
      rw [run, hadd]
      exact congrArg (fun b => some (is', b)) (decide_eq_decide.mpr hiff.symm)
    · ext x
      rw [List.mem_toFinset, hmem, apply, Finset.mem_insert, List.mem_toFinset]
  | remove v =>
    obtain ⟨is', l', hremove, hholds, hmem⟩ := intsetRemove_spec fresh h v
    refine ⟨is', l', ?_, hholds, ?_⟩
    · have hiff : l.toFinset.erase v ≠ l.toFinset ↔ v ∈ l := by
        rw [ne_eq, Finset.erase_eq_self, List.mem_toFinset, not_not]
      rw [run, hremove]
      exact congrArg (fun b => some (is', b)) (decide_eq_decide.mpr hiff.symm)
    · ext x
      rw [List.mem_toFinset, hmem, apply, Finset.mem_erase, List.mem_toFinset, and_comm]

/-- A run does to the members what the operations do to the set. -/
theorem run_spec : ∀ (ops : List (Op × (ℕ → Fin 256))) {is : intset} {l : List ℤ}, Holds is l →
    (∀ op ∈ ops.map Prod.fst, IsInt64 op.value) →
    (∀ k, (members ((ops.map Prod.fst).take k) l.toFinset).card < 2 ^ 28) →
    ∃ is' l', run ops is = some (is', changes (ops.map Prod.fst) l.toFinset) ∧ Holds is' l' ∧
      l'.toFinset = members (ops.map Prod.fst) l.toFinset
  | [], is, l, h, _, _ => ⟨is, l, rfl, h, rfl⟩
  | (op, fresh) :: ops, is, l, h, hv, hsmall => by
    rw [List.map_cons] at hv hsmall
    obtain ⟨is1, l1, hop, h1, hl1⟩ := op.run_spec fresh h (hv op List.mem_cons_self) (hsmall 1)
    have hsmall1 : ∀ k, (members ((ops.map Prod.fst).take k) l1.toFinset).card < 2 ^ 28 := by
      intro k
      rw [hl1]
      exact hsmall (k + 1)
    obtain ⟨is2, l2, hrun, h2, hl2⟩ := run_spec ops h1 (fun op hop => hv op (List.mem_cons_of_mem _ hop)) hsmall1
    refine ⟨is2, l2, ?_, h2, ?_⟩
    · rw [run, hop, List.map_cons, changes, ← hl1]
      show (run ops is1).bind _ = _
      rw [hrun]
      rfl
    · rw [hl2, hl1]
      rfl

/-- Between the smaller and the larger members there is one place for a value. -/
theorem place_unique {a b : List ℤ} {v : ℤ} (hsorted : (a ++ b).Pairwise (· < ·)) (ha : ∀ x ∈ a, x < v) (hb : ∀ x ∈ b, v < x)
    {i : ℕ} (hi : i ≤ (a ++ b).length) :
    ((a ++ b).take i ++ v :: (a ++ b).drop i).Pairwise (· < ·) ↔ i = a.length := by
  constructor
  · intro h
    obtain ⟨-, hpb, hab⟩ := List.pairwise_append.mp h
    obtain ⟨hbehind, -⟩ := List.pairwise_cons.mp hpb
    rcases Nat.lt_trichotomy i a.length with hlt | heq | hgt
    · have hmem : a[i] ∈ (a ++ b).drop i := by
        rw [List.drop_append_of_le_length hlt.le]
        exact List.mem_append_left _ (by rw [List.drop_eq_getElem_cons hlt]; exact List.mem_cons_self)
      have h1 := hbehind _ hmem
      have h2 := ha _ (List.getElem_mem hlt)
      omega
    · exact heq
    · rw [List.length_append] at hi
      obtain ⟨x, b', rfl⟩ := List.exists_cons_of_length_pos (l := b) (by omega)
      have hmem : x ∈ (a ++ x :: b').take i := by
        rw [List.take_append, List.take_cons (by omega)]
        exact List.mem_append_right _ List.mem_cons_self
      have h1 := hab x hmem v List.mem_cons_self
      have h2 := hb x List.mem_cons_self
      omega
  · rintro rfl
    rw [List.take_left, List.drop_left]
    exact pairwise_insert hsorted ha hb

/-- Every operation adds one member at most. -/
theorem card_members (ops : List Op) : ∀ S : Finset ℤ, (members ops S).card ≤ S.card + ops.length := by
  induction ops with
  | nil => exact fun S => le_rfl
  | cons op ops ih =>
    intro S
    have hrest : (members (op :: ops) S).card ≤ (op.apply S).card + ops.length := ih (op.apply S)
    have hfirst : (op.apply S).card ≤ S.card + 1 := by
      cases op with
      | add v => exact Finset.card_insert_le _ _
      | remove v => exact (Finset.card_le_card (Finset.erase_subset _ _)).trans (Nat.le_succ _)
    rw [List.length_cons]
    omega

/-- **An intset is a sorted set.** After any run from the empty intset in which the set has fewer than `2 ^ 28`
members at every time, the cells are the members in order and fit the encoding, `intsetFind` tells the
members, `intsetSearch` of another value gives the one place where it belongs, and the flags of the run tell
which operations changed the set. -/
theorem intset_sorted_set (ops : List (Op × (ℕ → Fin 256))) (hv : ∀ op ∈ ops.map Prod.fst, IsInt64 op.value)
    (hsmall : ∀ k, (members ((ops.map Prod.fst).take k) ∅).card < 2 ^ 28) :
    ∃ is flags, ∃ l : List ℤ, run ops intsetNew = some (is, flags) ∧ flags = changes (ops.map Prod.fst) ∅ ∧
      decode is = l.map some ∧ l.Pairwise (· < ·) ∧ l.toFinset = members (ops.map Prod.fst) ∅ ∧
      (∀ v ∈ l, -2 ^ (8 * is.encoding - 1) ≤ v ∧ v < 2 ^ (8 * is.encoding - 1)) ∧
      (∀ v, intsetFind is v = some (decide (v ∈ members (ops.map Prod.fst) ∅))) ∧
      ∀ v ∉ members (ops.map Prod.fst) ∅, ∃ pos ≤ l.length, intsetSearch is v = some (false, pos) ∧
        ∀ i ≤ l.length, (l.take i ++ v :: l.drop i).Pairwise (· < ·) ↔ i = pos := by
  obtain ⟨is, l, hrun, h, hl⟩ := run_spec ops holds_new hv hsmall
  rw [List.toFinset_nil] at hrun hl
  refine ⟨is, _, l, hrun, rfl, h.decode_eq, h.sorted, hl, fun v hmem => h.bounds hmem, fun v => ?_, fun v hnot => ?_⟩
  · rw [intsetFind_spec h, ← hl]
    exact congrArg some (decide_eq_decide.mpr List.mem_toFinset.symm)
  · rw [← hl, List.mem_toFinset] at hnot
    rcases intsetSearch_spec h v with ⟨a, b, rfl, -⟩ | ⟨a, b, rfl, ha, hb, hs⟩
    · exact absurd (by simp) hnot
    · refine ⟨a.length, by simp, hs, fun i hi => place_unique h.sorted ha hb hi⟩

theorem intset_sorted_set_widening :
    ∃ is flags, ∃ l : List ℤ, run [(.add 5, fun _ => 0), (.add (-100000), fun _ => 0), (.remove 5, fun _ => 0)] intsetNew =
        some (is, flags) ∧ flags = [true, true, true] ∧ decode is = l.map some ∧ l.toFinset = {-100000} := by
  obtain ⟨is, flags, l, hrun, hflags, hdecode, -, hmem, -⟩ := intset_sorted_set
    [(.add 5, fun _ => 0), (.add (-100000), fun _ => 0), (.remove 5, fun _ => 0)]
    (by
      intro op hop
      simp only [List.map_cons, List.map_nil, List.mem_cons, List.not_mem_nil, or_false] at hop
      rcases hop with rfl | rfl | rfl
      · exact ⟨by decide, by decide⟩
      · exact ⟨by decide, by decide⟩
      · exact ⟨by decide, by decide⟩)
    (by
      intro k
      have h := card_members (([.add 5, .add (-100000), .remove 5] : List Op).take k) ∅
      have hlen := List.length_take_le' k ([.add 5, .add (-100000), .remove 5] : List Op)
      rw [Finset.card_empty, Nat.zero_add] at h
      exact (h.trans hlen).trans_lt (by decide))
  exact ⟨is, flags, l, hrun, by rw [hflags]; decide, hdecode, by rw [hmem]; decide⟩

end RedisZk.Intset
