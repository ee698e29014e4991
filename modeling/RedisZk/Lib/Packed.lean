/-
# Numbers of a few bits in an array of bytes

The numbers stand one behind the other with no gap, the least significant bit first, so that one
may begin in a byte and end in the next. Writing one of them changes no bit of another.

Key definitions: `bit`, `getCell`, `setCell`, `cells`.
Key theorems: `testBit_getCell`, `bit_setCell`, `getCell_setCell`, `cells_setCell`.
-/
import Mathlib
import RedisZk.Lib.Endian

namespace Packed

open Endian (Byte)

variable {w : ℕ}

/-- A bit of the array. -/
def bit (p : List Byte) (k : ℕ) : Bool := ((p[k / 8]?).getD 0).val.testBit (k % 8)

/-- The number at `r`, of two bytes. -/
def getCell (w : ℕ) (p : List Byte) (r : ℕ) : Option ℕ := do
  let b0 ← p[r * w / 8]?
  let b1 ← p[r * w / 8 + 1]?
  some ((b0.val >>> (r * w % 8) ||| b1.val <<< (8 - r * w % 8)) &&& (2 ^ w - 1))

/-- The number `v` is put at `r`, into two bytes. -/
def setCell (w : ℕ) (p : List Byte) (r v : ℕ) : Option (List Byte) := do
  let b0 ← p[r * w / 8]?
  let b1 ← p[r * w / 8 + 1]?
  let p := p.set (r * w / 8) (Fin.ofNat 256 (Nat.ldiff b0.val ((2 ^ w - 1) <<< (r * w % 8)) ||| v <<< (r * w % 8)))
  some (p.set (r * w / 8 + 1)
    (Fin.ofNat 256 (Nat.ldiff b1.val ((2 ^ w - 1) >>> (8 - r * w % 8)) ||| v >>> (8 - r * w % 8))))

/-- The numbers from 0 up to `n`. -/
def cells (w n : ℕ) (p : List Byte) : List ℕ := (List.range n).map fun r => (getCell w p r).getD 0

@[simp] theorem length_cells (w n : ℕ) (p : List Byte) : (cells w n p).length = n := by
  rw [cells, List.length_map, List.length_range]

theorem cells_get {n r : ℕ} (p : List Byte) (hr : r < n) : (cells w n p)[r]? = some ((getCell w p r).getD 0) := by
  rw [cells, List.getElem?_map, List.getElem?_range hr, Option.map_some]

/-! ### Bits of one number -/

theorem testBit_byte (b : Byte) {j : ℕ} (hj : 8 ≤ j) : b.val.testBit j = false := by
  have hb : b.val < 2 ^ j := lt_of_lt_of_le b.isLt (Nat.pow_le_pow_right Nat.zero_lt_two hj)
  exact Nat.testBit_lt_two_pow hb

theorem testBit_ofNat (n : ℕ) {j : ℕ} (hj : j < 8) : (Fin.ofNat 256 n).val.testBit j = n.testBit j := by
  have hmod : (Fin.ofNat 256 n).val = n % 2 ^ 8 := Fin.val_ofNat 256 n
  rw [hmod, Nat.testBit_mod_two_pow, decide_eq_true hj, Bool.true_and]

variable {p : List Byte}

/-- The number at `r` is made of the bits from `r * w` on. -/
theorem testBit_getCell {r : ℕ} (hw : w ≤ 8) (hr : r * w / 8 + 1 < p.length) :
    ∃ x, getCell w p r = some x ∧ ∀ j, x.testBit j = (decide (j < w) && bit p (r * w + j)) := by
  have h0 : p[r * w / 8]? = some p[r * w / 8] := List.getElem?_eq_getElem (by omega)
  have h1 : p[r * w / 8 + 1]? = some p[r * w / 8 + 1] := List.getElem?_eq_getElem hr
  refine ⟨_, by rw [getCell, h0, Option.bind_eq_bind, Option.bind_some, h1]; rfl, ?_⟩
  intro j
  rw [Nat.testBit_and, Nat.testBit_two_pow_sub_one, Bool.and_comm, Nat.testBit_or, Nat.testBit_shiftRight,
    Nat.testBit_shiftLeft]
  by_cases hj : j < w
  · congr 1
    by_cases hin : r * w % 8 + j < 8
    · have hdiv : (r * w + j) / 8 = r * w / 8 := by omega
      have hmod : (r * w + j) % 8 = r * w % 8 + j := by omega
      rw [decide_eq_false (by omega : ¬ 8 - r * w % 8 ≤ j), Bool.false_and, Bool.or_false, bit, hdiv, hmod, h0,
        Option.getD_some]
    · have hdiv : (r * w + j) / 8 = r * w / 8 + 1 := by omega
      have hmod : (r * w + j) % 8 = j - (8 - r * w % 8) := by omega
      rw [testBit_byte _ (by omega), Bool.false_or, decide_eq_true (by omega : 8 - r * w % 8 ≤ j), Bool.true_and, bit,
        hdiv, hmod, h1, Option.getD_some]
  · rw [decide_eq_false hj, Bool.false_and, Bool.false_and]

/-- Of the bits only those of the number at `r` are written. -/
theorem bit_setCell {r v : ℕ} (hw : w ≤ 8) (hv : v < 2 ^ w) (hr : r * w / 8 + 1 < p.length) :
    ∃ p', setCell w p r v = some p' ∧ p'.length = p.length ∧
      ∀ k, bit p' k = if r * w ≤ k ∧ k < r * w + w then v.testBit (k - r * w) else bit p k := by
  have h0 : p[r * w / 8]? = some p[r * w / 8] := List.getElem?_eq_getElem (by omega)
  have h1 : p[r * w / 8 + 1]? = some p[r * w / 8 + 1] := List.getElem?_eq_getElem hr
  refine ⟨_, by rw [setCell, h0, Option.bind_eq_bind, Option.bind_some, h1]; rfl, ?_, ?_⟩
  · rw [List.length_set, List.length_set]
  intro k
  have hv' : ∀ j, w ≤ j → v.testBit j = false := fun j hj =>
    Nat.testBit_lt_two_pow (lt_of_lt_of_le hv (Nat.pow_le_pow_right Nat.zero_lt_two hj))
  rw [bit]
  by_cases hk0 : k / 8 = r * w / 8
  · -- the byte where the number begins
    rw [hk0, List.getElem?_set_ne (by omega), List.getElem?_set_self (by omega), Option.getD_some,
      testBit_ofNat _ (by omega), Nat.testBit_or, Nat.testBit_ldiff, Nat.testBit_shiftLeft, Nat.testBit_shiftLeft,
      Nat.testBit_two_pow_sub_one]
    have hbit : bit p k = p[r * w / 8].val.testBit (k % 8) := by rw [bit, hk0, h0, Option.getD_some]
    by_cases hlo : r * w ≤ k
    · have hsub : k % 8 - r * w % 8 = k - r * w := by omega
      rw [decide_eq_true (by omega : r * w % 8 ≤ k % 8), Bool.true_and, Bool.true_and, hsub]
      by_cases hhi : k - r * w < w
      · rw [decide_eq_true hhi, Bool.not_true, Bool.and_false, Bool.false_or, if_pos (by omega)]
      · rw [decide_eq_false hhi, Bool.not_false, Bool.and_true, hv' _ (by omega), Bool.or_false, if_neg (by omega), hbit]
    · rw [decide_eq_false (by omega : ¬ r * w % 8 ≤ k % 8), Bool.false_and, Bool.not_false, Bool.and_true, Bool.false_and,
        Bool.or_false, if_neg (by omega), hbit]
  · by_cases hk1 : k / 8 = r * w / 8 + 1
    · -- the byte behind it
      rw [hk1, List.getElem?_set_self (by rw [List.length_set]; omega), Option.getD_some, testBit_ofNat _ (by omega),
        Nat.testBit_or, Nat.testBit_ldiff, Nat.testBit_shiftRight, Nat.testBit_shiftRight, Nat.testBit_two_pow_sub_one]
      have hadd : 8 - r * w % 8 + k % 8 = k - r * w := by omega
      have hbit : bit p k = p[r * w / 8 + 1].val.testBit (k % 8) := by rw [bit, hk1, h1, Option.getD_some]
      rw [hadd]
      by_cases hhi : k - r * w < w
      · rw [decide_eq_true hhi, Bool.not_true, Bool.and_false, Bool.false_or, if_pos (by omega)]
      · rw [decide_eq_false hhi, Bool.not_false, Bool.and_true, hv' _ (by omega), Bool.or_false, if_neg (by omega), hbit]
    · rw [List.getElem?_set_ne (by omega), List.getElem?_set_ne (by omega), if_neg (by omega), bit]

/-- The number that is written is read back, the others are as before. -/
theorem getCell_setCell {r v : ℕ} (hw : w ≤ 8) (hv : v < 2 ^ w) (hr : r * w / 8 + 1 < p.length) :
    ∃ p', setCell w p r v = some p' ∧ p'.length = p.length ∧ ∀ s, s * w / 8 + 1 < p.length →
      getCell w p' s = if s = r then some v else getCell w p s := by
  obtain ⟨p', hset, hlen, hbit⟩ := bit_setCell hw hv hr
  refine ⟨p', hset, hlen, ?_⟩
  intro s hs
  obtain ⟨x, hx, hxbit⟩ := testBit_getCell (p := p') hw (hlen.symm ▸ hs)
  rw [hx]
  split
  · rename_i hsr
    subst hsr
    refine congrArg some (Nat.eq_of_testBit_eq fun j => ?_)
    rw [hxbit, hbit]
    by_cases hj : j < w
    · rw [decide_eq_true hj, Bool.true_and, if_pos (by omega), Nat.add_sub_cancel_left]
    · have hvj : v.testBit j = false :=
        Nat.testBit_lt_two_pow (lt_of_lt_of_le hv (Nat.pow_le_pow_right Nat.zero_lt_two (not_lt.mp hj)))
      rw [decide_eq_false hj, Bool.false_and, hvj]
  · rename_i hsr
    obtain ⟨y, hy, hybit⟩ := testBit_getCell (p := p) hw hs
    rw [hy]
    refine congrArg some (Nat.eq_of_testBit_eq fun j => ?_)
    rw [hxbit, hybit, hbit]
    by_cases hj : j < w
    · have hapart : ¬ (r * w ≤ s * w + j ∧ s * w + j < r * w + w) := by
        rcases Nat.lt_or_gt_of_ne hsr with h | h
        · have hle : (s + 1) * w ≤ r * w := Nat.mul_le_mul_right w h
          rw [Nat.succ_mul] at hle
          omega
        · have hle : (r + 1) * w ≤ s * w := Nat.mul_le_mul_right w h
          rw [Nat.succ_mul] at hle
          omega
      rw [if_neg hapart]
    · rw [decide_eq_false hj, Bool.false_and, Bool.false_and]

theorem getCell_lt {r : ℕ} (hr : r * w / 8 + 1 < p.length) : ∃ x, getCell w p r = some x ∧ x < 2 ^ w := by
  have h0 : p[r * w / 8]? = some p[r * w / 8] := List.getElem?_eq_getElem (by omega)
  have h1 : p[r * w / 8 + 1]? = some p[r * w / 8 + 1] := List.getElem?_eq_getElem hr
  refine ⟨_, by rw [getCell, h0, Option.bind_eq_bind, Option.bind_some, h1]; rfl, ?_⟩
  rw [Nat.and_two_pow_sub_one_eq_mod]
  exact Nat.mod_lt _ (Nat.two_pow_pos w)

/-- Writing a number replaces it in the list of the numbers. -/
theorem cells_setCell {n r v : ℕ} (hw : w ≤ 8) (hv : v < 2 ^ w) (hrn : r < n)
    (hn : ∀ s < n, s * w / 8 + 1 < p.length) :
    ∃ p', setCell w p r v = some p' ∧ p'.length = p.length ∧ cells w n p' = (cells w n p).set r v := by
  obtain ⟨p', hset, hlen, hget⟩ := getCell_setCell hw hv (hn r hrn)
  refine ⟨p', hset, hlen, ?_⟩
  apply List.ext_getElem?
  intro s
  by_cases hs : s < n
  · rw [cells_get _ hs, hget s (hn s hs)]
    by_cases hsr : s = r
    · subst hsr
      rw [if_pos rfl, List.getElem?_set_self (by rw [length_cells]; exact hs)]
      rfl
    · rw [if_neg hsr, List.getElem?_set_ne (fun h => hsr h.symm), cells_get _ hs]
  · rw [List.getElem?_eq_none (by rw [length_cells]; omega),
      List.getElem?_eq_none (by rw [List.length_set, length_cells]; omega)]

/-- The numbers are those of their bits. -/
theorem cells_congr {p p' : List Byte} {n : ℕ} (hw : w ≤ 8) (hlen : p'.length = p.length)
    (hn : ∀ s < n, s * w / 8 + 1 < p.length) (h : ∀ k < n * w, bit p' k = bit p k) : cells w n p' = cells w n p := by
  refine List.map_congr_left fun r hr => ?_
  have hr := List.mem_range.mp hr
  obtain ⟨x, hx, hxbit⟩ := testBit_getCell (p := p') hw (hlen.symm ▸ hn r hr)
  obtain ⟨y, hy, hybit⟩ := testBit_getCell (p := p) hw (hn r hr)
  have hle : (r + 1) * w ≤ n * w := Nat.mul_le_mul_right w hr
  rw [Nat.succ_mul] at hle
  have hxy : x = y := by
    refine Nat.eq_of_testBit_eq fun j => ?_
    rw [hxbit, hybit]
    by_cases hj : j < w
    · rw [h (r * w + j) (by omega)]
    · rw [decide_eq_false hj, Bool.false_and, Bool.false_and]
  rw [hx, hy, hxy]

/-- A bit of the array is one of its bytes in front. -/
theorem bit_append (p q q' : List Byte) {k : ℕ} (hk : k / 8 < p.length) : bit (p ++ q) k = bit (p ++ q') k := by
  rw [bit, bit, List.getElem?_append_left hk, List.getElem?_append_left hk]

end Packed
