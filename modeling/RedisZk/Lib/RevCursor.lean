/-
# Cursors counted from the high bit

A cursor over the buckets of a table whose size is a power of two, and may change
between two uses of the cursor: bits that the mask of the table does not have are
set, and the cursor with its bits reversed is incremented. The order in which
cursors come is that of their bits reversed (`pos`). In it the hashes of one
bucket are a block of consecutive places, of `2^(w-k)` for a table of `2^k`
buckets, the blocks of a larger table divide those of a smaller one, and the next
cursor is at the end of the block.

Key definitions: `pos`, `lowMask`, `next`, `blockEnd`.
Key theorems: `and_lowMask_eq_iff`, `pos_next`, `and_xor_eq_zero_iff`, `blockEnd_le_of_dvd`.
-/
import Mathlib

namespace RevCursor

variable {w k k0 k1 : ℕ}

/-- The place of a cursor in the order in which they come. -/
def pos (v : BitVec w) : ℕ := v.reverse.toNat

/-- The mask of the `k` low bits. -/
def lowMask (w k : ℕ) : BitVec w := BitVec.ofNat w (2 ^ k - 1)

/-- The cursor after `v`, in a table with the mask `m`. -/
def next (m v : BitVec w) : BitVec w := ((v ||| ~~~m).reverse + 1).reverse

theorem pos_lt (v : BitVec w) : pos v < 2 ^ w := v.reverse.isLt

@[simp] theorem pos_zero : pos (0 : BitVec w) = 0 := by
  apply Nat.eq_of_testBit_eq
  intro i
  rw [pos, BitVec.testBit_toNat, BitVec.getLsbD_reverse]
  simp

theorem reverse_reverse (v : BitVec w) : v.reverse.reverse = v := by
  apply BitVec.eq_of_getLsbD_eq
  intro i hi
  rw [BitVec.getLsbD_reverse, BitVec.getMsbD_eq_getLsbD, BitVec.getLsbD_reverse, BitVec.getMsbD_eq_getLsbD]
  have h1 : w - 1 - i < w := by omega
  have h2 : w - 1 - (w - 1 - i) = i := by omega
  simp [hi, h1, h2]

/-! ### Bits -/

theorem testBit_pos (v : BitVec w) (i : ℕ) : (pos v).testBit i = (decide (i < w) && v.getLsbD (w - 1 - i)) := by
  rw [pos, BitVec.testBit_toNat, BitVec.getLsbD_reverse, BitVec.getMsbD_eq_getLsbD]

theorem getLsbD_lowMask (i : ℕ) : (lowMask w k).getLsbD i = (decide (i < w) && decide (i < k)) := by
  rw [lowMask, BitVec.getLsbD_ofNat, Nat.testBit_two_pow_sub_one]

theorem getLsbD_eq_testBit (v : BitVec w) {i : ℕ} (hi : i < w) : v.getLsbD i = (pos v).testBit (w - 1 - i) := by
  have h1 : w - 1 - i < w := by omega
  have h2 : w - 1 - (w - 1 - i) = i := by omega
  rw [testBit_pos, h2, decide_eq_true h1, Bool.true_and]

theorem mod_two_pow_eq_zero_iff {n j : ℕ} : n % 2 ^ j = 0 ↔ ∀ i < j, n.testBit i = false := by
  constructor
  · intro h i hi
    have hbit := Nat.testBit_mod_two_pow n j i
    rw [h, Nat.zero_testBit, decide_eq_true hi, Bool.true_and] at hbit
    exact hbit.symm
  · intro h
    apply Nat.eq_of_testBit_eq
    intro i
    rw [Nat.testBit_mod_two_pow, Nat.zero_testBit]
    by_cases hi : i < j
    · rw [h i hi, Bool.and_false]
    · rw [decide_eq_false hi, Bool.false_and]

/-- Two hashes are in one bucket exactly when their places are in one block. -/
theorem and_lowMask_eq_iff (hk : k ≤ w) {v h : BitVec w} :
    v &&& lowMask w k = h &&& lowMask w k ↔ pos v / 2 ^ (w - k) = pos h / 2 ^ (w - k) := by
  constructor
  · intro heq
    apply Nat.eq_of_testBit_eq
    intro i
    rw [Nat.testBit_div_two_pow, Nat.testBit_div_two_pow, testBit_pos, testBit_pos]
    by_cases hi : i + (w - k) < w
    · have hbit := congrArg (fun x : BitVec w => x.getLsbD (w - 1 - (i + (w - k)))) heq
      have h1 : w - 1 - (i + (w - k)) < w := by omega
      have h2 : w - 1 - (i + (w - k)) < k := by omega
      simp only [BitVec.getLsbD_and, getLsbD_lowMask, decide_eq_true h1, decide_eq_true h2, Bool.and_true] at hbit
      rw [hbit]
    · rw [decide_eq_false hi, Bool.false_and, Bool.false_and]
  · intro heq
    apply BitVec.eq_of_getLsbD_eq
    intro i hi
    rw [BitVec.getLsbD_and, BitVec.getLsbD_and, getLsbD_lowMask]
    by_cases hik : i < k
    · have hbit := congrArg (fun x : ℕ => x.testBit (k - 1 - i)) heq
      have hsum : k - 1 - i + (w - k) = w - 1 - i := by omega
      simp only [Nat.testBit_div_two_pow, hsum] at hbit
      rw [getLsbD_eq_testBit v hi, getLsbD_eq_testBit h hi, hbit]
    · rw [decide_eq_false hik, Bool.and_false, Bool.and_false, Bool.and_false]

/-- The bits above the `w - k` low ones of the place, which are set. -/
theorem pos_or_not_lowMask (hk : k ≤ w) (v : BitVec w) :
    pos (v ||| ~~~lowMask w k) = 2 ^ (w - k) * (pos v / 2 ^ (w - k)) + (2 ^ (w - k) - 1) := by
  apply Nat.eq_of_testBit_eq
  intro i
  have hlt : 2 ^ (w - k) - 1 < 2 ^ (w - k) := Nat.sub_lt (Nat.two_pow_pos _) one_pos
  rw [Nat.testBit_two_pow_mul_add _ hlt, Nat.testBit_div_two_pow, Nat.testBit_two_pow_sub_one, testBit_pos,
    BitVec.getLsbD_or, BitVec.getLsbD_not, getLsbD_lowMask]
  by_cases hi : i < w - k
  · have h1 : i < w := by omega
    have h2 : w - 1 - i < w := by omega
    have h3 : ¬ w - 1 - i < k := by omega
    simp [hi, h1, h2, h3]
  · rw [if_neg hi, Nat.sub_add_cancel (by omega), testBit_pos]
    by_cases hiw : i < w
    · have h2 : w - 1 - i < w := by omega
      have h3 : w - 1 - i < k := by omega
      simp [h2, h3]
    · rw [decide_eq_false hiw, Bool.false_and, Bool.false_and]

/-- The bits by which two masks differ are those between the blocks of the one table and of the other. -/
theorem and_xor_eq_zero_iff (h01 : k0 ≤ k1) (h1 : k1 ≤ w) {v : BitVec w} (hv : pos v % 2 ^ (w - k1) = 0) :
    v &&& (lowMask w k0 ^^^ lowMask w k1) = 0 ↔ pos v % 2 ^ (w - k0) = 0 := by
  rw [mod_two_pow_eq_zero_iff] at hv ⊢
  constructor
  · intro heq i hi
    by_cases hlow : i < w - k1
    · exact hv i hlow
    · have hbit := congrArg (fun x : BitVec w => x.getLsbD (w - 1 - i)) heq
      have hw : w - 1 - i < w := by omega
      have hne : ¬ w - 1 - i < k0 := by omega
      have hlt : w - 1 - i < k1 := by omega
      simp only [BitVec.getLsbD_and, BitVec.getLsbD_xor, getLsbD_lowMask, decide_eq_true hw, decide_eq_false hne,
        decide_eq_true hlt, Bool.and_true, Bool.and_false, Bool.false_xor] at hbit
      rw [testBit_pos, hbit]
      simp
  · intro hall
    apply BitVec.eq_of_getLsbD_eq
    intro i hi
    rw [BitVec.getLsbD_and, BitVec.getLsbD_xor, getLsbD_lowMask, getLsbD_lowMask, getLsbD_eq_testBit v hi]
    by_cases hik : i < k0
    · have hik1 : i < k1 := by omega
      simp [hik, hik1]
    · rw [hall (w - 1 - i) (by omega), Bool.false_and]
      simp

/-! ### Blocks -/

/-- The first place after the block of `r`. -/
def blockEnd (b r : ℕ) : ℕ := b * (r / b + 1)

/-- The next cursor is at the end of the block. -/
theorem pos_next (hk : k ≤ w) (v : BitVec w) : pos (next (lowMask w k) v) = blockEnd (2 ^ (w - k)) (pos v) % 2 ^ w := by
  have hpos := Nat.two_pow_pos (w - k)
  have hsucc : pos (v ||| ~~~lowMask w k) + 1 = blockEnd (2 ^ (w - k)) (pos v) := by
    rw [pos_or_not_lowMask hk, blockEnd, Nat.mul_add, Nat.mul_one]
    omega
  rw [← hsucc, next, pos, reverse_reverse, BitVec.toNat_add, pos]
  simp

variable {b b0 b1 r : ℕ}

theorem lt_blockEnd (hb : 0 < b) (r : ℕ) : r < blockEnd b r := by
  rw [blockEnd]
  exact Nat.lt_mul_div_succ r hb

theorem blockEnd_div (hb : 0 < b) (r : ℕ) : blockEnd b r / b = r / b + 1 := Nat.mul_div_cancel_left _ hb

theorem dvd_blockEnd : b ∣ blockEnd b r := Nat.dvd_mul_right _ _

/-- A block that begins after `r` begins at the end of the block of `r` or later. -/
theorem blockEnd_le_of_dvd {x : ℕ} (hd : b ∣ x) (hr : r < x) : blockEnd b r ≤ x := by
  obtain ⟨c, rfl⟩ := hd
  exact Nat.mul_le_mul_left b (Nat.div_lt_of_lt_mul hr)

/-- The blocks of the larger table divide those of the smaller one. -/
theorem blockEnd_mono (h : b1 ∣ b0) (hb : 0 < b0) : blockEnd b1 r ≤ blockEnd b0 r :=
  blockEnd_le_of_dvd (h.trans dvd_blockEnd) (lt_blockEnd hb r)

/-- Places between the beginning of a block and its end are in one block. -/
theorem div_eq_of_between {x : ℕ} (hr : r ≤ x) (hx : x < blockEnd b r) : x / b = r / b := by
  apply le_antisymm
  · exact Nat.lt_succ_iff.mp (Nat.div_lt_of_lt_mul hx)
  · exact Nat.div_le_div_right hr

theorem blockEnd_eq_of_between {x : ℕ} (hr : r ≤ x) (hx : x < blockEnd b r) : blockEnd b x = blockEnd b r := by
  rw [blockEnd, div_eq_of_between hr hx, blockEnd]

end RevCursor
