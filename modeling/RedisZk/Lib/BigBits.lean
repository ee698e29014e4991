/-
# Bits of an array of bytes, the most significant first

The bits of an array in the order of a big-endian number: bit 0 is the highest of the
first byte. A row of bits from any place on is a number, and the numbers of two arrays
are the same where their bits are.

Key definitions: `bit`, `number`, `ones`.
Key theorems: `testBit_number`, `number_eq_mod`, `bit_set`, `ones_append`.
-/
import Mathlib
import RedisZk.Lib.Endian

namespace BigBits

open Endian (Byte)

variable {p q : List Byte} {k n off : ℕ}

/-- A bit of the array; there are none behind the end. -/
def bit (p : List Byte) (k : ℕ) : Bool := ((p[k / 8]?).getD 0).val.testBit (7 - k % 8)

/-- The number of the `n` bits from a place on. -/
def number (p : List Byte) (off : ℕ) : ℕ → ℕ
  | 0 => 0
  | n + 1 => number p off n * 2 + (bit p (off + n)).toNat

attribute [local simp] number

theorem number_lt (p : List Byte) (off n : ℕ) : number p off n < 2 ^ n := by
  induction n with
  | zero => exact Nat.one_pos
  | succ n ih =>
    have hbit := Bool.toNat_le (bit p (off + n))
    rw [number, pow_succ]
    omega

theorem testBit_number (p : List Byte) (off n j : ℕ) :
    (number p off n).testBit j = (decide (j < n) && bit p (off + n - 1 - j)) := by
  induction n generalizing j with
  | zero => simp
  | succ n ih =>
    have htop : (bit p (off + n)).toNat < 2 ^ 1 := by
      have hbit := Bool.toNat_le (bit p (off + n))
      omega
    have hsplit := Nat.testBit_two_pow_mul_add (number p off n) htop j
    rw [number, Nat.mul_comm, show 2 * number p off n = 2 ^ 1 * number p off n by rw [pow_one], hsplit]
    cases j with
    | zero =>
      rw [if_pos Nat.one_pos, decide_eq_true (Nat.succ_pos n), Bool.true_and, show off + (n + 1) - 1 - 0 = off + n by omega]
      cases bit p (off + n) with
      | true => rfl
      | false => rfl
    | succ j =>
      rw [if_neg (by omega), Nat.add_sub_cancel, ih]
      congr 1
      · simp
      · congr 1
        omega

/-- From the highest bit. -/
theorem number_succ (p : List Byte) (off n : ℕ) :
    number p off (n + 1) = (bit p off).toNat * 2 ^ n + number p (off + 1) n := by
  induction n with
  | zero => simp
  | succ n ih =>
    rw [number, ih, number, show off + 1 + n = off + (n + 1) by omega, pow_succ]
    ring

theorem number_add (p : List Byte) (off m n : ℕ) : number p off (m + n) = number p off m * 2 ^ n + number p (off + m) n := by
  induction n with
  | zero => rw [Nat.add_zero, pow_zero, Nat.mul_one, number, Nat.add_zero]
  | succ n ih =>
    rw [← Nat.add_assoc, number, ih, number, pow_succ, Nat.add_assoc off m n]
    ring

/-- The same bits at another place. -/
theorem number_congr {off' : ℕ} (h : ∀ i, i < n → bit q (off' + i) = bit p (off + i)) : number q off' n = number p off n := by
  induction n with
  | zero => rfl
  | succ n ih => rw [number, number, ih fun i hi => h i (by omega), h n (Nat.lt_succ_self n)]

/-- Bits that are those of a value make it, up to its higher ones. -/
theorem number_eq_mod {v : ℕ} (h : ∀ i, i < n → bit p (off + i) = v.testBit (n - 1 - i)) : number p off n = v % 2 ^ n := by
  refine Nat.eq_of_testBit_eq fun j => ?_
  rw [testBit_number, Nat.testBit_mod_two_pow]
  by_cases hj : j < n
  · have hbit := h (n - 1 - j) (by omega)
    rw [show off + (n - 1 - j) = off + n - 1 - j by omega, show n - 1 - (n - 1 - j) = j by omega] at hbit
    rw [decide_eq_true hj, Bool.true_and, Bool.true_and, hbit]
  · rw [decide_eq_false hj, Bool.false_and, Bool.false_and]

/-- A byte whose bits are those of the array but for one. -/
theorem bit_set {b v : Byte} {x : Bool} (hb : p[k / 8]? = some b)
    (hv : ∀ j < 8, v.val.testBit j = if j = 7 - k % 8 then x else b.val.testBit j) (i : ℕ) :
    bit (p.set (k / 8) v) i = if i = k then x else bit p i := by
  have hlt := (List.getElem?_eq_some_iff.mp hb).1
  unfold bit
  by_cases hbyte : i / 8 = k / 8
  · rw [hbyte, List.getElem?_set_self hlt, Option.getD_some, hb, Option.getD_some, hv _ (by omega)]
    by_cases hik : i = k
    · rw [if_pos hik, if_pos (by rw [hik])]
    · rw [if_neg hik, if_neg (by omega)]
  · rw [List.getElem?_set_ne (fun heq => hbyte heq.symm), if_neg (fun heq => hbyte (by rw [heq]))]

theorem number_nil (off n : ℕ) : number [] off n = 0 := by
  have hzero : number [] off n = 0 % 2 ^ n := number_eq_mod fun i _ => by
    rw [bit, List.getElem?_nil, Option.getD_none, Nat.zero_testBit]
    exact Nat.zero_testBit _
  rw [hzero, Nat.zero_mod]

/-- The first byte is the highest. -/
theorem number_cons (b : Byte) (p : List Byte) (n : ℕ) : number (b :: p) 0 (8 + n) = b.val * 2 ^ n + number p 0 n := by
  have hfirst : number (b :: p) 0 8 = b.val % 2 ^ 8 := number_eq_mod fun i hi => by
    rw [bit, Nat.zero_add, Nat.div_eq_of_lt hi, List.getElem?_cons_zero, Option.getD_some, Nat.mod_eq_of_lt hi]
  have hrest : number (b :: p) (0 + 8) n = number p 0 n := number_congr fun i _ => by
    rw [bit, bit, show (0 + 8 + i) / 8 = (0 + i) / 8 + 1 by omega, List.getElem?_cons_succ,
      show (0 + 8 + i) % 8 = (0 + i) % 8 by omega]
  rw [number_add, hfirst, hrest, Nat.mod_eq_of_lt (show b.val < 2 ^ 8 from b.isLt)]

/-! ### Counting -/

/-- The number of the bits that are 1. -/
def ones (p : List Byte) : ℕ := (List.range (8 * p.length)).countP (bit p)

theorem bit_append_left {i : ℕ} (h : i < 8 * p.length) : bit (p ++ q) i = bit p i := by
  unfold bit
  rw [List.getElem?_append_left (by omega)]

theorem bit_append_right (p q : List Byte) (i : ℕ) : bit (p ++ q) (8 * p.length + i) = bit q i := by
  unfold bit
  rw [List.getElem?_append_right (by omega), show (8 * p.length + i) / 8 - p.length = i / 8 by omega,
    show (8 * p.length + i) % 8 = i % 8 by omega]

@[simp] theorem ones_nil : ones [] = 0 := rfl

theorem ones_append (p q : List Byte) : ones (p ++ q) = ones p + ones q := by
  unfold ones
  rw [List.length_append, Nat.mul_add, List.range_add, List.countP_append, List.countP_map]
  congr 1
  · refine List.countP_congr fun i hi => ?_
    rw [bit_append_left (List.mem_range.mp hi)]
  · refine List.countP_congr fun i _ => ?_
    rw [Function.comp_apply, bit_append_right]

theorem ones_cons (b : Byte) (p : List Byte) : ones (b :: p) = ones [b] + ones p := ones_append [b] p

end BigBits
