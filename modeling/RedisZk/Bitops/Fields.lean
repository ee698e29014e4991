/-
# Integers of any width in a bitmap

`setUnsignedBitfield` and its siblings write and read an integer of up to 64 bits at
any bit of a string, bit by bit. What is written is read again, and no other bit is
changed. A signed integer of 64 bits is extended by a shift by 64, which C leaves
undefined and the machine does as a shift by 0, as it looks at the lower six bits of
the count only: one below 0 is read as -1.

An `int64_t` is an integer in its range, a `uint64_t` a number below `2^64`; a sum that
does not fit wraps. Reading or writing behind the string fails.

Key definitions: `setUnsignedBitfield`, `setSignedBitfield`, `getUnsignedBitfield`, `getSignedBitfield`.
Key theorems: `setUnsignedBitfield_spec`, `getUnsignedBitfield_spec`, `getSignedBitfield_spec`.
-/
import RedisZk.Aof.Load
import RedisZk.Lib.BigBits
import RedisZk.Util.Numbers

namespace RedisZk.Bitops

open Aof (wrap)
open BigBits (bit number)
open Streams (Sds IsInt64)

/-! ### Machine integers -/

def int64 (v : ℤ) : ℤ := wrap (2 ^ 63) v

def uint64 (v : ℤ) : ℕ := (v % 2 ^ 64).toNat

/-- A shift to the left, which looks at the lower six bits of the count. -/
def shl64 (v n : ℕ) : ℕ := (v <<< (n % 64)) % 2 ^ 64

def not64 (v : ℕ) : ℕ := 2 ^ 64 - (v + 1)

/-! ### The functions -/

/-- The loop of `setUnsignedBitfield`, with `k` bits left: `bits-1-j` is `k - 1`. -/
def setUnsignedLoop (value : ℕ) : ℕ → ℕ → Sds → Option Sds
  | 0, _, p => some p
  | k + 1, offset, p => do
    let bitval := if value &&& (1 <<< k) ≠ 0 then 1 else 0
    let byte := offset >>> 3
    let bit := 7 - (offset &&& 0x7)
    let byteval ← p[byte]?
    let byteval := byteval.val &&& not64 (1 <<< bit)
    let byteval := byteval ||| (bitval <<< bit)
    setUnsignedLoop value k (offset + 1) (p.set byte (Fin.ofNat 256 (byteval &&& 0xff)))

def setUnsignedBitfield (p : Sds) (offset bits value : ℕ) : Option Sds := setUnsignedLoop value bits offset p

def setSignedBitfield (p : Sds) (offset bits : ℕ) (value : ℤ) : Option Sds := setUnsignedBitfield p offset bits (uint64 value)

/-- The loop of `getUnsignedBitfield`, with `k` bits left. -/
def getUnsignedLoop (p : Sds) : ℕ → ℕ → ℕ → Option ℕ
  | 0, _, value => some value
  | k + 1, offset, value => do
    let byte := offset >>> 3
    let bit := 7 - (offset &&& 0x7)
    let byteval ← p[byte]?
    let bitval := (byteval.val >>> bit) &&& 1
    getUnsignedLoop p k (offset + 1) ((value <<< 1) % 2 ^ 64 ||| bitval)

def getUnsignedBitfield (p : Sds) (offset bits : ℕ) : Option ℕ := getUnsignedLoop p bits offset 0

def getSignedBitfield (p : Sds) (offset bits : ℕ) : Option ℤ := do
  let u ← getUnsignedBitfield p offset bits
  some (if u &&& shl64 1 (bits - 1) ≠ 0 then int64 ((u ||| shl64 (2 ^ 64 - 1) bits : ℕ)) else int64 u)

/-! ### Bits -/

theorem shiftRight_three (n : ℕ) : n >>> 3 = n / 8 := Nat.shiftRight_eq_div_pow n 3

theorem and_seven (n : ℕ) : n &&& 0x7 = n % 8 := Nat.and_two_pow_sub_one_eq_mod n 3

theorem and_bit (v k : ℕ) : (v &&& (1 <<< k) ≠ 0) ↔ v.testBit k = true := by
  rw [Nat.one_shiftLeft, Nat.and_two_pow]
  cases v.testBit k with
  | true => simp
  | false => simp

/-- The byte that the loop writes. -/
theorem testBit_written (b : Fin 256) {k j : ℕ} (x : Bool) (hk : k < 8) (hj : j < 8) :
    (Fin.ofNat 256 (((b.val &&& not64 (1 <<< k)) ||| ((if x = true then 1 else 0) <<< k)) &&& 0xff)).val.testBit j =
      if j = k then x else b.val.testBit j := by
  have hval : ∀ n, (Fin.ofNat 256 (n &&& 0xff)).val = n % 2 ^ 8 := by
    intro n
    rw [Fin.val_ofNat, show (0xff : ℕ) = 2 ^ 8 - 1 from rfl, Nat.and_two_pow_sub_one_eq_mod]
    omega
  have hpow : (1 : ℕ) <<< k < 2 ^ 64 := by
    rw [Nat.one_shiftLeft]
    exact Nat.pow_lt_pow_right Nat.one_lt_two (by omega)
  rw [hval, Nat.testBit_mod_two_pow, decide_eq_true hj, Bool.true_and, Nat.testBit_or, Nat.testBit_and, not64,
    Nat.testBit_two_pow_sub_succ hpow, Nat.one_shiftLeft, Nat.testBit_two_pow, Nat.testBit_shiftLeft,
    decide_eq_true (show j < 64 by omega), Bool.true_and]
  by_cases hjk : j = k
  · rw [if_pos hjk, hjk, Nat.sub_self]
    cases x with
    | true => simp
    | false => simp
  · rw [if_neg hjk, decide_eq_false (fun heq => hjk heq.symm), Bool.not_false, Bool.and_true]
    cases x with
    | false => simp
    | true =>
      have hbit : (decide (j ≥ k) && Nat.testBit 1 (j - k)) = false := by
        by_cases hle : k ≤ j
        · rw [Nat.testBit_lt_two_pow (Nat.one_lt_two_pow (by omega)), Bool.and_false]
        · rw [decide_eq_false hle, Bool.false_and]
      simp [hbit]

/-- The loop writes the lower bits of the value, and changes no other bit. -/
theorem setUnsignedLoop_spec (value : ℕ) (k : ℕ) : ∀ {offset : ℕ} {p : Sds}, offset + k ≤ 8 * p.length →
    ∃ p', setUnsignedLoop value k offset p = some p' ∧ p'.length = p.length ∧
      ∀ i, bit p' i = if offset ≤ i ∧ i < offset + k then value.testBit (offset + k - 1 - i) else bit p i := by
  induction k with
  | zero =>
    intro offset p _
    exact ⟨p, rfl, rfl, fun i => by rw [if_neg (by omega)]⟩
  | succ k ih =>
    intro offset p hfit
    have hlt : offset / 8 < p.length := by omega
    obtain ⟨b, hb⟩ : ∃ b, p[offset / 8]? = some b := ⟨_, List.getElem?_eq_getElem hlt⟩
    have hx : (if value &&& (1 <<< k) ≠ 0 then 1 else 0) = if value.testBit k = true then 1 else 0 := by
      by_cases hbit : value.testBit k = true
      · rw [if_pos ((and_bit value k).mpr hbit), if_pos hbit]
      · rw [if_neg (fun h => hbit ((and_bit value k).mp h)), if_neg hbit]
    obtain ⟨v, hv⟩ : ∃ v, v = Fin.ofNat 256 (((b.val &&& not64 (1 <<< (7 - offset % 8))) |||
        ((if value.testBit k = true then 1 else 0) <<< (7 - offset % 8))) &&& 0xff) := ⟨_, rfl⟩
    have hset := BigBits.bit_set (x := value.testBit k) hb (v := v) fun j hj => by
      rw [hv, testBit_written b _ (by omega) hj]
    obtain ⟨p', hrun, hlen, hbits⟩ := @ih (offset + 1) (p.set (offset / 8) v) (by rw [List.length_set]; omega)
    refine ⟨p', ?_, by rw [hlen, List.length_set], fun i => ?_⟩
    · rw [setUnsignedLoop]
      dsimp only
      rw [shiftRight_three, and_seven, hb, some_bind, hx, ← hv]
      exact hrun
    · rw [hbits, hset]
      by_cases hin : offset + 1 ≤ i ∧ i < offset + 1 + k
      · rw [if_pos hin, if_pos (by omega)]
        congr 1
        omega
      · rw [if_neg hin]
        by_cases hi : i = offset
        · rw [if_pos hi, if_pos (by omega), hi]
          congr 1
          omega
        · rw [if_neg hi, if_neg (by omega)]

theorem setUnsignedBitfield_spec {p : Sds} {offset bits : ℕ} (hfit : offset + bits ≤ 8 * p.length) (value : ℕ) :
    ∃ p', setUnsignedBitfield p offset bits value = some p' ∧ p'.length = p.length ∧
      number p' offset bits = value % 2 ^ bits ∧ ∀ i, i < offset ∨ offset + bits ≤ i → bit p' i = bit p i := by
  obtain ⟨p', hrun, hlen, hbits⟩ := setUnsignedLoop_spec value bits hfit
  refine ⟨p', hrun, hlen, BigBits.number_eq_mod fun i hi => ?_, fun i hi => ?_⟩
  · rw [hbits, if_pos (by omega)]
    congr 1
    omega
  · rw [hbits, if_neg (by omega)]

theorem getUnsignedLoop_spec {p : Sds} (k : ℕ) : ∀ {offset value m : ℕ}, offset + k ≤ 8 * p.length → value < 2 ^ m → m + k ≤ 64 →
    getUnsignedLoop p k offset value = some (value * 2 ^ k + number p offset k) := by
  induction k with
  | zero =>
    intro offset value _ _ _ _
    rw [getUnsignedLoop, pow_zero, Nat.mul_one, number, Nat.add_zero]
  | succ k ih =>
    intro offset value m hfit hlt hm
    have hbyte : offset / 8 < p.length := by omega
    have hb : p[offset / 8]? = some p[offset / 8] := List.getElem?_eq_getElem hbyte
    have hbit : ((p[offset / 8]).val >>> (7 - offset % 8)) &&& 1 = (bit p offset).toNat := by
      rw [bit, hb, Option.getD_some, Nat.and_one_is_mod, Nat.shiftRight_eq_div_pow, Nat.toNat_testBit]
    have hle := Bool.toNat_le (bit p offset)
    have hnext : value * 2 + (bit p offset).toNat < 2 ^ (m + 1) := by
      rw [pow_succ]
      omega
    have hsmall : value * 2 < 2 ^ 64 := by
      calc value * 2 ≤ value * 2 + (bit p offset).toNat := Nat.le_add_right _ _
        _ < 2 ^ (m + 1) := hnext
        _ ≤ 2 ^ 64 := Nat.pow_le_pow_right Nat.two_pos (by omega)
    have hor : (value <<< 1) % 2 ^ 64 ||| (bit p offset).toNat = value * 2 + (bit p offset).toNat := by
      rw [Nat.shiftLeft_eq, pow_one, Nat.mod_eq_of_lt hsmall]
      have hadd := Nat.two_pow_add_eq_or_of_lt (i := 1) (b := (bit p offset).toNat) (by omega) value
      rw [pow_one, Nat.mul_comm] at hadd
      exact hadd.symm
    rw [getUnsignedLoop]
    dsimp only
    rw [shiftRight_three, and_seven, hb, some_bind, hbit, hor, ih (by omega) hnext (by omega),
      BigBits.number_succ, pow_succ]
    congr 1
    ring

theorem getUnsignedBitfield_spec {p : Sds} {offset bits : ℕ} (hfit : offset + bits ≤ 8 * p.length) (hbits : bits ≤ 64) :
    getUnsignedBitfield p offset bits = some (number p offset bits) := by
  rw [getUnsignedBitfield, getUnsignedLoop_spec (m := 0) bits hfit (Nat.lt_of_lt_of_eq Nat.one_pos (pow_zero 2).symm) (by omega),
    Nat.zero_mul, Nat.zero_add]

/-! ### Signed integers -/

/-- The integer of `bits` bits that a number is congruent to. -/
def signed (bits : ℕ) (v : ℤ) : ℤ := wrap (2 ^ (bits - 1)) v

variable {bits : ℕ}

theorem two_mul_half (hpos : 1 ≤ bits) : (2 : ℤ) * 2 ^ (bits - 1) = 2 ^ bits := by
  obtain ⟨n, rfl⟩ : ∃ n, bits = n + 1 := ⟨bits - 1, by omega⟩
  rw [Nat.add_sub_cancel, pow_succ, Int.mul_comm]

theorem signed_range (hpos : 1 ≤ bits) (v : ℤ) : -2 ^ (bits - 1) ≤ signed bits v ∧ signed bits v < 2 ^ (bits - 1) := by
  have hhalf := two_mul_half hpos
  have hlo := Int.emod_nonneg (v + 2 ^ (bits - 1)) (b := 2 * 2 ^ (bits - 1)) (by positivity)
  have hhi := Int.emod_lt_of_pos (v + 2 ^ (bits - 1)) (b := 2 * 2 ^ (bits - 1)) (by positivity)
  constructor
  · unfold signed wrap
    omega
  · unfold signed wrap
    omega

theorem signed_congr {v w : ℤ} (hpos : 1 ≤ bits) (h : v % 2 ^ bits = w % 2 ^ bits) : signed bits v = signed bits w := by
  unfold signed wrap
  rw [two_mul_half hpos, Int.add_emod, h, ← Int.add_emod]

theorem signed_emod (hpos : 1 ≤ bits) (v : ℤ) : signed bits (v % 2 ^ bits) = signed bits v :=
  signed_congr hpos (Int.emod_emod_of_dvd v (dvd_refl _))

theorem signed_of_range {v : ℤ} (hpos : 1 ≤ bits) (hlo : -2 ^ (bits - 1) ≤ v) (hhi : v < 2 ^ (bits - 1)) : signed bits v = v := by
  have hhalf := two_mul_half hpos
  unfold signed wrap
  rw [Int.emod_eq_of_lt (by omega) (by omega)]
  omega

theorem signed_of_number {u : ℕ} (hpos : 1 ≤ bits) (hu : u < 2 ^ bits) :
    signed bits u = if u < 2 ^ (bits - 1) then (u : ℤ) else u - 2 ^ bits := by
  have hhalf := two_mul_half hpos
  have hu' : (u : ℤ) < 2 ^ bits := by exact_mod_cast hu
  split
  · rename_i hlow
    have hlow' : (u : ℤ) < 2 ^ (bits - 1) := by exact_mod_cast hlow
    exact signed_of_range hpos (by linarith [Int.natCast_nonneg u, pow_pos (show (0 : ℤ) < 2 by decide) (bits - 1)]) hlow'
  · rename_i hhigh
    have hhigh' : (2 : ℤ) ^ (bits - 1) ≤ u := by exact_mod_cast Nat.le_of_not_lt hhigh
    calc signed bits u = signed bits (u - 2 ^ bits) := signed_congr hpos (by rw [Int.sub_emod_right])
      _ = u - 2 ^ bits := signed_of_range hpos (by omega) (by omega)

theorem int64_eq (v : ℤ) : int64 v = signed 64 v := rfl

theorem int64_congr {v w : ℤ} (h : v % 2 ^ 64 = w % 2 ^ 64) : int64 v = int64 w := @signed_congr 64 v w (by decide) h

theorem int64_of_range {v : ℤ} (hlo : -2 ^ 63 ≤ v) (hhi : v < 2 ^ 63) : int64 v = v := @signed_of_range 64 v (by decide) hlo hhi

theorem uint64_emod (v : ℤ) : ((uint64 v : ℕ) : ℤ) = v % 2 ^ 64 := Int.toNat_of_nonneg (Int.emod_nonneg v (by decide))

/-! ### Masks -/

theorem shl64_one {n : ℕ} (h : n < 64) : shl64 1 n = 1 <<< n := by
  unfold shl64
  rw [Nat.mod_eq_of_lt h, Nat.one_shiftLeft, Nat.mod_eq_of_lt (Nat.pow_lt_pow_right Nat.one_lt_two h)]

/-- A shift by 64 does nothing. -/
theorem mask_full : shl64 (2 ^ 64 - 1) 64 = 2 ^ 64 - 1 := by decide

theorem mask_eq : ∀ bits < 64, shl64 (2 ^ 64 - 1) bits = 2 ^ bits * (2 ^ (64 - bits) - 1) := by
  decide

theorem or_mask {c : ℕ} (hbits : bits < 64) (hc : c < 2 ^ 64) :
    c ||| shl64 (2 ^ 64 - 1) bits = 2 ^ 64 - 2 ^ bits + c % 2 ^ bits := by
  have hpow : 2 ^ bits * (2 ^ (64 - bits) - 1) = 2 ^ 64 - 2 ^ bits := by
    rw [Nat.mul_sub, Nat.mul_one, ← pow_add, Nat.add_sub_cancel' (Nat.le_of_lt hbits)]
  rw [mask_eq bits hbits, ← hpow]
  refine Nat.eq_of_testBit_eq fun j => ?_
  rw [Nat.testBit_two_pow_mul_add _ (Nat.mod_lt c (Nat.two_pow_pos bits)), Nat.testBit_or, Nat.testBit_two_pow_mul,
    Nat.testBit_two_pow_sub_one, Nat.testBit_mod_two_pow]
  by_cases hj : j < bits
  · rw [if_pos hj, decide_eq_true hj, decide_eq_false (show ¬j ≥ bits by omega)]
    simp
  · rw [if_neg hj, decide_eq_true (show j ≥ bits by omega), Bool.true_and]
    by_cases hin : j - bits < 64 - bits
    · rw [decide_eq_true hin, Bool.or_true]
    · rw [decide_eq_false hin, Bool.or_false]
      exact Nat.testBit_lt_two_pow (Nat.lt_of_lt_of_le hc (Nat.pow_le_pow_right Nat.two_pos (by omega)))

theorem and_not_mask (c : ℕ) (hbits : bits < 64) :
    c &&& not64 (shl64 (2 ^ 64 - 1) bits) = c % 2 ^ bits := by
  have hle : 2 ^ bits ≤ 2 ^ 64 := Nat.pow_le_pow_right Nat.two_pos (Nat.le_of_lt hbits)
  have hpos := Nat.two_pow_pos bits
  have hmask : shl64 (2 ^ 64 - 1) bits = 2 ^ 64 - 2 ^ bits := by
    rw [mask_eq bits hbits, Nat.mul_sub, Nat.mul_one, ← pow_add, Nat.add_sub_cancel' (Nat.le_of_lt hbits)]
  have hnot : not64 (shl64 (2 ^ 64 - 1) bits) = 2 ^ bits - 1 := by
    unfold not64
    rw [hmask]
    omega
  rw [hnot, Nat.and_two_pow_sub_one_eq_mod]

theorem testBit_top {c : ℕ} (hpos : 1 ≤ bits) : c.testBit (bits - 1) = true ↔ 2 ^ (bits - 1) ≤ c % 2 ^ bits := by
  have hsplit : 2 ^ bits = 2 * 2 ^ (bits - 1) := by
    rw [← pow_succ', Nat.sub_add_cancel hpos]
  have htop : c.testBit (bits - 1) = (c % 2 ^ bits).testBit (bits - 1) := by
    rw [Nat.testBit_mod_two_pow, decide_eq_true (show bits - 1 < bits by omega), Bool.true_and]
  have hlt := Nat.mod_lt c (Nat.two_pow_pos bits)
  rw [htop]
  constructor
  · exact Nat.ge_two_pow_of_testBit
  · intro hle
    refine Nat.testBit_of_two_pow_le_and_two_pow_add_one_gt hle ?_
    rw [Nat.sub_add_cancel hpos]
    exact hlt

theorem top_bit (c : ℕ) (hpos : 1 ≤ bits) (hbits : bits ≤ 64) :
    c &&& shl64 1 (bits - 1) ≠ 0 ↔ 2 ^ (bits - 1) ≤ c % 2 ^ bits := by
  rw [shl64_one (by omega), and_bit, testBit_top hpos]

/-- The sign bit propagated, in an integer of less than 64 bits. -/
theorem extended {c : ℕ} (hpos : 1 ≤ bits) (hbits : bits < 64) (hc : c < 2 ^ 64) :
    int64 (if c &&& shl64 1 (bits - 1) ≠ 0 then c ||| shl64 (2 ^ 64 - 1) bits else c % 2 ^ bits : ℕ) = signed bits c := by
  have hlt := Nat.mod_lt c (Nat.two_pow_pos bits)
  have hle : 2 ^ bits ≤ 2 ^ 64 := Nat.pow_le_pow_right Nat.two_pos (Nat.le_of_lt hbits)
  have hhalf : 2 ^ bits ≤ 2 ^ 63 := Nat.pow_le_pow_right Nat.two_pos (by omega)
  have hlt' : ((c % 2 ^ bits : ℕ) : ℤ) < 2 ^ bits := by exact_mod_cast hlt
  have hhalf' : (2 : ℤ) ^ bits ≤ 2 ^ 63 := by exact_mod_cast hhalf
  have hmod : signed bits c = signed bits ((c % 2 ^ bits : ℕ) : ℤ) := by
    rw [Int.natCast_emod, Int.natCast_pow]
    exact (signed_emod hpos c).symm
  rw [hmod, signed_of_number hpos hlt]
  by_cases htop : 2 ^ (bits - 1) ≤ c % 2 ^ bits
  · rw [if_pos ((top_bit c hpos (Nat.le_of_lt hbits)).mpr htop), if_neg (Nat.not_lt.mpr htop), or_mask hbits hc]
    calc int64 ((2 ^ 64 - 2 ^ bits + c % 2 ^ bits : ℕ) : ℤ) = int64 (((c % 2 ^ bits : ℕ) : ℤ) - 2 ^ bits) := by
          refine int64_congr ?_
          rw [Int.natCast_add, Int.natCast_sub hle, Int.natCast_pow, Int.natCast_pow, Nat.cast_ofNat]
          omega
      _ = ((c % 2 ^ bits : ℕ) : ℤ) - 2 ^ bits := int64_of_range (by omega) (by omega)
  · rw [if_neg (fun h => htop ((top_bit c hpos (Nat.le_of_lt hbits)).mp h)), if_pos (Nat.lt_of_not_le htop)]
    exact int64_of_range (by omega) (by omega)

/-- The sign bit of 64 propagated by a shift by 64. -/
theorem extended_full {c : ℕ} (hc : c < 2 ^ 64) : int64 ((c ||| shl64 (2 ^ 64 - 1) 64 : ℕ) : ℤ) = -1 := by
  have hmask := @or_mask 0 c (by decide) hc
  rw [show shl64 (2 ^ 64 - 1) 0 = shl64 (2 ^ 64 - 1) 64 by decide, pow_zero, Nat.mod_one, Nat.add_zero] at hmask
  rw [hmask]
  decide

/-- A signed integer is read as it was written, but for one below 0 of 64 bits. -/
theorem getSignedBitfield_spec {p : Sds} {offset : ℕ} (hfit : offset + bits ≤ 8 * p.length) (hpos : 1 ≤ bits) (hbits : bits ≤ 64) :
    getSignedBitfield p offset bits =
      some (if bits = 64 ∧ signed 64 (number p offset bits) < 0 then -1 else signed bits (number p offset bits)) := by
  have hlt := BigBits.number_lt p offset bits
  have hle : 2 ^ bits ≤ 2 ^ 64 := Nat.pow_le_pow_right Nat.two_pos hbits
  rw [getSignedBitfield, getUnsignedBitfield_spec hfit hbits, some_bind]
  obtain ⟨u, hu⟩ : ∃ u, u = number p offset bits := ⟨_, rfl⟩
  rw [← hu] at hlt ⊢
  congr 1
  have htop := top_bit u hpos hbits
  rw [Nat.mod_eq_of_lt hlt] at htop
  by_cases hfull : bits = 64
  · subst hfull
    have hval := @signed_of_number 64 u (by decide) hlt
    by_cases hhigh : 2 ^ (64 - 1) ≤ u
    · rw [if_neg (Nat.not_lt.mpr hhigh)] at hval
      rw [if_pos (htop.mpr hhigh), if_pos ⟨rfl, by rw [hval]; omega⟩, extended_full hlt]
    · rw [if_pos (Nat.lt_of_not_le hhigh)] at hval
      rw [if_neg (fun h => hhigh (htop.mp h)), if_neg (fun h => by have := h.2; omega), int64_eq]
  · have hext := extended (c := u) hpos (by omega) (Nat.lt_of_lt_of_le hlt hle)
    rw [Nat.mod_eq_of_lt hlt] at hext
    have hshort : ¬(bits = 64 ∧ signed 64 (u : ℤ) < 0) := fun h => hfull h.1
    rw [if_neg hshort, ← hext]
    by_cases hbit : u &&& shl64 1 (bits - 1) ≠ 0
    · rw [if_pos hbit, if_pos hbit]
    · rw [if_neg hbit, if_neg hbit]

end RedisZk.Bitops
