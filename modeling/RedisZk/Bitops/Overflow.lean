/-
# The overflow checks of BITFIELD

`checkUnsignedBitfieldOverflow` and `checkSignedBitfieldOverflow` say whether a value and
an increment leave the range of an integer of some bits, and what is stored then. Both
look at the distance to the ends of the range, which is computed in 64 bits and so may
wrap, when the value is not in the range.

Three things go wrong: a value below 0 is a large unsigned one, a signed one far
below the range is seen as above it, and for 64 bits the mask of the bits to drop is a
shift by 64, which drops all of them or none.

Key definitions: `checkUnsignedBitfieldOverflow`, `checkSignedBitfieldOverflow`, `newvalue`, `stored`.
Key theorems: `unsigned_incrby`, `unsigned_set`, `signed_incrby`, `signed_set`, `full_incrby`, `full_set`.
-/
import RedisZk.Bitops.Fields

namespace RedisZk.Bitops

open Aof (wrap)
open Streams (IsInt64)

inductive Owtype
  | wrap
  | sat
  | fail
deriving DecidableEq, Repr

/-! ### The checks -/

/-- The return value, and what `*limit` is set to. -/
def checkUnsignedBitfieldOverflow (value : ℕ) (incr : ℤ) (bits : ℕ) (owtype : Owtype) : ℤ × Option ℕ :=
  let max := if bits = 64 then 2 ^ 64 - 1 else shl64 1 bits - 1
  let maxincr := int64 ((max : ℤ) - value)
  let minincr := int64 (-(value : ℤ))
  let handleWrap := (1, some (uint64 (value + incr) &&& not64 (shl64 (2 ^ 64 - 1) bits)))
  if value > max ∨ (incr > 0 ∧ incr > maxincr) then
    match owtype with
    | .wrap => handleWrap
    | .sat => (1, some max)
    | .fail => (1, none)
  else if incr < 0 ∧ incr < minincr then
    match owtype with
    | .wrap => handleWrap
    | .sat => (-1, some 0)
    | .fail => (-1, none)
  else (0, none)

def checkSignedBitfieldOverflow (value incr : ℤ) (bits : ℕ) (owtype : Owtype) : ℤ × Option ℤ :=
  let max : ℤ := if bits = 64 then 2 ^ 63 - 1 else int64 (shl64 1 (bits - 1)) - 1
  let min := -max - 1
  let maxincr := int64 (max - value)
  let minincr := int64 (min - value)
  let handleWrap :=
    let mask := shl64 (2 ^ 64 - 1) bits
    let msb := shl64 1 (bits - 1)
    let c := (uint64 value + uint64 incr) % 2 ^ 64
    (1, some (int64 (if c &&& msb ≠ 0 then c ||| mask else c &&& not64 mask : ℕ)))
  if value > max ∨ (bits ≠ 64 ∧ incr > maxincr) ∨ (value ≥ 0 ∧ incr > 0 ∧ incr > maxincr) then
    match owtype with
    | .wrap => handleWrap
    | .sat => (1, some max)
    | .fail => (1, none)
  else if value < min ∨ (bits ≠ 64 ∧ incr < minincr) ∨ (value < 0 ∧ incr < 0 ∧ incr < minincr) then
    match owtype with
    | .wrap => handleWrap
    | .sat => (-1, some min)
    | .fail => (-1, none)
  else (0, none)

/-- `newval` after the check; none when nothing is written. -/
def newvalue {α : Type} (owtype : Owtype) (check : ℤ × Option α) (newval : α) : Option α :=
  if check.1 ≠ 0 then
    if owtype = .fail then none else some (check.2.getD newval)
  else some newval

/-! ### What is to be stored -/

def minimum (sign : Bool) (bits : ℕ) : ℤ := if sign then -2 ^ (bits - 1) else 0

def maximum (sign : Bool) (bits : ℕ) : ℤ := if sign then 2 ^ (bits - 1) - 1 else 2 ^ bits - 1

def reduced (sign : Bool) (bits : ℕ) (v : ℤ) : ℤ := if sign then signed bits v else v % 2 ^ bits

/-- What is to be stored for a result. -/
def stored (owtype : Owtype) (sign : Bool) (bits : ℕ) (v : ℤ) : Option ℤ :=
  if minimum sign bits ≤ v ∧ v ≤ maximum sign bits then some v
  else
    match owtype with
    | .wrap => some (reduced sign bits v)
    | .sat => some (if v < minimum sign bits then minimum sign bits else maximum sign bits)
    | .fail => none

variable {bits : ℕ} {owtype : Owtype}

theorem stored_fits {sign : Bool} {v : ℤ} (hlo : minimum sign bits ≤ v) (hhi : v ≤ maximum sign bits) :
    stored owtype sign bits v = some v := if_pos ⟨hlo, hhi⟩

/-! ### Unsigned integers -/

theorem unsigned_max (hbits : bits ≤ 63) : (if bits = 64 then 2 ^ 64 - 1 else shl64 1 bits - 1) = 2 ^ bits - 1 := by
  rw [if_neg (by omega), shl64_one (by omega), Nat.one_shiftLeft]

/-- The bits that the mask leaves. -/
theorem unsigned_wrapped (hbits : bits ≤ 63) (v : ℤ) :
    ((uint64 v &&& not64 (shl64 (2 ^ 64 - 1) bits) : ℕ) : ℤ) = v % 2 ^ bits := by
  rw [and_not_mask _ (by omega), Int.natCast_emod, uint64_emod, Int.natCast_pow]
  exact Int.emod_emod_of_dvd v (pow_dvd_pow 2 (by omega : bits ≤ 64))

/-- **INCRBY of an unsigned integer.** -/
theorem unsigned_incrby {value : ℕ} {incr : ℤ} (hbits : bits ≤ 63) (hvalue : value < 2 ^ bits) (hincr : IsInt64 incr) :
    (newvalue owtype (checkUnsignedBitfieldOverflow value incr bits owtype) (uint64 (value + incr))).map Int.ofNat =
      stored owtype false bits (value + incr) := by
  have hpow : (2 : ℤ) ^ bits ≤ 2 ^ 63 := pow_le_pow_right₀ (by decide) hbits
  have hvalue' : (value : ℤ) < 2 ^ bits := by exact_mod_cast hvalue
  have hone := Nat.one_le_two_pow (n := bits)
  have hmax : (((2 ^ bits - 1 : ℕ)) : ℤ) = 2 ^ bits - 1 := by rw [Int.natCast_sub hone, Int.natCast_pow]; rfl
  obtain ⟨hlo, hhi⟩ := hincr
  have hmaxincr : int64 ((2 : ℤ) ^ bits - 1 - value) = 2 ^ bits - 1 - value :=
    int64_of_range (by omega) (by omega)
  have hminincr : int64 (-(value : ℤ)) = -value := int64_of_range (by omega) (by omega)
  have hwrapped := unsigned_wrapped hbits (value + incr)
  unfold checkUnsignedBitfieldOverflow
  dsimp only
  rw [unsigned_max hbits, hmax, hmaxincr, hminincr]
  unfold stored minimum maximum reduced
  by_cases habove : value + incr > 2 ^ bits - 1
  · rw [if_pos (by omega), if_neg (by simp; omega)]
    cases owtype with
    | wrap => simpa [newvalue] using hwrapped
    | sat =>
      have hnot : ¬(value : ℤ) + incr < 0 := by omega
      simp [newvalue, hnot]
    | fail => simp [newvalue]
  · by_cases hbelow : value + incr < 0
    · rw [if_neg (by omega), if_pos (by omega), if_neg (by simp; omega)]
      cases owtype with
      | wrap => simpa [newvalue] using hwrapped
      | sat => simp [newvalue, hbelow]
      | fail => simp [newvalue]
    · rw [if_neg (by omega), if_neg (by omega), if_pos (by simp; omega)]
      have hval : ((uint64 (value + incr) : ℕ) : ℤ) = value + incr := by
        rw [uint64_emod, Int.emod_eq_of_lt (by omega) (by omega)]
      simpa [newvalue] using hval

/-- **SET of an unsigned integer.** A value below 0 is taken for a large one. -/
theorem unsigned_set {i : ℤ} (hbits : bits ≤ 63) (hi : IsInt64 i) :
    (newvalue owtype (checkUnsignedBitfieldOverflow (uint64 i) 0 bits owtype) (uint64 i)).map Int.ofNat =
      if owtype = .sat ∧ i < 0 then some (maximum false bits) else stored owtype false bits i := by
  have hpow : (2 : ℤ) ^ bits ≤ 2 ^ 63 := pow_le_pow_right₀ (by decide) hbits
  have hone := Nat.one_le_two_pow (n := bits)
  have hmax : (((2 ^ bits - 1 : ℕ)) : ℤ) = 2 ^ bits - 1 := by rw [Int.natCast_sub hone, Int.natCast_pow]; rfl
  obtain ⟨hlo, hhi⟩ := hi
  have hval := uint64_emod i
  have hwrapped := unsigned_wrapped hbits i
  have hsame : uint64 (((uint64 i : ℕ) : ℤ) + 0) = uint64 i := by
    rw [Int.add_zero, hval]
    unfold uint64
    rw [Int.emod_emod_of_dvd i (dvd_refl _)]
  unfold checkUnsignedBitfieldOverflow
  dsimp only
  rw [unsigned_max hbits, hsame]
  unfold stored minimum maximum reduced
  by_cases hrange : 0 ≤ i ∧ i ≤ 2 ^ bits - 1
  · rw [Int.emod_eq_of_lt hrange.1 (by omega)] at hval
    rw [if_neg (by omega), if_neg (by omega), if_neg (by omega), if_pos (by simpa using hrange)]
    simpa [newvalue] using hval
  · rw [if_pos (by omega)]
    cases owtype with
    | wrap =>
      rw [if_neg (fun h => by cases h.1), if_neg (by simpa using hrange)]
      simpa [newvalue] using hwrapped
    | sat =>
      by_cases hneg : i < 0
      · simp [newvalue, hneg]
      · have hnot : ¬(i : ℤ) < 0 := hneg
        rw [if_neg (fun h => hneg h.2), if_neg (by simpa using hrange)]
        simp [newvalue, hnot]
    | fail =>
      rw [if_neg (fun h => by cases h.1), if_neg (by simpa using hrange)]
      simp [newvalue]

/-! ### Signed integers -/

theorem signed_max (hpos : 1 ≤ bits) (hbits : bits ≤ 63) :
    (if bits = 64 then (2 : ℤ) ^ 63 - 1 else int64 (shl64 1 (bits - 1)) - 1) = 2 ^ (bits - 1) - 1 := by
  have hpow : (2 : ℤ) ^ (bits - 1) ≤ 2 ^ 62 := pow_le_pow_right₀ (by decide) (by omega)
  have hnonneg : (0 : ℤ) < 2 ^ (bits - 1) := by positivity
  rw [if_neg (by omega), shl64_one (by omega), Nat.one_shiftLeft, Int.natCast_pow, Nat.cast_ofNat,
    int64_of_range (by omega) (by omega)]

theorem uint64_add (v w : ℤ) : (((uint64 v + uint64 w) % 2 ^ 64 : ℕ) : ℤ) = (v + w) % 2 ^ 64 := by
  rw [Int.natCast_emod, Int.natCast_add, uint64_emod, uint64_emod]
  exact (Int.add_emod v w (2 ^ 64)).symm

/-- The sum with the sign bit propagated. -/
theorem signed_wrapped (hpos : 1 ≤ bits) (hbits : bits ≤ 63) (value incr : ℤ) :
    int64 (if (uint64 value + uint64 incr) % 2 ^ 64 &&& shl64 1 (bits - 1) ≠ 0 then
        (uint64 value + uint64 incr) % 2 ^ 64 ||| shl64 (2 ^ 64 - 1) bits
      else (uint64 value + uint64 incr) % 2 ^ 64 &&& not64 (shl64 (2 ^ 64 - 1) bits) : ℕ) = signed bits (value + incr) := by
  have hlt : (uint64 value + uint64 incr) % 2 ^ 64 < 2 ^ 64 := Nat.mod_lt _ (by decide)
  rw [and_not_mask _ (by omega), extended hpos (by omega) hlt, uint64_add]
  refine signed_congr hpos (Int.emod_emod_of_dvd _ ?_)
  exact pow_dvd_pow 2 (by omega : bits ≤ 64)

/-- **INCRBY of a signed integer of less than 64 bits.** -/
theorem signed_incrby {value incr : ℤ} (hpos : 1 ≤ bits) (hbits : bits ≤ 63) (hmin : -2 ^ (bits - 1) ≤ value)
    (hmax : value < 2 ^ (bits - 1)) (hincr : IsInt64 incr) :
    newvalue owtype (checkSignedBitfieldOverflow value incr bits owtype) (int64 (value + incr)) =
      stored owtype true bits (value + incr) := by
  have hpow : (2 : ℤ) ^ (bits - 1) ≤ 2 ^ 62 := pow_le_pow_right₀ (by decide) (by omega)
  have hnonneg : (0 : ℤ) < 2 ^ (bits - 1) := by positivity
  obtain ⟨hlo, hhi⟩ := hincr
  have hmaxincr : int64 ((2 : ℤ) ^ (bits - 1) - 1 - value) = 2 ^ (bits - 1) - 1 - value :=
    int64_of_range (by omega) (by omega)
  have hminincr : int64 (-((2 : ℤ) ^ (bits - 1) - 1) - 1 - value) = -2 ^ (bits - 1) - value :=
    (int64_of_range (by omega) (by omega)).trans (by omega)
  unfold checkSignedBitfieldOverflow
  dsimp only
  rw [signed_max hpos hbits, signed_wrapped hpos hbits, hmaxincr, hminincr]
  unfold stored minimum maximum reduced
  by_cases habove : value + incr > 2 ^ (bits - 1) - 1
  · rw [if_pos (by omega), if_neg (by simp; omega)]
    cases owtype with
    | wrap => simp [newvalue]
    | sat =>
      have hnot : ¬value + incr < -2 ^ (bits - 1) := by omega
      simp [newvalue, hnot]
    | fail => simp [newvalue]
  · by_cases hbelow : value + incr < -2 ^ (bits - 1)
    · rw [if_neg (by omega), if_pos (by omega), if_neg (by simp; omega)]
      cases owtype with
      | wrap => simp [newvalue]
      | sat =>
        simp [newvalue, hbelow]
      | fail => simp [newvalue]
    · rw [if_neg (by omega), if_neg (by omega), if_pos (by simp; omega)]
      have hval : int64 (value + incr) = value + incr := int64_of_range (by omega) (by omega)
      simpa [newvalue] using hval

/-- **SET of a signed integer of less than 64 bits.** A value so low that its distance
to the range does not fit is seen above it. -/
theorem signed_set {i : ℤ} (hpos : 1 ≤ bits) (hbits : bits ≤ 63) (hi : IsInt64 i) :
    newvalue owtype (checkSignedBitfieldOverflow i 0 bits owtype) i =
      if owtype = .sat ∧ i < 2 ^ (bits - 1) - 2 ^ 63 then some (maximum true bits) else stored owtype true bits i := by
  have hpow : (2 : ℤ) ^ (bits - 1) ≤ 2 ^ 62 := pow_le_pow_right₀ (by decide) (by omega)
  have hnonneg : (0 : ℤ) < 2 ^ (bits - 1) := by positivity
  obtain ⟨hlo, hhi⟩ := hi
  unfold checkSignedBitfieldOverflow
  dsimp only
  rw [signed_max hpos hbits, signed_wrapped hpos hbits, Int.add_zero]
  unfold stored minimum maximum reduced
  by_cases hwraps : i < 2 ^ (bits - 1) - 2 ^ 63
  · have hmaxincr : int64 ((2 : ℤ) ^ (bits - 1) - 1 - i) = 2 ^ (bits - 1) - 1 - i - 2 ^ 64 := by
      calc int64 ((2 : ℤ) ^ (bits - 1) - 1 - i) = int64 (2 ^ (bits - 1) - 1 - i - 2 ^ 64) :=
            int64_congr (by rw [Int.sub_emod_right])
        _ = 2 ^ (bits - 1) - 1 - i - 2 ^ 64 := int64_of_range (by omega) (by omega)
    rw [hmaxincr, if_pos (by omega)]
    cases owtype with
    | wrap =>
      rw [if_neg (fun h => by cases h.1), if_neg (by simp; omega)]
      simp [newvalue]
    | sat =>
      rw [if_pos ⟨rfl, hwraps⟩]
      simp [newvalue]
    | fail =>
      rw [if_neg (fun h => by cases h.1), if_neg (by simp; omega)]
      simp [newvalue]
  · have hnear : ¬(owtype = .sat ∧ i < 2 ^ (bits - 1) - 2 ^ 63) := fun h => hwraps h.2
    rw [if_neg hnear]
    have hmaxincr : int64 ((2 : ℤ) ^ (bits - 1) - 1 - i) = 2 ^ (bits - 1) - 1 - i :=
      int64_of_range (by omega) (by omega)
    rw [hmaxincr]
    by_cases habove : i > 2 ^ (bits - 1) - 1
    · rw [if_pos (by omega), if_neg (by simp; omega)]
      cases owtype with
      | wrap => simp [newvalue]
      | sat =>
        have hnot : ¬i < -2 ^ (bits - 1) := by omega
        simp [newvalue, hnot]
      | fail => simp [newvalue]
    · have hminincr : int64 (-((2 : ℤ) ^ (bits - 1) - 1) - 1 - i) = -2 ^ (bits - 1) - i :=
        (int64_of_range (by omega) (by omega)).trans (by omega)
      rw [if_neg (by omega), hminincr]
      by_cases hbelow : i < -2 ^ (bits - 1)
      · rw [if_pos (by omega), if_neg (by simp; omega)]
        cases owtype with
        | wrap => simp [newvalue]
        | sat =>
          simp [newvalue, hbelow]
        | fail => simp [newvalue]
      · rw [if_neg (by omega), if_pos (by simp; omega)]
        simp [newvalue]

/-! ### Signed integers of 64 bits -/

/-- The mask drops nothing, or every bit. -/
theorem full_wrapped (value incr : ℤ) :
    int64 (if (uint64 value + uint64 incr) % 2 ^ 64 &&& shl64 1 (64 - 1) ≠ 0 then
        (uint64 value + uint64 incr) % 2 ^ 64 ||| shl64 (2 ^ 64 - 1) 64
      else (uint64 value + uint64 incr) % 2 ^ 64 &&& not64 (shl64 (2 ^ 64 - 1) 64) : ℕ) =
      if (value + incr) % 2 ^ 64 < 2 ^ 63 then 0 else -1 := by
  have hlt : (uint64 value + uint64 incr) % 2 ^ 64 < 2 ^ 64 := Nat.mod_lt _ (by decide)
  have hval := uint64_add value incr
  have htop := @top_bit 64 ((uint64 value + uint64 incr) % 2 ^ 64) (by decide) (by decide)
  rw [Nat.mod_eq_of_lt hlt] at htop
  by_cases hhigh : 2 ^ (64 - 1) ≤ (uint64 value + uint64 incr) % 2 ^ 64
  · rw [if_pos (htop.mpr hhigh), if_neg (by omega)]
    exact extended_full hlt
  · rw [if_neg (fun h => hhigh (htop.mp h)), if_pos (by omega), mask_full, show not64 (2 ^ 64 - 1) = 0 from rfl, Nat.and_zero]
    decide

/-- **INCRBY of a signed integer of 64 bits.** What wraps becomes 0 or -1. -/
theorem full_incrby {value incr : ℤ} (hvalue : IsInt64 value) (hincr : IsInt64 incr) :
    newvalue owtype (checkSignedBitfieldOverflow value incr 64 owtype) (int64 (value + incr)) =
      if owtype = .wrap ∧ value + incr < -2 ^ 63 then some 0
      else if owtype = .wrap ∧ 2 ^ 63 ≤ value + incr then some (-1)
      else stored owtype true 64 (value + incr) := by
  obtain ⟨hvlo, hvhi⟩ := hvalue
  obtain ⟨hlo, hhi⟩ := hincr
  unfold checkSignedBitfieldOverflow
  dsimp only
  rw [if_pos rfl, full_wrapped]
  have hlow : value + incr < -2 ^ 63 → (if (value + incr) % 2 ^ 64 < 2 ^ 63 then (0 : ℤ) else -1) = 0 :=
    fun h => if_pos (by omega)
  have hhigh : 2 ^ 63 ≤ value + incr → (if (value + incr) % 2 ^ 64 < 2 ^ 63 then (0 : ℤ) else -1) = -1 :=
    fun h => if_neg (by omega)
  generalize (if (value + incr) % 2 ^ 64 < 2 ^ 63 then (0 : ℤ) else -1) = w at hlow hhigh ⊢
  unfold stored
  rw [show minimum true 64 = -2 ^ 63 from rfl, show maximum true 64 = 2 ^ 63 - 1 from rfl]
  by_cases habove : 2 ^ 63 ≤ value + incr
  · have hmaxincr : int64 ((2 : ℤ) ^ 63 - 1 - value) = 2 ^ 63 - 1 - value :=
      int64_of_range (by omega) (by omega)
    rw [hmaxincr, if_pos (by omega)]
    have hnot : ¬value + incr < -2 ^ 63 := by omega
    have hout : ¬(-2 ^ 63 ≤ value + incr ∧ value + incr ≤ 2 ^ 63 - 1) := by omega
    rw [if_neg (fun h => hnot h.2), if_neg hout]
    cases owtype with
    | wrap =>
      rw [if_pos ⟨rfl, habove⟩, hhigh habove]
      rfl
    | sat =>
      rw [if_neg (fun h => by cases h.1)]
      dsimp only
      rw [if_neg hnot]
      rfl
    | fail =>
      rw [if_neg (fun h => by cases h.1)]
      rfl
  · have hno : ¬(value > 2 ^ 63 - 1 ∨ 64 ≠ 64 ∧ incr > int64 (2 ^ 63 - 1 - value) ∨
        value ≥ 0 ∧ incr > 0 ∧ incr > int64 (2 ^ 63 - 1 - value)) := by
      intro h
      rcases h with h | h | ⟨hnn, -, h⟩
      · omega
      · exact h.1 rfl
      · rw [show int64 ((2 : ℤ) ^ 63 - 1 - value) = 2 ^ 63 - 1 - value from
          int64_of_range (by omega) (by omega)] at h
        omega
    rw [if_neg hno]
    by_cases hbelow : value + incr < -2 ^ 63
    · have hminincr : int64 (-((2 : ℤ) ^ 63 - 1) - 1 - value) = -2 ^ 63 - value :=
        int64_of_range (by omega) (by omega)
      rw [hminincr, if_pos (by omega)]
      have hout : ¬(-2 ^ 63 ≤ value + incr ∧ value + incr ≤ 2 ^ 63 - 1) := by omega
      cases owtype with
      | wrap =>
        rw [if_pos ⟨rfl, hbelow⟩, hlow hbelow]
        rfl
      | sat =>
        rw [if_neg (fun h => by cases h.1), if_neg (fun h => by cases h.1), if_neg hout]
        dsimp only
        rw [if_pos hbelow]
        rfl
      | fail =>
        rw [if_neg (fun h => by cases h.1), if_neg (fun h => by cases h.1), if_neg hout]
        rfl
    · have hno : ¬(value < -(2 ^ 63 - 1) - 1 ∨ 64 ≠ 64 ∧ incr < int64 (-(2 ^ 63 - 1) - 1 - value) ∨
          value < 0 ∧ incr < 0 ∧ incr < int64 (-(2 ^ 63 - 1) - 1 - value)) := by
        intro h
        rcases h with h | h | ⟨hneg, -, h⟩
        · omega
        · exact h.1 rfl
        · rw [show int64 (-((2 : ℤ) ^ 63 - 1) - 1 - value) = -2 ^ 63 - value from
            int64_of_range (by omega) (by omega)] at h
          omega
      rw [if_neg hno, if_neg (fun h => hbelow h.2), if_neg (fun h => habove h.2), if_pos (by omega)]
      have hval : int64 (value + incr) = value + incr := int64_of_range (by omega) (by omega)
      simpa [newvalue] using hval

/-- **SET of a signed integer of 64 bits.** -/
theorem full_set {i : ℤ} (hi : IsInt64 i) :
    newvalue owtype (checkSignedBitfieldOverflow i 0 64 owtype) i = some i := by
  obtain ⟨hlo, hhi⟩ := hi
  unfold checkSignedBitfieldOverflow
  dsimp only
  rw [if_pos rfl, if_neg (by omega), if_neg (by omega)]
  simp [newvalue]

end RedisZk.Bitops
