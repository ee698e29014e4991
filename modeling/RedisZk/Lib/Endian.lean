/-
# Numbers in bytes

A number of a fixed count of bytes, the least significant byte first or last. What is
written is read back, if the number fits.

Key definitions: `little`, `ofLittle`, `big`, `ofBig`.
Key theorems: `ofLittle_little`, `ofBig_big`.
-/
import Mathlib

namespace Endian

abbrev Byte := Fin 256

instance neZero_byte : NeZero 256 := ⟨by decide⟩

instance lawful_byte : LawfulBEq Byte := inferInstance

instance lawful_bytes : LawfulBEq (List Byte) := inferInstance

def little : ℕ → ℕ → List Byte
  | 0, _ => []
  | k + 1, n => Fin.ofNat 256 n :: little k (n / 256)

def ofLittle : List Byte → ℕ
  | [] => 0
  | b :: s => b.val + 256 * ofLittle s

attribute [local simp] little ofLittle

def big (k n : ℕ) : List Byte := (little k n).reverse

def ofBig (s : List Byte) : ℕ := ofLittle s.reverse

@[simp] theorem length_little (k n : ℕ) : (little k n).length = k := by
  induction k generalizing n with
  | zero => rfl
  | succ k ih => rw [little, List.length_cons, ih]

@[simp] theorem length_big (k n : ℕ) : (big k n).length = k := by rw [big, List.length_reverse, length_little]

theorem ofLittle_little {k n : ℕ} (h : n < 256 ^ k) : ofLittle (little k n) = n := by
  induction k generalizing n with
  | zero =>
    rw [pow_zero] at h
    rw [little, ofLittle]
    omega
  | succ k ih =>
    have hdiv : n / 256 < 256 ^ k := by
      rw [pow_succ] at h
      omega
    rw [little, ofLittle, ih hdiv, Fin.val_ofNat]
    omega

theorem ofLittle_lt (s : List Byte) : ofLittle s < 256 ^ s.length := by
  induction s with
  | nil => exact Nat.one_pos
  | cons b s ih =>
    have hb := b.isLt
    rw [ofLittle, List.length_cons, pow_succ]
    omega

theorem little_ofLittle (s : List Byte) : little s.length (ofLittle s) = s := by
  induction s with
  | nil => rfl
  | cons b s ih =>
    have hb := b.isLt
    have hdiv : ofLittle (b :: s) / 256 = ofLittle s := by
      rw [ofLittle]
      omega
    have hhead : Fin.ofNat 256 (ofLittle (b :: s)) = b := by
      apply Fin.ext
      rw [Fin.val_ofNat, ofLittle]
      omega
    rw [List.length_cons, little, hdiv, ih, hhead]

/-- The last byte of the little number is that of its highest digit. -/
theorem little_succ (k n : ℕ) : little (k + 1) n = little k (n % 256 ^ k) ++ [Fin.ofNat 256 (n / 256 ^ k)] := by
  induction k generalizing n with
  | zero => simp
  | succ k ih =>
    have hmod : n % 256 ^ (k + 1) / 256 = n / 256 % 256 ^ k := by
      rw [pow_succ, Nat.mul_comm, Nat.mod_mul_right_div_self]
    have hlow : Fin.ofNat 256 (n % 256 ^ (k + 1)) = Fin.ofNat 256 n := by
      apply Fin.ext
      rw [Fin.val_ofNat, Fin.val_ofNat, Nat.mod_mod_of_dvd _ (Dvd.intro_left _ (pow_succ ..).symm)]
    rw [little, ih, little, hmod, hlow, Nat.div_div_eq_div_mul, ← pow_succ', List.cons_append]

/-- The first byte of the big number is its highest digit. -/
theorem big_succ {k n : ℕ} : big (k + 1) n = Fin.ofNat 256 (n / 256 ^ k) :: big k (n % 256 ^ k) := by
  rw [big, little_succ, List.reverse_append]
  rfl

theorem ofBig_big {k n : ℕ} (h : n < 256 ^ k) : ofBig (big k n) = n := by
  rw [ofBig, big, List.reverse_reverse, ofLittle_little h]

end Endian
