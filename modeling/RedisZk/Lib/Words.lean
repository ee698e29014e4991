/-
# Words of bytes

An operation on the bits of two words is the operation on each of their bytes, and the
complement of a word is the complement of each byte. Memory is described byte by byte.

Key definitions: `byteAt`, `load`, `Bytewise`.
Key theorems: `byteAt_put`, `and_bytewise`, `or_bytewise`, `xor_bytewise`, `ofLittle_rev`.
-/
import Mathlib
import RedisZk.Lib.Endian
import RedisZk.Lib.Memory

namespace Words

open Endian (Byte little ofLittle)
open Memory (put)

/-! ### Bytes of memory -/

/-- A byte of a block; there are zeros behind it. -/
def byteAt (m : List Byte) (k : ℕ) : Byte := (m[k]?).getD 0

theorem byteAt_of_le {m : List Byte} {k : ℕ} (h : m.length ≤ k) : byteAt m k = 0 := by
  rw [byteAt, List.getElem?_eq_none h, Option.getD_none]

theorem byteAt_append_left {a b : List Byte} {k : ℕ} (h : k < a.length) : byteAt (a ++ b) k = byteAt a k := by
  rw [byteAt, List.getElem?_append_left h, byteAt]

theorem byteAt_append_right {a b : List Byte} {k : ℕ} (h : a.length ≤ k) : byteAt (a ++ b) k = byteAt b (k - a.length) := by
  rw [byteAt, List.getElem?_append_right h, byteAt]

theorem byteAt_drop (m : List Byte) (n k : ℕ) : byteAt (m.drop n) k = byteAt m (n + k) := by
  rw [byteAt, List.getElem?_drop, byteAt]

theorem byteAt_take {m : List Byte} {n k : ℕ} (h : k < n) : byteAt (m.take n) k = byteAt m k := by
  rw [byteAt, List.getElem?_take_of_lt h, byteAt]

/-- Blocks of one length that agree in each byte. -/
theorem ext {a b : List Byte} (hlen : a.length = b.length) (h : ∀ k, k < a.length → byteAt a k = byteAt b k) : a = b := by
  refine List.ext_getElem hlen fun k ha hb => ?_
  have hk := h k ha
  rw [byteAt, byteAt, List.getElem?_eq_getElem ha, List.getElem?_eq_getElem hb] at hk
  exact hk

theorem byteAt_put {m s : List Byte} {p : ℕ} (h : p + s.length ≤ m.length) : ∃ m', put m p s = some m' ∧ m'.length = m.length ∧
    ∀ k, byteAt m' k = if p ≤ k ∧ k < p + s.length then byteAt s (k - p) else byteAt m k := by
  have hp : (m.take p).length = p := by
    rw [List.length_take]
    omega
  refine ⟨m.take p ++ (s ++ m.drop (p + s.length)), if_pos h, ?_, fun k => ?_⟩
  · rw [List.length_append, hp, List.length_append, List.length_drop]
    omega
  · by_cases hlow : k < p
    · rw [byteAt_append_left (by rw [hp]; exact hlow), byteAt_take hlow, if_neg (by omega)]
    · rw [byteAt_append_right (by rw [hp]; omega), hp]
      by_cases hin : k < p + s.length
      · rw [byteAt_append_left (by omega), if_pos (by omega)]
      · rw [byteAt_append_right (by omega), byteAt_drop, if_neg (by omega)]
        congr 1
        omega

/-! ### Words -/

/-- A word of eight bytes; none behind the end of the block. -/
def load (m : List Byte) (p : ℕ) : Option ℕ := if p + 8 ≤ m.length then some (ofLittle ((m.drop p).take 8)) else none

/-- An operation on words that is one on their bytes. -/
structure Bytewise (f : ℕ → ℕ → ℕ) (g : Byte → Byte → Byte) : Prop where
  zero : f 0 0 = 0
  split : ∀ (x y : Byte) (a b : ℕ), f (x.val + 256 * a) (y.val + 256 * b) = (g x y).val + 256 * f a b

variable {f : ℕ → ℕ → ℕ} {g : Byte → Byte → Byte}

theorem Bytewise.ofLittle (h : Bytewise f g) : ∀ {a b : List Byte}, a.length = b.length →
    f (ofLittle a) (ofLittle b) = ofLittle (List.zipWith g a b) := by
  intro a
  induction a with
  | nil =>
    intro b hlen
    cases List.eq_nil_of_length_eq_zero hlen.symm
    exact h.zero
  | cons x a ih =>
    intro b hlen
    cases b with
    | nil => cases hlen
    | cons y b =>
      rw [Endian.ofLittle, Endian.ofLittle, h.split, ih (Nat.succ.inj hlen), List.zipWith_cons_cons, Endian.ofLittle]

/-- An operation on bits, on a word whose lowest byte is split off. -/
theorem bits_split {h : Bool → Bool → Bool} (hf : ∀ a b j, (f a b).testBit j = h (a.testBit j) (b.testBit j))
    (hzero : h false false = false) {x y : ℕ} (hx : x < 256) (hy : y < 256) (a b : ℕ) :
    f (x + 256 * a) (y + 256 * b) = f x y + 256 * f a b := by
  have hlow : f x y < 2 ^ 8 := by
    refine Nat.lt_pow_two_of_testBit _ fun j hj => ?_
    have hpow : 2 ^ 8 ≤ 2 ^ j := Nat.pow_le_pow_right Nat.two_pos hj
    rw [hf, Nat.testBit_lt_two_pow (Nat.lt_of_lt_of_le hx hpow), Nat.testBit_lt_two_pow (Nat.lt_of_lt_of_le hy hpow), hzero]
  refine Nat.eq_of_testBit_eq fun j => ?_
  rw [hf, Nat.add_comm x, Nat.add_comm y, Nat.add_comm (f x y), show (256 : ℕ) = 2 ^ 8 from rfl,
    Nat.testBit_two_pow_mul_add _ hx, Nat.testBit_two_pow_mul_add _ hy, Nat.testBit_two_pow_mul_add _ hlow]
  split
  · rw [hf]
  · rw [hf]

theorem and_split {x m : ℕ} (hx : x < 256) (hm : m < 256) (a b : ℕ) :
    (x + 256 * a) &&& (m + 256 * b) = (x &&& m) + 256 * (a &&& b) :=
  bits_split (fun a b j => Nat.testBit_and a b j) rfl hx hm a b

theorem and_bytewise : Bytewise (· &&& ·) (· &&& ·) where
  zero := rfl
  split x y a b := by
    have hlt : x.val &&& y.val < 256 := Nat.lt_of_le_of_lt Nat.and_le_left x.isLt
    have hval : (x &&& y).val = x.val &&& y.val := Nat.mod_eq_of_lt hlt
    rw [hval]
    exact and_split x.isLt y.isLt a b

theorem or_bytewise : Bytewise (· ||| ·) (· ||| ·) where
  zero := rfl
  split x y a b := by
    have hlt : x.val ||| y.val < 2 ^ 8 := Nat.or_lt_two_pow x.isLt y.isLt
    have hval : (x ||| y).val = x.val ||| y.val := Nat.mod_eq_of_lt hlt
    rw [hval]
    exact bits_split (fun a b j => Nat.testBit_or a b j) rfl x.isLt y.isLt a b

theorem xor_bytewise : Bytewise (· ^^^ ·) (· ^^^ ·) where
  zero := rfl
  split x y a b := by
    have hlt : x.val ^^^ y.val < 2 ^ 8 := Nat.xor_lt_two_pow x.isLt y.isLt
    have hval : (x ^^^ y).val = x.val ^^^ y.val := Nat.mod_eq_of_lt hlt
    rw [hval]
    exact bits_split (fun a b j => Nat.testBit_xor a b j) rfl x.isLt y.isLt a b

/-- The complement. -/
theorem ofLittle_rev (s : List Byte) : ofLittle (s.map Fin.rev) = 256 ^ s.length - (ofLittle s + 1) := by
  induction s with
  | nil => rfl
  | cons b s ih =>
    have hlt := Endian.ofLittle_lt s
    have hb := b.isLt
    rw [List.map_cons, Endian.ofLittle, ih, Endian.ofLittle, List.length_cons, pow_succ, Fin.val_rev]
    omega

/-- The bytes of a word that is written back. -/
theorem little_of_ofLittle {s : List Byte} {n : ℕ} (hs : s.length = 8) (hn : n = ofLittle s) : little 8 n = s := by
  rw [hn, ← hs, Endian.little_ofLittle]

end Words
