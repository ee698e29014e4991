/-
# Counting the bits of a string

`redisPopcount` counts the bits of the bytes before an address that is a multiple of
four by a table, then 28 bytes at a time, as seven words in which the bits are summed in
pairs, nibbles and bytes, and the bytes that are left by the table again. It counts
every bit once, wherever the string begins.

Key definitions: `redisPopcount`.
Key theorems: `swar_word`, `redisPopcount_spec`.
-/
import RedisZk.Lib.BigBits
import RedisZk.Lib.Words
import RedisZk.Util.Numbers

namespace RedisZk.Bitops

open BigBits (ones)
open Endian (Byte ofLittle)
open Streams (Sds)
open Util (sub32)
open Words (and_split)

/-! ### The function -/

def bitsinbyte : List ℕ :=
  [0, 1, 1, 2, 1, 2, 2, 3, 1, 2, 2, 3, 2, 3, 3, 4, 1, 2, 2, 3, 2, 3, 3, 4, 2, 3, 3, 4, 3, 4, 4, 5,
   1, 2, 2, 3, 2, 3, 3, 4, 2, 3, 3, 4, 3, 4, 4, 5, 2, 3, 3, 4, 3, 4, 4, 5, 3, 4, 4, 5, 4, 5, 5, 6,
   1, 2, 2, 3, 2, 3, 3, 4, 2, 3, 3, 4, 3, 4, 4, 5, 2, 3, 3, 4, 3, 4, 4, 5, 3, 4, 4, 5, 4, 5, 5, 6,
   2, 3, 3, 4, 3, 4, 4, 5, 3, 4, 4, 5, 4, 5, 5, 6, 3, 4, 4, 5, 4, 5, 5, 6, 4, 5, 5, 6, 5, 6, 6, 7,
   1, 2, 2, 3, 2, 3, 3, 4, 2, 3, 3, 4, 3, 4, 4, 5, 2, 3, 3, 4, 3, 4, 4, 5, 3, 4, 4, 5, 4, 5, 5, 6,
   2, 3, 3, 4, 3, 4, 4, 5, 3, 4, 4, 5, 4, 5, 5, 6, 3, 4, 4, 5, 4, 5, 5, 6, 4, 5, 5, 6, 5, 6, 6, 7,
   2, 3, 3, 4, 3, 4, 4, 5, 3, 4, 4, 5, 4, 5, 5, 6, 3, 4, 4, 5, 4, 5, 5, 6, 4, 5, 5, 6, 5, 6, 6, 7,
   3, 4, 4, 5, 4, 5, 5, 6, 4, 5, 5, 6, 5, 6, 6, 7, 4, 5, 5, 6, 5, 6, 6, 7, 5, 6, 6, 7, 6, 7, 7, 8]

def bitsOf (b : Byte) : ℕ := bitsinbyte.getD b.val 0

/-- The bytes up to an address that is a multiple of four: the bytes left, and the count. -/
def popUnaligned (addr : ℕ) : Sds → ℕ → Sds × ℕ
  | [], bits => ([], bits)
  | b :: s, bits => if addr &&& 3 ≠ 0 then popUnaligned (addr + 1) s (bits + bitsOf b) else (b :: s, bits)

/-- A word of four bytes with the counts of its nibbles in their place. -/
def nibbles (aux : ℕ) : ℕ :=
  let aux := sub32 aux ((aux >>> 1) &&& 0x55555555)
  ((aux &&& 0x33333333) + ((aux >>> 2) &&& 0x33333333)) % 2 ^ 32

def bytesOf (aux : ℕ) : ℕ := ((aux + (aux >>> 4)) % 2 ^ 32) &&& 0x0F0F0F0F

/-- Word `k` of the next ones. -/
def aux (s : Sds) (k : ℕ) : ℕ := nibbles (ofLittle ((s.drop (4 * k)).take 4))

/-- 28 bytes at a time. -/
def popWords (s : Sds) (bits : ℕ) : Sds × ℕ :=
  if s.length ≥ 28 then
    let sum := (bytesOf (aux s 0) + bytesOf (aux s 1) + bytesOf (aux s 2) + bytesOf (aux s 3) + bytesOf (aux s 4) +
      bytesOf (aux s 5) + bytesOf (aux s 6)) % 2 ^ 32
    popWords (s.drop 28) (bits + (sum * 0x01010101 % 2 ^ 32) >>> 24)
  else (s, bits)
termination_by s.length
decreasing_by
  rw [List.length_drop]
  omega

/-- The bytes that are left. -/
def popBytes : Sds → ℕ → ℕ
  | [], bits => bits
  | b :: s, bits => popBytes s (bits + bitsOf b)

def redisPopcount (addr : ℕ) (s : Sds) : ℕ :=
  let (s, bits) := popUnaligned addr s 0
  let (s, bits) := popWords s bits
  popBytes s bits

/-! ### Bytes -/

theorem bitsOf_spec : ∀ b : Byte, bitsOf b = ones [b] ∧ bitsOf b ≤ 8 := by
  decide +kernel

theorem bitsOf_eq (b : Byte) : bitsOf b = ones [b] := (bitsOf_spec b).1

theorem popUnaligned_spec (s : Sds) : ∀ (addr bits : ℕ),
    (popUnaligned addr s bits).2 + ones (popUnaligned addr s bits).1 = bits + ones s := by
  induction s with
  | nil => exact fun _ _ => rfl
  | cons b s ih =>
    intro addr bits
    rw [popUnaligned]
    split
    · rw [ih, BigBits.ones_cons, bitsOf_eq, Nat.add_assoc]
    · rfl

theorem popBytes_spec (s : Sds) : ∀ bits : ℕ, popBytes s bits = bits + ones s := by
  induction s with
  | nil => exact fun _ => rfl
  | cons b s ih =>
    intro bits
    rw [popBytes, ih, BigBits.ones_cons b s, bitsOf_eq, Nat.add_assoc]

/-! ### Words -/

/-- The number of four bytes, the first one the lowest. -/
def pack (f : ℕ → ℕ) (b0 b1 b2 b3 : Byte) : ℕ := f b0 + 256 * (f b1 + 256 * (f b2 + 256 * f b3))

/-- What the steps make of one byte. -/
def pairsOfByte (x : ℕ) : ℕ := x - ((x >>> 1) &&& 0x55)

def nibblesOfByte (x : ℕ) : ℕ := (pairsOfByte x &&& 0x33) + ((pairsOfByte x >>> 2) &&& 0x33)

/-- A shift by `n` under a mask that has none of the `n` upper bits of a byte. -/
theorem shift_split {x m n : ℕ} (hm : m < 256) (hx : x < 256) (hn : n ≤ 8)
    (hmask : ∀ y < 256, ∀ d < 2 ^ n, (y >>> n + 2 ^ (8 - n) * d) &&& m = (y >>> n) &&& m) (a b : ℕ) :
    ((x + 256 * a) >>> n) &&& (m + 256 * b) = ((x >>> n) &&& m) + 256 * ((a >>> n) &&& b) := by
  have hpow : (256 : ℕ) = 2 ^ n * 2 ^ (8 - n) := by
    rw [← pow_add, Nat.add_sub_cancel' hn]
    rfl
  have hd : a % 2 ^ n < 2 ^ n := Nat.mod_lt a (Nat.two_pow_pos n)
  have hlow : x >>> n + 2 ^ (8 - n) * (a % 2 ^ n) < 256 := by
    have hq : x >>> n < 2 ^ (8 - n) := by
      rw [Nat.shiftRight_eq_div_pow]
      exact Nat.div_lt_of_lt_mul (by rw [← hpow]; exact hx)
    calc x >>> n + 2 ^ (8 - n) * (a % 2 ^ n) < 2 ^ (8 - n) * (a % 2 ^ n + 1) := by
          rw [Nat.mul_add, Nat.mul_one, Nat.add_comm]
          exact Nat.add_lt_add_left hq _
      _ ≤ 2 ^ (8 - n) * 2 ^ n := Nat.mul_le_mul_left _ hd
      _ = 256 := by rw [hpow, Nat.mul_comm]
  have hshift : (x + 256 * a) >>> n = (x >>> n + 2 ^ (8 - n) * (a % 2 ^ n)) + 256 * (a >>> n) := by
    have ha := Nat.div_add_mod a (2 ^ n)
    rw [Nat.shiftRight_eq_div_pow, Nat.shiftRight_eq_div_pow, Nat.shiftRight_eq_div_pow]
    calc (x + 256 * a) / 2 ^ n = (x + 2 ^ n * (2 ^ (8 - n) * a)) / 2 ^ n := by rw [hpow, Nat.mul_assoc]
      _ = x / 2 ^ n + 2 ^ (8 - n) * a := Nat.add_mul_div_left _ _ (Nat.two_pow_pos n)
      _ = x / 2 ^ n + 2 ^ (8 - n) * (2 ^ n * (a / 2 ^ n) + a % 2 ^ n) := by rw [ha]
      _ = x / 2 ^ n + 2 ^ (8 - n) * (a % 2 ^ n) + 256 * (a / 2 ^ n) := by
          rw [hpow, Nat.mul_add]
          ring
  rw [hshift, and_split hlow hm, hmask x hx _ hd]

theorem pairsOfByte_le (x : ℕ) : pairsOfByte x ≤ x := Nat.sub_le _ _

/-- The steps on one byte; what comes down from the byte above is masked out. -/
theorem byte_steps : (∀ y < 256, ∀ d < 2 ^ 1, (y >>> 1 + 2 ^ (8 - 1) * d) &&& 0x55 = (y >>> 1) &&& 0x55) ∧
    (∀ y < 256, ∀ d < 2 ^ 2, (y >>> 2 + 2 ^ (8 - 2) * d) &&& 0x33 = (y >>> 2) &&& 0x33) ∧
    ∀ b : Byte, nibblesOfByte b % 16 ≤ 4 ∧ nibblesOfByte b / 16 ≤ 4 ∧
      (nibblesOfByte b + nibblesOfByte b / 16) % 16 = bitsOf b := by
  decide +kernel

theorem pairs_pack (b0 b1 b2 b3 : Byte) :
    sub32 (pack id b0 b1 b2 b3) ((pack id b0 b1 b2 b3 >>> 1) &&& 0x55555555) = pack pairsOfByte b0 b1 b2 b3 := by
  have hmask := byte_steps.1
  have hle : ∀ x : ℕ, (x >>> 1) &&& 0x55 ≤ x := fun x =>
    Nat.le_trans Nat.and_le_left (by rw [Nat.shiftRight_eq_div_pow]; exact Nat.div_le_self x _)
  have hb0 := b0.isLt
  have hb1 := b1.isLt
  have hb2 := b2.isLt
  have hb3 := b3.isLt
  have h0 := hle b0
  have h1 := hle b1
  have h2 := hle b2
  have h3 := hle b3
  unfold pack pairsOfByte
  simp only [id_eq]
  rw [show 0x55555555 = 0x55 + 256 * (0x55 + 256 * (0x55 + 256 * 0x55)) from rfl,
    shift_split (by decide) hb0 (by decide) hmask, shift_split (by decide) hb1 (by decide) hmask,
    shift_split (by decide) hb2 (by decide) hmask, Util.sub32_eq (by omega) (by omega)]
  omega

theorem nibbles_pack (b0 b1 b2 b3 : Byte) : nibbles (pack id b0 b1 b2 b3) = pack nibblesOfByte b0 b1 b2 b3 := by
  have hmask := byte_steps.2.1
  have hle : ∀ x : ℕ, x &&& 0x33 ≤ 0x33 := fun x => Nat.and_le_right
  have hlt : ∀ b : Byte, pairsOfByte b < 256 := fun b => Nat.lt_of_le_of_lt (pairsOfByte_le b) b.isLt
  unfold nibbles
  dsimp only
  rw [pairs_pack]
  unfold pack nibblesOfByte
  rw [show 0x33333333 = 0x33 + 256 * (0x33 + 256 * (0x33 + 256 * 0x33)) from rfl,
    shift_split (by decide) (hlt b0) (by decide) hmask, shift_split (by decide) (hlt b1) (by decide) hmask,
    shift_split (by decide) (hlt b2) (by decide) hmask, and_split (hlt b0) (by decide), and_split (hlt b1) (by decide),
    and_split (hlt b2) (by decide)]
  have h0 := hle (pairsOfByte b0)
  have h1 := hle (pairsOfByte b1)
  have h2 := hle (pairsOfByte b2)
  have h3 := hle (pairsOfByte b3)
  have k0 := hle (pairsOfByte b0 >>> 2)
  have k1 := hle (pairsOfByte b1 >>> 2)
  have k2 := hle (pairsOfByte b2 >>> 2)
  have k3 := hle (pairsOfByte b3 >>> 2)
  omega

theorem bytes_pack (b0 b1 b2 b3 : Byte) : bytesOf (pack nibblesOfByte b0 b1 b2 b3) = bitsOf b0 + 256 * (bitsOf b1 + 256 * (bitsOf b2 + 256 * bitsOf b3)) := by
  have hbyte := byte_steps.2.2
  have hmask : ∀ x : ℕ, x &&& 0x0F = x % 16 := fun x => Nat.and_two_pow_sub_one_eq_mod x 4
  obtain ⟨l0, u0, e0⟩ := hbyte b0
  obtain ⟨l1, u1, e1⟩ := hbyte b1
  obtain ⟨l2, u2, e2⟩ := hbyte b2
  obtain ⟨l3, u3, e3⟩ := hbyte b3
  unfold bytesOf pack
  generalize nibblesOfByte b0 = n0 at *
  generalize nibblesOfByte b1 = n1 at *
  generalize nibblesOfByte b2 = n2 at *
  generalize nibblesOfByte b3 = n3 at *
  have hsum : (n0 + 256 * (n1 + 256 * (n2 + 256 * n3)) + (n0 + 256 * (n1 + 256 * (n2 + 256 * n3))) >>> 4) % 2 ^ 32 =
      (n0 + n0 / 16 + 16 * (n1 % 16)) + 256 * ((n1 + n1 / 16 + 16 * (n2 % 16)) + 256 * ((n2 + n2 / 16 + 16 * (n3 % 16)) +
        256 * (n3 + n3 / 16))) := by
    rw [Nat.shiftRight_eq_div_pow]
    omega
  have hdrop : ∀ x y : ℕ, (x + 16 * y) % 16 = x % 16 := fun x y => Nat.add_mul_mod_self_left x 16 y
  rw [hsum, show 0x0F0F0F0F = 0x0F + 256 * (0x0F + 256 * (0x0F + 256 * 0x0F)) from rfl, and_split (by omega) (by decide),
    and_split (by omega) (by decide), and_split (by omega) (by decide), hmask, hmask, hmask, hmask,
    hdrop, hdrop, hdrop, e0, e1, e2, e3]

/-- **The counts of the four bytes of a word.** -/
theorem swar_word {s : Sds} {k : ℕ} (h : 4 * k + 4 ≤ s.length) : ∃ b0 b1 b2 b3 : Byte, (s.drop (4 * k)).take 4 = [b0, b1, b2, b3] ∧
    bytesOf (aux s k) = bitsOf b0 + 256 * (bitsOf b1 + 256 * (bitsOf b2 + 256 * bitsOf b3)) := by
  have hlen : ((s.drop (4 * k)).take 4).length = 4 := by
    rw [List.length_take, List.length_drop]
    omega
  unfold aux
  obtain ⟨b0, b1, b2, b3, hword⟩ := List.length_eq_four.mp hlen
  refine ⟨b0, b1, b2, b3, hword, ?_⟩
  rw [hword, ← bytes_pack, ← nibbles_pack]
  rfl

theorem ones_word (b0 b1 b2 b3 : Byte) : ones [b0, b1, b2, b3] = bitsOf b0 + bitsOf b1 + bitsOf b2 + bitsOf b3 := by
  rw [BigBits.ones_cons b0, BigBits.ones_cons b1, BigBits.ones_cons b2, bitsOf_eq, bitsOf_eq, bitsOf_eq, bitsOf_eq]
  omega

/-- The sum of some words has in each byte a sum of their bytes. -/
theorem words_sum (s : Sds) (n : ℕ) : 4 * n ≤ s.length → ∃ t0 t1 t2 t3 : ℕ, (t0 ≤ 8 * n ∧ t1 ≤ 8 * n ∧ t2 ≤ 8 * n ∧ t3 ≤ 8 * n) ∧
    ((List.range n).map fun k => bytesOf (aux s k)).sum = t0 + 256 * (t1 + 256 * (t2 + 256 * t3)) ∧
    ones s = t0 + t1 + t2 + t3 + ones (s.drop (4 * n)) := by
  induction n with
  | zero =>
    intro _
    exact ⟨0, 0, 0, 0, by decide, rfl, (Nat.zero_add _).symm⟩
  | succ n ih =>
    intro h
    obtain ⟨t0, t1, t2, t3, ht, hsum, hones⟩ := ih (by omega)
    obtain ⟨b0, b1, b2, b3, hword, haux⟩ := swar_word (s := s) (k := n) (by omega)
    have hnext : ones (s.drop (4 * n)) = bitsOf b0 + bitsOf b1 + bitsOf b2 + bitsOf b3 + ones (s.drop (4 * (n + 1))) := by
      calc ones (s.drop (4 * n)) = ones ((s.drop (4 * n)).take 4 ++ (s.drop (4 * n)).drop 4) := by rw [List.take_append_drop]
        _ = _ := by rw [BigBits.ones_append, hword, ones_word, List.drop_drop, Nat.mul_add, Nat.mul_one]
    have h0 := (bitsOf_spec b0).2
    have h1 := (bitsOf_spec b1).2
    have h2 := (bitsOf_spec b2).2
    have h3 := (bitsOf_spec b3).2
    refine ⟨t0 + bitsOf b0, t1 + bitsOf b1, t2 + bitsOf b2, t3 + bitsOf b3, by omega, ?_, by omega⟩
    rw [List.range_succ, List.map_append, List.sum_append, hsum, List.map_singleton, List.sum_singleton, haux]
    ring

/-- The product has the sum of the bytes in its highest byte. -/
theorem product_top {t0 t1 t2 t3 : ℕ} (ht : t0 ≤ 56 ∧ t1 ≤ 56 ∧ t2 ≤ 56 ∧ t3 ≤ 56) :
    ((t0 + 256 * (t1 + 256 * (t2 + 256 * t3))) % 2 ^ 32 * 0x01010101 % 2 ^ 32) >>> 24 = t0 + t1 + t2 + t3 := by
  have hlow : t0 * 65793 + t1 * 65792 + t2 * 65536 < 2 ^ 24 := by omega
  have hproduct : (t0 + 256 * (t1 + 256 * (t2 + 256 * t3))) * 0x01010101 =
      2 ^ 32 * (t1 + t2 * 257 + t3 * 65793) + (2 ^ 24 * (t0 + t1 + t2 + t3) + (t0 * 65793 + t1 * 65792 + t2 * 65536)) := by
    ring
  have htop : 2 ^ 24 * (t0 + t1 + t2 + t3) + (t0 * 65793 + t1 * 65792 + t2 * 65536) < 2 ^ 32 := by omega
  have hsmall : t0 + 256 * (t1 + 256 * (t2 + 256 * t3)) < 2 ^ 32 := by omega
  rw [Nat.mod_eq_of_lt hsmall, hproduct, Nat.mul_add_mod, Nat.mod_eq_of_lt htop, Nat.shiftRight_eq_div_pow,
    Nat.mul_add_div (by decide), Nat.div_eq_of_lt hlow, Nat.add_zero]

/-- **28 bytes are counted at once.** -/
theorem popWords_spec (s : Sds) (bits : ℕ) : (popWords s bits).2 + ones (popWords s bits).1 = bits + ones s := by
  induction s, bits using popWords.induct with
  | case1 s bits hlen sum ih =>
    obtain ⟨t0, t1, t2, t3, ht, hwords, hones⟩ := words_sum s 7 hlen
    have hsum : sum = ((List.range 7).map fun k => bytesOf (aux s k)).sum % 2 ^ 32 := by
      show _ = (bytesOf (aux s 0) + (bytesOf (aux s 1) + (bytesOf (aux s 2) + (bytesOf (aux s 3) + (bytesOf (aux s 4) +
        (bytesOf (aux s 5) + (bytesOf (aux s 6) + 0))))))) % 2 ^ 32
      rw [Nat.add_zero, ← Nat.add_assoc, ← Nat.add_assoc, ← Nat.add_assoc, ← Nat.add_assoc, ← Nat.add_assoc]
    rw [popWords, if_pos hlen]
    dsimp only
    refine ih.trans ?_
    rw [hsum, hwords, product_top ht, hones, Nat.add_assoc]
  | case2 s bits hlen => rw [popWords, if_neg hlen]

/-- **Every bit is counted once.** -/
theorem redisPopcount_spec (addr : ℕ) (s : Sds) : redisPopcount addr s = ones s := by
  have hun := popUnaligned_spec s addr 0
  have hwords := popWords_spec (popUnaligned addr s 0).1 (popUnaligned addr s 0).2
  unfold redisPopcount
  dsimp only
  rw [popBytes_spec, hwords, hun, Nat.zero_add]

end RedisZk.Bitops
