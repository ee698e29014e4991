/-
# The first bit of a string

`redisBitpos` skips the bytes without a bit of the wanted value, one by one up to an address
that is a multiple of eight and then eight at a time, loads the next eight bytes, with
zeros behind the string, as a number with the first byte the highest, and looks at its
bits one after the other. It finds the first one wherever the string begins, and
never gets to the end of the word.

Key definitions: `redisBitpos`, `firstBit`.
Key theorems: `lastWord_spec`, `redisBitpos_spec`.
-/
import RedisZk.Bitops.Fields

namespace RedisZk.Bitops

open BigBits (bit number)
open Endian (Byte ofLittle)
open Streams (Sds)

/-! ### The function -/

/-- The bytes up to an address that is a multiple of eight: whether one of them has the bit, the
bytes left, and the position. -/
def bitposUnaligned (skipval : Byte) (addr : ℕ) : Sds → ℕ → Bool × Sds × ℕ
  | [], pos => (false, [], pos)
  | b :: s, pos =>
    if addr &&& 7 ≠ 0 then
      if b ≠ skipval then (true, b :: s, pos) else bitposUnaligned skipval (addr + 1) s (pos + 8)
    else (false, b :: s, pos)

/-- Whole words. -/
def bitposWords (skipval : ℕ) (s : Sds) (pos : ℕ) : Sds × ℕ :=
  if s.length ≥ 8 then
    if ofLittle (s.take 8) ≠ skipval then (s, pos) else bitposWords skipval (s.drop 8) (pos + 64)
  else (s, pos)
termination_by s.length
decreasing_by
  rw [List.length_drop]
  omega

/-- The next bytes loaded into a word, with zeros behind the last one. -/
def loadWord : ℕ → Sds → ℕ → ℕ
  | 0, _, word => word
  | j + 1, [], word => loadWord j [] (shl64 word 8)
  | j + 1, c :: s, word => loadWord j s (shl64 word 8 ||| c.val)

/-- The word bit by bit; none for the panic at its end. -/
def scanWord (bit : Bool) (word one pos : ℕ) : Option ℕ :=
  if one = 0 then none
  else if decide (one &&& word ≠ 0) = bit then some pos
  else scanWord bit word (one >>> 1) (pos + 1)
termination_by one
decreasing_by
  rw [Nat.shiftRight_eq_div_pow]
  omega

/-- What follows the loops over the bytes to skip. -/
def lastWord (bit : Bool) (s : Sds) (pos : ℕ) : Option ℤ :=
  let word := loadWord 8 s 0
  if bit = true ∧ word = 0 then some (-1)
  else
    let one := not64 ((2 ^ 64 - 1) >>> 1)
    (scanWord bit word one pos).map fun (p : ℕ) => (p : ℤ)

def redisBitpos (addr : ℕ) (s : Sds) (bit : Bool) : Option ℤ :=
  match bitposUnaligned (if bit then 0 else 255) addr s 0 with
  | (true, s, pos) => lastWord bit s pos
  | (false, s, pos) =>
    let (s, pos) := bitposWords (if bit then 0 else 2 ^ 64 - 1) s pos
    lastWord bit s pos

/-! ### The first bit -/

/-- The least position of a bit of some value. -/
def firstBit (p : Sds) (want : Bool) : Option ℕ := (List.range (8 * p.length)).find? fun k => bit p k == want

variable {want : Bool} {p : Sds}

theorem firstBit_some {k : ℕ} (hk : k < 8 * p.length) (hbit : bit p k = want) (hfirst : ∀ j, j < k → bit p j ≠ want) :
    firstBit p want = some k := by
  unfold firstBit
  rw [List.find?_range_eq_some]
  refine ⟨by rw [hbit, beq_self_eq_true], List.mem_range.mpr hk, fun j hj => ?_⟩
  rw [Bool.not_eq_true', beq_eq_false_iff_ne]
  exact hfirst j hj

theorem firstBit_none (h : ∀ k, k < 8 * p.length → bit p k ≠ want) : firstBit p want = none := by
  unfold firstBit
  rw [List.find?_eq_none]
  intro k hk
  rw [beq_iff_eq]
  exact h k (List.mem_range.mp hk)

/-- The byte without a bit of the wanted value. -/
def skipByte (want : Bool) : Byte := if want then 0 else 255

theorem skipByte_bits : ∀ (want : Bool) (i : ℕ), i < 8 → (skipByte want).val.testBit (7 - i) ≠ want := by
  decide

theorem other_bits : ∀ (want : Bool) (b : Byte), b ≠ skipByte want → ∃ i < 8, b.val.testBit (7 - i) = want := by
  decide +kernel

theorem skip_bits (h : ∀ b ∈ p, b = skipByte want) {i : ℕ} (hi : i < 8 * p.length) : bit p i ≠ want := by
  have hlt : i / 8 < p.length := by omega
  unfold bit
  rw [List.getElem?_eq_getElem hlt, Option.getD_some, h _ (List.getElem_mem hlt)]
  exact skipByte_bits want _ (Nat.mod_lt i (by decide))

theorem exists_bit {b : Byte} (hb : b ∈ p) (hne : b ≠ skipByte want) : ∃ i < 8 * p.length, bit p i = want := by
  obtain ⟨k, hk, hget⟩ := List.mem_iff_getElem.mp hb
  obtain ⟨i, hi, hbit⟩ := other_bits want b hne
  refine ⟨8 * k + i, by omega, ?_⟩
  unfold bit
  rw [show (8 * k + i) / 8 = k by omega, show (8 * k + i) % 8 = i by omega, List.getElem?_eq_getElem hk, hget]
  exact hbit

/-- Bytes to skip before a string move its first bit. -/
theorem firstBit_skip {pre s : Sds} (h : ∀ b ∈ pre, b = skipByte want) :
    firstBit (pre ++ s) want = (firstBit s want).map fun k => 8 * pre.length + k := by
  cases hfirst : firstBit s want with
  | none =>
    unfold firstBit at hfirst
    rw [List.find?_eq_none] at hfirst
    refine firstBit_none fun k hk => ?_
    rw [List.length_append] at hk
    by_cases hin : k < 8 * pre.length
    · rw [BigBits.bit_append_left hin]
      exact skip_bits h hin
    · have hbit := hfirst (k - 8 * pre.length) (List.mem_range.mpr (by omega))
      rw [beq_iff_eq, ← BigBits.bit_append_right pre s, Nat.add_sub_cancel' (by omega)] at hbit
      exact hbit
  | some k =>
    unfold firstBit at hfirst
    rw [List.find?_range_eq_some] at hfirst
    obtain ⟨hbit, hk, hbefore⟩ := hfirst
    have hk' := List.mem_range.mp hk
    show firstBit (pre ++ s) want = some (8 * pre.length + k)
    refine firstBit_some (by rw [List.length_append]; omega) ?_ fun j hj => ?_
    · rw [BigBits.bit_append_right]
      exact eq_of_beq hbit
    · by_cases hin : j < 8 * pre.length
      · rw [BigBits.bit_append_left hin]
        exact skip_bits h hin
      · have hj' := hbefore (j - 8 * pre.length) (by omega)
        rw [Bool.not_eq_true', beq_eq_false_iff_ne, ← BigBits.bit_append_right pre s, Nat.add_sub_cancel' (by omega)] at hj'
        exact hj'

/-! ### The bytes to skip -/

theorem bitposUnaligned_spec (s : Sds) : ∀ (addr pos : ℕ), ∃ pre found s' pos',
    bitposUnaligned (skipByte want) addr s pos = (found, s', pos') ∧ s = pre ++ s' ∧ (∀ b ∈ pre, b = skipByte want) ∧
      pos' = pos + 8 * pre.length ∧ (found = true → ∃ b ∈ s'.take 8, b ≠ skipByte want) := by
  induction s with
  | nil => exact fun addr pos => ⟨[], false, [], pos, rfl, rfl, fun _ h => absurd h List.not_mem_nil, rfl, fun h => by cases h⟩
  | cons b s ih =>
    intro addr pos
    rw [bitposUnaligned]
    split
    · split
      · rename_i hne
        exact ⟨[], true, b :: s, pos, rfl, rfl, fun _ h => absurd h List.not_mem_nil, rfl,
          fun _ => ⟨b, List.mem_cons_self, hne⟩⟩
      · rename_i heq
        obtain ⟨pre, found, s', pos', hrun, hs, hpre, hpos, hfound⟩ := ih (addr + 1) (pos + 8)
        refine ⟨b :: pre, found, s', pos', hrun, by rw [hs, List.cons_append], ?_, ?_, hfound⟩
        · intro c hc
          rcases List.mem_cons.mp hc with hc | hc
          · rw [hc]
            exact Decidable.not_not.mp heq
          · exact hpre c hc
        · rw [hpos, List.length_cons]
          omega
    · exact ⟨[], false, b :: s, pos, rfl, rfl, fun _ h => absurd h List.not_mem_nil, rfl, fun h => by cases h⟩

/-- The word of bytes to skip. -/
theorem skipWord_iff (want : Bool) (s : Sds) :
    ofLittle s = (if want then 0 else 256 ^ s.length - 1) ↔ ∀ b ∈ s, b = skipByte want := by
  induction s with
  | nil =>
    cases want with
    | true => exact ⟨fun _ _ h => absurd h List.not_mem_nil, fun _ => rfl⟩
    | false => exact ⟨fun _ _ h => absurd h List.not_mem_nil, fun _ => rfl⟩
  | cons b s ih =>
    have hlt := Endian.ofLittle_lt s
    have hb := b.isLt
    rw [List.forall_mem_cons, ← ih, Endian.ofLittle, List.length_cons, pow_succ]
    cases want with
    | true =>
      simp only [if_true, skipByte, Fin.ext_iff, Fin.val_zero]
      omega
    | false =>
      simp only [Bool.false_eq_true, if_false, skipByte, Fin.ext_iff]
      rw [show ((255 : Byte)).val = 255 from rfl]
      omega

theorem bitposWords_spec {skipval : ℕ} (hskip : skipval = if want then 0 else 2 ^ 64 - 1) (s : Sds) (pos : ℕ) : ∃ pre s' pos',
    bitposWords skipval s pos = (s', pos') ∧ s = pre ++ s' ∧ (∀ b ∈ pre, b = skipByte want) ∧
      pos' = pos + 8 * pre.length ∧ (s'.length < 8 ∨ ∃ b ∈ s'.take 8, b ≠ skipByte want) := by
  induction hn : s.length using Nat.strongRecOn generalizing s pos with
  | ind n ih =>
    rw [bitposWords]
    split
    · rename_i hlen
      have hword := skipWord_iff want (s.take 8)
      rw [List.length_take, Nat.min_eq_left hlen, show 256 ^ 8 = 2 ^ 64 from rfl, ← hskip] at hword
      split
      · rename_i hne
        rw [ne_eq, hword] at hne
        push Not at hne
        exact ⟨[], s, pos, rfl, rfl, fun _ h => absurd h List.not_mem_nil, rfl, Or.inr hne⟩
      · rename_i heq
        obtain ⟨pre, s', pos', hrun, hs, hpre, hpos, hend⟩ := ih (s.drop 8).length (by rw [List.length_drop]; omega) (s.drop 8)
          (pos + 64) rfl
        refine ⟨s.take 8 ++ pre, s', pos', hrun, ?_, ?_, ?_, hend⟩
        · rw [List.append_assoc, ← hs, List.take_append_drop]
        · intro c hc
          rcases List.mem_append.mp hc with hc | hc
          · exact hword.mp (Decidable.not_not.mp heq) c hc
          · exact hpre c hc
        · rw [hpos, List.length_append, List.length_take, Nat.min_eq_left hlen]
          omega
    · rename_i hlen
      exact ⟨[], s, pos, rfl, rfl, fun _ h => absurd h List.not_mem_nil, rfl, Or.inl (by omega)⟩

/-! ### The last word -/

theorem loadWord_spec (j : ℕ) : ∀ {s : Sds} {word : ℕ}, j ≤ 8 → word < 2 ^ (64 - 8 * j) →
    loadWord j s word = word * 2 ^ (8 * j) + number s 0 (8 * j) := by
  induction j with
  | zero =>
    intro s word _ _
    rw [loadWord, Nat.mul_zero, pow_zero, Nat.mul_one, number, Nat.add_zero]
  | succ j ih =>
    intro s word hj hword
    have hpow : 2 ^ (64 - 8 * j) = 2 ^ (64 - 8 * (j + 1)) * 256 := by
      rw [show 64 - 8 * j = 64 - 8 * (j + 1) + 8 by omega, pow_add]
      rfl
    have hle : 2 ^ (64 - 8 * j) ≤ 2 ^ 64 := Nat.pow_le_pow_right Nat.two_pos (by omega)
    have hshl : shl64 word 8 = word * 256 := by
      unfold shl64
      rw [show 8 % 64 = 8 from rfl, Nat.shiftLeft_eq, show 2 ^ 8 = 256 from rfl]
      exact Nat.mod_eq_of_lt (by omega)
    rw [show 8 * (j + 1) = 8 + 8 * j by ring, pow_add, show 2 ^ 8 = 256 from rfl]
    cases s with
    | nil =>
      rw [loadWord, hshl, ih (by omega) (by omega), BigBits.number_nil, BigBits.number_nil]
      ring
    | cons c s =>
      have hc := c.isLt
      have hor : word * 256 ||| c.val = word * 256 + c.val := by
        have hadd := Nat.two_pow_add_eq_or_of_lt (i := 8) hc word
        rw [show 2 ^ 8 = 256 from rfl, Nat.mul_comm] at hadd
        exact hadd.symm
      rw [loadWord, hshl, hor, ih (by omega) (by omega), BigBits.number_cons]
      ring

theorem one_and (word n : ℕ) : decide (2 ^ n &&& word ≠ 0) = word.testBit n := by
  rw [Bool.eq_iff_iff, decide_eq_true_iff, ← and_bit, Nat.one_shiftLeft, Nat.and_comm]

theorem scanWord_spec (word : ℕ) (i : ℕ) : ∀ {n pos : ℕ}, i ≤ n → word.testBit (n - i) = want →
    (∀ j, j < i → word.testBit (n - j) ≠ want) → scanWord want word (2 ^ n) pos = some (pos + i) := by
  induction i with
  | zero =>
    intro n pos _ hbit _
    rw [Nat.sub_zero] at hbit
    rw [scanWord, if_neg (Nat.two_pow_pos n).ne', one_and, if_pos hbit, Nat.add_zero]
  | succ i ih =>
    intro n pos hi hbit hbefore
    obtain ⟨m, rfl⟩ : ∃ m, n = m + 1 := ⟨n - 1, by omega⟩
    have hskip := hbefore 0 (Nat.succ_pos i)
    rw [Nat.sub_zero] at hskip
    have hhalf : 2 ^ (m + 1) >>> 1 = 2 ^ m := by
      rw [Nat.shiftRight_eq_div_pow, pow_one, pow_succ, Nat.mul_div_cancel _ Nat.two_pos]
    rw [scanWord, if_neg (Nat.two_pow_pos (m + 1)).ne', one_and, if_neg hskip, hhalf,
      ih (by omega) (by rw [show m - i = m + 1 - (i + 1) by omega]; exact hbit) fun j hj => by
        rw [show m - j = m + 1 - (j + 1) by omega]
        exact hbefore (j + 1) (by omega)]
    exact congrArg some (by omega)

/-- **The last word has the first bit**, or no bit is left. -/
theorem lastWord_spec {s : Sds} (h : s.length < 8 ∨ ∃ b ∈ s.take 8, b ≠ skipByte want) (pos : ℕ) :
    lastWord want s pos = some (match firstBit s want with
      | some k => ((pos + k : ℕ) : ℤ)
      | none => if want then -1 else ((pos + 8 * s.length : ℕ) : ℤ)) := by
  have hload : loadWord 8 s 0 = number s 0 64 := by
    rw [loadWord_spec 8 (le_refl 8) (Nat.two_pow_pos _), Nat.zero_mul, Nat.zero_add]
  have htest : ∀ i, i < 64 → (number s 0 64).testBit (63 - i) = bit s i := by
    intro i hi
    rw [BigBits.testBit_number, decide_eq_true (by omega), Bool.true_and]
    congr 1
    omega
  have hbehind : ∀ i, 8 * s.length ≤ i → bit s i = false := by
    intro i hi
    rw [bit, List.getElem?_eq_none (by omega), Option.getD_none]
    exact Nat.zero_testBit _
  have hnear : (∃ i, bit s i = want ∧ i < 64) ∨ (want = true ∧ ∀ i, bit s i = false) := by
    rcases h with h | ⟨b, hb, hne⟩
    · cases want with
      | false => exact Or.inl ⟨8 * s.length, hbehind _ (le_refl _), by omega⟩
      | true =>
        by_cases hany : ∃ i, bit s i = true
        · obtain ⟨i, hi⟩ := hany
          refine Or.inl ⟨i, hi, ?_⟩
          by_contra hfar
          rw [hbehind i (by omega)] at hi
          cases hi
        · refine Or.inr ⟨rfl, fun i => ?_⟩
          rw [← Bool.not_eq_true]
          exact fun hi => hany ⟨i, hi⟩
    · obtain ⟨i, hi, hbit⟩ := exists_bit hb hne
      have hle := List.length_take_le 8 s
      refine Or.inl ⟨i, ?_, by omega⟩
      rw [← List.take_append_drop 8 s, BigBits.bit_append_left hi]
      exact hbit
  unfold lastWord
  dsimp only
  rw [hload, show not64 ((2 ^ 64 - 1) >>> 1) = 2 ^ 63 from rfl]
  rcases hnear with hany | ⟨rfl, hnone⟩
  · obtain ⟨i, ⟨hbit, hi⟩, hbefore⟩ : ∃ i, (bit s i = want ∧ i < 64) ∧ ∀ j, j < i → ¬(bit s j = want ∧ j < 64) :=
      ⟨Nat.find hany, Nat.find_spec hany, fun j hj => Nat.find_min hany hj⟩
    have hfirst : ∀ j, j < i → bit s j ≠ want := fun j hj heq => hbefore j hj ⟨heq, by omega⟩
    have hword : ¬(want = true ∧ number s 0 64 = 0) := by
      rintro ⟨rfl, hzero⟩
      have hbit1 := htest i hi
      rw [hzero, Nat.zero_testBit, hbit] at hbit1
      cases hbit1
    rw [if_neg hword, scanWord_spec _ i (by omega) ((htest i hi).trans hbit) fun j hj => by
      rw [htest j (by omega)]
      exact hfirst j hj]
    by_cases hin : i < 8 * s.length
    · rw [firstBit_some hin hbit hfirst]
      rfl
    · have hwant : want = false := hbit.symm.trans (hbehind i (by omega))
      have hi8 : i = 8 * s.length := by
        by_contra hne
        exact hfirst (8 * s.length) (by omega) ((hbehind _ (le_refl _)).trans hwant.symm)
      rw [firstBit_none fun k hk => hfirst k (by omega), hwant, hi8]
      rfl
  · have hzero : number s 0 64 = 0 := by
      refine Nat.eq_of_testBit_eq fun j => ?_
      rw [BigBits.testBit_number, hnone, Bool.and_false, Nat.zero_testBit]
    rw [if_pos ⟨rfl, hzero⟩, firstBit_none fun k _ => by rw [hnone k]; decide]
    rfl

/-- **The first bit of the wanted value is found.** The panic is not reached. -/
theorem redisBitpos_spec (addr : ℕ) (s : Sds) (want : Bool) :
    redisBitpos addr s want = some (match firstBit s want with
      | some k => (k : ℤ)
      | none => if want then -1 else ((8 * s.length : ℕ) : ℤ)) := by
  have hlast : ∀ {pre t : Sds} {pos : ℕ}, s = pre ++ t → (∀ b ∈ pre, b = skipByte want) → pos = 8 * pre.length →
      (t.length < 8 ∨ ∃ b ∈ t.take 8, b ≠ skipByte want) → lastWord want t pos = some (match firstBit s want with
      | some k => (k : ℤ)
      | none => if want then -1 else ((8 * s.length : ℕ) : ℤ)) := by
    intro pre t pos hs hpre hpos hend
    rw [lastWord_spec hend, hs, firstBit_skip hpre, hpos, List.length_append, Nat.mul_add]
    cases firstBit t want with
    | none => rfl
    | some k => rfl
  obtain ⟨pre, found, t, pos, hrun, hs, hpre, hpos, hfound⟩ := @bitposUnaligned_spec want s addr 0
  rw [Nat.zero_add] at hpos
  unfold redisBitpos
  rw [show (if want = true then (0 : Byte) else 255) = skipByte want from rfl, hrun]
  cases found with
  | true => exact hlast hs hpre hpos (Or.inr (hfound rfl))
  | false =>
    obtain ⟨pre1, t1, pos1, hrun1, hs1, hpre1, hpos1, hend1⟩ := @bitposWords_spec want _ rfl t pos
    dsimp only
    rw [hrun1]
    refine @hlast (pre ++ pre1) t1 pos1 (by rw [hs, hs1, List.append_assoc]) ?_ ?_ hend1
    · intro b hb
      rcases List.mem_append.mp hb with hb | hb
      · exact hpre b hb
      · exact hpre1 b hb
    · rw [hpos1, hpos, List.length_append, Nat.mul_add]

end RedisZk.Bitops
