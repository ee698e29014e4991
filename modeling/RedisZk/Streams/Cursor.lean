/-
# Reading and writing listpacks

What the operations of listpacks do at a place of a list `pre ++ x :: post`, the cursor
being the length of `pre`: numbers are read as they were written, and a walk of `n` steps
moves the cursor by `n`. A write gives the list with the element written, and a
listpack of at most `UINT32_MAX` bytes, or it fails for being too long.

Key theorems: `lpNexts_lt`, `lpPrevs_le`, `lpAppend_spec`.
-/
import RedisZk.Lib.Run
import RedisZk.Streams.Listpack

namespace RedisZk.Streams

open Stepwise

/-- A step that succeeds, and the rest. -/
theorem ok_bind {ε α β : Type} (a : α) (f : α → Except ε β) : (Except.ok a >>= f) = f a := rfl

theorem bind_eq_ok {ε α β : Type} {x : Except ε α} {f : α → Except ε β} {r : β} (h : x >>= f = .ok r) :
    ∃ a, x = .ok a ∧ f a = .ok r := by
  cases x with
  | ok a => exact ⟨a, rfl, h⟩
  | error e => cases h

/-! ### Numbers -/

/-- A number that fits an `int64_t`. -/
def IsInt64 (v : ℤ) : Prop := -(2 ^ 63) ≤ v ∧ v < 2 ^ 63

theorem IsInt64.ofNat {n : ℕ} (h : n < 2 ^ 63) : IsInt64 n := by
  constructor
  · omega
  · omega

theorem lpDigits_eq : ∀ (p : Sds) (v : ℕ), (∀ c ∈ p, Decimal.Digit c) → Decimal.value v p ≤ UINT64_MAX →
    lpDigits v p = some (Decimal.value v p)
  | [], v, _, _ => rfl
  | c :: p, v, hp, hv => by
    have hc := hp c List.mem_cons_self
    have hle := Decimal.le_value p (v * 10 + (c.val - 48))
    rw [Decimal.value_cons] at hv
    have hmul : v * 10 + (c.val - 48) ≤ UINT64_MAX := hle.trans hv
    unfold lpDigits
    rw [if_pos (show 48 ≤ c.val ∧ c.val ≤ 57 from hc), if_neg, if_neg, Decimal.value_cons]
    · exact lpDigits_eq p _ (fun d hd => hp d (List.mem_cons_of_mem _ hd)) hv
    · omega
    · have : v * 10 ≤ UINT64_MAX := by omega
      omega

theorem lpStringToInt64_ll2string {v : ℤ} (h : IsInt64 v) : lpStringToInt64 (ll2string v) = some v := by
  obtain ⟨hlo, hhi⟩ := h
  unfold ll2string
  by_cases h0 : v = 0
  · rw [if_pos h0, h0]
    rfl
  · rw [if_neg h0]
    have habs : v.natAbs ≠ 0 := by omega
    obtain ⟨c, p, htext⟩ := List.exists_cons_of_ne_nil (Decimal.text_ne_nil habs)
    obtain ⟨h49, h57⟩ := Decimal.text_head htext
    have hdigits : ∀ d ∈ p, Decimal.Digit d := fun d hd =>
      Decimal.text_digit (n := v.natAbs) (by rw [htext]; exact List.mem_cons_of_mem _ hd)
    have hvalue : Decimal.value (c.val - 48) p = v.natAbs := by
      have hall := Decimal.value_text v.natAbs
      rw [htext, Decimal.value_cons] at hall
      rw [← hall]
      congr 1
      omega
    have hloop : lpDigits (c.val - 48) p = some v.natAbs := by
      rw [lpDigits_eq p _ hdigits (by rw [hvalue, UINT64_MAX]; omega), hvalue]
    rw [htext]
    split
    · rename_i hneg
      unfold lpStringToInt64
      rw [if_neg (by simp)]
      simp only [List.head?_cons, if_true, List.tail_cons, h49, h57, and_self, hloop]
      rw [if_neg (by rw [INT64_MAX]; omega)]
      congr 1
      omega
    · rename_i hpos
      unfold lpStringToInt64
      have hc48 : c ≠ 48 := by
        rintro rfl
        exact absurd h49 (by decide)
      have hc45 : c ≠ 45 := by
        rintro rfl
        exact absurd h49 (by decide)
      rw [if_neg (by simp [hc48])]
      simp only [List.head?_cons, Option.some.injEq, hc45, if_false, h49, h57, and_self, if_true, hloop]
      rw [if_neg (by rw [INT64_MAX]; omega)]
      congr 1
      omega

theorem lpDigits_value : ∀ {p : Sds} {v n : ℕ}, lpDigits v p = some n →
    (∀ c ∈ p, Decimal.Digit c) ∧ n = Decimal.value v p
  | [], v, n, h => ⟨fun c hc => (List.not_mem_nil hc).elim, (Option.some.inj h).symm⟩
  | c :: p, v, n, h => by
    rw [lpDigits] at h
    split at h
    · rename_i hc
      split at h
      · cases h
      · split at h
        · cases h
        · obtain ⟨hp, hn⟩ := lpDigits_value h
          refine ⟨fun d hd => ?_, by rw [hn, Decimal.value_cons]⟩
          rcases List.mem_cons.mp hd with rfl | hd
          · exact hc
          · exact hp d hd
    · cases h

theorem isInt64_lpStringToInt64 {s : Sds} {v : ℤ} (h : lpStringToInt64 s = some v) : IsInt64 v := by
  have hmax : INT64_MAX = 2 ^ 63 - 1 := rfl
  rw [lpStringToInt64] at h
  split at h
  · cases h
    exact ⟨by omega, by omega⟩
  · simp only at h
    split at h
    · cases h
    · split at h
      · split at h
        · cases h
        · split at h
          · split at h
            · cases h
            · cases h
              exact ⟨by omega, by omega⟩
          · split at h
            · cases h
            · cases h
              exact ⟨by omega, by omega⟩
      · cases h

/-- A number that is read from a text is written as it. -/
theorem ll2string_lpStringToInt64 {s : Sds} {v : ℤ} (h : lpStringToInt64 s = some v) : ll2string v = s := by
  rw [lpStringToInt64] at h
  split at h
  · rename_i h0
    cases h
    exact h0.symm
  · simp only at h
    split at h
    · cases h
    · rename_i c p hs
      split at h
      · rename_i hc
        cases hd : lpDigits (c.val - 48) p with
        | none => simp [hd] at h
        | some n =>
          simp only [hd] at h
          obtain ⟨hp, hn⟩ := lpDigits_value hd
          have htext : Decimal.text n = c :: p := by rw [hn, Decimal.text_value hc hp]
          have hpos : n ≠ 0 := by
            have := Decimal.le_value p (c.val - 48)
            omega
          split at h
          · rename_i hneg
            split at h
            · cases h
            · cases h
              have hs' : s = 45 :: c :: p := by
                rw [if_pos hneg] at hs
                cases s with
                | nil => cases hneg
                | cons x s =>
                  cases hneg
                  rw [← hs]
                  rfl
              rw [ll2string, if_neg (by omega), if_pos (by omega), hs', Int.natAbs_neg, Int.natAbs_natCast, htext]
          · rename_i hneg
            split at h
            · cases h
            · cases h
              rw [if_neg hneg] at hs
              rw [ll2string, if_neg (by omega), if_neg (by omega), Int.natAbs_natCast, htext, hs]
      · cases h

theorem ll2string_length_le {v : ℤ} (h : IsInt64 v) : (ll2string v).length ≤ 21 := by
  have htext : (Decimal.text v.natAbs).length ≤ 20 := by
    rw [Decimal.text, List.length_map, List.length_reverse, Nat.digits_length_le_iff (by omega)]
    obtain ⟨hlo, hhi⟩ := h
    omega
  unfold ll2string
  split
  · simp
  · split
    · rw [List.length_cons]
      omega
    · omega

theorem ll2string_length {v : ℤ} (h : IsInt64 v) : (ll2string v).length < 2 ^ 32 := by
  have := ll2string_length_le h
  omega

/-! ### Reading -/

section Reading

variable {lp pre post : Listpack} {x : Sds} {p n : ℕ}

theorem getElem?_split (h : lp = pre ++ x :: post) : lp[pre.length]? = some x := by
  rw [h, List.getElem?_append_right le_rfl, Nat.sub_self, List.getElem?_cons_zero]

theorem lpGet_split (h : lp = pre ++ x :: post) (hp : p = pre.length) : lpGet lp (some p) = .ok x := by
  rw [lpGet, hp, getElem?_split h]

theorem lpGetInteger_split {v : ℤ} (h : lp = pre ++ ll2string v :: post) (hp : p = pre.length) (hv : IsInt64 v) :
    lpGetInteger lp (some p) = .ok v := by
  rw [lpGetInteger, lpGet_split h hp]
  simp only [bind, Except.bind, lpStringToInt64_ll2string hv]

theorem lpNext_lt (h : p + 1 < lp.length) : lpNext lp (some p) = .ok (some (p + 1)) := by
  rw [lpNext, if_pos h]

theorem lpNext_end (h : p + 1 = lp.length) : lpNext lp (some p) = .ok none := by
  rw [lpNext, if_neg (by omega)]

theorem lpNexts_lt : ∀ (n : ℕ) {p : ℕ}, p + n < lp.length → lpNexts lp (some p) n = .ok (some (p + n))
  | 0, p, _ => rfl
  | n + 1, p, h => by
    rw [lpNexts, lpNext_lt (by omega)]
    simp only [bind, Except.bind]
    rw [lpNexts_lt n (by omega)]
    congr 2
    omega

theorem lpPrev_pos (h : 0 < p) : lpPrev lp (some p) = .ok (some (p - 1)) := by
  rw [lpPrev, if_neg (by omega)]

theorem lpPrevs_le : ∀ (n : ℕ) {p : ℕ}, n ≤ p → lpPrevs lp (some p) n = .ok (some (p - n))
  | 0, p, _ => rfl
  | n + 1, p, h => by
    rw [lpPrevs, lpPrev_pos (by omega)]
    simp only [bind, Except.bind]
    rw [lpPrevs_le n (by omega)]
    congr 2
    omega

theorem countdown_ofNat (n : ℕ) : countdown n = .ok n := by
  rw [countdown, if_neg (by omega), Int.toNat_natCast]

theorem asInt_ofNat (h : n < 2 ^ 31) : asInt n = n := by
  rw [asInt, Int.bmod_eq_of_le]
  · omega
  · omega

theorem lpFirst_cons : lpFirst (x :: post) = some 0 := by
  rw [lpFirst, if_neg (by simp)]

end Reading

/-! ### Sizes -/

theorem two_le_lpEleBytes (x : Sds) : 2 ≤ lpEleBytes x := by
  have henc : 1 ≤ lpEnclen x := by
    unfold lpEnclen
    split
    · split_ifs <;> omega
    · split_ifs <;> omega
  have hback : 1 ≤ lpEncodeBacklen (lpEnclen x) := by
    unfold lpEncodeBacklen
    split_ifs <;> omega
  unfold lpEleBytes
  omega

/-- A listpack that is not too long has less than `2^31` elements. -/
theorem length_lt_of_bytes {lp : Listpack} (h : lpBytes lp ≤ UINT32_MAX) : lp.length < 2 ^ 31 - 3 := by
  have hsum : 2 * lp.length ≤ (lp.map lpEleBytes).sum := by
    clear h
    induction lp with
    | nil => simp
    | cons x lp ih =>
      have hx := two_le_lpEleBytes x
      rw [List.map_cons, List.sum_cons, List.length_cons]
      omega
  unfold lpBytes LP_HDR_SIZE UINT32_MAX at h
  omega

/-! ### Writing -/

/-- The listpack is too long. -/
abbrev TooLong (e : LpAbort) : Prop := e = .tooLong

/-- The result of a write. -/
def Written (lp lp' : Listpack) : Prop := lp' = lp ∧ lpBytes lp ≤ UINT32_MAX

section Writing

variable {lp pre post : Listpack} {x : Sds} {p : ℕ}

theorem lpGrown_spec (lp : Listpack) : Within (Written lp) TooLong (lpGrown lp) := by
  unfold lpGrown
  split
  · exact rfl
  · exact ⟨rfl, by omega⟩

theorem lpAppend_spec (lp : Listpack) (hx : x.length < 2 ^ 32) : Within (Written (lp ++ [x])) TooLong (lpAppend lp x) := by
  rw [lpAppend, Nat.mod_eq_of_lt hx, List.take_length]
  exact lpGrown_spec _

theorem lpAppendInteger_spec (lp : Listpack) {v : ℤ} (hv : IsInt64 v) :
    Within (Written (lp ++ [ll2string v])) TooLong (lpAppendInteger lp v) :=
  lpAppend_spec lp (ll2string_length hv)

theorem lpReplaceInteger_eq (pre post : Listpack) (x : Sds) {p : ℕ} (hp : p = pre.length) (v : ℤ) :
    lpReplaceInteger (pre ++ x :: post) (some p) v = lpGrown (pre ++ ll2string v :: post) := by
  rw [lpReplaceInteger, hp, List.set_append_right _ _ le_rfl, Nat.sub_self, List.set_cons_zero]

theorem lpGrown_fits {lp : Listpack} (h : lpBytes lp ≤ UINT32_MAX) : lpGrown lp = .ok lp := if_neg h.not_gt

theorem lpGrown_tooLong {lp : Listpack} (h : ¬ lpBytes lp ≤ UINT32_MAX) : lpGrown lp = .error .tooLong :=
  if_pos (not_le.mp h)

end Writing

end RedisZk.Streams
