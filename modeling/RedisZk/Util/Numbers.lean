/-
# Numbers and their canonical text

`ll2string`, `string2ll` and the two counts of digits of util.c, on a buffer of bytes. The
printer writes from the end of the text to its start, two digits at a time, after `digits10`
told it where the end is; the parser reads from the start and refuses what is no canonical
text of a `long long`. Each is the other's inverse, and the parser of listpack.c, a
copy of `string2ll` that went its own way, accepts the same strings (`canonical_integers`).

A write outside of the buffer is `none`. The pointer to the value is never NULL.

Key definitions: `digits10`, `sdigits10`, `ll2string`, `string2ll`.
Key theorems: `digits10_length`, `ll2string_spec`, `string2ll_eq`, `canonical_integers`.
-/
import RedisZk.Lib.Memory
import RedisZk.Networking.Reply
import RedisZk.Streams.Cursor

namespace RedisZk.Util

open Memory (put)
open Networking (sds)
open Streams (Sds IsInt64 lpDigits lpStringToInt64)

def LLONG_MIN : ℤ := -2 ^ 63
def LLONG_MAX : ℤ := 2 ^ 63 - 1
def ULLONG_MAX : ℕ := 2 ^ 64 - 1

/-! ### Printing -/

def digits10 (v : ℕ) : ℕ :=
  if v < 10 then 1
  else if v < 100 then 2
  else if v < 1000 then 3
  else if v < 1000000000000 then
    if v < 100000000 then
      if v < 1000000 then
        if v < 10000 then 4 else 5 + if v ≥ 100000 then 1 else 0
      else 7 + if v ≥ 10000000 then 1 else 0
    else if v < 10000000000 then 9 + if v ≥ 1000000000 then 1 else 0
    else 11 + if v ≥ 100000000000 then 1 else 0
  else 12 + digits10 (v / 1000000000000)
termination_by v

/-- The absolute value, of `LLONG_MIN` as of the other numbers below 0. -/
def absolute (v : ℤ) : ℕ :=
  if v < 0 then (if v ≠ LLONG_MIN then (-v).toNat else LLONG_MAX.toNat + 1) else v.toNat

def sdigits10 (v : ℤ) : ℕ := if v < 0 then digits10 (absolute v) + 1 else digits10 (absolute v)

/-- The table of the two-digit numbers. -/
def digits : Sds :=
  sds "0001020304050607080910111213141516171819" ++
    sds "2021222324252627282930313233343536373839" ++
    sds "4041424344454647484950515253545556575859" ++
    sds "6061626364656667686970717273747576777879" ++
    sds "8081828384858687888990919293949596979899"

/-- A difference of two `uint32_t`. -/
def sub32 (a b : ℕ) : ℕ := (a + (2 ^ 32 - b)) % 2 ^ 32

/-- The loop of `ll2string` over a `value` of three digits or more, and the last digits after it. -/
def ll2stringDigits (dst : Sds) (next value : ℕ) : Option Sds :=
  if value ≥ 100 then do
    let i := value % 100 * 2
    let dst ← put dst next [digits.getD (i + 1) 0]
    let dst ← put dst (sub32 next 1) [digits.getD i 0]
    ll2stringDigits dst (sub32 next 2) (value / 100)
  else if value < 10 then put dst next [Fin.ofNat 256 (48 + value)]
  else do
    let i := value * 2
    let dst ← put dst next [digits.getD (i + 1) 0]
    put dst (sub32 next 1) [digits.getD i 0]
termination_by value

/-- The buffer afterwards, and the count of characters, which is 0 if they do not fit `dstlen`. -/
def ll2string (dst : Sds) (dstlen : ℕ) (svalue : ℤ) : Option (Sds × ℕ) :=
  let negative := decide (svalue < 0)
  let value := absolute svalue
  let length := digits10 value + if negative then 1 else 0
  if length ≥ dstlen then some (dst, 0)
  else do
    let dst ← put dst length [0]
    let dst ← ll2stringDigits dst (sub32 length 1) value
    let dst ← if negative then put dst 0 [45] else some dst
    some (dst, length)

/-! ### Parsing -/

/-- The loop of `string2ll` over the other digits: the number, and the bytes that were not used. -/
def string2llDigits (v : ℕ) : Sds → Option (ℕ × Sds)
  | [] => some (v, [])
  | c :: p =>
    if c.val ≥ 48 ∧ c.val ≤ 57 then
      if v > ULLONG_MAX / 10 then none
      else if v * 10 > ULLONG_MAX - (c.val - 48) then none
      else string2llDigits (v * 10 + (c.val - 48)) p
    else some (v, c :: p)

/-- `string2ll` from the first digit on. -/
def string2llFirst (negative : Bool) : Sds → Option ℤ
  | [] => none
  | c :: p =>
    if c.val ≥ 49 ∧ c.val ≤ 57 then do
      let (v, rest) ← string2llDigits (c.val - 48) p
      if rest ≠ [] then none
      else if negative then
        if v > (-(LLONG_MIN + 1)).toNat + 1 then none else some (-(v : ℤ))
      else if v > LLONG_MAX.toNat then none
      else some v
    else none

def string2ll (s : Sds) : Option ℤ :=
  match s with
  | [] => none
  | c :: p =>
    if c = 48 ∧ p = [] then some 0
    else if c = 45 then (if p = [] then none else string2llFirst true p)
    else string2llFirst false (c :: p)

/-! ### The count of digits -/

theorem digits_log {k v : ℕ} (hlo : 10 ^ k ≤ v) (hhi : v < 10 ^ (k + 1)) : k + 1 = Nat.log 10 v + 1 := by
  rw [Nat.log_eq_of_pow_le_of_lt_pow hlo hhi]

theorem digits10_log (v : ℕ) : digits10 v = Nat.log 10 v + 1 := by
  induction v using Nat.strongRecOn with
  | ind v ih =>
    rw [digits10]
    repeat' split
    · rw [Nat.log_of_lt (by omega)]
    · exact digits_log (k := 1) (by omega) (by omega)
    · exact digits_log (k := 2) (by omega) (by omega)
    · exact digits_log (k := 3) (by omega) (by omega)
    · exact digits_log (k := 5) (by omega) (by omega)
    · exact digits_log (k := 4) (by omega) (by omega)
    · exact digits_log (k := 7) (by omega) (by omega)
    · exact digits_log (k := 6) (by omega) (by omega)
    · exact digits_log (k := 9) (by omega) (by omega)
    · exact digits_log (k := 8) (by omega) (by omega)
    · exact digits_log (k := 11) (by omega) (by omega)
    · exact digits_log (k := 10) (by omega) (by omega)
    · rw [ih (v / 1000000000000) (by omega), show v / 1000000000000 = v / 10 ^ 12 from rfl, Nat.log_div_base_pow]
      have hlog : 12 ≤ Nat.log 10 v := Nat.le_log_of_pow_le (by omega) (by omega)
      omega

/-! ### What is printed -/

/-- The text of a number that is not below 0. -/
def natText (n : ℕ) : Sds := if n = 0 then [48] else Decimal.text n

theorem natText_ne {n : ℕ} (h : n ≠ 0) : natText n = Decimal.text n := by rw [natText, if_neg h]

theorem digits10_length (v : ℕ) : digits10 v = (natText v).length := by
  rw [digits10_log, natText]
  split
  · rename_i h
    rw [h]
    rfl
  · rename_i h
    rw [Decimal.text, List.length_map, List.length_reverse, Nat.length_digits 10 v (by omega) h]

theorem natText_digit {d : ℕ} (h : d < 10) : natText d = [Fin.ofNat 256 (48 + d)] := by
  rw [natText]
  split
  · rename_i h0
    rw [h0]
    rfl
  · rename_i h0
    rw [Decimal.text, Nat.digits_of_lt 10 d h0 h]
    rfl

theorem natText_snoc {m d : ℕ} (hm : m ≠ 0) (hd : d < 10) :
    natText (m * 10 + d) = natText m ++ [Fin.ofNat 256 (48 + d)] := by
  rw [natText_ne (by omega), natText_ne hm, Decimal.text_mul_add hm hd]

/-- The two characters of the table at a number. -/
def pair (r : ℕ) : Sds := [digits.getD (r * 2) 0, digits.getD (r * 2 + 1) 0]

theorem pair_eq {r : ℕ} (h : r < 100) : pair r = [Fin.ofNat 256 (48 + r / 10), Fin.ofNat 256 (48 + r % 10)] := by
  have hall : ∀ i : Fin 100, pair i.val = [Fin.ofNat 256 (48 + i.val / 10), Fin.ofNat 256 (48 + i.val % 10)] := by
    decide +kernel
  exact hall ⟨r, h⟩

theorem natText_pair {r : ℕ} (hlo : 10 ≤ r) (hhi : r < 100) : natText r = pair r := by
  rw [pair_eq hhi, show r = r / 10 * 10 + r % 10 by omega, natText_snoc (by omega) (by omega), natText_digit (by omega),
    ← show r = r / 10 * 10 + r % 10 by omega]
  rfl

theorem natText_hundred {v : ℕ} (h : 100 ≤ v) : natText v = natText (v / 100) ++ pair (v % 100) := by
  have hv : v = (v / 100 * 10 + v % 100 / 10) * 10 + v % 100 % 10 := by omega
  rw [pair_eq (by omega)]
  conv_lhs => rw [hv, natText_snoc (by omega) (by omega), natText_snoc (by omega) (by omega)]
  simp only [List.append_assoc, List.cons_append, List.nil_append]

theorem sub32_eq {a b : ℕ} (hb : b ≤ a) (ha : a < 2 ^ 32) : sub32 a b = a - b := by
  rw [sub32]
  omega

/-- Two characters are written, the last one first. -/
theorem put_pair {dst a old b : Sds} {next : ℕ} (r : ℕ) (hdst : dst = a ++ (old ++ b)) (hold : old.length = 2)
    (hnext : next = a.length + 1) (hlt : next < 2 ^ 32) :
    ((put dst next [digits.getD (r * 2 + 1) 0]).bind fun dst => put dst (sub32 next 1) [digits.getD (r * 2) 0]) =
      some (a ++ (pair r ++ b)) := by
  obtain ⟨x, y, rfl⟩ := List.length_eq_two.mp hold
  have hlast : put dst next [digits.getD (r * 2 + 1) 0] = some (a ++ [x] ++ ([digits.getD (r * 2 + 1) 0] ++ b)) := by
    refine @Memory.put_split _ _ _ [y] b _ _ ?_ ?_ (by simp only [List.length_singleton])
    · rw [hdst]
      simp
    · rw [hnext]
      simp
  have hfirst : put (a ++ [x] ++ ([digits.getD (r * 2 + 1) 0] ++ b)) (sub32 next 1) [digits.getD (r * 2) 0] =
      some (a ++ ([digits.getD (r * 2) 0] ++ ([digits.getD (r * 2 + 1) 0] ++ b))) := by
    refine @Memory.put_split _ _ _ [x] _ _ _ ?_ ?_ (by simp only [List.length_singleton])
    · simp
    · rw [sub32_eq (by omega) hlt, hnext]
      rfl
  rw [hlast, Option.bind_some, hfirst, pair, List.cons_append, List.nil_append]
  rfl

theorem natText_pos (n : ℕ) : 0 < (natText n).length := by
  rw [← digits10_length, digits10_log]
  omega

theorem ll2stringDigits_spec : ∀ {value : ℕ} {dst a old b : Sds} {next : ℕ}, dst = a ++ (old ++ b) →
    old.length = (natText value).length → next + 1 = a.length + old.length → next < 2 ^ 32 →
    ll2stringDigits dst next value = some (a ++ (natText value ++ b)) := by
  intro value
  induction value using Nat.strongRecOn with
  | ind value ih =>
    intro dst a old b next hdst hold hnext hlt
    rw [ll2stringDigits]
    split
    · rename_i hbig
      have htext := natText_hundred hbig
      have hlen : old.length = (natText (value / 100)).length + 2 := by
        rw [hold, htext, List.length_append]
        rfl
      have hpos := natText_pos (value / 100)
      -- the pair at the end of the place, and what is before it
      have hsplit : old = old.take (old.length - 2) ++ old.drop (old.length - 2) := (List.take_append_drop _ _).symm
      have hpair := @put_pair dst (a ++ old.take (old.length - 2)) (old.drop (old.length - 2)) b next
          (value % 100) (by rw [hdst, List.append_assoc, ← List.append_assoc (old.take _), ← hsplit])
          (by rw [List.length_drop]; omega) (by rw [List.length_append, List.length_take]; omega) hlt
      have hrest := @ih (value / 100) (by omega) (a ++ old.take (old.length - 2) ++ (pair (value % 100) ++ b)) a
        (old.take (old.length - 2)) (pair (value % 100) ++ b) (sub32 next 2)
        (by simp only [List.append_assoc]) (by rw [List.length_take]; omega)
        (by rw [sub32_eq (by omega) hlt, List.length_take]; omega) (by rw [sub32_eq (by omega) hlt]; omega)
      show (put dst next [digits.getD (value % 100 * 2 + 1) 0]).bind _ = _
      rw [htext, List.append_assoc, ← hrest, ← Option.bind_some (_ : Sds) fun dst => ll2stringDigits dst _ _, ← hpair,
        Option.bind_assoc]
      rfl
    · split
      · rename_i hone
        rw [natText_digit hone] at hold ⊢
        exact Memory.put_split hdst (by rw [hold] at hnext; simpa using hnext) hold.symm
      · rw [natText_pair (by omega) (by omega)] at hold ⊢
        have hlen : old.length = 2 := hold
        exact put_pair value hdst hlen (by omega) hlt

/-- The text of a number: the sign, and the digits of the absolute value. -/
theorem text_absolute (v : ℤ) : Streams.ll2string v = (if v < 0 then [45] else []) ++ natText (absolute v) := by
  have habs : v < 0 → absolute v = v.natAbs := by
    intro hneg
    rw [absolute, if_pos hneg, LLONG_MAX]
    split
    · omega
    · rename_i hmin
      rw [not_not, LLONG_MIN] at hmin
      omega
  rw [Streams.ll2string]
  split
  · rename_i h0
    rw [h0]
    rfl
  · rename_i h0
    split
    · rename_i hneg
      rw [habs hneg, natText_ne (by omega)]
      rfl
    · rename_i hneg
      rw [absolute, if_neg hneg, natText_ne (by omega), List.nil_append, show v.toNat = v.natAbs by omega]

theorem sdigits10_length (v : ℤ) : sdigits10 v = (Streams.ll2string v).length := by
  rw [sdigits10, text_absolute, List.length_append, ← digits10_length]
  split
  · rw [List.length_singleton, add_comm]
  · rw [List.length_nil, zero_add]

theorem sdigits10_le {v : ℤ} (h : IsInt64 v) : sdigits10 v ≤ 21 := by
  have habs : absolute v < 10 ^ 20 := by
    obtain ⟨hlo, hhi⟩ := h
    rw [absolute, LLONG_MAX]
    split
    · split
      · omega
      · omega
    · omega
  have hlog : Nat.log 10 (absolute v) < 20 := Nat.log_lt_of_lt_pow' (by omega) habs
  rw [sdigits10, digits10_log]
  split
  · omega
  · omega

/-- **What `ll2string` writes.** The text and a NUL behind it, if the buffer is longer than the text. -/
theorem ll2string_spec {v : ℤ} {dst : Sds} {dstlen : ℕ} (hv : IsInt64 v) (hdst : dstlen ≤ dst.length) :
    ll2string dst dstlen v =
      if sdigits10 v < dstlen then
        some (Streams.ll2string v ++ 0 :: dst.drop (sdigits10 v + 1), sdigits10 v)
      else some (dst, 0) := by
  have hle := sdigits10_le hv
  have hlength : (digits10 (absolute v) + if decide (v < 0) = true then 1 else 0) = sdigits10 v := by
    rw [sdigits10]
    by_cases hneg : v < 0
    · rw [if_pos hneg, if_pos (by simpa using hneg)]
    · rw [if_neg hneg, if_neg (by simpa using hneg), Nat.add_zero]
  have htext := sdigits10_length v
  rw [ll2string]
  simp only [hlength]
  by_cases hfit : sdigits10 v < dstlen
  · rw [if_neg (by omega), if_pos hfit]
    have hnul : put dst (sdigits10 v) [0] = some (dst.take (sdigits10 v) ++ ([0] ++ dst.drop (sdigits10 v + 1))) := by
      rw [put, if_pos (by simp only [List.length_singleton]; omega), List.length_singleton]
    have hpos := natText_pos (absolute v)
    rw [text_absolute, List.length_append] at htext
    have htake : (dst.take (sdigits10 v)).length = sdigits10 v := by
      rw [List.length_take]
      omega
    by_cases hneg : v < 0
    · rw [if_pos hneg, List.length_singleton] at htext
      obtain ⟨x, old, hold⟩ : ∃ x old, dst.take (sdigits10 v) = x :: old :=
        List.exists_cons_of_length_pos (by omega)
      rw [hold, List.length_cons] at htake
      have hdigits := @ll2stringDigits_spec (absolute v) (x :: old ++ ([0] ++ dst.drop (sdigits10 v + 1))) [x]
          old ([0] ++ dst.drop (sdigits10 v + 1)) (sub32 (sdigits10 v) 1) rfl (by omega)
          (by rw [sub32_eq (by omega) (by omega), List.length_singleton]; omega)
          (by rw [sub32_eq (by omega) (by omega)]; omega)
      have hsign : put ([x] ++ (natText (absolute v) ++ ([0] ++ dst.drop (sdigits10 v + 1)))) 0 [45] =
          some ([] ++ ([45] ++ (natText (absolute v) ++ ([0] ++ dst.drop (sdigits10 v + 1))))) :=
        @Memory.put_split _ _ [] [x] _ _ _ rfl rfl rfl
      rw [hnul, hold, some_bind, hdigits, some_bind,
        if_pos (by simpa using hneg), hsign, text_absolute, if_pos hneg]
      simp
    · rw [if_neg hneg, List.length_nil] at htext
      have hdigits := @ll2stringDigits_spec (absolute v)
          (dst.take (sdigits10 v) ++ ([0] ++ dst.drop (sdigits10 v + 1))) [] (dst.take (sdigits10 v))
          ([0] ++ dst.drop (sdigits10 v + 1)) (sub32 (sdigits10 v) 1) rfl (by omega)
          (by rw [sub32_eq (by omega) (by omega), List.length_nil]; omega)
          (by rw [sub32_eq (by omega) (by omega)]; omega)
      rw [hnul, some_bind, hdigits, some_bind,
        if_neg (by simpa using hneg), text_absolute, if_neg hneg]
      simp
  · rw [if_pos (by omega), if_neg hfit]

/-! ### What is parsed -/

theorem lpDigits_string2llDigits : ∀ (p : Sds) (v : ℕ),
    lpDigits v p = (string2llDigits v p).bind fun r => if r.2 ≠ [] then none else some r.1
  | [], v => rfl
  | c :: p, v => by
    rw [lpDigits, string2llDigits]
    show (if c.val ≥ 48 ∧ c.val ≤ 57 then _ else _) = _
    split
    · show (if v > ULLONG_MAX / 10 then _ else _) = _
      split
      · rfl
      · show (if v * 10 > ULLONG_MAX - (c.val - 48) then _ else _) = _
        split
        · rfl
        · exact lpDigits_string2llDigits p _
    · rfl

/-- From the first digit on the two parsers are one. -/
theorem string2llFirst_eq (negative : Bool) (s : Sds) :
    string2llFirst negative s = (match s with
      | [] => none
      | c :: p =>
        if 49 ≤ c.val ∧ c.val ≤ 57 then
          match lpDigits (c.val - 48) p with
          | none => none
          | some v =>
            if negative = true then (if v > Streams.INT64_MAX + 1 then none else some (-(v : ℤ)))
            else if v > Streams.INT64_MAX then none
            else some (v : ℤ)
        else none) := by
  cases s with
  | nil => rfl
  | cons c p =>
    rw [string2llFirst]
    show (if 49 ≤ c.val ∧ c.val ≤ 57 then _ else _) = if 49 ≤ c.val ∧ c.val ≤ 57 then _ else _
    rw [lpDigits_string2llDigits]
    cases string2llDigits (c.val - 48) p with
    | none => rfl
    | some r =>
      obtain ⟨v, rest⟩ := r
      by_cases hrest : rest = []
      · simp only [hrest, Option.bind_some, ne_eq, not_true_eq_false, if_false, Option.bind_eq_bind]
        rfl
      · simp only [hrest, Option.bind_some, ne_eq, not_false_eq_true, if_true, Option.bind_eq_bind]

/-- **The two parsers are one function.** -/
theorem string2ll_eq (s : Sds) : string2ll s = lpStringToInt64 s := by
  cases s with
  | nil => rfl
  | cons c p =>
    rw [string2ll, lpStringToInt64]
    simp only [List.head?_cons, Option.some.injEq, List.tail_cons, List.cons.injEq]
    split
    · rfl
    · split
      · rename_i hneg
        cases p with
        | nil => rfl
        | cons d p =>
          rw [if_neg (by simp), string2llFirst_eq]
          rfl
      · rw [string2llFirst_eq]
        rfl

/-! ### Canonical text -/

/-- `s` is what `ll2string` writes for `v`, with a NUL behind it, to every buffer that is large enough. -/
def Prints (v : ℤ) (s : Sds) : Prop :=
  ∀ (dst : Sds) (dstlen : ℕ), dstlen ≤ dst.length → s.length < dstlen →
    ll2string dst dstlen v = some (s ++ 0 :: dst.drop (s.length + 1), s.length)

theorem prints_iff {v : ℤ} {s : Sds} (hv : IsInt64 v) : Prints v s ↔ s = Streams.ll2string v := by
  constructor
  · intro h
    have hlen : (List.replicate (s.length + sdigits10 v + 1) (0 : Fin 256)).length = s.length + sdigits10 v + 1 :=
      List.length_replicate
    have hs := h (List.replicate (s.length + sdigits10 v + 1) 0) (s.length + sdigits10 v + 1) hlen.ge (by omega)
    rw [ll2string_spec hv hlen.ge, if_pos (by omega), Option.some.injEq, Prod.mk.injEq] at hs
    obtain ⟨hbuf, hret⟩ := hs
    rw [sdigits10_length] at hret
    exact (List.append_inj hbuf hret).1.symm
  · rintro rfl dst dstlen hdst hfit
    rw [ll2string_spec hv hdst, sdigits10_length, if_pos hfit]

/-- **Text to number to text is the identity.** `string2ll` accepts exactly what `ll2string` writes, for each
number of 64 bits, `ll2string` writes the count of bytes that `sdigits10` tells, and nothing where they do not fit,
and `lpStringToInt64` is the same function as `string2ll`. -/
theorem canonical_integers :
    (∀ (s : Sds) (v : ℤ), string2ll s = some v ↔ IsInt64 v ∧ Prints v s) ∧
    (∀ v : ℤ, IsInt64 v → ∃ s : Sds, Prints v s ∧ s.length = sdigits10 v ∧ (0 ≤ v → s.length = digits10 v.toNat)) ∧
    (∀ (v : ℤ) (dst : Sds) (dstlen : ℕ), IsInt64 v → dstlen ≤ dst.length →
      ∃ dst' n, ll2string dst dstlen v = some (dst', n) ∧ n = (if sdigits10 v < dstlen then sdigits10 v else 0) ∧
        (n = 0 ↔ dstlen ≤ sdigits10 v) ∧ (n = 0 → dst' = dst)) ∧
    ∀ s : Sds, lpStringToInt64 s = string2ll s := by
  refine ⟨fun s v => ⟨fun h => ?_, fun h => ?_⟩, fun v hv => ?_, fun v dst dstlen hv hdst => ?_, fun s => (string2ll_eq s).symm⟩
  · rw [string2ll_eq] at h
    have hv := Streams.isInt64_lpStringToInt64 h
    exact ⟨hv, (prints_iff hv).mpr (Streams.ll2string_lpStringToInt64 h).symm⟩
  · obtain ⟨hv, hs⟩ := h
    rw [string2ll_eq, (prints_iff hv).mp hs, Streams.lpStringToInt64_ll2string hv]
  · refine ⟨Streams.ll2string v, (prints_iff hv).mpr rfl, (sdigits10_length v).symm, fun hpos => ?_⟩
    rw [← sdigits10_length, sdigits10, if_neg (by omega), absolute, if_neg (by omega)]
  · have hpos : 0 < sdigits10 v := by
      rw [sdigits10, digits10_log]
      split
      · omega
      · omega
    rw [ll2string_spec hv hdst]
    split
    · rename_i hfit
      exact ⟨_, _, rfl, rfl, by omega, by omega⟩
    · rename_i hfit
      exact ⟨_, _, rfl, rfl, by omega, fun _ => rfl⟩

theorem canonical_integers_min : IsInt64 LLONG_MIN ∧ Prints LLONG_MIN (sds "-9223372036854775808") :=
  (canonical_integers.1 (sds "-9223372036854775808") LLONG_MIN).mp (by decide)

end RedisZk.Util
