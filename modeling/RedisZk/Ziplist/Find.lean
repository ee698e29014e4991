/-
# Searching a ziplist

A string is compared with an entry as what the entry holds: with a string by its bytes, with a
number by the value, if the string is the text of one. The text of a number has one spelling
only, so both are the same as comparing the strings.

Key definitions: `ziplistCompare`, `ziplistFind`, `FirstMatch`.
Key theorems: `zipTryEncoding_iff`, `ziplistCompare_bytes`, `findLoop_spec`, `ziplist_read_and_search`.
-/
import RedisZk.Ziplist.Correct

namespace RedisZk.Ziplist

open Streams (Sds ll2string IsInt64)
open Aof (wrap)

/-! ### Comparing -/

/-- Whether the bytes at `p` are those of `s`. -/
def memcmp (p s : Sds) : Option Bool := if s.length ≤ p.length then some (decide (p.take s.length = s)) else none

/-- Whether the `len` bytes at `p` are `s`. -/
def sameBytes (p : Sds) (len : ℕ) (s : Sds) : Option Bool := if len = s.length then memcmp p s else some false

def ziplistCompare (p sstr : Sds) : Option Bool := do
  let first ← p.head?
  if first = ZIP_END then some false
  else do
    let e ← zipEntry p
    if e.encoding < ZIP_STR_MASK then sameBytes (p.drop e.headersize) e.len sstr
    else match zipTryEncoding sstr with
      | some (sval, _) => do
        let zval ← zipLoadInteger (p.drop e.headersize) e.encoding
        some (decide (zval = sval))
      | none => some false

/-! ### Searching -/

def UCHAR_MAX : ℕ := 255

/-- An `int`, as it wraps. -/
def int (v : ℤ) : ℤ := wrap (2 ^ 31) v

def zipDecodePrevlensize (p : Sds) : Option ℕ := p.head?.map fun b => if b.val < ZIP_BIG_PREVLEN then 1 else 5

/-- The searched string as a number, with its encoding: it is encoded once, and `UCHAR_MAX` says that
it is no number. -/
def searched (vstr : Sds) (vencoding : ℕ) (vll : ℤ) : ℕ × ℤ :=
  if vencoding = 0 then
    match zipTryEncoding vstr with
    | some (value, encoding) => (encoding, value)
    | none => (UCHAR_MAX, vll)
  else (vencoding, vll)

/-- Compares the entry with the payload at `q`; and what is known of the searched string. -/
def findCompare (q : Sds) (encoding len : ℕ) (vstr : Sds) (vencoding : ℕ) (vll : ℤ) : Option (Bool × ℕ × ℤ) :=
  if encoding < ZIP_STR_MASK then do
    let equal ← sameBytes q len vstr
    some (equal, vencoding, vll)
  else
    let (vencoding, vll) := searched vstr vencoding vll
    -- assert(vencoding)
    if vencoding = 0 then none
    else if vencoding ≠ UCHAR_MAX then do
      let ll ← zipLoadInteger q encoding
      some (decide (ll = vll), vencoding, vll)
    else some (false, vencoding, vll)

/-- The loop of `ziplistFind`; the result is the place of an entry, or none for NULL. -/
def findLoop (zl vstr : Sds) (skip : ℕ) : ℕ → ℕ → ℤ → ℕ → ℤ → Option (Option ℕ)
  | 0, _, _, _, _ => none
  | n + 1, p, skipcnt, vencoding, vll => do
    let first ← (zl.drop p).head?
    if first = ZIP_END then some none
    else do
      let prevlensize ← zipDecodePrevlensize (zl.drop p)
      let (encoding, lensize, len) ← zipDecodeLength (zl.drop (p + prevlensize))
      let q := p + prevlensize + lensize
      if skipcnt = 0 then do
        let (equal, vencoding, vll) ← findCompare (zl.drop q) encoding len vstr vencoding vll
        if equal then some (some p) else findLoop zl vstr skip n (q + len) (int skip) vencoding vll
      else findLoop zl vstr skip n (q + len) (int (skipcnt - 1)) vencoding vll

/-- `ziplistFind`, from the entry at `p` on. -/
def ziplistFind (zl : Sds) (p : ℕ) (vstr : Sds) (skip : ℕ) : Option (Option ℕ) := findLoop zl vstr skip zl.length p 0 0 0

/-- The first of the places `i`, `i + skip + 1` and so on at which `s` is, or that it is at none. -/
def FirstMatch (l : List Sds) (i skip : ℕ) (s : Sds) : Option ℕ → Prop
  | some j => l[j]? = some s ∧ ∃ m, j = i + m * (skip + 1) ∧ ∀ m' < m, l[i + m' * (skip + 1)]? ≠ some s
  | none => ∀ m, l[i + m * (skip + 1)]? ≠ some s

/-! ### Numbers -/

theorem isInt64_wrap {half : ℤ} (hpos : 0 < half) (hle : half ≤ 2 ^ 63) (v : ℤ) : IsInt64 (wrap half v) := by
  have hlo := Int.emod_nonneg (v + half) (show 2 * half ≠ 0 by omega)
  have hhi := Int.emod_lt_of_pos (v + half) (show 0 < 2 * half by omega)
  rw [wrap]
  constructor
  · omega
  · omega

theorem isInt64_zipLoadInteger {p : Sds} {encoding : ℕ} {v : ℤ} (h : zipLoadInteger p encoding = some v) : IsInt64 v := by
  have hsigned : ∀ n ∈ [1, 2, 4, 8], ∀ s, IsInt64 (ofSigned n s) := by
    intro n hn s
    simp only [List.mem_cons, List.not_mem_nil, or_false] at hn
    rcases hn with rfl | rfl | rfl | rfl <;> exact isInt64_wrap (by norm_num) (by norm_num) _
  rw [zipLoadInteger] at h
  split at h
  · rw [← Option.some.inj h]
    exact hsigned 1 (by decide) p
  · split at h
    · rw [← Option.some.inj h]
      exact hsigned 2 (by decide) p
    · split at h
      · rw [← Option.some.inj h]
        exact hsigned 4 (by decide) p
      · split at h
        · rw [← Option.some.inj h]
          obtain ⟨hlo, hhi⟩ := hsigned 4 (by decide) (0 :: p.take 3)
          constructor <;> omega
        · split at h
          · rw [← Option.some.inj h]
            exact hsigned 8 (by decide) p
          · split at h
            · cases h
              constructor <;> omega
            · cases h

variable {s : Sds}

/-- A string is encoded as a number exactly if it is the text of the number. -/
theorem zipTryEncoding_iff {v : ℤ} (hv : IsInt64 v) : (∃ e, zipTryEncoding s = some (v, e)) ↔ ll2string v = s := by
  constructor
  · rintro ⟨e, h⟩
    rw [zipTryEncoding] at h
    split at h
    · cases h
    · obtain ⟨v', hread, heq⟩ := Option.map_eq_some_iff.mp h
      cases heq
      exact Streams.ll2string_lpStringToInt64 hread
  · intro h
    have hlen := Streams.ll2string_length_le hv
    have hread := Streams.lpStringToInt64_ll2string hv
    rw [h] at hlen hread
    have hpos : s.length ≠ 0 := by
      intro h0
      rw [List.length_eq_zero_iff] at h0
      rw [h0] at hread
      cases hread
    refine ⟨intEncoding v, ?_⟩
    rw [zipTryEncoding, if_neg (by omega), string2ll, hread, Option.map_some]

theorem zipTryEncoding_spec {v : ℤ} {e : ℕ} (h : zipTryEncoding s = some (v, e)) :
    ll2string v = s ∧ e ≠ 0 ∧ e ≠ UCHAR_MAX := by
  rw [zipTryEncoding] at h
  split at h
  · cases h
  · obtain ⟨v', hread, heq⟩ := Option.map_eq_some_iff.mp h
    cases heq
    refine ⟨Streams.ll2string_lpStringToInt64 hread, ?_⟩
    have hall : ∀ c ∈ [ZIP_INT_8B, ZIP_INT_16B, ZIP_INT_24B, ZIP_INT_32B, ZIP_INT_64B], c ≠ 0 ∧ c ≠ UCHAR_MAX := by decide
    have himm : ZIP_INT_IMM_MIN = 241 := rfl
    have hmax : UCHAR_MAX = 255 := rfl
    rw [intEncoding]
    repeat' split
    · omega
    all_goals exact hall _ (by decide)

/-! ### One entry -/

section Payload

variable {e : Entry} {encoding lensize len : ℕ}

theorem text_of_string (hbody : zipDecodeLength e.body = some (encoding, lensize, len)) (hlen : e.body.length = lensize + len)
    (hstr : encoding < ZIP_STR_MASK) : e.text = some (e.body.drop lensize) := by
  have hall : (e.body.drop lensize).take len = e.body.drop lensize := List.take_of_length_le (by rw [List.length_drop]; omega)
  simp only [Entry.text, Entry.value, hbody, bind, Option.bind, if_pos hstr, hall, Option.map_some, Value.text]

theorem text_of_number (hbody : zipDecodeLength e.body = some (encoding, lensize, len)) (hlen : e.body.length = lensize + len)
    (hnum : ¬ encoding < ZIP_STR_MASK) (rest : Sds) :
    ∃ v, IsInt64 v ∧ zipLoadInteger (e.body.drop lensize ++ rest) encoding = some v ∧ e.text = some (ll2string v) := by
  have hint := int_of_zipDecodeLength hbody hnum
  obtain ⟨v, hv⟩ := zipLoadInteger_isSome hint (e.body.drop lensize)
  refine ⟨v, isInt64_zipLoadInteger hv, ?_, ?_⟩
  · rw [zipLoadInteger_append hint (by rw [List.length_drop]; omega), hv]
  · simp only [Entry.text, Entry.value, hbody, bind, Option.bind, if_neg hnum, hv, Option.map_some, Value.text]

end Payload

theorem memcmp_append {p rest s : Sds} (hlen : p.length = s.length) : memcmp (p ++ rest) s = some (decide (p = s)) := by
  rw [memcmp, if_pos (by rw [List.length_append]; omega), ← hlen, List.take_left]

/-- The comparison of a payload that is a string. -/
theorem compare_string {p s : Sds} {len : ℕ} (hlen : p.length = len) (rest : Sds) :
    sameBytes (p ++ rest) len s = some (decide (some p = some s)) := by
  have hiff : decide (some p = some s) = decide (p = s) := decide_eq_decide.mpr Option.some_inj
  rw [sameBytes, hiff]
  by_cases hl : len = s.length
  · rw [if_pos hl, memcmp_append (by omega)]
  · rw [if_neg hl, decide_eq_false]
    rintro rfl
    exact hl hlen.symm

/-- A number is the text `s` exactly if its value is that of `s`. -/
theorem compare_number {v : ℤ} (hv : IsInt64 v) :
    match zipTryEncoding s with
    | some (sval, _) => decide (v = sval) = decide (some (ll2string v) = some s)
    | none => decide (some (ll2string v) = some s) = false := by
  have hiff := zipTryEncoding_iff (s := s) hv
  cases htry : zipTryEncoding s with
  | none =>
    refine decide_eq_false fun htext => ?_
    obtain ⟨e, he⟩ := hiff.mpr (Option.some.inj htext)
    rw [htry] at he
    cases he
  | some r =>
    obtain ⟨sval, enc⟩ := r
    show decide (v = sval) = decide (some (ll2string v) = some s)
    rw [decide_eq_decide, Option.some.injEq, ← hiff, htry]
    constructor
    · rintro rfl
      exact ⟨enc, rfl⟩
    · rintro ⟨e, he⟩
      cases he
      rfl

/-- `ziplistCompare` tells whether the entry holds the string. -/
theorem ziplistCompare_bytes {e : Entry} (h : e.Valid) (rest s : Sds) :
    ziplistCompare (e.bytes ++ rest) s = some (decide (e.text = some s)) := by
  obtain ⟨encoding, lensize, len, hbody, hlen⟩ := h.body
  obtain ⟨-, hle⟩ := zipDecodeLength_append hbody rest
  obtain ⟨b, hb, hne⟩ := head_bytes h rest
  have hentry := zipEntry_decode h hbody rest
  have hdrop : (e.bytes ++ rest).drop (e.prev.length + lensize) = e.body.drop lensize ++ rest := by
    rw [Entry.bytes, List.append_assoc, ← List.drop_drop, List.drop_left, List.drop_append_of_le_length hle]
  simp only [ziplistCompare, hb, if_neg hne, hentry, bind, Option.bind, zlentry.headersize, hdrop]
  by_cases hstr : encoding < ZIP_STR_MASK
  · rw [if_pos hstr, text_of_string hbody hlen hstr]
    exact compare_string (by rw [List.length_drop]; omega) rest
  · obtain ⟨v, hv, hread, htext⟩ := text_of_number hbody hlen hstr rest
    have hcmp := compare_number (s := s) hv
    rw [if_neg hstr, htext, hread]
    cases htry : zipTryEncoding s with
    | none =>
      rw [htry] at hcmp
      exact congrArg some hcmp.symm
    | some r =>
      rw [htry] at hcmp
      exact congrArg some hcmp

/-! ### The loop -/

/-- What is known of the searched string is right. -/
def Known (vstr : Sds) (vencoding : ℕ) (vll : ℤ) : Prop :=
  vencoding = 0 ∨ (vencoding = UCHAR_MAX ∧ zipTryEncoding vstr = none) ∨ zipTryEncoding vstr = some (vll, vencoding)

theorem searched_spec {vstr : Sds} {vencoding : ℕ} {vll : ℤ} (h : Known vstr vencoding vll) :
    ∃ venc v, searched vstr vencoding vll = (venc, v) ∧ venc ≠ 0 ∧
      ((venc = UCHAR_MAX ∧ zipTryEncoding vstr = none) ∨ (venc ≠ UCHAR_MAX ∧ zipTryEncoding vstr = some (v, venc))) := by
  rw [searched]
  by_cases h0 : vencoding = 0
  · rw [if_pos h0]
    cases htry : zipTryEncoding vstr with
    | none => exact ⟨_, _, rfl, by decide, .inl ⟨rfl, rfl⟩⟩
    | some r =>
      obtain ⟨v, e⟩ := r
      obtain ⟨-, he0, hemax⟩ := zipTryEncoding_spec htry
      exact ⟨_, _, rfl, he0, .inr ⟨hemax, rfl⟩⟩
  · rw [if_neg h0]
    refine ⟨_, _, rfl, h0, ?_⟩
    rcases h with h | h | h
    · exact absurd h h0
    · exact .inl h
    · exact .inr ⟨(zipTryEncoding_spec h).2.2, h⟩

/-- The entry is compared with the string, once it is known whether that is a number. -/
theorem findCompare_spec {e : Entry} {encoding lensize len : ℕ} (hbody : zipDecodeLength e.body = some (encoding, lensize, len))
    (hlen : e.body.length = lensize + len) (rest : Sds) {vstr : Sds} {vencoding : ℕ} {vll : ℤ} (h : Known vstr vencoding vll) :
    ∃ venc v, findCompare (e.body.drop lensize ++ rest) encoding len vstr vencoding vll =
      some (decide (e.text = some vstr), venc, v) ∧ Known vstr venc v := by
  rw [findCompare]
  by_cases hstr : encoding < ZIP_STR_MASK
  · have hcmp := @compare_string (e.body.drop lensize) vstr len (by rw [List.length_drop]; omega) rest
    refine ⟨vencoding, vll, ?_, h⟩
    rw [if_pos hstr, text_of_string hbody hlen hstr, hcmp]
    rfl
  · obtain ⟨v, hv, hread, htext⟩ := text_of_number hbody hlen hstr rest
    obtain ⟨venc, sval, hs, h0, hknown⟩ := searched_spec h
    have hcmp := compare_number (s := vstr) hv
    rw [if_neg hstr, hs, htext]
    dsimp only
    rw [if_neg h0]
    rcases hknown with ⟨hmax, htry⟩ | ⟨hmax, htry⟩
    · rw [htry] at hcmp
      refine ⟨venc, sval, ?_, .inr (.inl ⟨hmax, htry⟩)⟩
      rw [if_neg (not_not.mpr hmax), show decide (some (ll2string v) = some vstr) = false from hcmp]
    · rw [htry] at hcmp
      refine ⟨venc, sval, ?_, .inr (.inr htry)⟩
      rw [if_pos hmax, hread, ← show decide (v = sval) = decide (some (ll2string v) = some vstr) from hcmp]
      rfl

theorem int_eq (v : ℤ) : int v = (v + 2147483648) % 4294967296 - 2147483648 := by
  rw [int, wrap]
  norm_num

/-- A count of entries to skip, as an `int`, is 0 if it is, and goes down by one. -/
theorem int_count {k : ℕ} (hk : k + 1 < 2 ^ 32) : int (k + 1 : ℕ) ≠ 0 ∧ int (int (k + 1 : ℕ) - 1) = int k := by
  rw [int_eq, int_eq, int_eq]
  omega

theorem zipDecodePrevlensize_bytes {e : Entry} (h : e.Valid) (rest : Sds) :
    zipDecodePrevlensize (e.bytes ++ rest) = some e.prev.length := by
  have hbig : ZIP_BIG_PREVLEN = 254 := rfl
  rw [Entry.length_prev, Entry.bytes, Entry.prev]
  cases hl : e.large with
  | true => rfl
  | false =>
    have hsmall := h.small hl
    have hval : (byte e.prevlen).val < ZIP_BIG_PREVLEN := by
      rw [byte_val (by omega)]
      exact hsmall
    exact congrArg some (if_pos hval)

variable {l : List Sds}

theorem FirstMatch.cons_skip {k skip : ℕ} {r : Option ℕ} (t : Sds) (h : FirstMatch l k skip s r) :
    FirstMatch (t :: l) (k + 1) skip s (r.map (· + 1)) := by
  have hstep : ∀ m, (t :: l)[k + 1 + m * (skip + 1)]? = l[k + m * (skip + 1)]? := by
    intro m
    rw [show k + 1 + m * (skip + 1) = k + m * (skip + 1) + 1 by omega, List.getElem?_cons_succ]
  cases r with
  | none => exact fun m => (hstep m).symm ▸ h m
  | some j =>
    obtain ⟨hj, m, rfl, hmin⟩ := h
    exact ⟨hj, m, Nat.add_right_comm _ _ _, fun m' hm' => (hstep m').symm ▸ hmin m' hm'⟩

theorem FirstMatch.cons_differ {skip : ℕ} {s t : Sds} {r : Option ℕ} (hne : t ≠ s) (h : FirstMatch l skip skip s r) :
    FirstMatch (t :: l) 0 skip s (r.map (· + 1)) := by
  have hzero : (t :: l)[0 + 0 * (skip + 1)]? ≠ some s := by
    rw [Nat.zero_mul, List.getElem?_cons_zero]
    exact fun heq => hne (Option.some.inj heq)
  have hstep : ∀ m, (t :: l)[0 + (m + 1) * (skip + 1)]? = l[skip + m * (skip + 1)]? := by
    intro m
    rw [show 0 + (m + 1) * (skip + 1) = skip + m * (skip + 1) + 1 by ring, List.getElem?_cons_succ]
  cases r with
  | none =>
    intro m
    cases m with
    | zero => exact hzero
    | succ m => exact (hstep m).symm ▸ h m
  | some j =>
    obtain ⟨hj, m, rfl, hmin⟩ := h
    refine ⟨hj, m + 1, by ring, fun m' hm' => ?_⟩
    cases m' with
    | zero => exact hzero
    | succ m' => exact (hstep m').symm ▸ hmin m' (by omega)

/-- The loop finds the first entry among those that are compared, where `k` are skipped first. -/
theorem findLoop_spec {zl vstr : Sds} {skip : ℕ} (hskip : skip < 2 ^ 32) (es : List Entry) :
    ∀ (l : List Sds) (n p k vencoding : ℕ) (vll : ℤ), es.length < n → (∀ e ∈ es, e.Valid) →
      es.map Entry.text = l.map some → zl.drop p = bytes es ++ [ZIP_END] → k < 2 ^ 32 → Known vstr vencoding vll →
      ∃ r, findLoop zl vstr skip n p (int k) vencoding vll = some (r.map fun j => p + (bytes (es.take j)).length) ∧
        FirstMatch l k skip vstr r := by
  induction es with
  | nil =>
    intro l n p k vencoding vll hn _ htexts hdrop _ _
    obtain ⟨n, rfl⟩ : ∃ m, n = m + 1 := ⟨n - 1, by omega⟩
    have hl : l = [] := List.map_eq_nil_iff.mp htexts.symm
    refine ⟨none, ?_, ?_⟩
    · rw [findLoop, hdrop]
      rfl
    · rw [hl]
      intro m
      simp
  | cons e es ih =>
    intro l n p k vencoding vll hn hes htexts hdrop hk hknown
    obtain ⟨n, rfl⟩ : ∃ m, n = m + 1 := ⟨n - 1, by omega⟩
    obtain ⟨t, l, rfl⟩ : ∃ t l', l = t :: l' := by
      cases l with
      | nil => cases htexts
      | cons t l => exact ⟨t, l, rfl⟩
    rw [List.map_cons, List.map_cons, List.cons.injEq] at htexts
    obtain ⟨htext, htexts⟩ := htexts
    have he := hes e List.mem_cons_self
    obtain ⟨encoding, lensize, len, hbody, hlen⟩ := he.body
    rw [bytes_cons, List.append_assoc] at hdrop
    have hnext : p + e.prev.length + lensize + len = p + e.size := by
      rw [Entry.size, Entry.bytes, List.length_append, hlen]
      omega
    have hdropnext : zl.drop (p + e.size) = bytes es ++ [ZIP_END] := by
      rw [← List.drop_drop, hdrop, Entry.size, List.drop_left]
    obtain ⟨b, hb, hne⟩ := head_bytes he (bytes es ++ [ZIP_END])
    obtain ⟨hdec, hle⟩ := zipDecodeLength_append hbody (bytes es ++ [ZIP_END])
    have hprev : zl.drop (p + e.prev.length) = e.body ++ (bytes es ++ [ZIP_END]) := by
      rw [← List.drop_drop, hdrop, Entry.bytes, List.append_assoc, List.drop_left]
    have hpayload : zl.drop (p + e.prev.length + lensize) = e.body.drop lensize ++ (bytes es ++ [ZIP_END]) := by
      rw [← List.drop_drop, hprev, List.drop_append_of_le_length hle]
    -- What the rest gives, with the places behind this entry.
    have hrest : ∀ (k' venc : ℕ) (v : ℤ), k' < 2 ^ 32 → Known vstr venc v →
        ∃ r, findLoop zl vstr skip n (p + e.size) (int k') venc v =
          some ((r.map (· + 1)).map fun j => p + (bytes ((e :: es).take j)).length) ∧ FirstMatch l k' skip vstr r := by
      intro k' venc v hk' hknown'
      obtain ⟨r, hr, hfirst⟩ := ih l n (p + e.size) k' venc v (by rw [List.length_cons] at hn; omega)
        (fun e he => hes e (List.mem_cons_of_mem _ he)) htexts hdropnext hk' hknown'
      refine ⟨r, ?_, hfirst⟩
      rw [hr, Option.map_map]
      congr 2
      funext j
      simp only [Function.comp, List.take_succ_cons, bytes_cons, List.length_append, Entry.size]
      omega
    simp only [findLoop, hdrop, hb, if_neg hne, zipDecodePrevlensize_bytes he, hprev, hdec, hpayload, hnext, bind, Option.bind]
    cases k with
    | zero =>
      obtain ⟨venc, v, hcmp, hknown'⟩ := findCompare_spec hbody hlen (bytes es ++ [ZIP_END]) hknown
      have hzero : int (0 : ℕ) = 0 := by decide
      rw [if_pos hzero, hcmp, htext]
      by_cases heq : some t = some vstr
      · simp only [decide_eq_true heq, if_true]
        refine ⟨some 0, by simp, by rw [← Option.some.inj heq]; rfl, 0, by omega, fun m' hm' => absurd hm' (Nat.not_lt_zero _)⟩
      · simp only [decide_eq_false heq, Bool.false_eq_true, if_false]
        obtain ⟨r, hr, hfirst⟩ := hrest skip venc v hskip hknown'
        exact ⟨_, hr, hfirst.cons_differ fun h => heq (congrArg some h)⟩
    | succ k =>
      obtain ⟨hnz, hdown⟩ := int_count hk
      rw [if_neg hnz, hdown]
      obtain ⟨r, hr, hfirst⟩ := hrest k vencoding vll (by omega) hknown
      exact ⟨_, hr, hfirst.cons_skip t⟩

/-! ### Round trip and search -/

/-- Where the entry at `i` begins, or the end is. -/
def place (es : List Entry) (i : ℕ) : ℕ := ZIPLIST_HEADER_SIZE + (bytes (es.take i)).length

variable {zl : Sds} {es : List Entry}

theorem drop_place (h : WellFormed zl es) (i : ℕ) :
    zl.drop (place es i) = bytes (es.drop i) ++ [ZIP_END] := by
  obtain ⟨c, -, -, hzl⟩ := h.layout
  have hsplit : bytes es = bytes (es.take i) ++ bytes (es.drop i) := by rw [← bytes_append, List.take_append_drop]
  rw [hzl, place, drop_layout, hsplit, List.append_assoc, List.drop_left]

/-- A number is decoded as the encoding that is written for it. -/
theorem zipDecodeLength_number {e n : ℕ} (he : ¬ e < ZIP_STR_MASK) (h256 : e < 256) {payload : Sds} {enc lensize len : ℕ}
    (h : zipDecodeLength (zipStoreEntryEncoding e n ++ payload) = some (enc, lensize, len)) : ¬ enc < ZIP_STR_MASK := by
  have hmask : ZIP_STR_MASK = 192 := rfl
  rw [zipStoreEntryEncoding, if_neg he, List.singleton_append, zipDecodeLength, byte_val h256, if_neg (by omega),
    if_neg (by omega), if_neg (by omega)] at h
  obtain ⟨size, -, heq⟩ := Option.map_eq_some_iff.mp h
  cases heq
  exact he

/-- The entry that is written for a string holds it, as a number if the string is encoded as one. -/
theorem newEntry_spec (hs : s.length < 2 ^ 32) {prevlen : ℕ} (hprevlen : prevlen < 2 ^ 32) :
    ∃ encoding payload v, zipEncode s = some (encoding, payload) ∧ (newEntry prevlen (encoding ++ payload)).Valid ∧
      (newEntry prevlen (encoding ++ payload)).value = some v ∧ v.text = s ∧
      ((∃ x, v = .int x) ↔ (zipTryEncoding s).isSome) := by
  obtain ⟨encoding, payload, henc, ⟨enc, hdec⟩, htext⟩ := zipEncode_spec hs (decide (ZIP_BIG_PREVLEN ≤ prevlen)) prevlen
  obtain ⟨v, hv, rfl⟩ := Option.map_eq_some_iff.mp htext
  have hvalid : (newEntry prevlen (encoding ++ payload)).Valid :=
    ⟨hprevlen, fun hlarge => not_le.mp (of_decide_eq_false hlarge), enc, _, _, hdec, List.length_append⟩
  refine ⟨encoding, payload, v, henc, hvalid, hv, rfl, ?_⟩
  rw [Entry.value] at hv
  simp only [hdec, bind, Option.bind] at hv
  constructor
  · rintro ⟨x, rfl⟩
    by_cases hstr : enc < ZIP_STR_MASK
    · rw [if_pos hstr] at hv
      cases hv
    · rw [if_neg hstr] at hv
      cases hload : zipLoadInteger (List.drop encoding.length (encoding ++ payload)) enc with
      | none =>
        rw [hload] at hv
        cases hv
      | some y =>
        rw [hload] at hv
        cases hv
        obtain ⟨e, he⟩ := (zipTryEncoding_iff (isInt64_zipLoadInteger hload)).mpr (rfl : ll2string x = (Value.int x).text)
        exact Option.isSome_iff_exists.mpr ⟨_, he⟩
  · intro hsome
    obtain ⟨⟨x, e⟩, he⟩ := Option.isSome_iff_exists.mp hsome
    have hread := he
    rw [zipTryEncoding] at hread
    split at hread
    · cases hread
    · obtain ⟨x', hx, heq⟩ := Option.map_eq_some_iff.mp hread
      cases heq
      obtain ⟨hmask, h256, payload', hsave, -, -⟩ := zipSaveInteger_spec (Streams.isInt64_lpStringToInt64 hx)
      simp only [zipEncode, he, hsave, bind, Option.bind, Option.some.injEq, Prod.mk.injEq] at henc
      obtain ⟨rfl, rfl⟩ := henc
      rw [if_neg (zipDecodeLength_number hmask h256 hdec)] at hv
      cases hload : zipLoadInteger (List.drop (zipStoreEntryEncoding (intEncoding x) v.text.length).length
          (zipStoreEntryEncoding (intEncoding x) v.text.length ++ payload')) enc with
      | none =>
        rw [hload] at hv
        cases hv
      | some y =>
        rw [hload] at hv
        exact ⟨y, (Option.some.inj hv).symm⟩

/-- The entry that an insertion leaves at its place holds the string. -/
theorem ziplistGet_inserted (fresh : ℕ → Fin 256) (h : WellFormed zl es)
    (hs : s.length < 2 ^ 32) {i : ℕ} (hlt : total (inserted es i s) < 2 ^ 32) :
    ∃ zl' v, ziplistInsert fresh zl (place es i) s = some zl' ∧ ziplistGet (zl'.drop (place es i)) = some v ∧ v.text = s := by
  obtain ⟨c, -, hcmax, hzl⟩ := h.layout
  have hes : es.take i ++ es.drop i = es := List.take_append_drop i es
  have hsmall := h.small
  have hle := lastSize_le 0 (es.take i)
  have htake : (bytes (es.take i)).length ≤ (bytes es).length := by
    have hsum := congrArg (fun es => (bytes es).length) hes
    simp only [bytes_append, List.length_append] at hsum
    omega
  rw [total] at hsmall
  obtain ⟨encoding, payload, v, henc, hvalid, hv, htext, -⟩ := newEntry_spec hs (show lastSize 0 (es.take i) < 2 ^ 32 by omega)
  have hinserted : inserted es i s = es.take i ++ newEntry (lastSize 0 (es.take i)) (encoding ++ payload) ::
      follow (newEntry (lastSize 0 (es.take i)) (encoding ++ payload)) (es.drop i) := by
    rw [inserted, henc]
    rfl
  rw [hinserted] at hlt
  have hrun := ziplistInsert_layout fresh (A := es.take i) (B := es.drop i) (by rw [hes]; exact h.valid) (by rw [hes]; exact h.chained)
    (by rw [hes]; exact h.small) hcmax henc rfl hlt
  rw [hes, ← hzl] at hrun
  refine ⟨_, v, hrun, ?_, htext⟩
  rw [place, drop_layout, bytes_append, bytes_cons, List.append_assoc, List.drop_left, List.append_assoc, ziplistGet_bytes hvalid, hv]

theorem ziplistFind_first (h : WellFormed zl es) (vstr : Sds) {skip : ℕ} (hskip : skip < 2 ^ 32)
    (hl : es.map Entry.text = l.map some) (i : ℕ) :
    ∃ r, ziplistFind zl (place es i) vstr skip = some (r.map (place es)) ∧ FirstMatch l i skip vstr r := by
  obtain ⟨c, -, -, hzl⟩ := h.layout
  have hcount := length_le_bytes es
  have hlen : zl.length = ZIPLIST_HEADER_SIZE + (bytes es).length + 1 := by
    rw [hzl, length_layout, List.length_append, List.length_singleton]
    rfl
  have htexts : (es.drop i).map Entry.text = (l.drop i).map some := by rw [List.map_drop, hl, List.map_drop]
  have hzero : int (0 : ℕ) = 0 := by decide
  obtain ⟨r, hr, hfirst⟩ := @findLoop_spec _ vstr _ hskip (es.drop i) (l.drop i) zl.length (place es i) 0 0 0
      (by rw [List.length_drop]; omega) (fun e he => h.valid e (List.mem_of_mem_drop he)) htexts
      (drop_place h i) (by norm_num) (.inl rfl)
  have hplace : ∀ j, place es i + (bytes ((es.drop i).take j)).length = place es (i + j) := by
    intro j
    rw [place, place, List.take_add, bytes_append, List.length_append, Nat.add_assoc]
  have hat : ∀ m, (l.drop i)[0 + m * (skip + 1)]? = l[i + m * (skip + 1)]? := by
    intro m
    rw [List.getElem?_drop, Nat.zero_add]
  refine ⟨r.map (i + ·), ?_, ?_⟩
  · rw [hzero] at hr
    rw [ziplistFind, hr, Option.map_map]
    congr 2
    funext j
    exact hplace j
  · cases r with
    | none => exact fun m => hat m ▸ hfirst m
    | some j =>
      obtain ⟨hj, m, rfl, hmin⟩ := hfirst
      refine ⟨?_, m, by rw [Nat.zero_add], fun m' hm' => hat m' ▸ hmin m' hm'⟩
      show l[i + (0 + m * (skip + 1))]? = some vstr
      rw [Nat.zero_add, ← hat m]
      exact hj

theorem ziplistCompare_place (h : WellFormed zl es) (s : Sds)
    (hl : es.map Entry.text = l.map some) (i : ℕ) : ziplistCompare (zl.drop (place es i)) s = some (decide (l[i]? = some s)) := by
  have hat : (es.map Entry.text)[i]? = (l.map some)[i]? := by rw [hl]
  rw [List.getElem?_map, List.getElem?_map] at hat
  rw [drop_place h i]
  cases hdrop : es.drop i with
  | nil =>
    have hnone : es[i]? = none := List.getElem?_eq_none (List.drop_eq_nil_iff.mp hdrop)
    rw [hnone, Option.map_none] at hat
    rw [Option.map_eq_none_iff.mp hat.symm]
    rfl
  | cons e rest =>
    have hget : es[i]? = some e := by
      have h0 := congrArg List.head? hdrop
      rwa [List.head?_drop] at h0
    have he : e.Valid := h.valid e (List.mem_of_getElem? hget)
    rw [hget, Option.map_some] at hat
    obtain ⟨t, ht, htext⟩ := Option.map_eq_some_iff.mp hat.symm
    rw [bytes_cons, List.append_assoc, ziplistCompare_bytes he, ht, htext]

/-- **What is written for a string is read as the string, and searching finds it**: a number if it is
encoded as one, with the string as its text, also where an insertion has put it. Among the places
that a search looks at it gives the first with the string, and a comparison tells whether a place has
it. -/
theorem ziplist_read_and_search (fresh : ℕ → Fin 256) {zl : Sds} {es : List Entry} (h : WellFormed zl es) {s : Sds}
    (hs : s.length < 2 ^ 32) {skip : ℕ} (hskip : skip < 2 ^ 32) :
    (∀ prevlen < 2 ^ 32, ∀ rest, ∃ encoding payload v, zipEncode s = some (encoding, payload) ∧
      ziplistGet (zipStorePrevEntryLength prevlen ++ (encoding ++ payload) ++ rest) = some v ∧ v.text = s ∧
      ((∃ x, v = .int x) ↔ (zipTryEncoding s).isSome)) ∧
    (∀ i ≤ es.length, total (inserted es i s) < 2 ^ 32 →
      ∃ zl' v, ziplistInsert fresh zl (place es i) s = some zl' ∧ ziplistGet (zl'.drop (place es i)) = some v ∧ v.text = s) ∧
    ∃ l, ziplistStrings zl = some l ∧ ∀ i ≤ l.length,
      (∃ r, ziplistFind zl (place es i) s skip = some (r.map (place es)) ∧ FirstMatch l i skip s r) ∧
      ziplistCompare (zl.drop (place es i)) s = some (decide (l[i]? = some s)) := by
  refine ⟨fun prevlen hprevlen rest => ?_, fun i _ hlt => ziplistGet_inserted fresh h hs hlt, ?_⟩
  · obtain ⟨encoding, payload, v, henc, hvalid, hv, htext, hint⟩ := newEntry_spec hs hprevlen
    refine ⟨encoding, payload, v, henc, ?_, htext, hint⟩
    have hget := ziplistGet_bytes hvalid rest
    rw [hv, Entry.bytes] at hget
    rw [store_eq hprevlen (encoding ++ payload)]
    exact hget
  · obtain ⟨l, hl, htexts⟩ := ziplistStrings_wellFormed h
    exact ⟨l, hl, fun i _ => ⟨ziplistFind_first h s hskip htexts i, ziplistCompare_place h s htexts i⟩⟩

/-- A number between two strings, and searched with one entry skipped. -/
theorem ziplist_read_and_search_two :
    (∀ prevlen < 2 ^ 32, ∀ rest, ∃ encoding payload v, zipEncode [49, 50] = some (encoding, payload) ∧
      ziplistGet (zipStorePrevEntryLength prevlen ++ (encoding ++ payload) ++ rest) = some v ∧ v.text = [49, 50] ∧
      ((∃ x, v = .int x) ↔ (zipTryEncoding [49, 50]).isSome)) ∧
    (∀ i ≤ two.length, total (inserted two i [49, 50]) < 2 ^ 32 →
      ∃ zl' v, ziplistInsert (fun _ => 0) [16, 0, 0, 0, 13, 0, 0, 0, 2, 0, 0, 1, 97, 3, 253, 255] (place two i) [49, 50] = some zl' ∧
        ziplistGet (zl'.drop (place two i)) = some v ∧ v.text = [49, 50]) ∧
    ∃ l, ziplistStrings [16, 0, 0, 0, 13, 0, 0, 0, 2, 0, 0, 1, 97, 3, 253, 255] = some l ∧ ∀ i ≤ l.length,
      (∃ r, ziplistFind [16, 0, 0, 0, 13, 0, 0, 0, 2, 0, 0, 1, 97, 3, 253, 255] (place two i) [49, 50] 1 =
        some (r.map (place two)) ∧ FirstMatch l i 1 [49, 50] r) ∧
      ziplistCompare (([16, 0, 0, 0, 13, 0, 0, 0, 2, 0, 0, 1, 97, 3, 253, 255] : Sds).drop (place two i)) [49, 50] =
        some (decide (l[i]? = some [49, 50])) :=
  ziplist_read_and_search (fun _ => 0) two_wellFormed (by decide) (by decide)

end RedisZk.Ziplist
