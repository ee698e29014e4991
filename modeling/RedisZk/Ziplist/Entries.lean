/-
# Well-formed ziplists

A ziplist is well formed if its bytes are those of a header and of entries, each of which can be
decoded and says how long the entry before it is, in one byte or in five. What an entry holds
does not depend on what is before it, and what is written for a string is decoded to the string.

Key definitions: `Entry`, `Chained`, `WellFormed`.
Key theorems: `zipEntry_bytes`, `ziplistGet_bytes`, `ofSigned_signed`, `zipEncode_spec`.
-/
import RedisZk.Ziplist.Insert

namespace RedisZk.Ziplist

open Streams (Sds ll2string IsInt64)
open Aof (wrap)
open Endian (little ofLittle big ofBig)

/-! ### Entries -/

/-- Whether the length of the previous entry takes five bytes, the length, and the encoding with
the payload. -/
structure Entry where
  large : Bool
  prevlen : ℕ
  body : Sds
deriving DecidableEq

namespace Entry

def prev (e : Entry) : Sds := if e.large then zipStorePrevEntryLengthLarge e.prevlen else [byte e.prevlen]

def bytes (e : Entry) : Sds := e.prev ++ e.body

def size (e : Entry) : ℕ := e.bytes.length

/-- What an entry holds. -/
def value (e : Entry) : Option Value := do
  let (encoding, lensize, len) ← zipDecodeLength e.body
  if encoding < ZIP_STR_MASK then some (.str ((e.body.drop lensize).take len))
  else do
    let v ← zipLoadInteger (e.body.drop lensize) encoding
    some (.int v)

/-- The string that an entry holds. -/
def text (e : Entry) : Option Sds := e.value.map Value.text

/-- The length of the previous entry fits, and the entry can be decoded. -/
structure Valid (e : Entry) : Prop where
  prevlen : e.prevlen < 2 ^ 32
  small : e.large = false → e.prevlen < ZIP_BIG_PREVLEN
  body : ∃ encoding lensize len, zipDecodeLength e.body = some (encoding, lensize, len) ∧ e.body.length = lensize + len

end Entry

/-- Each entry says how long the one before it is, which is `n` for the first. -/
def Chained : ℕ → List Entry → Prop
  | _, [] => True
  | n, e :: es => e.prevlen = n ∧ Chained e.size es

def bytes (es : List Entry) : Sds := es.flatMap Entry.bytes

@[simp] theorem bytes_nil : bytes [] = [] := rfl
@[simp] theorem bytes_cons (e : Entry) (es : List Entry) : bytes (e :: es) = e.bytes ++ bytes es := rfl
@[simp] theorem bytes_append (es es' : List Entry) : bytes (es ++ es') = bytes es ++ bytes es' := by simp [bytes]

/-- A header, and what is behind it. -/
def layout (zlbytes zltail zllen : ℕ) (rest : Sds) : Sds := little 4 zlbytes ++ (little 4 zltail ++ (little 2 zllen ++ rest))

/-- The bytes of a ziplist with some entries. -/
def total (es : List Entry) : ℕ := ZIPLIST_HEADER_SIZE + (bytes es).length + 1

/-- Where the last entry begins, or the end is. -/
def tailOffset (es : List Entry) : ℕ := ZIPLIST_HEADER_SIZE + (bytes es.dropLast).length

structure WellFormed (zl : Sds) (es : List Entry) : Prop where
  valid : ∀ e ∈ es, e.Valid
  chained : Chained 0 es
  small : total es < 2 ^ 32
  layout : ∃ zllen, (zllen = es.length ∨ zllen = UINT16_MAX) ∧ zllen ≤ UINT16_MAX ∧
    zl = layout (total es) (tailOffset es) zllen (bytes es ++ [ZIP_END])

/-! ### Decoding -/

theorem byte_val {n : ℕ} (h : n < 256) : (byte n).val = n := by
  rw [byte, Fin.val_ofNat, Nat.mod_eq_of_lt h]

theorem length_large (n : ℕ) : (zipStorePrevEntryLengthLarge n).length = 5 := by
  rw [zipStorePrevEntryLengthLarge, List.length_cons, Endian.length_little]

theorem length_store {n : ℕ} (h : n < 2 ^ 32) : (zipStorePrevEntryLength n).length = if n < ZIP_BIG_PREVLEN then 1 else 5 := by
  rw [zipStorePrevEntryLength, uint, Nat.mod_eq_of_lt h]
  split
  · rfl
  · exact length_large n

theorem Entry.length_prev (e : Entry) : e.prev.length = if e.large then 5 else 1 := by
  rw [Entry.prev]
  split
  · exact length_large _
  · rfl

theorem Entry.size_eq (e : Entry) : e.size = (if e.large then 5 else 1) + e.body.length := by
  rw [Entry.size, Entry.bytes, List.length_append, e.length_prev]

/-- What is stored for a length is an entry's beginning. -/
theorem store_eq {n : ℕ} (h : n < 2 ^ 32) (body : Sds) :
    zipStorePrevEntryLength n = Entry.prev ⟨decide (ZIP_BIG_PREVLEN ≤ n), n, body⟩ := by
  rw [zipStorePrevEntryLength, uint, Nat.mod_eq_of_lt h, Entry.prev]
  by_cases hn : n < ZIP_BIG_PREVLEN
  · rw [if_pos hn, if_neg (by simpa using hn)]
  · rw [if_neg hn, if_pos (by simpa using hn)]

theorem zipDecodePrevlen_prev {e : Entry} (h : e.Valid) (rest : Sds) :
    zipDecodePrevlen (e.prev ++ rest) = some (e.prev.length, e.prevlen) := by
  have hbig : ZIP_BIG_PREVLEN = 254 := rfl
  rw [e.length_prev, Entry.prev]
  cases hl : e.large with
  | true =>
    simp only [if_true, zipStorePrevEntryLengthLarge, List.cons_append, zipDecodePrevlen]
    rw [if_neg (by decide), if_neg (by simp), List.take_append_of_le_length (by simp),
      List.take_of_length_le (by simp), Endian.ofLittle_little (by simpa using h.prevlen)]
  | false =>
    have hsmall := h.small hl
    simp only [Bool.false_eq_true, if_false, List.cons_append, zipDecodePrevlen]
    rw [byte_val (by omega), if_pos hsmall]

theorem zipDecodeLength_append {body : Sds} {encoding lensize len : ℕ}
    (h : zipDecodeLength body = some (encoding, lensize, len)) (rest : Sds) :
    zipDecodeLength (body ++ rest) = some (encoding, lensize, len) ∧ (lensize ≤ body.length) := by
  cases body with
  | nil => cases h
  | cons b body =>
    rw [zipDecodeLength] at h
    rw [List.cons_append, zipDecodeLength]
    split at h
    · rename_i hb
      rw [if_pos hb]
      cases h
      exact ⟨rfl, by simp⟩
    · rename_i hb
      rw [if_neg hb]
      split at h
      · rename_i hb1
        rw [if_pos hb1]
        cases body with
        | nil => cases h
        | cons c body =>
          cases h
          exact ⟨rfl, by simp⟩
      · rename_i hb1
        rw [if_neg hb1]
        split at h
        · rename_i hb2
          rw [if_pos hb2]
          split at h
          · cases h
          · rename_i hlen
            cases h
            rw [if_neg (by rw [List.length_append]; omega), List.take_append_of_le_length (by omega)]
            exact ⟨rfl, by rw [List.length_cons]; omega⟩
        · rename_i hb2
          rw [if_neg hb2]
          obtain ⟨size, hsize, heq⟩ := Option.map_eq_some_iff.mp h
          rw [hsize]
          cases heq
          exact ⟨rfl, by simp⟩

/-- An entry is decoded, whatever is behind it. -/
theorem zipEntry_decode {e : Entry} (h : e.Valid) {encoding lensize len : ℕ}
    (hbody : zipDecodeLength e.body = some (encoding, lensize, len)) (rest : Sds) :
    zipEntry (e.bytes ++ rest) = some ⟨e.prev.length, e.prevlen, lensize, len, encoding⟩ := by
  rw [zipEntry, Entry.bytes, List.append_assoc, zipDecodePrevlen_prev h]
  simp only [bind, Option.bind, List.drop_left, (zipDecodeLength_append hbody rest).1]

theorem zipEntry_bytes {e : Entry} (h : e.Valid) (rest : Sds) :
    ∃ x, zipEntry (e.bytes ++ rest) = some x ∧ x.prevrawlensize = e.prev.length ∧ x.prevrawlen = e.prevlen ∧
      x.headersize + x.len = e.size ∧ ∃ encoding, zipDecodeLength e.body = some (encoding, x.lensize, x.len) ∧
        x.encoding = encoding := by
  obtain ⟨encoding, lensize, len, hbody, hlen⟩ := h.body
  refine ⟨_, zipEntry_decode h hbody rest, rfl, rfl, ?_, encoding, hbody, rfl⟩
  show e.prev.length + lensize + len = e.size
  rw [Entry.size, Entry.bytes, List.length_append, hlen, Nat.add_assoc]

theorem zipRawEntryLength_bytes {e : Entry} (h : e.Valid) (hlt : e.size < 2 ^ 32) (rest : Sds) :
    zipRawEntryLength (e.bytes ++ rest) = some e.size := by
  obtain ⟨x, hx, -, -, hsize, -⟩ := zipEntry_bytes h rest
  have hraw : x.prevrawlensize + x.lensize + x.len = e.size := hsize
  simp only [zipRawEntryLength, hx, bind, Option.bind]
  rw [hraw, uint, Nat.mod_eq_of_lt hlt]

/-- An entry begins with no end. -/
theorem head_bytes {e : Entry} (h : e.Valid) (rest : Sds) : ∃ b, (e.bytes ++ rest).head? = some b ∧ b ≠ ZIP_END := by
  have hbig : ZIP_BIG_PREVLEN = 254 := rfl
  rw [Entry.bytes, Entry.prev]
  cases hl : e.large with
  | true => exact ⟨254, rfl, by decide⟩
  | false =>
    have hsmall := h.small hl
    refine ⟨byte e.prevlen, rfl, fun heq => ?_⟩
    have hval := congrArg Fin.val heq
    rw [byte_val (by omega)] at hval
    have : ZIP_END.val = 255 := rfl
    omega

theorem int_of_zipDecodeLength {body : Sds} {encoding lensize len : ℕ}
    (h : zipDecodeLength body = some (encoding, lensize, len)) (hint : ¬ encoding < ZIP_STR_MASK) :
    zipIntSize encoding = some len := by
  cases body with
  | nil => cases h
  | cons b body =>
    rw [zipDecodeLength] at h
    split at h
    · cases h
      exact absurd (by decide) hint
    · split at h
      · obtain ⟨c, -, hc⟩ := Option.map_eq_some_iff.mp h
        cases hc
        exact absurd (by decide) hint
      · split at h
        · split at h
          · cases h
          · cases h
            exact absurd (by decide) hint
        · obtain ⟨size, hsize, heq⟩ := Option.map_eq_some_iff.mp h
          cases heq
          exact hsize

/-- A number is read from its own bytes. -/
theorem zipLoadInteger_append {encoding len : ℕ} (h : zipIntSize encoding = some len) {s : Sds} (hs : s.length = len)
    (rest : Sds) : zipLoadInteger (s ++ rest) encoding = zipLoadInteger s encoding := by
  have htake : ∀ n, n ≤ s.length → (s ++ rest).take n = s.take n := fun n hn => List.take_append_of_le_length hn
  have hsigned : ∀ n, n ≤ s.length → ofSigned n (s ++ rest) = ofSigned n s := by
    intro n hn
    rw [ofSigned, ofSigned, htake n hn]
  rw [zipIntSize] at h
  rw [zipLoadInteger, zipLoadInteger]
  split at h
  · rename_i he
    cases h
    rw [if_pos he, if_pos he, hsigned 1 (by omega)]
  · rename_i h1
    rw [if_neg h1, if_neg h1]
    split at h
    · rename_i he
      cases h
      rw [if_pos he, if_pos he, hsigned 2 (by omega)]
    · rename_i h2
      rw [if_neg h2, if_neg h2]
      split at h
      · rename_i he
        cases h
        have h4 : ¬ encoding = ZIP_INT_32B := by
          rw [he]
          decide
        rw [if_neg h4, if_neg h4, if_pos he, if_pos he, htake 3 (by omega)]
      · rename_i h3
        split at h
        · rename_i he
          cases h
          rw [if_pos he, if_pos he, hsigned 4 (by omega)]
        · rename_i h4
          rw [if_neg h4, if_neg h4, if_neg h3, if_neg h3]
          split at h
          · rename_i he
            cases h
            rw [if_pos he, if_pos he, hsigned 8 (by omega)]
          · rename_i h8
            rw [if_neg h8, if_neg h8]

/-- `ziplistGet` gives what the entry holds. -/
theorem ziplistGet_bytes {e : Entry} (h : e.Valid) (rest : Sds) : ziplistGet (e.bytes ++ rest) = e.value := by
  obtain ⟨encoding, lensize, len, hbody, hlen⟩ := h.body
  obtain ⟨-, hle⟩ := zipDecodeLength_append hbody rest
  have hentry := zipEntry_decode h hbody rest
  have hdrop : (e.bytes ++ rest).drop (e.prev.length + lensize) = e.body.drop lensize ++ rest := by
    rw [Entry.bytes, List.append_assoc, ← List.drop_drop, List.drop_left, List.drop_append_of_le_length hle]
  simp only [ziplistGet, hentry, bind, Option.bind, zlentry.headersize, hdrop, Entry.value, hbody]
  split
  · rw [List.take_append_of_le_length (by rw [List.length_drop]; omega)]
  · rename_i hint
    rw [zipLoadInteger_append (int_of_zipDecodeLength hbody hint) (by rw [List.length_drop]; omega)]

/-! ### Encoding -/

theorem ofSigned_signed {n : ℕ} (hn : 0 < n) {v : ℤ} (hlo : -2 ^ (8 * n - 1) ≤ v) (hhi : v < 2 ^ (8 * n - 1)) (rest : Sds) :
    ofSigned n (signed n v ++ rest) = v := by
  have hpow : (2 : ℤ) ^ (8 * n) = 2 * 2 ^ (8 * n - 1) := by
    rw [← pow_succ', Nat.sub_add_cancel (by omega)]
  have hnat : (256 : ℕ) ^ n = 2 ^ (8 * n) := by
    rw [pow_mul]
    norm_num
  have hmod := Int.emod_lt_of_pos v (show (0 : ℤ) < 2 ^ (8 * n) by positivity)
  have hnonneg := Int.emod_nonneg v (show (2 : ℤ) ^ (8 * n) ≠ 0 by positivity)
  have hlt : (v % 2 ^ (8 * n)).toNat < 256 ^ n := by
    rw [hnat]
    zify
    rw [Int.toNat_of_nonneg hnonneg]
    exact hmod
  have htake : (signed n v ++ rest).take n = signed n v := by
    rw [List.take_append_of_le_length (by simp [signed]), List.take_of_length_le (by simp [signed])]
  rw [ofSigned, htake, signed, Endian.ofLittle_little hlt, wrap, Int.toNat_of_nonneg hnonneg, hpow, Int.emod_add_emod,
    Int.emod_eq_of_lt (by omega) (by omega)]
  omega

theorem length_signed (n : ℕ) (v : ℤ) : (signed n v).length = n := Endian.length_little _ _

/-- A number of three bytes is the upper part of one of four. -/
theorem drop_signed (v : ℤ) : (0 : Fin 256) :: (signed 4 (v * 256)).drop 1 = signed 4 (v * 256) := by
  have hfirst : ∀ x : ℕ, x % 256 = 0 → (0 : Fin 256) :: (little 4 x).drop 1 = little 4 x := by
    intro x hx
    have h0 : Fin.ofNat 256 x = 0 := by
      apply Fin.ext
      rw [Fin.val_ofNat, hx]
      rfl
    show 0 :: little 3 (x / 256) = Fin.ofNat 256 x :: little 3 (x / 256)
    rw [h0]
  refine hfirst _ ?_
  have hmod : v * 256 % 2 ^ (8 * 4) % 256 = 0 := by omega
  have hnonneg := Int.emod_nonneg (v * 256) (show (2 : ℤ) ^ (8 * 4) ≠ 0 by norm_num)
  omega

/-- A number is written in the encoding that is chosen for it, and read from that. -/
theorem zipSaveInteger_spec {v : ℤ} (hv : IsInt64 v) : ¬ intEncoding v < ZIP_STR_MASK ∧ intEncoding v < 256 ∧
    ∃ payload, zipSaveInteger v (intEncoding v) = some payload ∧ zipIntSize (intEncoding v) = some payload.length ∧
      zipLoadInteger payload (intEncoding v) = some v := by
  obtain ⟨hlo, hhi⟩ := hv
  have hread : ∀ n, 0 < n → -2 ^ (8 * n - 1) ≤ v → v < 2 ^ (8 * n - 1) → ofSigned n (signed n v) = v := by
    intro n hn h1 h2
    have := ofSigned_signed hn h1 h2 []
    rwa [List.append_nil] at this
  rw [intEncoding]
  split
  · rename_i h
    have hmin : ZIP_INT_IMM_MIN = 241 := rfl
    have hmax : ZIP_INT_IMM_MAX = 253 := rfl
    have hmask : ZIP_STR_MASK = 192 := rfl
    have hne : ∀ c ∈ [ZIP_INT_8B, ZIP_INT_16B, ZIP_INT_24B, ZIP_INT_32B, ZIP_INT_64B], ZIP_INT_IMM_MIN + v.toNat ≠ c := by
      intro c hc
      simp only [List.mem_cons, List.not_mem_nil, or_false, ZIP_INT_8B, ZIP_INT_16B, ZIP_INT_24B, ZIP_INT_32B,
        ZIP_INT_64B] at hc
      omega
    simp only [List.forall_mem_cons, List.not_mem_nil, false_imp_iff, implies_true, and_true] at hne
    obtain ⟨h8, h16, h24, h32, h64⟩ := hne
    refine ⟨by omega, by omega, [], ?_, ?_, ?_⟩
    · rw [zipSaveInteger, if_neg h8, if_neg h16, if_neg h24, if_neg h32, if_neg h64, if_pos (by omega)]
    · rw [zipIntSize, if_neg h8, if_neg h16, if_neg h24, if_neg h32, if_neg h64, if_pos (by omega)]
      rfl
    · rw [zipLoadInteger, if_neg h8, if_neg h16, if_neg h32, if_neg h24, if_neg h64, if_pos (by omega)]
      congr 1
      omega
  · split
    · rename_i h
      refine ⟨by decide, by decide, signed 1 v, rfl, rfl, ?_⟩
      exact congrArg some (hread 1 (by decide) (by omega) (by omega))
    · split
      · rename_i h
        refine ⟨by decide, by decide, signed 2 v, rfl, rfl, ?_⟩
        exact congrArg some (hread 2 (by decide) (by omega) (by omega))
      · split
        · rename_i h
          refine ⟨by decide, by decide, (signed 4 (v * 256)).drop 1, rfl, rfl, ?_⟩
          have hfour := ofSigned_signed (n := 4) (v := v * 256) (by decide) (by omega) (by omega) []
          rw [List.append_nil] at hfour
          have htake : ((signed 4 (v * 256)).drop 1).take 3 = (signed 4 (v * 256)).drop 1 :=
            List.take_of_length_le (by rw [List.length_drop, length_signed])
          rw [zipLoadInteger, if_neg (by decide), if_neg (by decide), if_neg (by decide), if_pos rfl, htake, drop_signed, hfour,
            Int.mul_ediv_cancel _ (by decide)]
        · split
          · rename_i h
            refine ⟨by decide, by decide, signed 4 v, rfl, rfl, ?_⟩
            exact congrArg some (hread 4 (by decide) (by omega) (by omega))
          · refine ⟨by decide, by decide, signed 8 v, rfl, rfl, ?_⟩
            exact congrArg some (hread 8 (by decide) (by omega) (by omega))

/-- What is written for a string is decoded to it. -/
theorem zipEncode_spec {s : Sds} (hs : s.length < 2 ^ 32) (large : Bool) (prevlen : ℕ) :
    ∃ encoding payload, zipEncode s = some (encoding, payload) ∧
      (∃ enc, zipDecodeLength (encoding ++ payload) = some (enc, encoding.length, payload.length)) ∧
      Entry.text ⟨large, prevlen, encoding ++ payload⟩ = some s := by
  cases htry : zipTryEncoding s with
  | some r =>
    obtain ⟨v, enc⟩ := r
    have htry0 := htry
    rw [zipTryEncoding] at htry
    split at htry
    · cases htry
    · obtain ⟨v', hv, heq⟩ := Option.map_eq_some_iff.mp htry
      cases heq
      have hint : IsInt64 v := Streams.isInt64_lpStringToInt64 hv
      obtain ⟨hmask, h256, payload, hsave, hsize, hload⟩ := zipSaveInteger_spec hint
      have hdec : zipDecodeLength ([byte (intEncoding v)] ++ payload) = some (intEncoding v, 1, payload.length) := by
        have h192 : ZIP_STR_MASK = 192 := rfl
        rw [List.singleton_append, zipDecodeLength, byte_val h256, if_neg (by omega), if_neg (by omega), if_neg (by omega),
          hsize]
        rfl
      have henc : zipStoreEntryEncoding (intEncoding v) s.length = [byte (intEncoding v)] := by
        rw [zipStoreEntryEncoding, if_neg hmask]
      refine ⟨[byte (intEncoding v)], payload, ?_, ⟨_, hdec⟩, ?_⟩
      · simp only [zipEncode, htry0, hsave, henc, bind, Option.bind]
      · have hdrop : ([byte (intEncoding v)] ++ payload).drop 1 = payload := rfl
        simp only [Entry.text, Entry.value, hdec, bind, Option.bind, if_neg hmask, hdrop, hload, Option.map_some, Value.text]
        rw [Streams.ll2string_lpStringToInt64 hv]
  | none =>
    have hdec : ∃ enc, enc < ZIP_STR_MASK ∧ zipDecodeLength (zipStoreEntryEncoding 0 s.length ++ s) =
        some (enc, (zipStoreEntryEncoding 0 s.length).length, s.length) := by
      rw [zipStoreEntryEncoding, if_pos (by decide)]
      split
      · rename_i h
        refine ⟨ZIP_STR_06B, by decide, ?_⟩
        rw [List.singleton_append, zipDecodeLength, byte_val (by omega), if_pos (by omega), Nat.mod_eq_of_lt (by omega)]
        rfl
      · split
        · rename_i h
          have h14 : ZIP_STR_14B = 64 := rfl
          refine ⟨ZIP_STR_14B, by decide, ?_⟩
          rw [List.cons_append, zipDecodeLength, byte_val (show ZIP_STR_14B + s.length / 256 < 256 by omega),
            if_neg (by omega), if_pos (by omega)]
          show some (ZIP_STR_14B, 2, (ZIP_STR_14B + s.length / 256) % 64 * 256 + (byte s.length).val) = _
          rw [byte, Fin.val_ofNat, show (ZIP_STR_14B + s.length / 256) % 64 * 256 + s.length % 256 = s.length by omega]
          rfl
        · have h32 : ZIP_STR_32B = 128 := rfl
          refine ⟨ZIP_STR_32B, by decide, ?_⟩
          rw [List.cons_append, zipDecodeLength, byte_val (by decide), if_neg (by decide), if_neg (by decide),
            if_pos (by decide), if_neg (by simp), List.take_append_of_le_length (by simp),
            List.take_of_length_le (by simp), Endian.ofBig_big (by simpa using hs)]
          simp
    obtain ⟨enc, hmask, hdec⟩ := hdec
    refine ⟨_, s, by simp only [zipEncode, htry], ⟨enc, hdec⟩, ?_⟩
    simp only [Entry.text, Entry.value, hdec, bind, Option.bind, if_pos hmask, List.drop_left, List.take_length,
      Option.map_some, Value.text]

end RedisZk.Ziplist
