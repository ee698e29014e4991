/-
# Lengths and strings in an RDB file

A length takes one, two, five or nine bytes, and a string is a number, compressed, or a
length and its bytes. Loading reads them back, whatever follows.

The compression is a parameter. A file that ends too early is read to its end; a length
that could not be read is `RDB_LENERR`, which some callers do not look at.

Key definitions: `Load`, `rdbSaveLen`, `rdbLoadLen`, `rdbSaveRawString`, `rdbGenericLoadStringObject`.
Key theorems: `reads_rdbSaveRawString`, `reads_rdbSaveStringObject`.
-/
import RedisZk.Aof.Load
import RedisZk.Lib.Endian
import RedisZk.Lib.Reader
import RedisZk.Streams.Cursor

namespace RedisZk.Rdb

open Streams (Sds ll2string IsInt64)
open Aof (strtol sign isdigit wrap)
open Networking (sds isspace)
open Endian (little ofLittle big ofBig)
open Reading (Reader Reads)

/-! ### Reading -/

/-- A read that is too short, for which `NULL` is returned, and contents for which the server
exits. -/
inductive LoadError
  | short
  | corrupt
deriving DecidableEq, Repr

abbrev Load (α : Type) := Reader (Fin 256) LoadError α

/-- The bytes; none if the file ends before, which is then at its end. -/
def rioRead (n : ℕ) : Load (Option Sds) := fun s =>
  if s.length < n then .ok (none, []) else .ok (some (s.take n), s.drop n)

/-- A read that has to succeed. -/
def readOr (e : LoadError) (n : ℕ) : Load Sds := do
  match ← rioRead n with
  | none => throw e
  | some s => pure s

def rdbLoadRaw (n : ℕ) : Load Sds := readOr .corrupt n

/-- The type, or none for -1. -/
def rdbLoadType : Load (Option ℕ) := do
  match ← rioRead 1 with
  | none => pure none
  | some s => pure (some (s.headD 0).val)

/-! ### Lengths -/

def UINT32_MAX : ℕ := 2 ^ 32 - 1

def RDB_LENERR : ℕ := 2 ^ 64 - 1

def byte (n : ℕ) : Fin 256 := Fin.ofNat 256 n

/-- A `uint64_t`. -/
def rdbSaveLen (len : ℕ) : Sds :=
  if len < 2 ^ 6 then [byte len]
  else if len < 2 ^ 14 then [byte (len / 256 + 64), byte len]
  else if len ≤ UINT32_MAX then byte 0x80 :: big 4 len
  else byte 0x81 :: big 8 len

/-- The rest of a number that begins with `v`. -/
def readRest (n v : ℕ) : Load (Option (Bool × ℕ)) := do
  match ← rioRead n with
  | none => pure none
  | some s => pure (some (false, v * 256 ^ n + ofBig s))

/-- Whether it is encoded, and the length or the encoding; none for -1. -/
def rdbLoadLenByRef : Load (Option (Bool × ℕ)) := do
  match ← rioRead 1 with
  | none => pure none
  | some s =>
    let b := (s.headD 0).val
    if b / 64 = 3 then pure (some (true, b % 64))
    else if b / 64 = 0 then pure (some (false, b % 64))
    else if b / 64 = 1 then readRest 1 (b % 64)
    else if b = 0x80 then readRest 4 0
    else if b = 0x81 then readRest 8 0
    else throw .corrupt

/-- Whether it is encoded, and the length or the encoding. -/
def rdbLoadEncodedLen : Load (Bool × ℕ) := do
  let len ← rdbLoadLenByRef
  pure (len.getD (false, RDB_LENERR))

/-- `rdbLoadLen(rdb,NULL)`. -/
def rdbLoadLen : Load ℕ := do
  let len ← rdbLoadEncodedLen
  pure len.2

/-- A length that has to be there. -/
def loadLenOrShort : Load ℕ := do
  let len ← rdbLoadLen
  if len = RDB_LENERR then throw .short else pure len

/-! ### Integers -/

/-- The bytes; none for the result 0. -/
def rdbEncodeInteger (value : ℤ) : Sds :=
  if -2 ^ 7 ≤ value ∧ value ≤ 2 ^ 7 - 1 then byte 0xC0 :: little 1 (value % 2 ^ 8).toNat
  else if -2 ^ 15 ≤ value ∧ value ≤ 2 ^ 15 - 1 then byte 0xC1 :: little 2 (value % 2 ^ 16).toNat
  else if -2 ^ 31 ≤ value ∧ value ≤ 2 ^ 31 - 1 then byte 0xC2 :: little 4 (value % 2 ^ 32).toNat
  else []

/-- A signed number of some bytes. -/
def readSigned (n : ℕ) : Load ℤ := do
  let s ← readOr .short n
  pure (wrap (2 ^ (8 * n - 1)) (ofLittle s))

def rdbLoadIntegerObject (enctype : ℕ) : Load ℤ :=
  if enctype = 0 then readSigned 1
  else if enctype = 1 then readSigned 2
  else if enctype = 2 then readSigned 4
  else throw .corrupt

/-- A `long long`. -/
def rdbSaveMillisecondTime (t : ℤ) : Sds := little 8 (t % 2 ^ 64).toNat

def rdbLoadMillisecondTime : Load ℤ := do
  let s ← rdbLoadRaw 8
  pure (wrap (2 ^ 63) (ofLittle s))

/-! ### Strings -/

/-- `lzf_compress` for an output of at most some bytes, none for 0, and `lzf_decompress` for an
output of some bytes. -/
structure Lzf where
  lzf_compress : Sds → ℕ → Option Sds
  lzf_decompress : Sds → ℕ → Option Sds

/-- What is compressed is decompressed to itself, and fits. -/
structure Lzf.Lossless (z : Lzf) : Prop where
  decompress : ∀ s outlen c, z.lzf_compress s outlen = some c → z.lzf_decompress c s.length = some s
  length : ∀ s outlen c, z.lzf_compress s outlen = some c → c.length ≤ outlen

variable (z : Lzf)

/-- Where `strtoll` stops. -/
def strtolEnd (s : Sds) : Sds :=
  let rest := (sign (s.dropWhile isspace)).2
  if rest.takeWhile isdigit = [] then s else rest.dropWhile isdigit

/-- The bytes; none for the result 0. A string ends with a zero. -/
def rdbTryIntegerEncoding (s : Sds) : Sds :=
  let value := strtol s
  if (strtolEnd s).headD 0 ≠ 0 then []
  else if ll2string value ≠ s then []
  else rdbEncodeInteger value

def rdbSaveLzfBlob (data : Sds) (original_len : ℕ) : Sds :=
  byte 0xC3 :: rdbSaveLen data.length ++ rdbSaveLen original_len ++ data

/-- The bytes; none for the result 0. -/
def rdbSaveLzfStringObject (s : Sds) : Sds :=
  if s.length ≤ 4 then []
  else
    match z.lzf_compress s (s.length - 4) with
    | none => []
    | some c => rdbSaveLzfBlob c s.length

def rdbLoadLzfStringObject : Load Sds := do
  let clen ← loadLenOrShort
  let len ← loadLenOrShort
  let c ← readOr .short clen
  match z.lzf_decompress c len with
  | none => throw .short
  | some s => pure s

def rdbSaveRawString (rdb_compression : Bool) (s : Sds) : Sds :=
  if s.length ≤ 11 ∧ rdbTryIntegerEncoding s ≠ [] then rdbTryIntegerEncoding s
  else if rdb_compression ∧ 20 < s.length ∧ rdbSaveLzfStringObject z s ≠ [] then rdbSaveLzfStringObject z s
  else rdbSaveLen s.length ++ s

def rdbSaveLongLongAsStringObject (value : ℤ) : Sds :=
  if rdbEncodeInteger value ≠ [] then rdbEncodeInteger value
  else rdbSaveLen (ll2string value).length ++ ll2string value

/-- A string object: encoded as a number, or not. -/
inductive StringObject
  | int (value : ℤ)
  | sds (s : Sds)
deriving DecidableEq, Repr

/-- The text of the object. -/
def StringObject.text : StringObject → Sds
  | .int value => ll2string value
  | .sds s => s

def rdbSaveStringObject (rdb_compression : Bool) : StringObject → Sds
  | .int value => rdbSaveLongLongAsStringObject value
  | .sds s => rdbSaveRawString z rdb_compression s

/-- With `RDB_LOAD_ENC`. -/
def rdbLoadEncodedStringObject : Load StringObject := do
  let (isencoded, len) ← rdbLoadEncodedLen
  if isencoded then
    if len ≤ 2 then do
      let v ← rdbLoadIntegerObject len
      pure (.int v)
    else if len = 3 then do
      let s ← rdbLoadLzfStringObject z
      pure (.sds s)
    else throw .corrupt
  else if len = RDB_LENERR then throw .short
  else do
    let s ← readOr .short len
    pure (.sds s)

/-- Without it the text is loaded. -/
def rdbGenericLoadStringObject : Load Sds := do
  let o ← rdbLoadEncodedStringObject z
  pure o.text

/-! ### Reading back -/

variable {z : Lzf} (rdb_compression : Bool) {e : LoadError} {n : ℕ}

theorem reads_rioRead (s : Sds) : Reads (rioRead s.length) s (some s) := by
  intro v
  rw [rioRead, if_neg (by simp), List.take_left, List.drop_left]

theorem reads_rioRead_of (s : Sds) (h : s.length = n) : Reads (rioRead n) s (some s) := h ▸ reads_rioRead s

theorem reads_readOr (s : Sds) (h : s.length = n) : Reads (readOr e n) s s := by
  intro v
  rw [readOr, (reads_rioRead_of s h).bind_eq]
  rfl

theorem reads_readRest {v m : ℕ} (h : m < 256 ^ n) : Reads (readRest n v) (big n m) (some (false, v * 256 ^ n + m)) := by
  intro w
  rw [readRest, (reads_rioRead_of (big n m) (Endian.length_big n m)).bind_eq]
  simp only [Endian.ofBig_big h]
  rfl

theorem byte_val {m : ℕ} (h : m < 256) : (byte m).val = m := by
  rw [byte, Fin.val_ofNat]
  omega

/-- The first byte. -/
theorem reads_first (m : ℕ) {α : Type} {f : Option Sds → Load α} {s : Sds} {a : α} (h : Reads (f (some [byte m])) s a) :
    Reads (rioRead 1 >>= f) (byte m :: s) a :=
  (reads_rioRead [byte m]).bind h

theorem reads_rdbLoadLenByRef {len : ℕ} (h : len < 2 ^ 64) : Reads rdbLoadLenByRef (rdbSaveLen len) (some (false, len)) := by
  have hmax : UINT32_MAX = 2 ^ 32 - 1 := rfl
  rw [rdbSaveLen, rdbLoadLenByRef]
  split
  · refine reads_first _ ?_
    simp only [List.headD_cons, byte_val (show len < 256 by omega)]
    rw [if_neg (by omega), if_pos (by omega), show len % 64 = len by omega]
    exact Reads.pure _
  · split
    · refine reads_first _ ?_
      simp only [List.headD_cons, byte_val (show len / 256 + 64 < 256 by omega)]
      rw [if_neg (by omega), if_neg (by omega), if_pos (by omega)]
      have hr := reads_readRest (n := 1) (v := (len / 256 + 64) % 64) (m := len % 256) (by omega)
      rw [show (len / 256 + 64) % 64 * 256 ^ 1 + len % 256 = len by omega] at hr
      have hbig : big 1 (len % 256) = [byte len] := by
        show [Fin.ofNat 256 (len % 256)] = [Fin.ofNat 256 len]
        congr 1
        apply Fin.ext
        rw [Fin.val_ofNat, Fin.val_ofNat, Nat.mod_mod]
      rw [hbig] at hr
      exact hr
    · split
      · refine reads_first _ ?_
        have hr := reads_readRest (n := 4) (v := 0) (m := len) (by omega)
        rw [Nat.zero_mul, Nat.zero_add] at hr
        exact hr
      · refine reads_first _ ?_
        have hr := reads_readRest (n := 8) (v := 0) (m := len) (by omega)
        rw [Nat.zero_mul, Nat.zero_add] at hr
        exact hr

theorem reads_rdbLoadEncodedLen {len : ℕ} (h : len < 2 ^ 64) : Reads rdbLoadEncodedLen (rdbSaveLen len) (false, len) :=
  (reads_rdbLoadLenByRef h).bind_pure

theorem reads_rdbLoadLen {len : ℕ} (h : len < 2 ^ 64) : Reads rdbLoadLen (rdbSaveLen len) len :=
  (reads_rdbLoadEncodedLen h).bind_pure

theorem reads_loadLenOrShort {len : ℕ} (h : len < RDB_LENERR) : Reads loadLenOrShort (rdbSaveLen len) len := by
  have hlt : len < 2 ^ 64 := h.trans (by decide)
  intro v
  rw [loadLenOrShort, (reads_rdbLoadLen hlt).bind_eq, if_neg (by omega)]
  rfl

/-- The byte before an encoded string. -/
theorem reads_encoding {m : ℕ} (h : m < 64) : Reads rdbLoadEncodedLen [byte (192 + m)] (true, m) := by
  intro v
  show (rdbLoadLenByRef >>= fun len => pure (len.getD (false, RDB_LENERR))) ([byte (192 + m)] ++ v) = _
  have hr : Reads rdbLoadLenByRef [byte (192 + m)] (some (true, m)) := by
    rw [rdbLoadLenByRef]
    refine reads_first _ ?_
    simp only [List.headD_cons, byte_val (show 192 + m < 256 by omega)]
    rw [if_pos (by omega), show (192 + m) % 64 = m by omega]
    exact Reads.pure _
  exact hr.bind_pure v

theorem reads_readSigned {v : ℤ} (hn : 0 < n) (hlo : -2 ^ (8 * n - 1) ≤ v) (hhi : v < 2 ^ (8 * n - 1)) :
    Reads (readSigned n) (little n (v % 2 ^ (8 * n)).toNat) v := by
  have hpow : (2 : ℤ) ^ (8 * n) = 2 * 2 ^ (8 * n - 1) := by
    rw [← pow_succ', Nat.sub_add_cancel (by omega)]
  have hnat : (256 : ℕ) ^ n = 2 ^ (8 * n) := by
    rw [pow_mul]
    norm_num
  have hpos : (0 : ℤ) < 2 ^ (8 * n - 1) := by positivity
  have hmod := Int.emod_lt_of_pos v (show (0 : ℤ) < 2 ^ (8 * n) by positivity)
  have hnonneg := Int.emod_nonneg v (show (2 : ℤ) ^ (8 * n) ≠ 0 by positivity)
  have hlt : (v % 2 ^ (8 * n)).toNat < 256 ^ n := by
    rw [hnat]
    zify
    rw [Int.toNat_of_nonneg hnonneg]
    exact hmod
  intro w
  rw [readSigned, (reads_readOr _ (Endian.length_little n _)).bind_eq, Endian.ofLittle_little hlt, wrap,
    Int.toNat_of_nonneg hnonneg]
  have hwrap : (v % 2 ^ (8 * n) + 2 ^ (8 * n - 1)) % (2 * 2 ^ (8 * n - 1)) - 2 ^ (8 * n - 1) = v := by
    rw [hpow, Int.emod_add_emod, Int.emod_eq_of_lt (by omega) (by omega)]
    omega
  rw [hwrap]
  rfl

theorem reads_rdbLoadMillisecondTime {t : ℤ} (ht : IsInt64 t) : Reads rdbLoadMillisecondTime (rdbSaveMillisecondTime t) t := by
  obtain ⟨hlo, hhi⟩ := ht
  have hlt : (t % 2 ^ 64).toNat < 256 ^ 8 := by omega
  intro w
  rw [rdbLoadMillisecondTime, rdbSaveMillisecondTime, rdbLoadRaw, (reads_readOr _ (Endian.length_little 8 _)).bind_eq,
    Endian.ofLittle_little hlt, wrap]
  have hwrap : (((t % 2 ^ 64).toNat : ℤ) + 2 ^ 63) % (2 * 2 ^ 63) - 2 ^ 63 = t := by omega
  rw [hwrap]
  rfl

/-- A number that was encoded is loaded. -/
theorem reads_rdbEncodeInteger {v : ℤ} (h : rdbEncodeInteger v ≠ []) :
    Reads (rdbLoadEncodedStringObject z) (rdbEncodeInteger v) (.int v) := by
  have hload : ∀ {m k : ℕ} (s : Sds), m ≤ 2 → Reads (rdbLoadIntegerObject m) s v →
      Reads (rdbLoadEncodedStringObject z) (byte (192 + m) :: s) (.int v) := by
    intro m _ s hm hs
    refine (reads_encoding (show m < 64 by omega)).bind ?_
    show Reads (if m ≤ 2 then _ else _) s _
    rw [if_pos hm]
    exact hs.bind_pure
  rw [rdbEncodeInteger] at h ⊢
  split
  · exact hload (m := 0) (k := 0) _ (by omega) (reads_readSigned (n := 1) (by omega) (by omega) (by omega))
  · rename_i h1
    rw [if_neg h1] at h
    split
    · exact hload (m := 1) (k := 0) _ (by omega) (reads_readSigned (n := 2) (by omega) (by omega) (by omega))
    · rename_i h2
      rw [if_neg h2] at h
      split
      · exact hload (m := 2) (k := 0) _ (by omega) (reads_readSigned (n := 4) (by omega) (by omega) (by omega))
      · rename_i h3
        rw [if_neg h3] at h
        exact absurd rfl h

theorem rdbTryIntegerEncoding_eq {s : Sds} (h : rdbTryIntegerEncoding s ≠ []) :
    ∃ v, ll2string v = s ∧ rdbTryIntegerEncoding s = rdbEncodeInteger v := by
  rw [rdbTryIntegerEncoding] at h ⊢
  split at h
  · exact absurd rfl h
  · split at h
    · exact absurd rfl h
    · rename_i hend htext
      rw [if_neg hend, if_neg htext]
      exact ⟨strtol s, not_not.mp htext, rfl⟩

theorem reads_rdbSaveLzfBlob {c s : Sds} (hc : c.length < RDB_LENERR) (hs : s.length < RDB_LENERR)
    (h : z.lzf_decompress c s.length = some s) :
    Reads (rdbLoadEncodedStringObject z) (rdbSaveLzfBlob c s.length) (.sds s) := by
  have hload : Reads (rdbLoadLzfStringObject z) (rdbSaveLen c.length ++ (rdbSaveLen s.length ++ (c ++ []))) s := by
    refine (reads_loadLenOrShort hc).bind ((reads_loadLenOrShort hs).bind ((reads_readOr c rfl).bind ?_))
    rw [h]
    exact Reads.pure s
  rw [List.append_nil] at hload
  rw [rdbSaveLzfBlob, List.cons_append, List.cons_append, List.append_assoc]
  exact (reads_encoding (show 3 < 64 by omega)).bind hload.bind_pure

/-- Bytes behind their length. -/
theorem reads_verbatim {s : Sds} (hs : s.length < RDB_LENERR) :
    Reads (rdbLoadEncodedStringObject z) (rdbSaveLen s.length ++ s) (.sds s) := by
  have hlt : s.length < 2 ^ 64 := hs.trans (by decide)
  refine (reads_rdbLoadEncodedLen hlt).bind ?_
  show Reads (if s.length = RDB_LENERR then _ else _) s _
  rw [if_neg (by omega)]
  exact (reads_readOr s rfl).bind_pure

/-- A string is read back, as a number or as it is. -/
theorem reads_rdbSaveRawString (hz : z.Lossless) {s : Sds} (hs : s.length < RDB_LENERR) :
    ∃ o : StringObject, Reads (rdbLoadEncodedStringObject z) (rdbSaveRawString z rdb_compression s) o ∧ o.text = s := by
  rw [rdbSaveRawString]
  split
  · rename_i hint
    obtain ⟨v, htext, heq⟩ := rdbTryIntegerEncoding_eq hint.2
    rw [heq] at hint ⊢
    exact ⟨.int v, reads_rdbEncodeInteger hint.2, htext⟩
  · split
    · rename_i hlzf
      have hne := hlzf.2.2
      rw [rdbSaveLzfStringObject] at hne ⊢
      split at hne
      · exact absurd rfl hne
      · rename_i hlen
        rw [if_neg hlen]
        cases hc : z.lzf_compress s (s.length - 4) with
        | none =>
          rw [hc] at hne
          exact absurd rfl hne
        | some c =>
          have hclen := hz.length _ _ _ hc
          exact ⟨.sds s, reads_rdbSaveLzfBlob (by omega) hs (hz.decompress _ _ _ hc), rfl⟩
    · exact ⟨.sds s, reads_verbatim hs, rfl⟩

theorem reads_string (hz : z.Lossless) {s : Sds} (hs : s.length < RDB_LENERR) :
    Reads (rdbGenericLoadStringObject z) (rdbSaveRawString z rdb_compression s) s := by
  obtain ⟨o, ho, htext⟩ := reads_rdbSaveRawString rdb_compression hz hs
  have h : Reads (rdbGenericLoadStringObject z) _ o.text := ho.bind_pure
  rw [htext] at h
  exact h

/-- A string object is read back, up to its encoding. -/
theorem reads_rdbSaveStringObject (hz : z.Lossless) {o : StringObject} (ho : o.text.length < RDB_LENERR) :
    ∃ o' : StringObject, Reads (rdbLoadEncodedStringObject z) (rdbSaveStringObject z rdb_compression o) o' ∧
      o'.text = o.text := by
  cases o with
  | sds s => exact reads_rdbSaveRawString rdb_compression hz ho
  | int v =>
    rw [rdbSaveStringObject, rdbSaveLongLongAsStringObject]
    split
    · exact ⟨.int v, reads_rdbEncodeInteger ‹_›, rfl⟩
    · exact ⟨.sds (ll2string v), reads_verbatim ho, rfl⟩

end RedisZk.Rdb
