/-
# BITOP

`bitopCommand` computes an operation over the bytes of some strings. While all of
them have bytes left, 32 at a time, and they are no more than 16, it works on words in
the result, which begins as a copy of the first string; the other bytes are computed one by
one. Either way the result is the operation on the bytes of the strings, with zeros behind
the shorter ones.

Keys that have expired count as deleted already.

Key definitions: `lookupSources`, `fastLoop`, `slowLoop`, `bitopResult`, `bitopCommand`, `bytewise`.
Key theorems: `fastPath_spec`, `slowLoop_spec`, `bitopCommand_spec`, `bitmap_fast_paths`.
-/
import RedisZk.Bitops.Bitfield
import RedisZk.Bitops.Bitpos
import RedisZk.Bitops.Popcount

namespace RedisZk.Bitops

open Endian (Byte little ofLittle)
open Keyspace (Db dbDelete setKey)
open Memory (put)
open Migrate (strcasecmp)
open Streams (Sds)
open Words (Bytewise byteAt load)

/-! ### The function -/

inductive BitopOp
  | and
  | or
  | xor
  | not
deriving DecidableEq, Repr

def bitopOf (opname : Sds) : Option BitopOp :=
  if strcasecmp opname "and" then some .and
  else if strcasecmp opname "or" then some .or
  else if strcasecmp opname "xor" then some .xor
  else if strcasecmp opname "not" then some .not
  else none

/-- The source strings with their greatest and least length, from key `j` on; none for an
object of another type. -/
def lookupSources (db : Db Value) (j : ℕ) : List Sds → ℕ → ℕ → Option (List Sds × ℕ × ℕ)
  | [], maxlen, minlen => some ([], maxlen, minlen)
  | key :: keys, maxlen, minlen =>
    match db.dict key with
    | none => do
      let (src, maxlen, minlen) ← lookupSources db (j + 1) keys maxlen 0
      some ([] :: src, maxlen, minlen)
    | some .other => none
    | some o => do
      let s := getObjectReadOnlyString o
      let maxlen := if s.length > maxlen then s.length else maxlen
      let minlen := if j = 0 ∨ s.length < minlen then s.length else minlen
      let (src, maxlen, minlen) ← lookupSources db (j + 1) keys maxlen minlen
      some (s :: src, maxlen, minlen)

/-- `lres[i] op= lp[i]`, of the words at some place. -/
def wordOp (f : ℕ → ℕ → ℕ) (off : ℕ) (res src : Sds) : Option Sds := do
  let a ← load res off
  let b ← load src off
  put res off (little 8 (f a b))

/-- Four words of one source. -/
def blockOp (f : ℕ → ℕ → ℕ) (j : ℕ) (res src : Sds) : Option Sds := do
  let res ← wordOp f j res src
  let res ← wordOp f (j + 8) res src
  let res ← wordOp f (j + 16) res src
  wordOp f (j + 24) res src

/-- The loop of AND, OR or XOR over the sources but the first: the result so far, and the
next byte. -/
def fastLoop (f : ℕ → ℕ → ℕ) (src : List Sds) (res : Sds) (j minlen : ℕ) : Option (Sds × ℕ) :=
  if minlen ≥ 32 then do
    let res ← src.foldlM (blockOp f j) res
    fastLoop f src res (j + 32) (minlen - 32)
  else some (res, j)
termination_by minlen
decreasing_by omega

/-- The loop of NOT: a word is combined with itself. -/
def fastNot (res : Sds) (j minlen : ℕ) : Option (Sds × ℕ) :=
  if minlen ≥ 32 then do
    let res ← blockOp (fun a _ => not64 a) j res res
    fastNot res (j + 32) (minlen - 32)
  else some (res, j)
termination_by minlen
decreasing_by omega

/-- With `USE_ALIGNED_ACCESS` there is no fast path. -/
def fastPath (aligned : Bool) (op : BitopOp) (src : List Sds) (res : Sds) (minlen : ℕ) : Option (Sds × ℕ) :=
  if aligned = false ∧ minlen ≥ 32 ∧ src.length ≤ 16 then do
    let res ← put res 0 ((src.headD []).take minlen)
    match op with
    | .and => fastLoop (· &&& ·) src.tail res 0 minlen
    | .or => fastLoop (· ||| ·) src.tail res 0 minlen
    | .xor => fastLoop (· ^^^ ·) src.tail res 0 minlen
    | .not => fastNot res 0 minlen
  else some (res, 0)

def byteOp (op : BitopOp) (output byte : Byte) : Byte :=
  match op with
  | .and => output &&& byte
  | .or => output ||| byte
  | .xor => output ^^^ byte
  | .not => output

/-- The byte at some place of a source, 0 if it has ended. -/
def sourceByte (src : Sds) (j : ℕ) : Byte := if src.length ≤ j then 0 else src.getD j 0

def outputByte (op : BitopOp) (src : List Sds) (j : ℕ) : Byte :=
  let output := sourceByte (src.headD []) j
  let output := if op = .not then output.rev else output
  src.tail.foldl (fun output s => byteOp op output (sourceByte s j)) output

/-- The loop over the bytes from `j` on, of which there are `n`. -/
def slowLoop (op : BitopOp) (src : List Sds) : ℕ → ℕ → Sds → Option Sds
  | 0, _, res => some res
  | n + 1, j, res => do
    let res ← put res j [outputByte op src j]
    slowLoop op src n (j + 1) res

def bitopResult (aligned : Bool) (op : BitopOp) (src : List Sds) (maxlen minlen : ℕ) : Option Sds := do
  let (res, j) ← fastPath aligned op src (List.replicate maxlen 0) minlen
  slowLoop op src (maxlen - j) j res

inductive BitopReply
  | err (text : String)
  | len (n : ℕ)
deriving DecidableEq, Repr

/-- The command with the arguments behind its name: the reply, the database and what is
added to `server.dirty`; none if memory outside of a string is touched. -/
def bitopCommand (aligned : Bool) (db : Db Value) (opname target : Sds) (keys : List Sds) : Option (BitopReply × Db Value × ℕ) :=
  match bitopOf opname with
  | none => some (.err "syntax error", db, 0)
  | some op =>
    if op = .not ∧ keys.length ≠ 1 then some (.err "BITOP NOT must be called with a single source key.", db, 0)
    else
      match lookupSources db 0 keys 0 0 with
      | none => some (.err wrongtypeerr, db, 0)
      | some (src, maxlen, minlen) =>
        if maxlen ≠ 0 then do
          let res ← bitopResult aligned op src maxlen minlen
          some (.len maxlen, setKey db target (.raw res), 1)
        else some (.len maxlen, dbDelete db target, 1)

/-! ### The operation on bytes -/

/-- The operation on one byte of each string. -/
def opByte (op : BitopOp) : List Byte → Byte
  | [] => 0
  | b :: bytes => if op = .not then b.rev else bytes.foldl (byteOp op) b

/-- The greatest of the lengths. -/
def longest (src : List Sds) : ℕ := (src.map List.length).foldr max 0

/-- The operation on the strings, with zeros behind the shorter ones. -/
def bytewise (op : BitopOp) (src : List Sds) : Sds :=
  (List.range (longest src)).map fun k => opByte op (src.map fun s => byteAt s k)

theorem sourceByte_eq (s : Sds) (j : ℕ) : sourceByte s j = byteAt s j := by
  unfold sourceByte
  split
  · rename_i h
    rw [Words.byteAt_of_le h]
  · rw [List.getD_eq_getElem?_getD, byteAt]

theorem foldl_not (bytes : List Byte) (b : Byte) : bytes.foldl (byteOp .not) b = b := by
  induction bytes with
  | nil => rfl
  | cons c bytes ih => exact ih

theorem outputByte_eq {op : BitopOp} {src : List Sds} (hne : src ≠ []) (j : ℕ) :
    outputByte op src j = opByte op (src.map fun s => byteAt s j) := by
  obtain ⟨s, rest, rfl⟩ := List.exists_cons_of_ne_nil hne
  have hfold : ∀ b, rest.foldl (fun output s => byteOp op output (sourceByte s j)) b =
      (rest.map fun s => byteAt s j).foldl (byteOp op) b := by
    intro b
    rw [List.foldl_map]
    simp only [sourceByte_eq]
  unfold outputByte
  dsimp only
  rw [List.headD_cons, List.tail_cons, List.map_cons, opByte, sourceByte_eq, hfold]
  by_cases hnot : op = .not
  · rw [if_pos hnot, if_pos hnot, hnot, foldl_not]
  · rw [if_neg hnot, if_neg hnot]

/-! ### Words -/

theorem byteAt_block {s : Sds} {off i : ℕ} (hi : i < 8) : byteAt ((s.drop off).take 8) i = byteAt s (off + i) := by
  rw [Words.byteAt_take hi, Words.byteAt_drop]

/-- The write of eight bytes that are known one by one. -/
theorem put_word {res ws : Sds} {off n : ℕ} (hoff : off + 8 ≤ res.length) (hws : ws.length = 8) (hn : n = ofLittle ws) :
    ∃ res', put res off (little 8 n) = some res' ∧ res'.length = res.length ∧
      ∀ k, byteAt res' k = if off ≤ k ∧ k < off + 8 then byteAt ws (k - off) else byteAt res k := by
  rw [Words.little_of_ofLittle hws hn]
  obtain ⟨res', hput, hlen, hbytes⟩ := Words.byteAt_put (m := res) (s := ws) (p := off) (by omega)
  rw [hws] at hbytes
  exact ⟨res', hput, hlen, hbytes⟩

variable {f : ℕ → ℕ → ℕ} {g : Byte → Byte → Byte} {res src : Sds} {off j : ℕ}

/-- What a block operation does: bytes from `j` on, `n` of them, are combined. -/
def Combines (g : Byte → Byte → Byte) (j n : ℕ) (res src res' : Sds) : Prop :=
  res'.length = res.length ∧ ∀ k, byteAt res' k = if j ≤ k ∧ k < j + n then g (byteAt res k) (byteAt src k) else byteAt res k

/-- An operation on words of eight bytes that is one on their bytes. -/
def OnWords (f : ℕ → ℕ → ℕ) (g : Byte → Byte → Byte) : Prop :=
  ∀ a b : Sds, a.length = 8 → b.length = 8 → f (ofLittle a) (ofLittle b) = ofLittle (List.zipWith g a b)

theorem Bytewise.onWords (hf : Bytewise f g) : OnWords f g := fun _ _ ha hb => hf.ofLittle (ha.trans hb.symm)

theorem not_onWords : OnWords (fun a _ => not64 a) (fun a _ => a.rev) := by
  intro a b ha hb
  have hzip : List.zipWith (fun (x _ : Byte) => x.rev) a b = a.map Fin.rev := by
    have hle : a.length ≤ b.length := Nat.le_of_eq (ha.trans hb.symm)
    clear ha hb
    induction a generalizing b with
    | nil => rfl
    | cons x a ih =>
      cases b with
      | nil => exact absurd hle (Nat.not_succ_le_zero _)
      | cons y b => rw [List.zipWith_cons_cons, List.map_cons, ih b (Nat.le_of_succ_le_succ hle)]
  rw [hzip, Words.ofLittle_rev, ha]
  rfl

theorem length_block {s : Sds} (h : off + 8 ≤ s.length) : ((s.drop off).take 8).length = 8 := by
  rw [List.length_take, List.length_drop]
  omega

theorem wordOp_spec (hf : OnWords f g) (hres : off + 8 ≤ res.length) (hsrc : off + 8 ≤ src.length) :
    ∃ res', wordOp f off res src = some res' ∧ Combines g off 8 res src res' := by
  have hlr := length_block hres
  have hls := length_block hsrc
  have hzip : (List.zipWith g ((res.drop off).take 8) ((src.drop off).take 8)).length = 8 := by
    rw [List.length_zipWith, hlr, hls, Nat.min_self]
  obtain ⟨res', hput, hlen, hbytes⟩ := put_word hres hzip (hf _ _ hlr hls)
  refine ⟨res', ?_, hlen, fun k => ?_⟩
  · unfold wordOp
    rw [load, if_pos hres, some_bind, load, if_pos hsrc, some_bind]
    exact hput
  · rw [hbytes]
    by_cases hin : off ≤ k ∧ k < off + 8
    · have hr := @byteAt_block res off (k - off) (by omega)
      have hs := @byteAt_block src off (k - off) (by omega)
      rw [Nat.add_sub_cancel' hin.1] at hr hs
      rw [if_pos hin, if_pos hin, ← hr, ← hs]
      unfold byteAt
      rw [List.getElem?_zipWith, List.getElem?_eq_getElem (by omega), List.getElem?_eq_getElem (by omega)]
      rfl
    · rw [if_neg hin, if_neg hin]

theorem Combines.trans {n m : ℕ} {res1 res2 : Sds} (h : Combines g j n res src res1) (h' : Combines g (j + n) m res1 src res2) :
    Combines g j (n + m) res src res2 := by
  refine ⟨h'.1.trans h.1, fun k => ?_⟩
  rw [h'.2, h.2]
  by_cases hlow : j ≤ k ∧ k < j + n
  · rw [if_neg (by omega), if_pos hlow, if_pos (by omega)]
  · rw [if_neg hlow]
    by_cases hhigh : j + n ≤ k ∧ k < j + n + m
    · rw [if_pos hhigh, if_pos (by omega)]
    · rw [if_neg hhigh, if_neg (by omega)]

theorem blockOp_spec (hf : OnWords f g) (hres : j + 32 ≤ res.length) (hsrc : j + 32 ≤ src.length) :
    ∃ res', blockOp f j res src = some res' ∧ Combines g j 32 res src res' := by
  obtain ⟨r1, h1, c1⟩ := @wordOp_spec f g res src j hf (by omega) (by omega)
  obtain ⟨r2, h2, c2⟩ := @wordOp_spec f g r1 src (j + 8) hf (by rw [c1.1]; omega) (by omega)
  obtain ⟨r3, h3, c3⟩ := @wordOp_spec f g r2 src (j + 16) hf (by rw [c2.1, c1.1]; omega) (by omega)
  obtain ⟨r4, h4, c4⟩ := @wordOp_spec f g r3 src (j + 24) hf (by rw [c3.1, c2.1, c1.1]; omega) (by omega)
  refine ⟨r4, ?_, ((c1.trans c2).trans c3).trans c4⟩
  unfold blockOp
  rw [h1, some_bind, h2, some_bind, h3, some_bind]
  exact h4

/-- The sources one after the other. -/
theorem foldlM_spec (hf : OnWords f g) (src : List Sds) : ∀ {res : Sds}, j + 32 ≤ res.length → (∀ s ∈ src, j + 32 ≤ s.length) →
    ∃ res', src.foldlM (blockOp f j) res = some res' ∧ res'.length = res.length ∧
      ∀ k, byteAt res' k = if j ≤ k ∧ k < j + 32 then (src.map fun s => byteAt s k).foldl g (byteAt res k) else byteAt res k := by
  induction src with
  | nil =>
    intro res _ _
    exact ⟨res, rfl, rfl, fun k => by rw [List.map_nil, List.foldl_nil, ite_self]⟩
  | cons s src ih =>
    intro res hres hsrc
    obtain ⟨r1, h1, c1⟩ := blockOp_spec hf hres (hsrc s List.mem_cons_self)
    obtain ⟨r2, h2, hlen2, hb2⟩ := @ih r1 (by rw [c1.1]; exact hres) fun t ht => hsrc t (List.mem_cons_of_mem s ht)
    refine ⟨r2, ?_, hlen2.trans c1.1, fun k => ?_⟩
    · rw [List.foldlM_cons, h1, some_bind]
      exact h2
    · rw [hb2, c1.2]
      by_cases hin : j ≤ k ∧ k < j + 32
      · rw [if_pos hin, if_pos hin, if_pos hin, List.map_cons, List.foldl_cons]
      · rw [if_neg hin, if_neg hin, if_neg hin]

/-- **The words are the bytes.** The loop stops after whole blocks. -/
theorem fastLoop_spec (hf : OnWords f g) (src : List Sds) (minlen : ℕ) : ∀ {res : Sds} {j : ℕ}, j + minlen ≤ res.length →
    (∀ s ∈ src, j + minlen ≤ s.length) → ∃ res' j', fastLoop f src res j minlen = some (res', j') ∧ j ≤ j' ∧ j' ≤ j + minlen ∧
      res'.length = res.length ∧
      ∀ k, byteAt res' k = if j ≤ k ∧ k < j' then (src.map fun s => byteAt s k).foldl g (byteAt res k) else byteAt res k := by
  induction minlen using Nat.strongRecOn with
  | ind minlen ih =>
    intro res j hres hsrc
    rw [fastLoop]
    by_cases hmin : minlen ≥ 32
    · obtain ⟨r1, h1, hlen1, hb1⟩ := @foldlM_spec f g j hf src res (by omega) fun s hs => by
        have hle := hsrc s hs
        omega
      obtain ⟨r2, j2, h2, hlo, hhi, hlen2, hb2⟩ := @ih (minlen - 32) (by omega) r1 (j + 32) (by omega)
        fun s hs => by
          have hle := hsrc s hs
          omega
      refine ⟨r2, j2, ?_, by omega, by omega, hlen2.trans hlen1, fun k => ?_⟩
      · rw [if_pos hmin, h1, some_bind]
        exact h2
      · rw [hb2, hb1]
        by_cases hlow : j ≤ k ∧ k < j + 32
        · rw [if_neg (by omega), if_pos hlow, if_pos (by omega)]
        · rw [if_neg hlow]
          by_cases hhigh : j + 32 ≤ k ∧ k < j2
          · rw [if_pos hhigh, if_pos (by omega)]
          · rw [if_neg hhigh, if_neg (by omega)]
    · exact ⟨res, j, by rw [if_neg hmin], le_refl j, Nat.le_add_right j minlen, rfl, fun k => by rw [if_neg (by omega)]⟩

theorem fastNot_spec (minlen : ℕ) : ∀ {res : Sds} {j : ℕ}, j + minlen ≤ res.length →
    ∃ res' j', fastNot res j minlen = some (res', j') ∧ j ≤ j' ∧ j' ≤ j + minlen ∧ res'.length = res.length ∧
      ∀ k, byteAt res' k = if j ≤ k ∧ k < j' then (byteAt res k).rev else byteAt res k := by
  induction minlen using Nat.strongRecOn with
  | ind minlen ih =>
    intro res j hres
    rw [fastNot]
    by_cases hmin : minlen ≥ 32
    · obtain ⟨r1, h1, hlen1, hb1⟩ := @blockOp_spec _ _ res res j not_onWords (by omega) (by omega)
      obtain ⟨r2, j2, h2, hlo, hhi, hlen2, hb2⟩ := @ih (minlen - 32) (by omega) r1 (j + 32) (by omega)
      refine ⟨r2, j2, ?_, by omega, by omega, hlen2.trans hlen1, fun k => ?_⟩
      · rw [if_pos hmin, h1, some_bind]
        exact h2
      · rw [hb2, hb1]
        by_cases hlow : j ≤ k ∧ k < j + 32
        · rw [if_neg (by omega), if_pos hlow, if_pos (by omega)]
        · rw [if_neg hlow]
          by_cases hhigh : j + 32 ≤ k ∧ k < j2
          · rw [if_pos hhigh, if_pos (by omega)]
          · rw [if_neg hhigh, if_neg (by omega)]
    · exact ⟨res, j, by rw [if_neg hmin], le_refl j, Nat.le_add_right j minlen, rfl, fun k => by rw [if_neg (by omega)]⟩

/-! ### The result -/

/-- **Words.** What the fast path has done before it stops is right. -/
theorem fastPath_spec {aligned : Bool} {op : BitopOp} {srcs : List Sds} {maxlen minlen : ℕ} (hne : srcs ≠ []) (hmin : ∀ s ∈ srcs, minlen ≤ s.length)
    (hmax : ∀ s ∈ srcs, s.length ≤ maxlen) :
    ∃ res j, fastPath aligned op srcs (List.replicate maxlen 0) minlen = some (res, j) ∧ res.length = maxlen ∧ j ≤ maxlen ∧
      ∀ k, k < j → byteAt res k = opByte op (srcs.map fun s => byteAt s k) := by
  obtain ⟨s, rest, rfl⟩ := List.exists_cons_of_ne_nil hne
  have hs := hmin s List.mem_cons_self
  have hsmax := hmax s List.mem_cons_self
  have hrest : ∀ t ∈ rest, 0 + minlen ≤ t.length := fun t ht => by
    have hle := hmin t (List.mem_cons_of_mem s ht)
    omega
  unfold fastPath
  rw [List.headD_cons, List.tail_cons]
  by_cases hfast : aligned = false ∧ minlen ≥ 32 ∧ (s :: rest).length ≤ 16
  · have htake : (s.take minlen).length = minlen := by
      rw [List.length_take, Nat.min_eq_left hs]
    obtain ⟨res, hput, hlen, hbytes⟩ := Words.byteAt_put (m := List.replicate maxlen (0 : Byte)) (s := s.take minlen) (p := 0)
      (by rw [htake, List.length_replicate]; omega)
    rw [List.length_replicate] at hlen
    have hcopy : ∀ k, k < minlen → byteAt res k = byteAt s k := by
      intro k hk
      rw [hbytes, if_pos ⟨Nat.zero_le k, by rw [htake]; omega⟩, Nat.sub_zero, Words.byteAt_take hk]
    rw [if_pos hfast, hput, some_bind]
    have hloop : ∀ (f : ℕ → ℕ → ℕ), op ≠ .not → OnWords f (byteOp op) →
        ∃ res' j, fastLoop f rest res 0 minlen = some (res', j) ∧ res'.length = maxlen ∧ j ≤ maxlen ∧
          ∀ k, k < j → byteAt res' k = opByte op ((s :: rest).map fun s => byteAt s k) := by
      intro f hnot hf
      obtain ⟨res', j, hrun, -, hj, hlen', hbytes'⟩ := @fastLoop_spec _ _ hf rest minlen res 0 (by omega) hrest
      refine ⟨res', j, hrun, hlen'.trans hlen, by omega, fun k hk => ?_⟩
      rw [hbytes', if_pos ⟨Nat.zero_le k, hk⟩, hcopy k (by omega), List.map_cons, opByte, if_neg hnot]
    cases op with
    | and => exact hloop _ (by decide) (Bytewise.onWords Words.and_bytewise)
    | or => exact hloop _ (by decide) (Bytewise.onWords Words.or_bytewise)
    | xor => exact hloop _ (by decide) (Bytewise.onWords Words.xor_bytewise)
    | not =>
      obtain ⟨res', j, hrun, -, hj, hlen', hbytes'⟩ := @fastNot_spec minlen res 0 (by omega)
      refine ⟨res', j, hrun, hlen'.trans hlen, by omega, fun k hk => ?_⟩
      rw [hbytes', if_pos ⟨Nat.zero_le k, hk⟩, hcopy k (by omega), List.map_cons, opByte, if_pos rfl]
  · exact ⟨_, 0, by rw [if_neg hfast], List.length_replicate, Nat.zero_le _, fun k hk => absurd hk (Nat.not_lt_zero k)⟩

/-- **The other bytes.** -/
theorem slowLoop_spec (op : BitopOp) (srcs : List Sds) (n : ℕ) : ∀ {res : Sds} {j : ℕ}, j + n ≤ res.length →
    ∃ res', slowLoop op srcs n j res = some res' ∧ res'.length = res.length ∧
      ∀ k, byteAt res' k = if j ≤ k ∧ k < j + n then outputByte op srcs k else byteAt res k := by
  induction n with
  | zero =>
    intro res j _
    exact ⟨res, rfl, rfl, fun k => by rw [if_neg (by omega)]⟩
  | succ n ih =>
    intro res j hres
    obtain ⟨r1, h1, hlen1, hb1⟩ := Words.byteAt_put (m := res) (s := [outputByte op srcs j]) (p := j)
      (by rw [List.length_singleton]; omega)
    obtain ⟨r2, h2, hlen2, hb2⟩ := @ih r1 (j + 1) (by omega)
    refine ⟨r2, ?_, hlen2.trans hlen1, fun k => ?_⟩
    · rw [slowLoop, h1, some_bind]
      exact h2
    · rw [hb2, hb1, List.length_singleton]
      by_cases hk : k = j
      · rw [hk, if_neg (by omega), if_pos (by omega), if_pos (by omega), Nat.sub_self]
        rfl
      · by_cases hin : j + 1 ≤ k ∧ k < j + 1 + n
        · rw [if_pos hin, if_pos (by omega)]
        · rw [if_neg hin, if_neg (by omega), if_neg (by omega)]

theorem le_longest {srcs : List Sds} {s : Sds} (h : s ∈ srcs) : s.length ≤ longest srcs := by
  induction srcs with
  | nil => exact absurd h List.not_mem_nil
  | cons t srcs ih =>
    have hcons : longest (t :: srcs) = max t.length (longest srcs) := rfl
    rw [hcons]
    rcases List.mem_cons.mp h with h | h
    · rw [h]
      exact Nat.le_max_left _ _
    · exact Nat.le_trans (ih h) (Nat.le_max_right _ _)

/-- **The result is the operation on the bytes**, whether or not words are used. -/
theorem bitopResult_spec {aligned : Bool} {op : BitopOp} {srcs : List Sds} {minlen : ℕ} (hne : srcs ≠ []) (hmin : ∀ s ∈ srcs, minlen ≤ s.length) :
    bitopResult aligned op srcs (longest srcs) minlen = some (bytewise op srcs) := by
  obtain ⟨res, j, hfast, hlen, hj, hbytes⟩ := @fastPath_spec aligned op srcs (longest srcs) minlen hne hmin fun s hs => le_longest hs
  obtain ⟨res', hslow, hlen', hbytes'⟩ := @slowLoop_spec op srcs (longest srcs - j) res j (by omega)
  unfold bitopResult
  rw [hfast, some_bind]
  dsimp only
  rw [hslow]
  refine congrArg some (Words.ext ?_ fun k hk => ?_)
  · rw [hlen', hlen, bytewise, List.length_map, List.length_range]
  · have hk' : k < longest srcs := by omega
    have hspec : byteAt (bytewise op srcs) k = opByte op (srcs.map fun s => byteAt s k) := by
      unfold bytewise
      rw [byteAt, List.getElem?_map, List.getElem?_range hk', Option.map_some, Option.getD_some]
    rw [hspec, hbytes']
    by_cases hin : k < j
    · rw [if_neg (by omega), hbytes k hin]
    · rw [if_pos (by omega), outputByte_eq hne]

/-! ### The command -/

/-- The string of a key; a key that is not there has an empty one. -/
def source (db : Db Value) (key : Sds) : Sds := ((db.dict key).map getObjectReadOnlyString).getD []

variable {db : Db Value}

/-- The lengths that the loop has seen when it is done. -/
theorem lookupSources_spec : ∀ {keys : List Sds} {j maxlen minlen : ℕ}, (∀ key ∈ keys, db.dict key ≠ some .other) →
    ∃ minlen', lookupSources db j keys maxlen minlen =
        some (keys.map (source db), max maxlen (longest (keys.map (source db))), minlen') ∧
      (j ≠ 0 → minlen' ≤ minlen) ∧ ∀ key ∈ keys, minlen' ≤ (source db key).length := by
  intro keys
  induction keys with
  | nil =>
    intro j maxlen minlen _
    exact ⟨minlen, by rw [lookupSources]; simp [longest], fun _ => le_refl _, fun _ h => absurd h List.not_mem_nil⟩
  | cons key keys ih =>
    intro j maxlen minlen hkeys
    have hrest : ∀ k ∈ keys, db.dict k ≠ some .other := fun k hk => hkeys k (List.mem_cons_of_mem key hk)
    have hcons : longest ((key :: keys).map (source db)) = max (source db key).length (longest (keys.map (source db))) := rfl
    rw [lookupSources, hcons, ← Nat.max_assoc]
    cases hkey : db.dict key with
    | none =>
      obtain ⟨m, hrun, hle, hall⟩ := @ih (j + 1) maxlen 0 hrest
      have hsrc : source db key = [] := by rw [source, hkey]; rfl
      have hm : m = 0 := Nat.le_zero.mp (hle (Nat.succ_ne_zero j))
      refine ⟨m, ?_, fun _ => by omega, fun k hk => by omega⟩
      dsimp only
      rw [hrun, List.map_cons, hsrc, List.length_nil, Nat.max_zero]
      rfl
    | some o =>
      have hne := hkeys key List.mem_cons_self
      rw [hkey] at hne
      have hsrc : source db key = getObjectReadOnlyString o := by rw [source, hkey]; rfl
      have hlen : (if (getObjectReadOnlyString o).length > maxlen then (getObjectReadOnlyString o).length else maxlen) =
          max maxlen (source db key).length := by
        rw [hsrc]
        split
        · omega
        · omega
      obtain ⟨m, hrun, hle, hall⟩ := @ih (j + 1) (max maxlen (source db key).length)
        (if j = 0 ∨ (getObjectReadOnlyString o).length < minlen then (getObjectReadOnlyString o).length else minlen) hrest
      have hmin := hle (Nat.succ_ne_zero j)
      refine ⟨m, ?_, fun hj => ?_, fun k hk => ?_⟩
      · cases o with
        | other => exact absurd rfl hne
        | raw s =>
          dsimp only
          rw [hlen, hrun, List.map_cons, hsrc]
          rfl
        | int v =>
          dsimp only
          rw [hlen, hrun, List.map_cons, hsrc]
          rfl
      · split at hmin
        · omega
        · exact hmin
      · rcases List.mem_cons.mp hk with hk | hk
        · rw [hk, hsrc]
          split at hmin
          · exact hmin
          · omega
        · exact hall k hk

/-- **The command stores the operation on the bytes of the sources.** Sources that are all
empty leave no key. -/
theorem bitopCommand_spec {aligned : Bool} {opname target : Sds} {op : BitopOp} {keys : List Sds} (hop : bitopOf opname = some op)
    (hkeys : keys ≠ []) (hnot : op = .not → keys.length = 1) (htype : ∀ key ∈ keys, db.dict key ≠ some .other) :
    bitopCommand aligned db opname target keys = some (.len (longest (keys.map (source db))),
      if longest (keys.map (source db)) = 0 then dbDelete db target
      else setKey db target (.raw (bytewise op (keys.map (source db)))), 1) := by
  obtain ⟨minlen, hrun, -, hmin⟩ := @lookupSources_spec db keys 0 0 0 htype
  rw [Nat.zero_max] at hrun
  unfold bitopCommand
  rw [hop]
  dsimp only
  rw [if_neg (fun h => h.2 (hnot h.1)), hrun]
  dsimp only
  by_cases hzero : longest (keys.map (source db)) = 0
  · rw [if_neg (fun h => h hzero), if_pos hzero]
  · have hne : keys.map (source db) ≠ [] := fun h => hkeys (List.map_eq_nil_iff.mp h)
    have hle : ∀ s ∈ keys.map (source db), minlen ≤ s.length := by
      intro s hs
      obtain ⟨key, hkey, rfl⟩ := List.mem_map.mp hs
      exact hmin key hkey
    rw [if_pos hzero, if_neg hzero, bitopResult_spec hne hle]
    rfl

/-- **Counting, searching and combining bits by words** is what it is bit by bit. -/
theorem bitmap_fast_paths :
    (∀ (addr : ℕ) (s : Sds), redisPopcount addr s = BigBits.ones s) ∧
    (∀ (addr : ℕ) (s : Sds) (want : Bool), redisBitpos addr s want = some (match firstBit s want with
      | some k => (k : ℤ)
      | none => if want then -1 else ((8 * s.length : ℕ) : ℤ))) ∧
    ∀ (aligned : Bool) (db : Db Value) (opname target : Sds) (op : BitopOp) (keys : List Sds), bitopOf opname = some op → keys ≠ [] →
      (op = .not → keys.length = 1) → (∀ key ∈ keys, db.dict key ≠ some .other) →
      bitopCommand aligned db opname target keys = some (.len (longest (keys.map (source db))),
        if longest (keys.map (source db)) = 0 then dbDelete db target
        else setKey db target (.raw (bytewise op (keys.map (source db)))), 1) :=
  ⟨redisPopcount_spec, redisBitpos_spec, fun _ _ _ _ _ _ hop hkeys hnot htype => bitopCommand_spec hop hkeys hnot htype⟩

/-- A database with one string. -/
def oneString (key s : Sds) : Db Value := setKey ⟨fun _ => none, fun _ => none, fun h => by cases h⟩ key (.raw s)

/-- OR of five bytes and a key that is not there. -/
theorem bitmap_fast_paths_or :
    bitopCommand false (oneString [1] [1, 2, 3, 4, 5]) (Networking.sds "or") [9] [[1], [2]] =
      some (.len 5, setKey (oneString [1] [1, 2, 3, 4, 5]) [9] (.raw [1, 2, 3, 4, 5]), 1) :=
  bitmap_fast_paths.2.2 false (oneString [1] [1, 2, 3, 4, 5]) (Networking.sds "or") [9] .or [[1], [2]] (by decide) (by decide) (by decide)
    (by decide)

end RedisZk.Bitops
