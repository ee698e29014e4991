/-
# Sparse HyperLogLogs

What hyperloglog.c does with opcodes: it reads them all to make the dense form or a maximum, with
the index in an `int`, and it changes them in place to set one register. A pointer is an offset
into the string; none stands for an access outside of a block, for a register outside of the
16384, and for an assertion that fails.

Key definitions: `runLoop`, `hllMerge`, `hllSparseToDense`, `locate`, `splitSeq`, `mergeValues`, `hllSparseSet`.
Key theorems: `locate_spec`, `splitSeq_eq`, `values_pieces`.
-/
import RedisZk.HyperLogLog.Registers

namespace RedisZk.HyperLogLog

open Streams (Sds asInt)
open Endian (Byte)
open Memory (put memmove)

def C_OK : ℤ := 0
def C_ERR : ℤ := -1

/-! ### All of the registers -/

section Loop

variable {σ : Type*} (sum : ℤ → ℤ) (touch : σ → ℤ → ℕ → Option σ)

/-- `while(runlen--)`: each register of a run is touched. -/
def runRegisters (value : ℕ) : ℕ → ℤ → σ → Option (ℤ × σ)
  | 0, i, m => some (i, m)
  | runlen + 1, i, m => do
    let m ← touch m i value
    runRegisters value runlen (asInt (i + 1)) m

/-- The loop over the opcodes, `i` an `int`; `sum` is the type of `runlen + i` in its test. -/
def runLoop : List Opcode → ℤ → σ → Option (ℤ × σ)
  | [], i, m => some (i, m)
  | .zero runlen :: ops, i, m => runLoop ops (asInt (i + runlen)) m
  | .xzero runlen :: ops, i, m => runLoop ops (asInt (i + runlen)) m
  | .val regval runlen :: ops, i, m =>
    -- "Overflow."
    if sum (runlen + i) > HLL_REGISTERS then some (i, m)
    else (runRegisters touch regval runlen i m).bind fun r => runLoop ops r.1 r.2

end Loop

/-- `if (regval > max[i]) max[i] = regval;` -/
def raiseMax (max : List ℕ) (i : ℤ) (regval : ℕ) : Option (List ℕ) :=
  if 0 ≤ i then (max[i.toNat]?).map fun old => if regval > old then max.set i.toNat regval else max
  else none

/-- The loop of `hllMerge` over the registers of a dense string. -/
def mergeDense (p : List Byte) (max : List ℕ) : Option (List ℕ) :=
  (List.range HLL_REGISTERS).foldlM
    (fun max i => (hllDenseGetRegister p i).bind fun val => raiseMax max i val) max

/-- The maximum of `max` and of the registers of `hll`, and `C_OK` or `C_ERR`. -/
def hllMerge (max : List ℕ) (hll : Str) : Option (List ℕ × ℤ) :=
  if hll.encoding = some HLL_DENSE then (mergeDense hll.registers max).map fun max => (max, C_OK)
  else (runLoop (fun n => n) raiseMax hll.opcodes 0 max).map fun r =>
    (r.2, if r.1 ≠ (HLL_REGISTERS : ℤ) then C_ERR else C_OK)

/-- `HLL_DENSE_SET_REGISTER(hdr->registers,idx,regval)` -/
def touchDense (p : List Byte) (idx : ℤ) (regval : ℕ) : Option (List Byte) :=
  if 0 ≤ idx ∧ idx < HLL_REGISTERS then hllDenseSetRegister p idx.toNat regval else none

/-- The string with these registers, and the byte behind them. -/
def Str.withRegisters (hdr : Sds) (p : List Byte) : Str := ⟨hdr ++ p.dropLast, (p.getLast?).getD 0⟩

def hllSparseToDense (o : Str) : Option (Str × ℤ) :=
  if o.encoding = some HLL_DENSE then some (o, C_OK)
  else
    -- sdsnewlen(NULL,HLL_DENSE_SIZE)
    let dense := List.replicate (HLL_DENSE_SIZE - HLL_HDR_SIZE + 1) 0
    (runLoop asInt touchDense o.opcodes 0 dense).map fun r =>
      if r.1 ≠ (HLL_REGISTERS : ℤ) then (o, C_ERR)
      else (Str.withRegisters ((o.bytes.take HLL_HDR_SIZE).set 4 HLL_DENSE) r.2, C_OK)

/-- `hllDenseSet(hdr->registers,index,count)` -/
def denseSet (o : Str) (index count : ℕ) : Option (Str × ℤ) :=
  (hllDenseSet o.registers index count).map fun r => (Str.withRegisters (o.bytes.take HLL_HDR_SIZE) r.1, r.2)

/-! ### One register -/

/-- Where the first step of `hllSparseSet` stops. -/
structure Place where
  p : ℕ
  first : ℕ
  prev : Option ℕ
  op : Opcode

/-- The opcode that covers the register `index`. -/
def locate (index : ℕ) : List Opcode → ℕ → ℕ → Option ℕ → Option Place
  | [], _, _, _ => none
  | op :: ops, p, first, prev =>
    if index ≤ first + op.len - 1 then some ⟨p, first, prev, op⟩
    else locate index ops (p + op.oplen) (first + op.len) (some p)

/-- So many zeros, as ZERO or as XZERO. -/
def zerosSet (len : ℕ) : List Byte :=
  if len > HLL_SPARSE_ZERO_MAX_LEN then xzeroSet len else [zeroSet len]

/-- The opcodes that the one at `first` is split into. -/
def splitSeq (op : Opcode) (first index count : ℕ) : List Byte :=
  let last := first + op.len - 1
  match op with
  | .val curval _ =>
    (if index ≠ first then [valSet curval (index - first)] else []) ++ ([valSet count 1] ++
      if index ≠ last then [valSet curval (last - index)] else [])
  | _ =>
    (if index ≠ first then zerosSet (index - first) else []) ++ ([valSet count 1] ++
      if index ≠ last then zerosSet (last - index) else [])

/-- The length of a VAL opcode in place of two, `next` none at the end. -/
def mergedLen (p : Byte) (next : Option Byte) : Option ℕ :=
  match next with
  | some p1 =>
    if isVal p1 ∧ valValue p = valValue p1 ∧ valLen p + valLen p1 ≤ HLL_SPARSE_VAL_MAX_LEN then
      some (valLen p + valLen p1)
    else none
  | none => none

/-- The last step of `hllSparseSet`: adjacent VAL opcodes are merged, in up to `scanlen` looks. -/
def mergeValues : ℕ → List Byte → ℕ → ℕ → Option (List Byte × ℕ)
  | 0, m, len, _ => some (m, len)
  | scanlen + 1, m, len, p =>
    if p < len then
      (m[p]?).bind fun b =>
        if isXZero b then mergeValues scanlen m len (p + 2)
        else if isZero b then mergeValues scanlen m len (p + 1)
        else
          match mergedLen b (if p + 1 < len then m[p + 1]? else none) with
          | some n =>
            (put m (p + 1) [valSet (valValue b) n]).bind fun m =>
              (memmove m p (p + 1) (len - p)).bind fun m => mergeValues scanlen (m.set (len - 1) 0) (len - 1) p
          | none => mergeValues scanlen m len (p + 1)
    else some (m, len)

/-- `HLL_INVALIDATE_CACHE` -/
def HLL_INVALIDATE_CACHE (hdr : Sds) : Sds := hdr.modify 15 fun b => Fin.ofNat 256 (b.val ||| 1 <<< 7)

/-- `updated`: the opcodes from `start` on are merged, in a string of `len` bytes. -/
def updated (m : List Byte) (len start : ℕ) : Option (Str × ℤ) :=
  (mergeValues 5 m len start).bind fun r =>
    (r.1[r.2]?).map fun nul => (⟨HLL_INVALIDATE_CACHE (r.1.take r.2), nul⟩, 1)

/-- `promote`: the register is set in the dense form, with `serverAssert(dense_retval == 1)`. -/
def promote (o : Str) (index count : ℕ) : Option (Str × ℤ) :=
  (hllSparseToDense o).bind fun r =>
    if r.2 = C_ERR then some (r.1, -1)
    else (denseSet r.1 index count).bind fun r => if r.2 = 1 then some r else none

variable (hll_sparse_max_bytes : ℕ)

/-- The opcode at `pl` is split, in a string of `len` bytes that has room for three more. -/
def splitOpcode (o : Str) (m : List Byte) (len : ℕ) (pl : Place) (start index count : ℕ) : Option (Str × ℤ) :=
  let seq := splitSeq pl.op pl.first index count
  let deltalen : ℤ := seq.length - pl.op.oplen
  let next := pl.p + pl.op.oplen
  if 0 < deltalen ∧ len + deltalen > hll_sparse_max_bytes then promote o index count
  else
    (if deltalen ≠ 0 ∧ next < len then memmove m (next + deltalen).toNat next (len - next) else some m).bind fun m =>
      let len := (len + deltalen).toNat
      (put (m.set len 0) pl.p seq).bind fun m => updated m len start

/-- A register is set if `count` is more than its value: 1 if it was, 0 if not, -1 if the opcodes are not valid. -/
def hllSparseSet (o : Str) (index count : ℕ) : Option (Str × ℤ) :=
  if count > HLL_SPARSE_VAL_MAX_VALUE then promote o index count
  else
    -- sdsMakeRoomFor(o->ptr,3)
    let m := o.bytes ++ o.nul :: List.replicate 3 0
    let len := o.bytes.length
    match locate index o.opcodes HLL_HDR_SIZE 0 none with
    | none => some (o, -1)
    | some pl =>
      let start := pl.prev.getD HLL_HDR_SIZE
      match pl.op with
      | .val oldcount runlen =>
        if oldcount ≥ count then some (o, 0)
        else if runlen = 1 then (put m pl.p [valSet count 1]).bind fun m => updated m len start
        else splitOpcode hll_sparse_max_bytes o m len pl start index count
      | .zero runlen =>
        if runlen = 1 then (put m pl.p [valSet count 1]).bind fun m => updated m len start
        else splitOpcode hll_sparse_max_bytes o m len pl start index count
      | .xzero _ => splitOpcode hll_sparse_max_bytes o m len pl start index count

/-! ### Lists of opcodes -/

/-- How many registers opcodes stand for. -/
def total (ops : List Opcode) : ℕ := (ops.map Opcode.len).sum

@[simp] theorem total_nil : total [] = 0 := rfl

@[simp] theorem total_cons (op : Opcode) (ops : List Opcode) : total (op :: ops) = op.len + total ops := List.sum_cons

/-- The values of the registers that opcodes stand for. -/
def values (ops : List Opcode) : List ℕ := Runs.expand (ops.map Opcode.run)

@[simp] theorem values_nil : values [] = [] := rfl

@[simp] theorem values_append (ops ops' : List Opcode) : values (ops ++ ops') = values ops ++ values ops' := by
  rw [values, List.map_append, Runs.expand_append]
  rfl

theorem length_values (ops : List Opcode) : (values ops).length = total ops := by
  have hlen : Prod.snd ∘ Opcode.run = Opcode.len := funext run_snd
  rw [values, Runs.length_expand, List.map_map, hlen]
  rfl

variable {op : Opcode}

theorem Opcode.Fits.pos (h : op.Fits) : 1 ≤ op.len := by
  cases op with
  | zero len | xzero len => exact h.1
  | val value len => exact h.2.2.1

/-! ### Where the register is -/

/-- The opcode at `pl` covers the register `index`. -/
structure Found (index : ℕ) (ops : List Opcode) (p first : ℕ) (prev : Option ℕ) (pl : Place) (pre post : List Opcode) :
    Prop where
  split : ops = pre ++ pl.op :: post
  place : pl.p = p + (code pre).length
  first : pl.first = first + total pre
  low : pl.first ≤ index
  high : index < pl.first + pl.op.len
  prev : ∃ a b, pre = a ++ b ∧ (a = [] ∧ pl.prev = prev ∨ pl.prev = some (p + (code a).length))

theorem locate_spec (index : ℕ) {ops : List Opcode} (hops : ∀ op ∈ ops, op.Fits) : ∀ (p first : ℕ) (prev : Option ℕ),
    first ≤ index → locate index ops p first prev = none ∧ first + total ops ≤ index ∨
      ∃ pl pre post, locate index ops p first prev = some pl ∧ Found index ops p first prev pl pre post := by
  induction ops with
  | nil =>
    intro p first prev hfirst
    exact .inl ⟨rfl, hfirst⟩
  | cons op ops ih =>
    intro p first prev hfirst
    have hpos := (hops op List.mem_cons_self).pos
    rw [locate]
    split
    · rename_i hin
      refine .inr ⟨_, [], ops, rfl, ⟨rfl, rfl, rfl, hfirst, ?_, [], [], rfl, .inl ⟨rfl, rfl⟩⟩⟩
      show index < first + op.len
      omega
    · rename_i hin
      rcases ih (fun o h => hops o (List.mem_cons_of_mem _ h)) (p + op.oplen) (first + op.len) (some p) (by omega) with h | h
      · refine .inl ⟨h.1, ?_⟩
        rw [total_cons, ← Nat.add_assoc]
        exact h.2
      · obtain ⟨pl, pre, post, hpl, h⟩ := h
        refine .inr ⟨pl, op :: pre, post, hpl, ⟨?_, ?_, ?_, h.low, h.high, ?_⟩⟩
        · rw [h.split]
          rfl
        · rw [h.place, code_cons, List.length_append, length_code, Nat.add_assoc]
        · rw [h.first, total_cons, Nat.add_assoc]
        · obtain ⟨a, b, hab, ha⟩ := h.prev
          rcases ha with ⟨rfl, hprev⟩ | hprev
          · exact ⟨[], op :: pre, rfl, .inr (by rw [hprev]; rfl)⟩
          · refine ⟨op :: a, b, by rw [hab]; rfl, .inr ?_⟩
            rw [hprev, code_cons, List.length_append, length_code, Nat.add_assoc]

/-- The opcodes are merged from the one before the place on, or from the first one. -/
theorem Found.start {index : ℕ} {ops : List Opcode} {pl : Place} {pre post : List Opcode} {p first : ℕ}
    (h : Found index ops p first none pl pre post) : ∃ a b, pre = a ++ b ∧ pl.prev.getD p = p + (code a).length := by
  obtain ⟨a, b, hab, ha⟩ := h.prev
  rcases ha with ⟨rfl, hprev⟩ | hprev
  · exact ⟨[], b, hab, by rw [hprev]; rfl⟩
  · exact ⟨a, b, hab, by rw [hprev]; rfl⟩

/-! ### The opcode is split -/

/-- So many zeros, as one opcode. -/
def zeros (len : ℕ) : Opcode := if len > HLL_SPARSE_ZERO_MAX_LEN then .xzero len else .zero len

theorem zerosSet_eq (len : ℕ) : zerosSet len = (zeros len).code := by
  unfold zerosSet zeros
  split <;> rfl

theorem zeros_fits {len : ℕ} (h1 : 1 ≤ len) (h2 : len ≤ HLL_SPARSE_XZERO_MAX_LEN) : (zeros len).Fits := by
  unfold zeros
  split
  · exact ⟨h1, h2⟩
  · exact ⟨h1, by omega⟩

theorem zeros_run (len : ℕ) : (zeros len).run = (0, len) := by
  unfold zeros
  split <;> rfl

/-- A part of an opcode, if there is any of it. -/
def part (op : Opcode) (len : ℕ) : List Opcode :=
  if len = 0 then []
  else match op with
    | .val value _ => [.val value len]
    | _ => [zeros len]

theorem values_part (op : Opcode) (len : ℕ) : values (part op len) = List.replicate len op.run.1 := by
  unfold part values
  split
  · rename_i h
    rw [h]
    rfl
  · cases op with
    | val value n => exact List.append_nil _
    | zero n | xzero n =>
      show Runs.expand [(zeros len).run] = _
      rw [zeros_run]
      exact List.append_nil _

theorem part_fits (h : op.Fits) {len : ℕ} (hlen : len < op.len) : ∀ o ∈ part op len, o.Fits := by
  unfold part
  split
  · exact List.forall_mem_nil _
  · rename_i h0
    cases op with
    | val value n =>
      obtain ⟨h1, h2, h3, h4⟩ := h
      have hlen : len < n := hlen
      exact List.forall_mem_singleton.mpr ⟨h1, h2, by omega, by omega⟩
    | zero n =>
      obtain ⟨h1, h2⟩ := h
      have hlen : len < n := hlen
      unfold HLL_SPARSE_ZERO_MAX_LEN at h2
      exact List.forall_mem_singleton.mpr (zeros_fits (by omega) (by unfold HLL_SPARSE_XZERO_MAX_LEN; omega))
    | xzero n =>
      obtain ⟨h1, h2⟩ := h
      have hlen : len < n := hlen
      exact List.forall_mem_singleton.mpr (zeros_fits (by omega) (by omega))

theorem length_part (h : op.Fits) {len : ℕ} (hlen : len < op.len) : (code (part op len)).length ≤ op.oplen := by
  unfold part
  split
  · exact Nat.zero_le _
  · cases op with
    | val value n => exact Nat.le_refl 1
    | zero n =>
      obtain ⟨h1, h2⟩ := h
      have hlen : len < n := hlen
      have hz : zeros len = .zero len := if_neg (by omega)
      rw [hz]
      exact Nat.le_refl 1
    | xzero n =>
      show (code [zeros len]).length ≤ 2
      unfold zeros
      split
      · exact Nat.le_refl 2
      · exact Nat.le_succ 1

/-- What an opcode is split into. -/
def pieces (op : Opcode) (first index count : ℕ) : List Opcode :=
  part op (index - first) ++ .val count 1 :: part op (first + op.len - 1 - index)

theorem splitSeq_eq {first index count : ℕ} (hlow : first ≤ index) (hhigh : index < first + op.len) :
    splitSeq op first index count = code (pieces op first index count) := by
  have hleft : ∀ (c : List Byte) (o : List Opcode), c = code o → (if index ≠ first then c else []) =
      code (if index - first = 0 then [] else o) := by
    intro c o hc
    by_cases h : index = first
    · rw [if_neg (not_not_intro h), if_pos (by omega)]
      rfl
    · rw [if_pos h, if_neg (by omega), hc]
  have hright : ∀ (c : List Byte) (o : List Opcode), c = code o → (if index ≠ first + op.len - 1 then c else []) =
      code (if first + op.len - 1 - index = 0 then [] else o) := by
    intro c o hc
    by_cases h : index = first + op.len - 1
    · rw [if_neg (not_not_intro h), if_pos (by omega)]
      rfl
    · rw [if_pos h, if_neg (by omega), hc]
  have hone : ∀ o : Opcode, o.code = code [o] := fun o => (List.append_nil _).symm
  rw [pieces, code_append, code_cons]
  cases op with
  | val value n =>
    unfold splitSeq part
    dsimp only
    rw [hleft [valSet value _] [.val value _] rfl, hright [valSet value _] [.val value _] rfl]
    rfl
  | zero n =>
    unfold splitSeq part
    dsimp only
    rw [zerosSet_eq, zerosSet_eq, hleft _ _ (hone _), hright _ _ (hone _)]
    rfl
  | xzero n =>
    unfold splitSeq part
    dsimp only
    rw [zerosSet_eq, zerosSet_eq, hleft _ _ (hone _), hright _ _ (hone _)]
    rfl

theorem pieces_fits (h : op.Fits) {first index count : ℕ} (hhigh : index < first + op.len)
    (hc : 1 ≤ count ∧ count ≤ HLL_SPARSE_VAL_MAX_VALUE) (hlow : first ≤ index) :
    ∀ o ∈ pieces op first index count, o.Fits := by
  refine List.forall_mem_append.mpr ⟨part_fits h (by omega), ?_⟩
  refine List.forall_mem_cons.mpr ⟨⟨hc.1, hc.2, Nat.le_refl 1, by decide⟩, part_fits h ?_⟩
  have hpos := h.pos
  omega

/-- The pieces stand for the same registers, but for one. -/
theorem values_pieces {first index : ℕ} (count : ℕ) (hlow : first ≤ index) (hhigh : index < first + op.len)
    {pre : List Opcode} (post : List Opcode) (hpre : first = total pre) :
    values (pre ++ (pieces op first index count ++ post)) = (values (pre ++ op :: post)).set index count := by
  have hrun : op.run = (op.run.1, op.len) := by rw [← run_snd]
  have hset := @Runs.expand_set _ (pre.map Opcode.run) (post.map Opcode.run) op.run.1 count (index - first)
      (first + op.len - 1 - index) op.len index (by rw [← values, length_values, ← hpre]; omega) (by omega)
  have hcons : ∀ o os, values (o :: os) = List.replicate o.run.2 o.run.1 ++ values os := fun o os => Runs.expand_cons _ _
  rw [← hrun, Runs.expand_append, Runs.expand_cons, Runs.expand_cons, Runs.expand_cons, ← values, ← values] at hset
  have hold : Runs.expand (pre.map Opcode.run ++ op.run :: post.map Opcode.run) = values (pre ++ op :: post) := by
    rw [values, List.map_append, List.map_cons]
  rw [← hold, ← hset, pieces, values_append, values_append, values_append, values_part, hcons, values_part]
  simp only [List.append_assoc]
  rfl

end RedisZk.HyperLogLog
