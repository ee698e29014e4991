/-
# HyperLogLog strings

A HyperLogLog is a string: a header of 16 bytes, then its 16384 registers, in 6 bits each (dense)
or as opcodes that say how many registers have which value (sparse). An sds string has a byte
behind its end, which is null as long as nothing is written over it, and which the macros read.

Key definitions: `Str`, `hllDenseSet`, `Opcode`, `opcodes`, `registers`, `Valid`.
Key theorems: `denseGet_eq`, `denseSet_eq`, `opcodeAt_fits`, `code_complete`.
-/
import RedisZk.Lib.Memory
import RedisZk.Lib.Packed
import RedisZk.Lib.Runs
import RedisZk.Streams.Listpack

namespace RedisZk.HyperLogLog

open Streams (Sds)
open Endian (Byte)

def HLL_P : ℕ := 14
def HLL_Q : ℕ := 64 - HLL_P
def HLL_REGISTERS : ℕ := 1 <<< HLL_P
def HLL_P_MASK : ℕ := HLL_REGISTERS - 1
def HLL_BITS : ℕ := 6
def HLL_REGISTER_MAX : ℕ := 1 <<< HLL_BITS - 1
def HLL_HDR_SIZE : ℕ := 16
def HLL_DENSE_SIZE : ℕ := HLL_HDR_SIZE + (HLL_REGISTERS * HLL_BITS + 7) / 8
def HLL_DENSE : Byte := 0
def HLL_SPARSE : Byte := 1
def HLL_MAX_ENCODING : Byte := 1

/-- An sds string, and the byte behind its end. -/
structure Str where
  bytes : Sds
  nul : Byte
deriving DecidableEq, Repr

/-- `hdr->encoding` -/
def Str.encoding (s : Str) : Option Byte := s.bytes[4]?

/-- `hdr->registers`, up to the byte behind the end. -/
def Str.registers (s : Str) : List Byte := s.bytes.drop HLL_HDR_SIZE ++ [s.nul]

/-! ### Dense registers -/

/-- `HLL_DENSE_GET_REGISTER` -/
def hllDenseGetRegister (p : List Byte) (regnum : ℕ) : Option ℕ := do
  let byte := regnum * HLL_BITS / 8
  let fb := regnum * HLL_BITS &&& 7
  let fb8 := 8 - fb
  let b0 ← p[byte]?
  let b1 ← p[byte + 1]?
  some ((b0.val >>> fb ||| b1.val <<< fb8) &&& HLL_REGISTER_MAX)

/-- `HLL_DENSE_SET_REGISTER`; `Nat.ldiff` clears the bits of a mask. -/
def hllDenseSetRegister (p : List Byte) (regnum val : ℕ) : Option (List Byte) := do
  let byte := regnum * HLL_BITS / 8
  let fb := regnum * HLL_BITS &&& 7
  let fb8 := 8 - fb
  let b0 ← p[byte]?
  let b1 ← p[byte + 1]?
  let p := p.set byte (Fin.ofNat 256 (Nat.ldiff b0.val (HLL_REGISTER_MAX <<< fb) ||| val <<< fb))
  some (p.set (byte + 1) (Fin.ofNat 256 (Nat.ldiff b1.val (HLL_REGISTER_MAX >>> fb8) ||| val >>> fb8)))

/-- A register is set if `count` is more than what it holds; 1 if it was. -/
def hllDenseSet (registers : List Byte) (index count : ℕ) : Option (List Byte × ℤ) := do
  let oldcount ← hllDenseGetRegister registers index
  if count > oldcount then
    let registers ← hllDenseSetRegister registers index count
    some (registers, 1)
  else some (registers, 0)

theorem and_seven (n : ℕ) : n &&& 7 = n % 8 := Nat.and_two_pow_sub_one_eq_mod n 3

theorem denseGet_eq (p : List Byte) (r : ℕ) : hllDenseGetRegister p r = Packed.getCell HLL_BITS p r := by
  unfold hllDenseGetRegister
  simp only [and_seven]
  rfl

theorem denseSet_eq (p : List Byte) (r v : ℕ) : hllDenseSetRegister p r v = Packed.setCell HLL_BITS p r v := by
  unfold hllDenseSetRegister
  simp only [and_seven]
  rfl

/-! ### Opcodes -/

def HLL_SPARSE_XZERO_BIT : ℕ := 0x40
def HLL_SPARSE_VAL_BIT : ℕ := 0x80
def HLL_SPARSE_VAL_MAX_VALUE : ℕ := 32
def HLL_SPARSE_VAL_MAX_LEN : ℕ := 4
def HLL_SPARSE_ZERO_MAX_LEN : ℕ := 64
def HLL_SPARSE_XZERO_MAX_LEN : ℕ := 16384

def isZero (p : Byte) : Bool := (p.val &&& 0xc0) == 0
def isXZero (p : Byte) : Bool := (p.val &&& 0xc0) == HLL_SPARSE_XZERO_BIT
def isVal (p : Byte) : Bool := (p.val &&& HLL_SPARSE_VAL_BIT) != 0
def zeroLen (p : Byte) : ℕ := (p.val &&& 0x3f) + 1
def xzeroLen (p p1 : Byte) : ℕ := (((p.val &&& 0x3f) <<< 8) ||| p1.val) + 1
def valValue (p : Byte) : ℕ := ((p.val >>> 2) &&& 0x1f) + 1
def valLen (p : Byte) : ℕ := (p.val &&& 0x3) + 1
def valSet (val len : ℕ) : Byte := Fin.ofNat 256 (((val - 1) <<< 2 ||| (len - 1)) ||| HLL_SPARSE_VAL_BIT)
def zeroSet (len : ℕ) : Byte := Fin.ofNat 256 (len - 1)
def xzeroSet (len : ℕ) : List Byte :=
  [Fin.ofNat 256 ((len - 1) >>> 8 ||| HLL_SPARSE_XZERO_BIT), Fin.ofNat 256 ((len - 1) &&& 0xff)]

/-- An opcode: so many registers that are 0, or that have a value. -/
inductive Opcode
  | zero (len : ℕ)
  | xzero (len : ℕ)
  | val (value len : ℕ)
deriving DecidableEq, Repr

/-- How many registers it stands for. -/
def Opcode.len : Opcode → ℕ
  | zero len => len
  | xzero len => len
  | val _ len => len

/-- How many bytes it has. -/
def Opcode.oplen : Opcode → ℕ
  | xzero _ => 2
  | _ => 1

/-- The opcode at a byte, with the byte behind it. -/
def opcodeAt (p p1 : Byte) : Opcode :=
  if isZero p then .zero (zeroLen p)
  else if isXZero p then .xzero (xzeroLen p p1)
  else .val (valValue p) (valLen p)

/-- The opcodes that the loops read; behind the last byte is `nul`. -/
def opcodes (nul : Byte) : List Byte → List Opcode
  | [] => []
  | [b] => [opcodeAt b nul]
  | b :: c :: rest => opcodeAt b c :: (if isXZero b then opcodes nul rest else opcodes nul (c :: rest))

def Str.opcodes (s : Str) : List Opcode := HyperLogLog.opcodes s.nul (s.bytes.drop HLL_HDR_SIZE)

/-- The value and the length of the run that an opcode stands for. -/
def Opcode.run : Opcode → ℕ × ℕ
  | zero len => (0, len)
  | xzero len => (0, len)
  | val value len => (value, len)

/-- The bytes of an opcode. -/
def Opcode.code : Opcode → List Byte
  | zero len => [zeroSet len]
  | xzero len => xzeroSet len
  | val value len => [valSet value len]

/-- The numbers that an opcode has room for. -/
def Opcode.Fits : Opcode → Prop
  | zero len => 1 ≤ len ∧ len ≤ HLL_SPARSE_ZERO_MAX_LEN
  | xzero len => 1 ≤ len ∧ len ≤ HLL_SPARSE_XZERO_MAX_LEN
  | val value len => 1 ≤ value ∧ value ≤ HLL_SPARSE_VAL_MAX_VALUE ∧ 1 ≤ len ∧ len ≤ HLL_SPARSE_VAL_MAX_LEN

instance (op : Opcode) : Decidable op.Fits := by
  cases op <;> unfold Opcode.Fits <;> infer_instance

def code (ops : List Opcode) : List Byte := ops.flatMap Opcode.code

@[simp] theorem code_nil : code [] = [] := rfl

@[simp] theorem code_cons (op : Opcode) (ops : List Opcode) : code (op :: ops) = op.code ++ code ops := List.flatMap_cons

@[simp] theorem code_append (ops ops' : List Opcode) : code (ops ++ ops') = code ops ++ code ops' := List.flatMap_append

@[simp] theorem length_code (op : Opcode) : op.code.length = op.oplen := by cases op <;> rfl

theorem Opcode.oplen_pos (op : Opcode) : 1 ≤ op.oplen := by
  cases op with
  | xzero len => exact Nat.le_succ 1
  | zero len | val value len => exact Nat.le_refl 1

@[simp] theorem run_snd (op : Opcode) : op.run.2 = op.len := by cases op <;> rfl

/-! ### The bytes of the opcodes -/

/-- A byte is of one of the three kinds, and is what its numbers are written as. -/
theorem byte_spec : ∀ p : Byte, isVal p = (!isZero p && !isXZero p) ∧
    (Opcode.zero (zeroLen p)).Fits ∧ (Opcode.val (valValue p) (valLen p)).Fits ∧
    (isZero p = true → isXZero p = false ∧ zeroSet (zeroLen p) = p) ∧
    (isZero p = false → isXZero p = false → valSet (valValue p) (valLen p) = p) ∧ (isXZero p = true → p.val / 64 = 1) := by
  decide +kernel

theorem isVal_iff (p : Byte) : isVal p = (!isZero p && !isXZero p) := (byte_spec p).1

theorem xzeroLen_eq (p p1 : Byte) : xzeroLen p p1 = p.val % 64 * 256 + p1.val + 1 := by
  have hmask : p.val &&& 0x3f = p.val % 64 := Nat.and_two_pow_sub_one_eq_mod _ 6
  have hor : (p.val % 64) <<< 8 ||| p1.val = (p.val % 64) <<< 8 + p1.val := (Nat.shiftLeft_add_eq_or_of_lt p1.isLt _).symm
  rw [xzeroLen, hmask, hor, Nat.shiftLeft_eq]

/-- An opcode as it is read has room for its numbers. -/
theorem opcodeAt_fits (p p1 : Byte) : (opcodeAt p p1).Fits := by
  unfold opcodeAt
  obtain ⟨-, hzero, hval, -⟩ := byte_spec p
  split
  · exact hzero
  · split
    · have hlen := xzeroLen_eq p p1
      have hp := p1.isLt
      unfold Opcode.Fits HLL_SPARSE_XZERO_MAX_LEN
      omega
    · exact hval

theorem xzeroSet_eq {len : ℕ} (h : 1 ≤ len ∧ len ≤ HLL_SPARSE_XZERO_MAX_LEN) :
    xzeroSet len = [Fin.ofNat 256 ((len - 1) / 256 + 64), Fin.ofNat 256 ((len - 1) % 256)] := by
  have hdiv : (len - 1) >>> 8 = (len - 1) / 256 := Nat.shiftRight_eq_div_pow _ 8
  have hmod : (len - 1) &&& 0xff = (len - 1) % 256 := Nat.and_two_pow_sub_one_eq_mod _ 8
  have hor : (len - 1) / 256 ||| HLL_SPARSE_XZERO_BIT = (len - 1) / 256 + 64 := by
    have hlt : (len - 1) / 256 < 2 ^ 6 := by unfold HLL_SPARSE_XZERO_MAX_LEN at h; omega
    rw [Nat.or_comm]
    have := Nat.shiftLeft_add_eq_or_of_lt hlt 1
    rw [show 1 <<< 6 = HLL_SPARSE_XZERO_BIT from rfl] at this
    rw [← this, Nat.add_comm]
    rfl
  rw [xzeroSet, hdiv, hmod, hor]

theorem code_opcodeAt (p p1 : Byte) : (opcodeAt p p1).code = if isXZero p then [p, p1] else [p] := by
  obtain ⟨-, -, -, hzero, hval, hx⟩ := byte_spec p
  unfold opcodeAt
  split
  · rename_i h
    rw [(hzero h).1]
    exact congrArg (fun b => [b]) (hzero h).2
  · rename_i h
    split
    · rename_i h'
      have hlen := xzeroLen_eq p p1
      have h1 := hx h'
      have hp := p.isLt
      have hp1 := p1.isLt
      have hfits : 1 ≤ xzeroLen p p1 ∧ xzeroLen p p1 ≤ HLL_SPARSE_XZERO_MAX_LEN := by
        unfold HLL_SPARSE_XZERO_MAX_LEN
        omega
      show xzeroSet (xzeroLen p p1) = _
      rw [xzeroSet_eq hfits]
      have ha : (xzeroLen p p1 - 1) / 256 + 64 = p.val := by omega
      have hb : (xzeroLen p p1 - 1) % 256 = p1.val := by omega
      rw [ha, hb, Fin.ofNat_val_eq_self, Fin.ofNat_val_eq_self]
    · rename_i h'
      exact congrArg (fun b => [b]) (hval (Bool.eq_false_iff.mpr h) (Bool.eq_false_iff.mpr h'))

/-- The kinds of the bytes that are written. -/
theorem written_spec : ∀ n : Fin 64,
    (isZero (zeroSet (n.val + 1)) = true ∧ isXZero (zeroSet (n.val + 1)) = false ∧ zeroLen (zeroSet (n.val + 1)) = n.val + 1) ∧
    isZero (Fin.ofNat 256 (n.val + 64)) = false ∧ isXZero (Fin.ofNat 256 (n.val + 64)) = true := by
  decide

theorem zeroSet_spec {len : ℕ} (h : (Opcode.zero len).Fits) :
    isZero (zeroSet len) = true ∧ isXZero (zeroSet len) = false ∧ zeroLen (zeroSet len) = len := by
  obtain ⟨h1, h2⟩ := h
  have hlen := (written_spec ⟨len - 1, by unfold HLL_SPARSE_ZERO_MAX_LEN at h2; omega⟩).1
  rw [Nat.sub_add_cancel h1] at hlen
  exact hlen

theorem xzeroSet_spec {len : ℕ} (h : (Opcode.xzero len).Fits) :
    ∃ p p1, xzeroSet len = [p, p1] ∧ isZero p = false ∧ isXZero p = true ∧ xzeroLen p p1 = len := by
  have hlen := h
  unfold Opcode.Fits HLL_SPARSE_XZERO_MAX_LEN at hlen
  obtain ⟨hz, hx⟩ := (written_spec ⟨(len - 1) / 256, by omega⟩).2
  refine ⟨_, _, xzeroSet_eq h, hz, hx, ?_⟩
  rw [xzeroLen_eq, Fin.val_ofNat, Fin.val_ofNat]
  omega

theorem valSet_spec {value len : ℕ} (h : (Opcode.val value len).Fits) : isZero (valSet value len) = false ∧
    isXZero (valSet value len) = false ∧ valValue (valSet value len) = value ∧ valLen (valSet value len) = len := by
  have hval : ∀ (v : Fin 32) (n : Fin 4), isZero (valSet (v.val + 1) (n.val + 1)) = false ∧
      isXZero (valSet (v.val + 1) (n.val + 1)) = false ∧ valValue (valSet (v.val + 1) (n.val + 1)) = v.val + 1 ∧
      valLen (valSet (v.val + 1) (n.val + 1)) = n.val + 1 := by decide
  obtain ⟨h1, h2, h3, h4⟩ := h
  unfold HLL_SPARSE_VAL_MAX_VALUE at h2
  unfold HLL_SPARSE_VAL_MAX_LEN at h4
  have hb := hval ⟨value - 1, by omega⟩ ⟨len - 1, by omega⟩
  rw [Nat.sub_add_cancel h1, Nat.sub_add_cancel h3] at hb
  exact hb

/-- What is written is read back, whatever is behind it. -/
theorem opcodeAt_code {op : Opcode} (h : op.Fits) (b : Byte) :
    ∃ p s, op.code = p :: s ∧ isXZero p = decide (op.oplen = 2) ∧ opcodeAt p ((s ++ [b]).headD 0) = op := by
  cases op with
  | zero len =>
    obtain ⟨hz, hx, hlen⟩ := zeroSet_spec h
    refine ⟨_, [], rfl, hx, ?_⟩
    rw [opcodeAt, hz, if_pos rfl, hlen]
  | xzero len =>
    obtain ⟨p, p1, hset, hz, hx, hlen⟩ := xzeroSet_spec h
    refine ⟨p, [p1], hset, hx, ?_⟩
    rw [opcodeAt, hz, hx, if_neg (by decide), if_pos rfl]
    exact congrArg Opcode.xzero hlen
  | val value len =>
    obtain ⟨hz, hx, hvalue, hlen⟩ := valSet_spec h
    refine ⟨_, [], rfl, hx, ?_⟩
    rw [opcodeAt, hz, hx, if_neg (by decide), if_neg (by decide), hvalue, hlen]

/-- A byte begins an opcode whose second byte is missing. -/
def Cut (tail : List Byte) : Prop := tail = [] ∨ ∃ x, isXZero x = true ∧ tail = [x]

/-- The opcodes that are there in whole, and what is left. -/
def complete : List Byte → List Opcode × List Byte
  | [] => ([], [])
  | [b] => if isXZero b then ([], [b]) else ([opcodeAt b 0], [])
  | b :: c :: rest =>
    if isXZero b then (opcodeAt b c :: (complete rest).1, (complete rest).2)
    else (opcodeAt b c :: (complete (c :: rest)).1, (complete (c :: rest)).2)

/-- The opcodes that a loop reads of what is left. -/
def cutOpcodes (nul : Byte) (tail : List Byte) : List Opcode := tail.map fun x => opcodeAt x nul

theorem complete_xzero {b : Byte} (c : Byte) (rest : List Byte) (h : isXZero b = true) :
    complete (b :: c :: rest) = (opcodeAt b c :: (complete rest).1, (complete rest).2) := if_pos h

theorem opcodeAt_irrel {b : Byte} (h : isXZero b = false) (c c' : Byte) : opcodeAt b c = opcodeAt b c' := by
  rw [opcodeAt, opcodeAt, h]
  rfl

theorem complete_one {b : Byte} (c : Byte) (rest : List Byte) (h : isXZero b = false) :
    complete (b :: rest) = (opcodeAt b c :: (complete rest).1, (complete rest).2) := by
  have hneg : ¬ isXZero b = true := Bool.eq_false_iff.mp h
  cases rest with
  | nil =>
    rw [opcodeAt_irrel h c 0]
    exact if_neg hneg
  | cons d rest =>
    rw [opcodeAt_irrel h c d]
    exact if_neg hneg

/-- Opcodes are taken from the front, two bytes or one at a time. -/
theorem opcode_induction {P : List Byte → Prop} (nil : P []) (cut : ∀ b, isXZero b = true → P [b])
    (xzero : ∀ b c rest, isXZero b = true → P rest → P (b :: c :: rest))
    (one : ∀ b rest, isXZero b = false → P rest → P (b :: rest)) : ∀ body, P body
  | [] => nil
  | [b] => by
    cases h : isXZero b with
    | true => exact cut b h
    | false => exact one b [] h nil
  | b :: c :: rest => by
    cases h : isXZero b with
    | true => exact xzero b c rest h (opcode_induction nil cut xzero one rest)
    | false => exact one b (c :: rest) h (opcode_induction nil cut xzero one (c :: rest))

/-- Every string of bytes is opcodes in whole, and at most one byte of another. -/
theorem code_complete (body : List Byte) : code (complete body).1 ++ (complete body).2 = body ∧
    Cut (complete body).2 ∧ ∀ op ∈ (complete body).1, op.Fits := by
  induction body using opcode_induction with
  | nil => exact ⟨rfl, .inl rfl, List.forall_mem_nil _⟩
  | cut b h =>
    have hcut : complete [b] = ([], [b]) := if_pos h
    rw [hcut]
    exact ⟨rfl, .inr ⟨b, h, rfl⟩, List.forall_mem_nil _⟩
  | xzero b c rest h ih =>
    obtain ⟨hcode, hcut, hfits⟩ := ih
    rw [complete_xzero c rest h]
    refine ⟨?_, hcut, List.forall_mem_cons.mpr ⟨opcodeAt_fits b c, hfits⟩⟩
    rw [code_cons, code_opcodeAt, if_pos h, List.append_assoc, hcode]
    rfl
  | one b rest h ih =>
    obtain ⟨hcode, hcut, hfits⟩ := ih
    rw [complete_one 0 rest h]
    refine ⟨?_, hcut, List.forall_mem_cons.mpr ⟨opcodeAt_fits b 0, hfits⟩⟩
    rw [code_cons, code_opcodeAt, h, List.append_assoc, hcode]
    rfl

/-- The bytes of opcodes are these opcodes. -/
theorem complete_code {ops : List Opcode} {tail : List Byte} (hops : ∀ op ∈ ops, op.Fits) (htail : Cut tail) :
    complete (code ops ++ tail) = (ops, tail) := by
  induction ops with
  | nil =>
    rcases htail with rfl | ⟨x, hx, rfl⟩
    · rfl
    · exact if_pos hx
  | cons op ops ih =>
    have ih := ih fun op h => hops op (List.mem_cons_of_mem _ h)
    obtain ⟨p, s, hcode, hx, hop⟩ := opcodeAt_code (hops op List.mem_cons_self) 0
    have hlen := length_code op
    rw [hcode, List.length_cons] at hlen
    rw [code_cons, hcode]
    cases op with
    | xzero len =>
      obtain ⟨c, rfl⟩ : ∃ c, s = [c] := List.length_eq_one_iff.mp (Nat.succ.inj hlen)
      rw [List.append_assoc]
      show complete (p :: c :: (code ops ++ tail)) = _
      rw [complete_xzero c _ hx, ih]
      exact congrArg (fun o => (o :: ops, tail)) hop
    | zero len | val value len =>
      obtain rfl : s = [] := List.length_eq_zero_iff.mp (Nat.succ.inj hlen)
      rw [List.append_assoc]
      show complete (p :: (code ops ++ tail)) = _
      rw [complete_one 0 _ hx, ih]
      exact congrArg (fun o => (o :: ops, tail)) hop

/-- The loops read what is there in whole, and an opcode whose second byte is `nul`. -/
theorem opcodes_eq (nul : Byte) (body : List Byte) :
    opcodes nul body = (complete body).1 ++ cutOpcodes nul (complete body).2 := by
  induction body using opcode_induction with
  | nil => rfl
  | cut b h =>
    have hcut : complete [b] = ([], [b]) := if_pos h
    rw [hcut]
    rfl
  | xzero b c rest h ih =>
    rw [complete_xzero c rest h, opcodes, if_pos h, ih, List.cons_append]
  | one b rest h ih =>
    have hneg : ¬ isXZero b = true := Bool.eq_false_iff.mp h
    rw [complete_one nul rest h, List.cons_append, ← ih]
    cases rest with
    | nil => rfl
    | cons c rest => rw [opcodes, if_neg hneg, opcodeAt_irrel h c nul]

/-! ### Valid strings -/

/-- "HYLL" -/
def magic : Sds := [72, 89, 76, 76]

/-- The registers that a string stands for. -/
def registers (s : Str) : List ℕ :=
  if s.encoding = some HLL_DENSE then Packed.cells HLL_BITS HLL_REGISTERS s.registers
  else Runs.expand (s.opcodes.map Opcode.run)

/-- The opcodes, each of them in whole. -/
def Str.ops (s : Str) : List Opcode := (complete (s.bytes.drop HLL_HDR_SIZE)).1

/-- A sparse string whose runs cover the registers. -/
structure ValidSparse (s : Str) : Prop where
  magic : s.bytes.take 4 = magic
  encoding : s.encoding = some HLL_SPARSE
  whole : (complete (s.bytes.drop HLL_HDR_SIZE)).2 = []
  covers : (s.ops.map Opcode.len).sum = HLL_REGISTERS

/-- A dense string, of its one length. -/
structure ValidDense (s : Str) : Prop where
  magic : s.bytes.take 4 = magic
  encoding : s.encoding = some HLL_DENSE
  size : s.bytes.length = HLL_DENSE_SIZE

def Valid (s : Str) : Prop := ValidSparse s ∨ ValidDense s

end RedisZk.HyperLogLog
