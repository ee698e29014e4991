/-
# BITFIELD

`bitfieldCommand` reads all its operations first, each with the type and the offset of
an integer, makes the string long enough for those that write, and then runs them one
after the other. It never touches a byte behind the string.

An operation stores the result as it should, but for those of `Stores`, and an
offset `#N` that is a multiple of `2^64` too large is taken for a small one.

Key definitions: `getBitOffsetFromArgument`, `parseOps`, `writeOp`, `getOp`, `bitfieldCommand`.
Key theorems: `writeOp_spec`, `getOp_spec`, `bitfieldCommand_frame`, `bitfield_exact`.
-/
import RedisZk.Bitops.Overflow
import RedisZk.Migrate.Command

namespace RedisZk.Bitops

open BigBits (bit number)
open Migrate (strcasecmp)
open Streams (Sds IsInt64)

/-! ### Arguments -/

inductive Opcode
  | get
  | set
  | incrby
deriving DecidableEq, Repr

structure BitfieldOp where
  offset : ℕ
  i64 : ℤ
  opcode : Opcode
  owtype : Owtype
  bits : ℕ
  sign : Bool
deriving DecidableEq, Repr

def offsetErr : String := "bit offset is not an integer or out of range"

def typeErr : String := "Invalid bitfield type. Use something like i16 u8. Note that u64 is not supported but i64 is."

def getBitOffsetFromArgument (o : Sds) (hash : Bool) (bits : ℕ) : Except String ℕ :=
  let usehash := o.head? = some 35 ∧ hash = true ∧ bits > 0
  match Util.string2ll (if usehash then o.drop 1 else o) with
  | none => .error offsetErr
  | some loffset =>
    let loffset := if usehash then int64 (loffset * bits) else loffset
    if loffset < 0 ∨ loffset.toNat >>> 3 ≥ 512 * 1024 * 1024 then .error offsetErr else .ok loffset.toNat

/-- The type from the text behind the sign, up to a zero byte as `strlen` counts. -/
def bitfieldType (sign : Bool) (text : Sds) : Except String (Bool × ℕ) :=
  match Util.string2ll (Migrate.cstring text) with
  | none => .error typeErr
  | some llbits =>
    if llbits < 1 ∨ (sign = true ∧ llbits > 64) ∨ (sign = false ∧ llbits > 63) then .error typeErr
    else .ok (sign, llbits.toNat)

def getBitfieldTypeFromArgument (o : Sds) : Except String (Bool × ℕ) :=
  if o.head? = some 105 then bitfieldType true (o.drop 1)
  else if o.head? = some 117 then bitfieldType false (o.drop 1)
  else .error typeErr

/-- What the loop over the arguments has collected. -/
structure Parsed where
  ops : List BitfieldOp := []
  owtype : Owtype := .wrap
  readonly : Bool := true
  highestWriteOffset : ℕ := 0

def opcodeOf (subcmd : Sds) (remargs : ℕ) : Option Opcode :=
  if strcasecmp subcmd "get" ∧ remargs ≥ 2 then some .get
  else if strcasecmp subcmd "set" ∧ remargs ≥ 3 then some .set
  else if strcasecmp subcmd "incrby" ∧ remargs ≥ 3 then some .incrby
  else none

def owtypeOf (owtypename : Sds) : Except String Owtype :=
  if strcasecmp owtypename "wrap" then .ok .wrap
  else if strcasecmp owtypename "sat" then .ok .sat
  else if strcasecmp owtypename "fail" then .ok .fail
  else .error "Invalid OVERFLOW type specified"

/-- An operation from the arguments behind its name. -/
def parseOp (st : Parsed) (opcode : Opcode) (args : List Sds) : Except String Parsed := do
  let (sign, bits) ← getBitfieldTypeFromArgument (args.getD 0 [])
  let bitoffset ← getBitOffsetFromArgument (args.getD 1 []) true bits
  if opcode = .get then
    .ok { st with ops := st.ops ++ [⟨bitoffset, 0, opcode, st.owtype, bits, sign⟩] }
  else
    match Util.string2ll (args.getD 2 []) with
    | none => .error "value is not an integer or out of range"
    | some i64 =>
      .ok { st with
        ops := st.ops ++ [⟨bitoffset, i64, opcode, st.owtype, bits, sign⟩]
        readonly := false
        highestWriteOffset := max st.highestWriteOffset (bitoffset + bits - 1) }

/-- The arguments from the second on. -/
def parseOps (st : Parsed) : List Sds → Except String Parsed
  | [] => .ok st
  | subcmd :: args =>
    match opcodeOf subcmd args.length with
    | some opcode =>
      match parseOp st opcode args with
      | .error err => .error err
      | .ok st => parseOps st (args.drop (3 - if opcode = .get then 1 else 0))
    | none =>
      match args with
      | [] => .error "syntax error"
      | owtypename :: args =>
        if strcasecmp subcmd "overflow" then
          match owtypeOf owtypename with
          | .error err => .error err
          | .ok owtype => parseOps { st with owtype } args
        else .error "syntax error"
termination_by args => args.length
decreasing_by
  · simp
  · simp

/-! ### Operations -/

/-- A null is replied when nothing is written. -/
def signedOp (op : BitfieldOp) (p : Sds) : Option (Option ℤ × Sds) := do
  let oldval ← getSignedBitfield p op.offset op.bits
  let newval :=
    if op.opcode = .incrby then
      newvalue op.owtype (checkSignedBitfieldOverflow oldval op.i64 op.bits op.owtype) (int64 (oldval + op.i64))
    else newvalue op.owtype (checkSignedBitfieldOverflow op.i64 0 op.bits op.owtype) op.i64
  match newval with
  | none => some (none, p)
  | some newval =>
    let retval := if op.opcode = .incrby then newval else oldval
    let p ← setSignedBitfield p op.offset op.bits newval
    some (some retval, p)

def unsignedOp (op : BitfieldOp) (p : Sds) : Option (Option ℤ × Sds) := do
  let oldval ← getUnsignedBitfield p op.offset op.bits
  let newval :=
    if op.opcode = .incrby then
      newvalue op.owtype (checkUnsignedBitfieldOverflow oldval op.i64 op.bits op.owtype) (uint64 (oldval + op.i64))
    else newvalue op.owtype (checkUnsignedBitfieldOverflow (uint64 op.i64) 0 op.bits op.owtype) (uint64 op.i64)
  match newval with
  | none => some (none, p)
  | some newval =>
    let retval := if op.opcode = .incrby then newval else oldval
    let p ← setUnsignedBitfield p op.offset op.bits newval
    some (some (int64 retval), p)

def writeOp (op : BitfieldOp) (p : Sds) : Option (Option ℤ × Sds) := if op.sign then signedOp op p else unsignedOp op p

/-- Up to nine bytes of the string from the byte of the integer on, in a buffer of zeros. -/
def getBuffer (src : Sds) (byte : ℕ) : Sds :=
  let bytes := (src.drop byte).take 9
  bytes ++ List.replicate (9 - bytes.length) 0

def getOp (op : BitfieldOp) (src : Sds) : Option ℤ :=
  let byte := op.offset >>> 3
  let buf := getBuffer src byte
  if op.sign then getSignedBitfield buf (op.offset - byte * 8) op.bits
  else (getUnsignedBitfield buf (op.offset - byte * 8) op.bits).map fun (val : ℕ) => int64 val

/-! ### The command -/

/-- The value of a key, as a string of bytes or the number in its place, or of another type. -/
inductive Value
  | raw (s : Sds)
  | int (v : ℤ)
  | other
deriving DecidableEq, Repr

inductive Reply
  | err (text : String)
  | multi (replies : List (Option ℤ))
deriving DecidableEq, Repr

def wrongtypeerr : String := "-WRONGTYPE Operation against a key holding the wrong kind of value"

def getObjectReadOnlyString : Value → Sds
  | .raw s => s
  | .int v => Streams.ll2string v
  | .other => []

/-- The string that has the bit; an object of its own, so that no other key sees it change. -/
def lookupStringForBitCommand (o : Option Value) (maxbit : ℕ) : Option Sds :=
  let byte := maxbit >>> 3
  match o with
  | none => some (List.replicate (byte + 1) 0)
  | some .other => none
  | some o =>
    let s := getObjectReadOnlyString o
    some (s ++ List.replicate (byte + 1 - s.length) 0)

/-- The loop over the operations: the replies, the string and the count of changes. -/
def execLoop : List BitfieldOp → Sds → Option (List (Option ℤ) × Sds × ℕ)
  | [], p => some ([], p, 0)
  | op :: ops, p =>
    if op.opcode = .get then do
      let val ← getOp op p
      let (replies, p, changes) ← execLoop ops p
      some (some val :: replies, p, changes)
    else do
      let (reply, p) ← writeOp op p
      let (replies, p, changes) ← execLoop ops p
      some (reply :: replies, p, changes + 1)

/-- The reply, the value of the key and what is added to `server.dirty`; none when a byte
behind the string is touched. -/
def bitfieldCommand (o : Option Value) (args : List Sds) : Option (Reply × Option Value × ℕ) :=
  match parseOps {} args with
  | .error err => some (.err err, o, 0)
  | .ok st =>
    if st.readonly then
      if o = some .other then some (.err wrongtypeerr, o, 0)
      else do
        let (replies, _, _) ← execLoop st.ops ((o.map getObjectReadOnlyString).getD [])
        some (.multi replies, o, 0)
    else
      match lookupStringForBitCommand o st.highestWriteOffset with
      | none => some (.err wrongtypeerr, o, 0)
      | some s => do
        let (replies, s, changes) ← execLoop st.ops s
        some (.multi replies, some (.raw s), changes)

/-! ### The checks of the arguments -/

/-- What the parser makes sure of. -/
structure BitfieldOp.Valid (op : BitfieldOp) : Prop where
  pos : 1 ≤ op.bits
  width : op.bits ≤ if op.sign then 64 else 63
  operand : IsInt64 op.i64

theorem bitfieldType_valid {b sign : Bool} {text : Sds} {bits : ℕ} (h : bitfieldType b text = .ok (sign, bits)) :
    1 ≤ bits ∧ bits ≤ if sign then 64 else 63 := by
  unfold bitfieldType at h
  split at h
  · cases h
  · split at h
    · cases h
    · rename_i llbits _ hin
      cases h
      cases b with
      | true =>
        have hwidth : ¬llbits > 64 := fun hw => hin (Or.inr (Or.inl ⟨rfl, hw⟩))
        simp only [if_true]
        omega
      | false =>
        have hwidth : ¬llbits > 63 := fun hw => hin (Or.inr (Or.inr ⟨rfl, hw⟩))
        simp only [Bool.false_eq_true, if_false]
        omega

theorem type_valid {o : Sds} {sign : Bool} {bits : ℕ} (h : getBitfieldTypeFromArgument o = .ok (sign, bits)) :
    1 ≤ bits ∧ bits ≤ if sign then 64 else 63 := by
  unfold getBitfieldTypeFromArgument at h
  split at h
  · exact bitfieldType_valid h
  · split at h
    · exact bitfieldType_valid h
    · cases h

/-- The operations so far are valid, and those that write end at the highest offset at most. -/
structure Parsed.Valid (st : Parsed) : Prop where
  valid : ∀ op ∈ st.ops, op.Valid
  fits : ∀ op ∈ st.ops, op.opcode ≠ .get → st.readonly = false ∧ op.offset + op.bits ≤ st.highestWriteOffset + 1

theorem isInt64_zero : IsInt64 0 := ⟨by decide, by decide⟩

theorem parseOp_valid {st st' : Parsed} {opcode : Opcode} {args : List Sds} (hst : st.Valid)
    (h : parseOp st opcode args = .ok st') : st'.Valid := by
  obtain ⟨⟨sign, bits⟩, htype, h⟩ := Streams.bind_eq_ok h
  obtain ⟨bitoffset, -, h⟩ := Streams.bind_eq_ok h
  have hty := type_valid htype
  split at h
  · rename_i hget
    cases h
    refine ⟨fun op hop => ?_, fun op hop hwrite => ?_⟩
    · rcases List.mem_append.mp hop with hop | hop
      · exact hst.valid op hop
      · rw [List.mem_singleton.mp hop]
        exact ⟨hty.1, hty.2, isInt64_zero⟩
    · rcases List.mem_append.mp hop with hop | hop
      · exact hst.fits op hop hwrite
      · rw [List.mem_singleton.mp hop] at hwrite
        exact absurd hget hwrite
  · split at h
    · cases h
    · rename_i i64 hi64
      cases h
      rw [Util.string2ll_eq] at hi64
      refine ⟨fun op hop => ?_, fun op hop hwrite => ⟨rfl, ?_⟩⟩
      · rcases List.mem_append.mp hop with hop | hop
        · exact hst.valid op hop
        · rw [List.mem_singleton.mp hop]
          exact ⟨hty.1, hty.2, Streams.isInt64_lpStringToInt64 hi64⟩
      · dsimp only
        rcases List.mem_append.mp hop with hop | hop
        · have hle := (hst.fits op hop hwrite).2
          omega
        · rw [List.mem_singleton.mp hop]
          dsimp only
          omega

theorem parseOps_valid {st st' : Parsed} {args : List Sds} (hst : st.Valid) (h : parseOps st args = .ok st') : st'.Valid := by
  fun_induction parseOps st args with
  | case1 st =>
    cases h
    exact hst
  | case3 st subcmd args opcode _ st1 hst1 ih => exact ih (parseOp_valid hst hst1) h
  | case6 st subcmd _ owtypename args _ owtype _ ih => exact ih ⟨hst.valid, hst.fits⟩ h
  | case2 => cases h
  | case4 => cases h
  | case5 => cases h
  | case7 => cases h

/-! ### What an operation does -/

/-- The integer in the bits of a string. -/
def field (sign : Bool) (bits : ℕ) (p : Sds) (offset : ℕ) : ℤ := reduced sign bits (number p offset bits)

/-- The string holds an integer, and is otherwise what it was. -/
def Holds (op : BitfieldOp) (p : Sds) (v : ℤ) (p' : Sds) : Prop :=
  p'.length = p.length ∧ field op.sign op.bits p' op.offset = v ∧
    ∀ i, i < op.offset ∨ op.offset + op.bits ≤ i → bit p' i = bit p i

/-- What an operation is to compute from the integer there. -/
def result (op : BitfieldOp) (old : ℤ) : ℤ := if op.opcode = .incrby then old + op.i64 else op.i64

/-- What is written; none when nothing is. -/
def written (op : BitfieldOp) (old : ℤ) : Option ℤ :=
  if op.sign then
    let oldval := if op.bits = 64 ∧ old < 0 then -1 else old
    if op.opcode = .incrby then
      newvalue op.owtype (checkSignedBitfieldOverflow oldval op.i64 op.bits op.owtype) (int64 (oldval + op.i64))
    else newvalue op.owtype (checkSignedBitfieldOverflow op.i64 0 op.bits op.owtype) op.i64
  else
    (if op.opcode = .incrby then
      newvalue op.owtype (checkUnsignedBitfieldOverflow old.toNat op.i64 op.bits op.owtype) (uint64 (old.toNat + op.i64))
    else newvalue op.owtype (checkUnsignedBitfieldOverflow (uint64 op.i64) 0 op.bits op.owtype) (uint64 op.i64)).map Int.ofNat

variable {op : BitfieldOp} {p : Sds}

theorem field_true (hsign : op.sign = true) :
    field op.sign op.bits p op.offset = signed op.bits (number p op.offset op.bits) := by
  rw [hsign]
  rfl

theorem field_false (hsign : op.sign = false) : field op.sign op.bits p op.offset = number p op.offset op.bits := by
  have hlt : ((number p op.offset op.bits : ℕ) : ℤ) < 2 ^ op.bits := by exact_mod_cast BigBits.number_lt p op.offset op.bits
  rw [hsign]
  exact Int.emod_eq_of_lt (Int.natCast_nonneg _) hlt

/-- **The spec of a writing operation.** -/
theorem writeOp_spec (hop : op.Valid) (hfit : op.offset + op.bits ≤ 8 * p.length) :
    ∃ reply p', writeOp op p = some (reply, p') ∧
      match written op (field op.sign op.bits p op.offset) with
      | none => reply = none ∧ p' = p
      | some v => reply ≠ none ∧ Holds op p (reduced op.sign op.bits v) p' := by
  have hwidth : op.bits ≤ 64 := by
    have h := hop.width
    split at h
    · exact h
    · omega
  unfold writeOp written
  cases hsign : op.sign with
  | true =>
    have hfield := field_true (p := p) hsign
    rw [hsign] at hfield
    rw [if_pos rfl, if_pos rfl, hfield, signedOp, getSignedBitfield_spec hfit hop.pos hwidth, some_bind]
    have hold : (if op.bits = 64 ∧ signed 64 (number p op.offset op.bits) < 0 then -1 else signed op.bits (number p op.offset op.bits)) =
        if op.bits = 64 ∧ signed op.bits (number p op.offset op.bits) < 0 then -1 else signed op.bits (number p op.offset op.bits) := by
      by_cases hfull : op.bits = 64
      · rw [hfull]
      · rw [if_neg (fun h => hfull h.1), if_neg (fun h => hfull h.1)]
    rw [hold]
    dsimp only
    generalize (if op.bits = 64 ∧ signed op.bits (number p op.offset op.bits) < 0 then -1
      else signed op.bits (number p op.offset op.bits)) = oldval
    generalize (if op.opcode = .incrby then newvalue op.owtype (checkSignedBitfieldOverflow oldval op.i64 op.bits op.owtype)
      (int64 (oldval + op.i64)) else newvalue op.owtype (checkSignedBitfieldOverflow op.i64 0 op.bits op.owtype) op.i64) = newval
    cases newval with
    | none => exact ⟨none, p, rfl, rfl, rfl⟩
    | some v =>
      obtain ⟨p', hset, hlen, hnum, hframe⟩ := setUnsignedBitfield_spec hfit (uint64 v)
      dsimp only
      rw [setSignedBitfield, hset, some_bind]
      refine ⟨_, p', rfl, Option.some_ne_none _, hlen, ?_, hframe⟩
      rw [hsign]
      change signed op.bits _ = signed op.bits v
      rw [hnum]
      refine signed_congr hop.pos ?_
      rw [Int.natCast_emod, uint64_emod, Int.natCast_pow, Nat.cast_ofNat, Int.emod_emod_of_dvd _ (dvd_refl _)]
      exact Int.emod_emod_of_dvd v (pow_dvd_pow 2 hwidth)
  | false =>
    have hfield := field_false (p := p) hsign
    rw [hsign] at hfield
    rw [if_neg Bool.false_ne_true, if_neg Bool.false_ne_true, hfield, unsignedOp, getUnsignedBitfield_spec hfit hwidth,
      some_bind, Int.toNat_natCast]
    dsimp only
    generalize (if op.opcode = .incrby then newvalue op.owtype
      (checkUnsignedBitfieldOverflow (number p op.offset op.bits) op.i64 op.bits op.owtype)
      (uint64 ((number p op.offset op.bits : ℕ) + op.i64)) else
        newvalue op.owtype (checkUnsignedBitfieldOverflow (uint64 op.i64) 0 op.bits op.owtype) (uint64 op.i64)) = newval
    cases newval with
    | none => exact ⟨none, p, rfl, rfl, rfl⟩
    | some v =>
      obtain ⟨p', hset, hlen, hnum, hframe⟩ := setUnsignedBitfield_spec hfit v
      dsimp only
      rw [hset, some_bind]
      refine ⟨_, p', rfl, Option.some_ne_none _, hlen, ?_, hframe⟩
      rw [hsign]
      change ((number p' op.offset op.bits : ℕ) : ℤ) % 2 ^ op.bits = (v : ℤ) % 2 ^ op.bits
      rw [hnum, Int.natCast_emod, Int.natCast_pow, Nat.cast_ofNat, Int.emod_emod_of_dvd _ (dvd_refl _)]

/-! ### When an operation is exact -/

/-- What is to be stored is, and there is a null and no change when nothing is to be. -/
def Exact (op : BitfieldOp) (p : Sds) : Prop :=
  ∃ reply p', writeOp op p = some (reply, p') ∧
    match stored op.owtype op.sign op.bits (result op (field op.sign op.bits p op.offset)) with
    | none => reply = none ∧ p' = p
    | some v => reply ≠ none ∧ Holds op p v p'

/-- The operations that are, by the integer there. -/
def Stores (op : BitfieldOp) (old : ℤ) : Prop :=
  match op.opcode with
  | .incrby => op.sign = true ∧ op.bits = 64 →
      if old < -1 then
        (op.i64 = -2 ^ 63 ∧ (op.owtype = .wrap → old = -2 ^ 63)) ∨ (op.i64 = -2 ^ 63 + 1 ∧ op.owtype = .sat)
      else ¬(op.owtype = .wrap ∧ (old + op.i64 < -2 ^ 63 ∨ 2 ^ 63 ≤ old + op.i64))
  | _ => op.owtype = .sat → if op.sign then op.bits = 64 ∨ 2 ^ (op.bits - 1) - 2 ^ 63 ≤ op.i64 else 0 ≤ op.i64

theorem exact_iff (hop : op.Valid) (hfit : op.offset + op.bits ≤ 8 * p.length) :
    Exact op p ↔ (written op (field op.sign op.bits p op.offset)).map (reduced op.sign op.bits) =
      stored op.owtype op.sign op.bits (result op (field op.sign op.bits p op.offset)) := by
  obtain ⟨reply, p', hrun, hspec⟩ := writeOp_spec hop hfit
  unfold Exact
  rw [hrun]
  generalize stored op.owtype op.sign op.bits (result op (field op.sign op.bits p op.offset)) = want
  generalize written op (field op.sign op.bits p op.offset) = got at hspec ⊢
  constructor
  · intro ⟨reply1, p1, heq, hexact⟩
    cases heq
    cases got with
    | none =>
      cases want with
      | none => rfl
      | some v => exact absurd hspec.1 hexact.1
    | some w =>
      cases want with
      | none => exact absurd hexact.1 hspec.1
      | some v => exact congrArg some (hspec.2.2.1.symm.trans hexact.2.2.1)
  · intro heq
    refine ⟨reply, p', rfl, ?_⟩
    cases got with
    | none =>
      subst heq
      exact hspec
    | some w =>
      subst heq
      exact hspec

variable {bits : ℕ} {sign : Bool} {owtype : Owtype}

theorem reduced_of_range {v : ℤ} (hpos : 1 ≤ bits) (hlo : minimum sign bits ≤ v) (hhi : v ≤ maximum sign bits) :
    reduced sign bits v = v := by
  cases sign with
  | true => exact signed_of_range hpos hlo (Int.lt_of_le_sub_one hhi)
  | false => exact Int.emod_eq_of_lt hlo (Int.lt_of_le_sub_one hhi)

theorem reduced_range (hpos : 1 ≤ bits) (v : ℤ) : minimum sign bits ≤ reduced sign bits v ∧ reduced sign bits v ≤ maximum sign bits := by
  cases sign with
  | true =>
    obtain ⟨hlo, hhi⟩ := signed_range hpos v
    exact ⟨hlo, Int.le_sub_one_of_lt hhi⟩
  | false =>
    exact ⟨Int.emod_nonneg v (by positivity), Int.le_sub_one_of_lt (Int.emod_lt_of_pos v (by positivity))⟩

theorem minimum_lt_maximum (hpos : 1 ≤ bits) : minimum sign bits < maximum sign bits := by
  have hpow : (0 : ℤ) < 2 ^ (bits - 1) := by positivity
  have hhalf := two_mul_half hpos
  cases sign with
  | true =>
    show -2 ^ (bits - 1) < 2 ^ (bits - 1) - 1
    omega
  | false =>
    show 0 < 2 ^ bits - 1
    omega

/-- What is stored is in the range. -/
theorem stored_reduced (hpos : 1 ≤ bits) (v : ℤ) :
    (stored owtype sign bits v).map (reduced sign bits) = stored owtype sign bits v := by
  have hlt := @minimum_lt_maximum bits sign hpos
  unfold stored
  split
  · rename_i hin
    exact congrArg some (reduced_of_range hpos hin.1 hin.2)
  · cases owtype with
    | wrap =>
      obtain ⟨hlo, hhi⟩ := @reduced_range bits sign hpos v
      exact congrArg some (reduced_of_range hpos hlo hhi)
    | sat =>
      refine congrArg some ?_
      split
      · exact reduced_of_range hpos (le_refl _) (Int.le_of_lt hlt)
      · exact reduced_of_range hpos (Int.le_of_lt hlt) (le_refl _)
    | fail => rfl

/-- Below the range the maximum is not what is to be stored. -/
theorem saturates_wrong {v : ℤ} (hpos : 1 ≤ bits) (hv : v < minimum sign bits) :
    (some (maximum sign bits)).map (reduced sign bits) ≠ stored .sat sign bits v := by
  have hlt := @minimum_lt_maximum bits sign hpos
  unfold stored
  rw [if_neg (by omega), Option.map_some, reduced_of_range hpos (Int.le_of_lt hlt) (le_refl _)]
  dsimp only
  rw [if_pos hv]
  intro heq
  have hval := Option.some.inj heq
  omega

theorem set_stores (hop : op.Valid) (hset : op.opcode ≠ .incrby) {old : ℤ} :
    (written op old).map (reduced op.sign op.bits) = stored op.owtype op.sign op.bits (result op old) ↔
      (op.owtype = .sat → if op.sign then op.bits = 64 ∨ 2 ^ (op.bits - 1) - 2 ^ 63 ≤ op.i64 else 0 ≤ op.i64) := by
  have hwidth := hop.width
  unfold written result
  rw [if_neg hset]
  cases hsign : op.sign with
  | true =>
    rw [hsign, if_pos rfl] at hwidth
    rw [if_pos rfl, if_pos rfl, if_neg hset]
    by_cases hfull : op.bits = 64
    · rw [hfull, full_set hop.operand]
      have hlo : minimum true 64 ≤ op.i64 := hop.operand.1
      have hhi : op.i64 ≤ maximum true 64 := Int.le_sub_one_of_lt hop.operand.2
      rw [stored_fits hlo hhi, Option.map_some, reduced_of_range (by decide) hlo hhi]
      exact ⟨fun _ _ => Or.inl rfl, fun _ => rfl⟩
    · rw [signed_set hop.pos (by omega) hop.operand]
      by_cases hfar : op.owtype = .sat ∧ op.i64 < 2 ^ (op.bits - 1) - 2 ^ 63
      · have hpow : (2 : ℤ) ^ (op.bits - 1) ≤ 2 ^ 62 := pow_le_pow_right₀ (by decide) (by omega)
        have hbelow : op.i64 < minimum true op.bits := by
          show op.i64 < -2 ^ (op.bits - 1)
          omega
        rw [if_pos hfar, hfar.1]
        refine ⟨fun heq => absurd heq (saturates_wrong hop.pos hbelow), fun h => ?_⟩
        rcases h rfl with h | h
        · exact absurd h hfull
        · omega
      · rw [if_neg hfar]
        refine ⟨fun _ hsat => Or.inr (Int.not_lt.mp fun h => hfar ⟨hsat, h⟩), fun _ => stored_reduced hop.pos _⟩
  | false =>
    rw [hsign, if_neg Bool.false_ne_true] at hwidth
    rw [if_neg Bool.false_ne_true, if_neg Bool.false_ne_true, if_neg hset, if_neg hset, unsigned_set hwidth hop.operand]
    by_cases hneg : op.owtype = .sat ∧ op.i64 < 0
    · have hbelow : op.i64 < minimum false op.bits := hneg.2
      rw [if_pos hneg, hneg.1]
      exact ⟨fun heq => absurd heq (saturates_wrong hop.pos hbelow), fun h => absurd (h rfl) (Int.not_le.mpr hneg.2)⟩
    · rw [if_neg hneg]
      exact ⟨fun _ hsat => Int.not_lt.mp fun h => hneg ⟨hsat, h⟩, fun _ => stored_reduced hop.pos _⟩

/-! ### INCRBY of 64 bits -/

theorem stored_wrap_full {v : ℤ} (hlo : -2 ^ 64 ≤ v) (hhi : v < 2 ^ 64) :
    stored .wrap true 64 v = some (if v < -2 ^ 63 then v + 2 ^ 64 else if 2 ^ 63 ≤ v then v - 2 ^ 64 else v) := by
  unfold stored
  rw [show minimum true 64 = -2 ^ 63 from rfl, show maximum true 64 = 2 ^ 63 - 1 from rfl,
    show reduced true 64 v = (v + 2 ^ 63) % (2 * 2 ^ 63) - 2 ^ 63 from rfl]
  by_cases hbelow : v < -2 ^ 63
  · rw [if_neg (by omega), if_pos hbelow]
    exact congrArg some (by omega)
  · by_cases habove : 2 ^ 63 ≤ v
    · rw [if_neg (by omega), if_neg hbelow, if_pos habove]
      exact congrArg some (by omega)
    · rw [if_pos (by omega), if_neg hbelow, if_neg habove]

theorem stored_sat_full (v : ℤ) :
    stored .sat true 64 v = some (if v < -2 ^ 63 then -2 ^ 63 else if 2 ^ 63 ≤ v then 2 ^ 63 - 1 else v) := by
  unfold stored
  rw [show minimum true 64 = -2 ^ 63 from rfl, show maximum true 64 = 2 ^ 63 - 1 from rfl]
  by_cases hbelow : v < -2 ^ 63
  · rw [if_neg (by omega), if_pos hbelow]
    dsimp only
    rw [if_pos hbelow]
  · by_cases habove : 2 ^ 63 ≤ v
    · rw [if_neg (by omega), if_neg hbelow, if_pos habove]
      dsimp only
      rw [if_neg hbelow]
    · rw [if_pos (by omega), if_neg hbelow, if_neg habove]

theorem stored_fail_full (v : ℤ) : stored .fail true 64 v = if v < -2 ^ 63 ∨ 2 ^ 63 ≤ v then none else some v := by
  unfold stored
  rw [show minimum true 64 = -2 ^ 63 from rfl, show maximum true 64 = 2 ^ 63 - 1 from rfl]
  by_cases hout : v < -2 ^ 63 ∨ 2 ^ 63 ≤ v
  · rw [if_neg (by omega), if_pos hout]
  · rw [if_pos (by omega), if_neg hout]

/-- What INCRBY of 64 bits stores, and when it is what is to be stored. -/
theorem full_stores {old i : ℤ} (hold : IsInt64 old) (hi : IsInt64 i) :
    ((if owtype = .wrap ∧ (if old < 0 then -1 else old) + i < -2 ^ 63 then some 0
      else if owtype = .wrap ∧ 2 ^ 63 ≤ (if old < 0 then -1 else old) + i then some (-1)
      else stored owtype true 64 ((if old < 0 then -1 else old) + i)) = stored owtype true 64 (old + i)) ↔
      if old < -1 then (i = -2 ^ 63 ∧ (owtype = .wrap → old = -2 ^ 63)) ∨ (i = -2 ^ 63 + 1 ∧ owtype = .sat)
      else ¬(owtype = .wrap ∧ (old + i < -2 ^ 63 ∨ 2 ^ 63 ≤ old + i)) := by
  obtain ⟨holo, hohi⟩ := hold
  obtain ⟨hlo, hhi⟩ := hi
  by_cases hlow : old < -1
  · rw [if_pos (show old < 0 by omega), if_pos hlow, if_neg (c := _ ∧ 2 ^ 63 ≤ -1 + i) (by omega)]
    cases owtype with
    | wrap =>
      rw [stored_wrap_full (v := -1 + i) (by omega) (by omega), stored_wrap_full (by omega) (by omega)]
      simp only [true_and, reduceCtorEq, and_false, or_false, forall_const]
      split
      · rw [Option.some.injEq]
        split
        · omega
        · omega
      · rw [Option.some.injEq]
        split
        · omega
        · split
          · omega
          · omega
    | sat =>
      rw [stored_sat_full, stored_sat_full]
      simp only [reduceCtorEq, false_and, if_false, false_implies, and_true, Option.some.injEq]
      split
      · split
        · omega
        · split
          · omega
          · omega
      · split
        · omega
        · split
          · omega
          · split
            · omega
            · omega
    | fail =>
      rw [stored_fail_full, stored_fail_full]
      simp only [reduceCtorEq, false_and, if_false, false_implies, and_true, and_false, or_false]
      split
      · split
        · exact ⟨fun _ => by omega, fun _ => rfl⟩
        · exact ⟨fun h => (nomatch h), fun h => by omega⟩
      · split
        · exact ⟨fun h => (nomatch h), fun h => by omega⟩
        · rw [Option.some.injEq]
          omega
  · have hold : (if old < 0 then -1 else old) = old := by
      split
      · omega
      · rfl
    rw [hold, if_neg hlow]
    by_cases hwrap : owtype = .wrap
    · subst hwrap
      rw [stored_wrap_full (by omega) (by omega)]
      simp only [true_and]
      split
      · rw [Option.some.injEq]
        omega
      · split
        · rw [Option.some.injEq]
          omega
        · rename_i hnb hna
          exact ⟨fun _ h => h.elim hnb hna, fun _ => rfl⟩
    · rw [if_neg (fun h => hwrap h.1), if_neg (fun h => hwrap h.1)]
      exact ⟨fun _ h => hwrap h.1, fun _ => rfl⟩

theorem incrby_stores (hop : op.Valid) (hincr : op.opcode = .incrby) {old : ℤ} (hlo : minimum op.sign op.bits ≤ old)
    (hhi : old ≤ maximum op.sign op.bits) :
    (written op old).map (reduced op.sign op.bits) = stored op.owtype op.sign op.bits (result op old) ↔
      (op.sign = true ∧ op.bits = 64 →
        if old < -1 then
          (op.i64 = -2 ^ 63 ∧ (op.owtype = .wrap → old = -2 ^ 63)) ∨ (op.i64 = -2 ^ 63 + 1 ∧ op.owtype = .sat)
        else ¬(op.owtype = .wrap ∧ (old + op.i64 < -2 ^ 63 ∨ 2 ^ 63 ≤ old + op.i64))) := by
  have hwidth := hop.width
  unfold written result
  rw [if_pos hincr]
  cases hsign : op.sign with
  | true =>
    rw [hsign] at hlo hhi hwidth
    rw [if_pos rfl] at hwidth
    rw [if_pos rfl, if_pos hincr]
    by_cases hfull : op.bits = 64
    · rw [hfull] at hlo hhi ⊢
      have hold : IsInt64 old := ⟨hlo, Int.lt_of_le_sub_one hhi⟩
      have hread : IsInt64 (if 64 = 64 ∧ old < 0 then -1 else old) := by
        split
        · exact ⟨by decide, by decide⟩
        · exact hold
      have hcond : (if 64 = 64 ∧ old < 0 then -1 else old) = if old < 0 then -1 else old := by
        simp only [true_and]
      rw [full_incrby hread hop.operand, hcond]
      have hmap : ∀ (c d : Prop) [Decidable c] [Decidable d] (w : ℤ),
          (if c then some 0 else if d then some (-1) else stored op.owtype true 64 w).map (reduced true 64) =
            if c then some 0 else if d then some (-1) else stored op.owtype true 64 w := by
        intro c d _ _ w
        split
        · rfl
        · split
          · rfl
          · exact stored_reduced (by decide) w
      rw [hmap, full_stores hold hop.operand]
      exact ⟨fun h _ => h, fun h => h ⟨rfl, rfl⟩⟩
    · rw [if_neg (fun h => hfull h.1), signed_incrby hop.pos (by omega) hlo (Int.lt_of_le_sub_one hhi) hop.operand,
        stored_reduced hop.pos]
      exact ⟨fun _ h => absurd h.2 hfull, fun _ => rfl⟩
  | false =>
    rw [hsign] at hlo hhi hwidth
    rw [if_neg Bool.false_ne_true] at hwidth
    have hnn : 0 ≤ old := hlo
    have hmax : old ≤ 2 ^ op.bits - 1 := hhi
    have hnat : ((old.toNat : ℕ) : ℤ) = old := Int.toNat_of_nonneg hnn
    have hlt : old.toNat < 2 ^ op.bits := by
      have hlt' : ((old.toNat : ℕ) : ℤ) < 2 ^ op.bits := by omega
      exact_mod_cast hlt'
    rw [if_neg Bool.false_ne_true, if_pos hincr, if_pos hincr, unsigned_incrby hwidth hlt hop.operand, hnat, stored_reduced hop.pos]
    exact ⟨fun _ h => absurd h.1 Bool.false_ne_true, fun _ => rfl⟩

/-- **When a writing operation is exact.** -/
theorem exact_iff_stores (hop : op.Valid) (hwrite : op.opcode ≠ .get) (hfit : op.offset + op.bits ≤ 8 * p.length) :
    Exact op p ↔ Stores op (field op.sign op.bits p op.offset) := by
  obtain ⟨hlo, hhi⟩ := @reduced_range op.bits op.sign hop.pos (number p op.offset op.bits)
  rw [exact_iff hop hfit]
  unfold Stores
  cases hcode : op.opcode with
  | get => exact absurd hcode hwrite
  | set => exact set_stores hop (by rw [hcode]; decide)
  | incrby => exact incrby_stores hop hcode hlo hhi

/-! ### GET -/

theorem length_getBuffer (src : Sds) (byte : ℕ) : (getBuffer src byte).length = 9 := by
  unfold getBuffer
  rw [List.length_append, List.length_replicate]
  have hle := List.length_take_le 9 (src.drop byte)
  omega

theorem bit_getBuffer (src : Sds) (byte : ℕ) {i : ℕ} (hi : i < 72) : bit (getBuffer src byte) i = bit src (byte * 8 + i) := by
  have hbyte : ((getBuffer src byte)[i / 8]?).getD 0 = (src[byte + i / 8]?).getD 0 := by
    unfold getBuffer
    dsimp only
    by_cases hin : i / 8 < ((src.drop byte).take 9).length
    · rw [List.getElem?_append_left hin, List.getElem?_take_of_lt (by omega), List.getElem?_drop]
    · have hout : src.length ≤ byte + i / 8 := by
        rw [List.length_take, List.length_drop] at hin
        omega
      rw [List.getElem?_append_right (by omega), List.getElem?_eq_none hout, List.getElem?_replicate]
      split
      · rfl
      · rfl
  unfold bit
  rw [hbyte, show (byte * 8 + i) / 8 = byte + i / 8 by omega, show (byte * 8 + i) % 8 = i % 8 by omega]

/-- **The spec of GET.** The string is read as if zeros followed it. -/
theorem getOp_spec (hop : op.Valid) :
    getOp op p = some (if op.sign = true ∧ op.bits = 64 ∧ field op.sign op.bits p op.offset < 0 then -1
      else field op.sign op.bits p op.offset) := by
  have hwidth := hop.width
  have hpos := hop.pos
  have h64 : op.bits ≤ 64 := by
    split at hwidth
    · exact hwidth
    · omega
  have hoff : op.offset - op.offset >>> 3 * 8 = op.offset % 8 := by
    rw [shiftRight_three]
    omega
  have hfit : op.offset % 8 + op.bits ≤ 8 * (getBuffer p (op.offset >>> 3)).length := by
    rw [length_getBuffer]
    omega
  have hnum : number (getBuffer p (op.offset >>> 3)) (op.offset % 8) op.bits = number p op.offset op.bits := by
    refine BigBits.number_congr fun i hi => ?_
    rw [bit_getBuffer p _ (by omega), shiftRight_three]
    congr 1
    omega
  unfold getOp
  dsimp only
  rw [hoff]
  cases hsign : op.sign with
  | true =>
    have hfield := field_true (p := p) hsign
    rw [hsign] at hfield
    rw [if_pos rfl, getSignedBitfield_spec hfit hop.pos h64, hnum, hfield]
    by_cases hfull : op.bits = 64
    · rw [hfull]
      simp only [true_and]
    · rw [if_neg (fun h => hfull h.1), if_neg (fun h => hfull h.2.1)]
  | false =>
    have hfield := field_false (p := p) hsign
    rw [hsign] at hfield hwidth
    have hlt : ((number p op.offset op.bits : ℕ) : ℤ) < 2 ^ 63 := by
      exact_mod_cast Nat.lt_of_lt_of_le (BigBits.number_lt p op.offset op.bits) (Nat.pow_le_pow_right Nat.two_pos hwidth)
    rw [if_neg Bool.false_ne_true, getUnsignedBitfield_spec hfit h64, hnum, Option.map_some, hfield,
      if_neg (fun h => Bool.false_ne_true h.1), int64_eq, signed_of_range (by decide) (by omega) (by omega)]

/-! ### The command -/

/-- No operation writes the bit. -/
def Outside (ops : List BitfieldOp) (i : ℕ) : Prop := ∀ op ∈ ops, op.opcode ≠ .get → i < op.offset ∨ op.offset + op.bits ≤ i

/-- No byte behind the string is touched, its length stays, and so do the bits that are not written. -/
theorem execLoop_total : ∀ (ops : List BitfieldOp) {p : Sds},
    (∀ op ∈ ops, op.Valid ∧ (op.opcode ≠ .get → op.offset + op.bits ≤ 8 * p.length)) →
    ∃ replies p' changes, execLoop ops p = some (replies, p', changes) ∧ p'.length = p.length ∧ ∀ i, Outside ops i → bit p' i = bit p i := by
  intro ops
  induction ops with
  | nil =>
    intro p _
    exact ⟨[], p, 0, rfl, rfl, fun _ _ => rfl⟩
  | cons op ops ih =>
    intro p hops
    have hop := hops op List.mem_cons_self
    have hrest : ∀ {i}, Outside (op :: ops) i → Outside ops i := fun hi o ho => hi o (List.mem_cons_of_mem op ho)
    rw [execLoop]
    by_cases hget : op.opcode = .get
    · obtain ⟨replies, p', changes, hrun, hlen, hkeep⟩ := ih fun o ho => hops o (List.mem_cons_of_mem op ho)
      rw [if_pos hget, getOp_spec hop.1, some_bind, hrun, some_bind]
      exact ⟨_, p', changes, rfl, hlen, fun i hi => hkeep i (hrest hi)⟩
    · obtain ⟨reply, p1, hwrite, hspec⟩ := writeOp_spec hop.1 (hop.2 hget)
      have hstep : p1.length = p.length ∧ ∀ i, i < op.offset ∨ op.offset + op.bits ≤ i → bit p1 i = bit p i := by
        split at hspec
        · rw [hspec.2]
          exact ⟨rfl, fun _ _ => rfl⟩
        · exact ⟨hspec.2.1, hspec.2.2.2⟩
      obtain ⟨replies, p', changes, hrun, hlen, hkeep⟩ := ih (p := p1) fun o ho => by
        rw [hstep.1]
        exact hops o (List.mem_cons_of_mem op ho)
      rw [if_neg hget, hwrite, some_bind]
      dsimp only
      rw [hrun, some_bind]
      exact ⟨_, p', changes + 1, rfl, hlen.trans hstep.1, fun i hi =>
        (hkeep i (hrest hi)).trans (hstep.2 i (hi op List.mem_cons_self hget))⟩

/-- The string is long enough for the operations that write. -/
theorem lookupStringForBitCommand_length {o : Option Value} {maxbit : ℕ} {s : Sds}
    (h : lookupStringForBitCommand o maxbit = some s) : maxbit + 1 ≤ 8 * s.length := by
  have hgrow : ∀ t : Sds, maxbit + 1 ≤ 8 * (t ++ List.replicate (maxbit >>> 3 + 1 - t.length) 0).length := by
    intro t
    rw [List.length_append, List.length_replicate, shiftRight_three]
    omega
  unfold lookupStringForBitCommand at h
  dsimp only at h
  split at h
  · cases h
    rw [List.length_replicate, shiftRight_three]
    omega
  · cases h
  · cases h
    exact hgrow _

/-- **BITFIELD never touches a byte behind the string**, and what no operation writes is as it was in the string, made as
long as the writes ask for. -/
theorem bitfieldCommand_frame (o : Option Value) (args : List Sds) : ∃ reply o' changes, bitfieldCommand o args = some (reply, o', changes) ∧
    (o' = o ∨ ∃ st s s', parseOps {} args = .ok st ∧ lookupStringForBitCommand o st.highestWriteOffset = some s ∧ o' = some (.raw s') ∧
      s'.length = s.length ∧ ∀ i, Outside st.ops i → bit s' i = bit s i) := by
  unfold bitfieldCommand
  cases hparse : parseOps {} args with
  | error err => exact ⟨_, _, _, rfl, .inl rfl⟩
  | ok st =>
    have hst : st.Valid := parseOps_valid ⟨fun _ h => absurd h List.not_mem_nil, fun _ h => absurd h List.not_mem_nil⟩ hparse
    dsimp only
    split
    · rename_i hro
      split
      · exact ⟨_, _, _, rfl, .inl rfl⟩
      · obtain ⟨replies, p', changes, hrun, -⟩ := execLoop_total st.ops (p := (o.map getObjectReadOnlyString).getD [])
          fun op hop => ⟨hst.valid op hop, fun hget => absurd ((hst.fits op hop hget).1.symm.trans hro) Bool.false_ne_true⟩
        rw [hrun]
        exact ⟨_, _, _, rfl, .inl rfl⟩
    · cases hlookup : lookupStringForBitCommand o st.highestWriteOffset with
      | none => exact ⟨_, _, _, rfl, .inl rfl⟩
      | some s =>
        have hlen := lookupStringForBitCommand_length hlookup
        obtain ⟨replies, s', changes, hrun, hframe⟩ := execLoop_total st.ops (p := s)
          fun op hop => ⟨hst.valid op hop, fun hget => Nat.le_trans (hst.fits op hop hget).2 hlen⟩
        dsimp only
        rw [hrun]
        exact ⟨_, _, _, rfl, .inr ⟨st, s, s', rfl, hlookup, rfl, hframe⟩⟩

/-! ### Offsets -/

/-- An offset `#N` that is accepted is `N` times the width, but for those whose product is
taken for a small number as it wraps. -/
theorem offset_iff {o : Sds} {bits : ℕ} {n : ℤ} (hpos : 1 ≤ bits) (hhash : o.head? = some 35) (hn : Util.string2ll (o.drop 1) = some n) :
    (∀ off, getBitOffsetFromArgument o true bits = .ok off → (off : ℤ) = n * bits) ↔
      (0 ≤ n * bits ∧ n * bits < 2 ^ 32) ∨ 2 ^ 32 ≤ n * bits % 2 ^ 64 := by
  have huse : o.head? = some 35 ∧ true = true ∧ bits > 0 := ⟨hhash, rfl, hpos⟩
  unfold getBitOffsetFromArgument
  dsimp only
  rw [if_pos huse, hn]
  dsimp only
  rw [if_pos huse, shiftRight_three]
  have hwrap : int64 (n * bits) = (n * bits + 2 ^ 63) % (2 * 2 ^ 63) - 2 ^ 63 := rfl
  generalize n * (bits : ℤ) = x at hwrap ⊢
  rw [hwrap]
  split
  · rename_i hbad
    refine ⟨fun _ => ?_, fun _ off h => by cases h⟩
    omega
  · rename_i hok
    constructor
    · intro h
      have hx := h _ rfl
      omega
    · intro h off heq
      cases heq
      omega

/-! ### The command is exact -/

/-- What is written is read, and no other bit is changed. -/
def UnsignedRoundTrip (p : Sds) (offset bits value : ℕ) : Prop :=
  ∃ p', setUnsignedBitfield p offset bits value = some p' ∧ getUnsignedBitfield p' offset bits = some (value % 2 ^ bits) ∧
    p'.length = p.length ∧ ∀ i, i < offset ∨ offset + bits ≤ i → bit p' i = bit p i

def SignedRoundTrip (p : Sds) (offset bits : ℕ) (value : ℤ) : Prop :=
  ∃ p', setSignedBitfield p offset bits value = some p' ∧ getSignedBitfield p' offset bits = some (signed bits value) ∧
    p'.length = p.length ∧ ∀ i, i < offset ∨ offset + bits ≤ i → bit p' i = bit p i

theorem unsignedRoundTrip {p : Sds} {offset bits : ℕ} (value : ℕ) (hbits : bits ≤ 64) (hfit : offset + bits ≤ 8 * p.length) :
    UnsignedRoundTrip p offset bits value := by
  obtain ⟨p', hset, hlen, hnum, hframe⟩ := setUnsignedBitfield_spec hfit value
  refine ⟨p', hset, ?_, hlen, hframe⟩
  rw [getUnsignedBitfield_spec (by rw [hlen]; exact hfit) hbits, hnum]

theorem signedRoundTrip_iff {p : Sds} {offset bits : ℕ} {value : ℤ} (hpos : 1 ≤ bits) (hbits : bits ≤ 64)
    (hfit : offset + bits ≤ 8 * p.length) (hvalue : IsInt64 value) :
    SignedRoundTrip p offset bits value ↔ ¬(bits = 64 ∧ value < -1) := by
  obtain ⟨p', hset, hlen, hnum, hframe⟩ := setUnsignedBitfield_spec hfit (uint64 value)
  have hget := getSignedBitfield_spec (p := p') (by rw [hlen]; exact hfit) hpos hbits
  have hval : signed bits (number p' offset bits) = signed bits value := by
    refine signed_congr hpos ?_
    rw [hnum, Int.natCast_emod, uint64_emod, Int.natCast_pow, Nat.cast_ofNat, Int.emod_emod_of_dvd _ (dvd_refl _)]
    exact Int.emod_emod_of_dvd value (pow_dvd_pow 2 hbits)
  have hfull : bits = 64 → signed bits value = value := by
    intro h
    subst h
    exact signed_of_range hpos hvalue.1 hvalue.2
  have hread : getSignedBitfield p' offset bits = some (if bits = 64 ∧ value < 0 then -1 else signed bits value) := by
    rw [hget, hval]
    by_cases h : bits = 64
    · have hsame := hfull h
      subst h
      rw [hval, hsame]
    · rw [if_neg (fun hh => h hh.1), if_neg (fun hh => h hh.1)]
  constructor
  · intro ⟨p1, hset1, hget1, _, _⟩ ⟨hbits64, hlow⟩
    have hsame : p1 = p' := Option.some.inj (hset1.symm.trans hset)
    rw [hsame, hread, if_pos ⟨hbits64, by omega⟩, hfull hbits64] at hget1
    have hval1 := Option.some.inj hget1
    omega
  · intro hcond
    refine ⟨p', hset, ?_, hlen, hframe⟩
    rw [hread]
    by_cases hneg : bits = 64 ∧ value < 0
    · rw [if_pos hneg, hfull hneg.1]
      exact congrArg some (by omega)
    · rw [if_neg hneg]

/-- **BITFIELD, where it is exact.** -/
theorem bitfield_exact (p : Sds) :
    (∀ offset bits value : ℕ, 1 ≤ bits → bits ≤ 63 → offset + bits ≤ 8 * p.length → UnsignedRoundTrip p offset bits value) ∧
    (∀ (offset bits : ℕ) (value : ℤ), 1 ≤ bits → bits ≤ 64 → offset + bits ≤ 8 * p.length → IsInt64 value →
      (SignedRoundTrip p offset bits value ↔ ¬(bits = 64 ∧ value < -1))) ∧
    (∀ op : BitfieldOp, op.Valid → op.opcode ≠ .get → op.offset + op.bits ≤ 8 * p.length →
      (Exact op p ↔ Stores op (field op.sign op.bits p op.offset))) ∧
    ∀ (o : Sds) (bits : ℕ) (n : ℤ), 1 ≤ bits → o.head? = some 35 → Util.string2ll (o.drop 1) = some n →
      ((∀ off, getBitOffsetFromArgument o true bits = .ok off → (off : ℤ) = n * bits) ↔
        (0 ≤ n * bits ∧ n * bits < 2 ^ 32) ∨ 2 ^ 32 ≤ n * bits % 2 ^ 64) :=
  ⟨fun _ _ value _ hbits hfit => unsignedRoundTrip value (by omega) hfit,
    fun _ _ _ hpos hbits hfit hvalue => signedRoundTrip_iff hpos hbits hfit hvalue,
    fun _ hop hwrite hfit => exact_iff_stores hop hwrite hfit,
    fun _ _ _ hpos hhash hn => offset_iff hpos hhash hn⟩

theorem bitfield_exact_bytes :
    UnsignedRoundTrip [255, 0, 255] 3 9 300 ∧ SignedRoundTrip (List.replicate 9 0) 5 64 7 ∧
      Exact ⟨2, 5, .incrby, .sat, 8, false⟩ [62, 128] ∧
      ∀ off, getBitOffsetFromArgument (Networking.sds "#3") true 8 = .ok off → (off : ℤ) = 3 * 8 :=
  ⟨(bitfield_exact [255, 0, 255]).1 3 9 300 (by decide) (by decide) (by decide),
    ((bitfield_exact (List.replicate 9 0)).2.1 5 64 7 (by decide) (by decide) (by decide) ⟨by decide, by decide⟩).mpr (by decide),
    ((bitfield_exact [62, 128]).2.2.1 ⟨2, 5, .incrby, .sat, 8, false⟩ ⟨by decide, by decide, by decide, by decide⟩ (by decide)
      (by decide)).mpr (fun h => absurd h.1 (by decide)),
    ((bitfield_exact []).2.2.2 (Networking.sds "#3") 8 3 (by decide) (by decide) (by decide)).mpr (by decide)⟩

/-- -2 in 64 bits is read as -1; a SET of -1 in 8 bits saturates at 255; and an offset far
behind every string is taken for 0. -/
theorem bitfield_inexact :
    ¬SignedRoundTrip (List.replicate 8 0) 0 64 (-2) ∧ ¬Exact ⟨0, -1, .set, .sat, 8, false⟩ [0] ∧
      ¬∀ off, getBitOffsetFromArgument (Networking.sds "#4611686018427387904") true 4 = .ok off →
        (off : ℤ) = 4611686018427387904 * (4 : ℕ) := by
  refine ⟨?_, ?_, fun h => ?_⟩
  · rw [signedRoundTrip_iff (by decide) (by decide) (by decide) ⟨by decide, by decide⟩]
    decide
  · rw [exact_iff_stores ⟨by decide, by decide, by decide, by decide⟩ (by decide) (by decide)]
    exact fun h => absurd (h rfl) (by decide)
  · have hoff := h 0 (by decide)
    omega

end RedisZk.Bitops
