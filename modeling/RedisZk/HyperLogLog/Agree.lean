/-
# The encodings of a HyperLogLog agree

A valid string stands for 16384 registers. Converting it, setting one of its registers and
merging it with others do to these registers the same in both encodings.

Key definitions: `Touches`, `SetsRegister`, `HllAt`, `registersAt`, `SetsAlike`.
Key theorems: `denseSet_spec`, `runLoop_spec`, `hllSparseToDense_spec`, `hllMerge_spec`, `hllSparseSet_valid`,
`pfmergeCommand_spec`, `hll_encodings_agree`.
-/
import RedisZk.HyperLogLog.Update
import RedisZk.HyperLogLog.Commands

namespace RedisZk.HyperLogLog

open Streams (Sds asInt)
open Endian (Byte)

/-! ### Valid strings -/

theorem getElem_invalidate (hdr : Sds) {i : ℕ} (h : i ≠ 15) : (HLL_INVALIDATE_CACHE hdr)[i]? = hdr[i]? :=
  List.getElem?_modify_ne _ _ fun h' => h h'.symm

theorem take_invalidate (hdr : Sds) {n : ℕ} (hn : n ≤ 15) : (HLL_INVALIDATE_CACHE hdr).take n = hdr.take n := by
  apply List.ext_getElem?
  intro i
  by_cases hi : i < n
  · rw [List.getElem?_take_of_lt hi, List.getElem?_take_of_lt hi, getElem_invalidate _ (by omega)]
  · rw [List.getElem?_take_eq_none (by omega), List.getElem?_take_eq_none (by omega)]

variable {s : Str}

theorem ValidSparse.size (h : ValidSparse s) : HLL_HDR_SIZE ≤ s.bytes.length := by
  by_contra hlt
  have hcovers := h.covers
  rw [Str.ops, List.drop_eq_nil_of_le (by omega)] at hcovers
  cases hcovers

theorem ValidSparse.body (h : ValidSparse s) : Body s (s.bytes.take HLL_HDR_SIZE) s.ops [] :=
  h.whole ▸ body_of_length h.size

theorem ValidSparse.registers (h : ValidSparse s) : registers s = values s.ops := by
  rw [HyperLogLog.registers, h.encoding, if_neg (by decide), h.body.opcodes]
  exact congrArg values (List.append_nil s.ops)

theorem validSparse_of_body {hdr : Sds} {ops : List Opcode} (hb : Body s hdr ops []) (hmagic : hdr.take 4 = magic)
    (henc : hdr[4]? = some HLL_SPARSE) (htotal : total ops = HLL_REGISTERS) : ValidSparse s ∧ registers s = values ops := by
  have hlen : 4 < hdr.length := by rw [hb.header]; decide
  have h : ValidSparse s := by
    refine ⟨?_, ?_, ?_, ?_⟩
    · rw [hb.bytes, List.take_append_of_le_length (by omega), hmagic]
    · rw [Str.encoding, hb.bytes, List.getElem?_append_left hlen, henc]
    · rw [hb.complete]
    · rw [hb.whole]
      exact htotal
  exact ⟨h, by rw [h.registers, hb.whole]⟩

theorem ValidDense.registers (h : ValidDense s) :
    registers s = Packed.cells HLL_BITS HLL_REGISTERS s.registers := by
  rw [HyperLogLog.registers, if_pos h.encoding]

variable {p : List Byte}

/-- Where the last of the registers ends. -/
theorem dense_bound (hp : p.length = HLL_DENSE_SIZE - HLL_HDR_SIZE + 1) :
    ∀ r < HLL_REGISTERS, r * HLL_BITS / 8 + 1 < p.length := by
  intro r hr
  have hsize : HLL_DENSE_SIZE - HLL_HDR_SIZE + 1 = 12289 := by decide
  have hregs : HLL_REGISTERS = 16384 := by decide
  rw [hp, hsize]
  unfold HLL_BITS
  omega

theorem ValidDense.length (h : ValidDense s) : s.registers.length = HLL_DENSE_SIZE - HLL_HDR_SIZE + 1 := by
  rw [Str.registers, List.length_append, List.length_drop, h.size]
  rfl

theorem Valid.length (h : Valid s) : (registers s).length = HLL_REGISTERS := by
  rcases h with h | h
  · rw [h.registers, length_values]
    exact h.covers
  · rw [h.registers, Packed.length_cells]

theorem values_le {ops : List Opcode} (h : ∀ op ∈ ops, op.Fits) : ∀ v ∈ values ops, v ≤ HLL_SPARSE_VAL_MAX_VALUE := by
  intro v hv
  obtain ⟨r, hr, hv⟩ := List.mem_flatMap.mp hv
  obtain ⟨op, hop, rfl⟩ := List.mem_map.mp hr
  rw [(List.mem_replicate.mp hv).2]
  cases op with
  | zero n | xzero n => exact Nat.zero_le _
  | val value n => exact (h _ hop).2.1

theorem Valid.le (h : Valid s) : ∀ v ∈ registers s, v ≤ HLL_REGISTER_MAX := by
  rcases h with h | h
  · rw [h.registers]
    intro v hv
    exact Nat.le_trans (values_le h.body.fits v hv) (by decide)
  · rw [h.registers]
    intro v hv
    obtain ⟨r, hr, rfl⟩ := List.mem_map.mp hv
    obtain ⟨x, hx, hlt⟩ := Packed.getCell_lt (dense_bound h.length r (List.mem_range.mp hr))
    rw [hx]
    exact Nat.le_of_lt_succ hlt

theorem createHLLObject_valid : ValidSparse createHLLObject := by
  refine ⟨?_, ?_, ?_, ?_⟩ <;> decide

/-! ### Dense registers -/

/-- The string with other registers. -/
theorem registers_withRegisters {hdr : Sds} (hhdr : hdr.length = HLL_HDR_SIZE) (hp : p ≠ []) :
    (Str.withRegisters hdr p).registers = p := by
  have hlast : (p.getLast?).getD 0 = p.getLast hp := by rw [List.getLast?_eq_some_getLast hp]; rfl
  rw [Str.registers, Str.withRegisters, hlast]
  dsimp only
  rw [← hhdr, List.drop_left, List.dropLast_append_getLast]

/-- A header and registers are a dense string. -/
theorem withRegisters_valid {hdr : Sds} (hhdr : hdr.length = HLL_HDR_SIZE) (hmagic : hdr.take 4 = magic)
    (henc : hdr[4]? = some HLL_DENSE) (hp : p.length = HLL_DENSE_SIZE - HLL_HDR_SIZE + 1) :
    ValidDense (Str.withRegisters hdr p) := by
  have hlen : 4 < hdr.length := by rw [hhdr]; decide
  refine ⟨?_, ?_, ?_⟩
  · rw [Str.withRegisters]
    dsimp only
    rw [List.take_append_of_le_length (by omega), hmagic]
  · rw [Str.encoding, Str.withRegisters]
    dsimp only
    rw [List.getElem?_append_left hlen, henc]
  · rw [Str.withRegisters]
    dsimp only
    rw [List.length_append, hhdr, List.length_dropLast, hp]
    decide

/-- `hllDenseSet` sets a register to the maximum. -/
theorem denseSet_spec (h : ValidDense s) {index count : ℕ} (hi : index < HLL_REGISTERS)
    (hc : count ≤ HLL_REGISTER_MAX) : ∃ s' old, (registers s)[index]? = some old ∧
      denseSet s index count = some (s', if old < count then 1 else 0) ∧ ValidDense s' ∧
      registers s' = if old < count then (registers s).set index count else registers s := by
  obtain ⟨old, hget, hold⟩ := Packed.getCell_lt (dense_bound h.length index hi)
  have hreg : (registers s)[index]? = some old := by
    rw [h.registers, Packed.cells_get _ hi, hget]
    rfl
  have hhdr : (s.bytes.take HLL_HDR_SIZE).length = HLL_HDR_SIZE := List.length_take_of_le (by rw [h.size]; decide)
  have hw : HLL_BITS ≤ 8 := by decide
  obtain ⟨p', hset, hlen, hcells⟩ := Packed.cells_setCell hw (Nat.lt_succ_of_le hc) hi (dense_bound h.length)
  -- the string with these registers
  have hback : ∀ p : List Byte, p.length = s.registers.length → ValidDense (Str.withRegisters (s.bytes.take HLL_HDR_SIZE) p) ∧
      registers (Str.withRegisters (s.bytes.take HLL_HDR_SIZE) p) = Packed.cells HLL_BITS HLL_REGISTERS p := by
    intro p hp
    rw [h.length] at hp
    have hpne : p ≠ [] := by
      rintro rfl
      exact absurd hp (by decide)
    have hvalid : ValidDense (Str.withRegisters (s.bytes.take HLL_HDR_SIZE) p) :=
      withRegisters_valid hhdr (by rw [List.take_take]; exact h.magic)
        (by rw [List.getElem?_take_of_lt (by decide)]; exact h.encoding) hp
    exact ⟨hvalid, by rw [hvalid.registers, registers_withRegisters hhdr hpne]⟩
  by_cases hlt : old < count
  · refine ⟨Str.withRegisters (s.bytes.take HLL_HDR_SIZE) p', old, hreg, ?_, (hback p' hlen).1, ?_⟩
    · rw [denseSet, hllDenseSet, denseGet_eq, hget, denseSet_eq, hset, if_pos hlt]
      simp only [some_bind, if_pos hlt, Option.map_some]
    · rw [if_pos hlt, (hback p' hlen).2, hcells, h.registers]
  · refine ⟨Str.withRegisters (s.bytes.take HLL_HDR_SIZE) s.registers, old, hreg, ?_, (hback _ rfl).1, ?_⟩
    · rw [denseSet, hllDenseSet, denseGet_eq, hget, if_neg hlt]
      simp only [some_bind, if_neg hlt, Option.map_some]
    · rw [if_neg hlt, (hback _ rfl).2, h.registers]

/-! ### The loops over all of the registers -/

theorem asInt_of_small {n : ℕ} (h : n ≤ HLL_REGISTERS) : asInt n = n := by
  have hregs : HLL_REGISTERS = 16384 := by decide
  rw [asInt, Int.bmod_eq_of_le] <;> omega

section Loop

variable {σ : Type*} {sum : ℤ → ℤ} {touch : σ → ℤ → ℕ → Option σ} {P : σ → Prop} {view : σ → List ℕ} {g : ℕ → ℕ → ℕ}

/-- Touching a register in range changes that register alone. -/
def Touches (touch : σ → ℤ → ℕ → Option σ) (P : σ → Prop) (view : σ → List ℕ) (g : ℕ → ℕ → ℕ) : Prop :=
  ∀ m v (i : ℕ), P m → v ≤ HLL_REGISTER_MAX → i < HLL_REGISTERS → ∃ m', touch m i v = some m' ∧ P m' ∧
    ∀ k, (view m')[k]? = if k = i then (view m)[k]?.map (g v) else (view m)[k]?

theorem runRegisters_spec (ht : Touches touch P view g) {v : ℕ} (hv : v ≤ HLL_REGISTER_MAX) :
    ∀ (len i : ℕ) (m : σ), P m → i + len ≤ HLL_REGISTERS → ∃ m', runRegisters touch v len i m = some (((i + len : ℕ) : ℤ), m') ∧
      P m' ∧ ∀ k, (view m')[k]? = if i ≤ k ∧ k < i + len then (view m)[k]?.map (g v) else (view m)[k]? := by
  intro len
  induction len with
  | zero =>
    intro i m hm _
    refine ⟨m, rfl, hm, fun k => ?_⟩
    rw [if_neg (by omega)]
  | succ len ih =>
    intro i m hm hi
    obtain ⟨m1, hm1, hP1, hk1⟩ := ht m v i hm hv (by omega)
    obtain ⟨m2, hm2, hP2, hk2⟩ := ih (i + 1) m1 hP1 (by omega)
    have hint : asInt ((i : ℤ) + 1) = ((i + 1 : ℕ) : ℤ) := asInt_of_small (n := i + 1) (by omega)
    refine ⟨m2, ?_, hP2, fun k => ?_⟩
    · rw [runRegisters, hm1, some_bind, hint, hm2, Nat.add_assoc, Nat.add_comm 1]
    · rw [hk2, hk1]
      by_cases hki : k = i
      · rw [if_neg (by omega), if_pos hki, if_pos (by omega)]
      · rw [if_neg hki]
        by_cases hin : i + 1 ≤ k ∧ k < i + 1 + len
        · rw [if_pos hin, if_pos (by omega)]
        · rw [if_neg hin, if_neg (by omega)]

/-- Each register is touched with the value that the opcodes give to it. -/
theorem runLoop_spec (hsum : ∀ n : ℕ, n ≤ HLL_REGISTERS → sum n = n) (ht : Touches touch P view g) {ops : List Opcode}
    (hops : ∀ op ∈ ops, op.Fits) : ∀ (i : ℕ) (m : σ), P m → i + total ops ≤ HLL_REGISTERS →
    ∃ m', runLoop sum touch ops i m = some (((i + total ops : ℕ) : ℤ), m') ∧ P m' ∧
      (∀ j v, (values ops)[j]? = some v → (view m')[i + j]? = (view m)[i + j]?.map fun old => if v = 0 then old else g v old) ∧
      ∀ k, k < i ∨ i + total ops ≤ k → (view m')[k]? = (view m)[k]? := by
  induction ops with
  | nil =>
    intro i m hm _
    exact ⟨m, rfl, hm, fun _ _ hv => absurd hv.symm (Option.some_ne_none _), fun _ _ => rfl⟩
  | cons op ops ih =>
    intro i m hm hi
    have hop := hops op List.mem_cons_self
    have ih := ih fun o h => hops o (List.mem_cons_of_mem _ h)
    rw [total_cons] at hi
    have hvalues : values (op :: ops) = List.replicate op.len op.run.1 ++ values ops := by
      rw [← run_snd]
      exact Runs.expand_cons _ _
    -- what the loop does behind this run
    have hrest : ∀ m1, P m1 → (∀ k, (view m1)[k]? = if i ≤ k ∧ k < i + op.len ∧ op.run.1 ≠ 0 then (view m)[k]?.map (g op.run.1)
        else (view m)[k]?) → ∃ m', runLoop sum touch ops (i + op.len : ℕ) m1 = some (((i + total (op :: ops) : ℕ) : ℤ), m') ∧
        P m' ∧ (∀ j v, (values (op :: ops))[j]? = some v →
          (view m')[i + j]? = (view m)[i + j]?.map fun old => if v = 0 then old else g v old) ∧
        ∀ k, k < i ∨ i + total (op :: ops) ≤ k → (view m')[k]? = (view m)[k]? := by
      intro m1 hP1 hk1
      obtain ⟨m2, hm2, hP2, hin, hout⟩ := ih (i + op.len) m1 hP1 (by omega)
      refine ⟨m2, by rw [hm2, total_cons, Nat.add_assoc], hP2, ?_, ?_⟩
      · intro j v hv
        rw [hvalues] at hv
        by_cases hj : j < op.len
        · rw [List.getElem?_append_left (by rw [List.length_replicate]; exact hj), List.getElem?_replicate, if_pos hj] at hv
          obtain rfl := Option.some.inj hv
          rw [hout (i + j) (.inl (by omega)), hk1]
          by_cases h0 : op.run.1 = 0
          · rw [if_neg (fun h => h.2.2 h0)]
            simp only [h0, if_true, Option.map_id']
          · rw [if_pos ⟨by omega, by omega, h0⟩]
            simp only [h0, if_false]
        · rw [List.getElem?_append_right (by rw [List.length_replicate]; omega), List.length_replicate] at hv
          have h := hin (j - op.len) v hv
          have hat : i + op.len + (j - op.len) = i + j := by omega
          rw [hat] at h
          rw [h, hk1, if_neg (by omega)]
      · intro k hk
        rw [total_cons] at hk
        rw [hout k (by omega), hk1, if_neg (by omega)]
    have hzero : op.run.1 = 0 → runLoop sum touch (op :: ops) i m = runLoop sum touch ops (i + op.len : ℕ) m →
        ∃ m', runLoop sum touch (op :: ops) i m = some (((i + total (op :: ops) : ℕ) : ℤ), m') ∧
        P m' ∧ (∀ j v, (values (op :: ops))[j]? = some v →
          (view m')[i + j]? = (view m)[i + j]?.map fun old => if v = 0 then old else g v old) ∧
        ∀ k, k < i ∨ i + total (op :: ops) ≤ k → (view m')[k]? = (view m)[k]? := by
      intro h0 hloop
      rw [hloop]
      exact hrest m hm fun k => by rw [if_neg fun h => h.2.2 h0]
    cases op with
    | zero n | xzero n =>
      refine hzero rfl ?_
      have hn : i + (n + total ops) ≤ HLL_REGISTERS := hi
      have hint : asInt ((i : ℤ) + n) = ((i + n : ℕ) : ℤ) := asInt_of_small (n := i + n) (by omega)
      rw [runLoop, hint]
      rfl
    | val v n =>
      have hi' : i + (n + total ops) ≤ HLL_REGISTERS := hi
      have hn : i + n ≤ HLL_REGISTERS := by omega
      have hv : v ≤ HLL_REGISTER_MAX := Nat.le_trans hop.2.1 (by decide)
      obtain ⟨m1, hm1, hP1, hk1⟩ := runRegisters_spec ht hv n i m hm hn
      have hcast : ((n : ℤ) + i) = ((n + i : ℕ) : ℤ) := rfl
      have htest : ¬ sum ((n : ℤ) + i) > HLL_REGISTERS := by
        rw [hcast, hsum (n + i) (by omega)]
        omega
      rw [runLoop, if_neg htest, hm1, Option.bind_some]
      refine hrest m1 hP1 fun k => ?_
      rw [hk1]
      have hv0 : v ≠ 0 := by have h1 := hop.1; omega
      by_cases hk : i ≤ k ∧ k < i + n
      · rw [if_pos hk, if_pos ⟨hk.1, hk.2, hv0⟩]
        rfl
      · rw [if_neg hk, if_neg fun h => hk ⟨h.1, h.2.1⟩]

end Loop

theorem raiseMax_touches : Touches raiseMax (fun max => max.length = HLL_REGISTERS) id (fun v old => max old v) := by
  intro m v i hm _ hi
  have hget : m[i]? = some m[i] := List.getElem?_eq_getElem (hm ▸ hi)
  refine ⟨if v > m[i] then m.set i v else m, ?_, ?_, fun k => ?_⟩
  · rw [raiseMax, if_pos (Int.natCast_nonneg i), Int.toNat_natCast, hget]
    rfl
  · show List.length _ = _
    split
    · rw [List.length_set, hm]
    · exact hm
  · show (if v > m[i] then m.set i v else m)[k]? = if k = i then m[k]?.map (fun old => max old v) else m[k]?
    by_cases hk : k = i
    · subst hk
      rw [if_pos rfl, hget, Option.map_some]
      split
      · rename_i h
        rw [List.getElem?_set_self (hm ▸ hi), max_eq_right (Nat.le_of_lt h)]
      · rename_i h
        rw [hget, max_eq_left (not_lt.mp h)]
    · rw [if_neg hk]
      split
      · rw [List.getElem?_set_ne (Ne.symm hk)]
      · rfl

theorem touchDense_touches : Touches touchDense (fun p => p.length = HLL_DENSE_SIZE - HLL_HDR_SIZE + 1)
    (Packed.cells HLL_BITS HLL_REGISTERS) (fun v _ => v) := by
  intro m v i hm hv hi
  have hw : HLL_BITS ≤ 8 := by decide
  obtain ⟨p', hset, hlen, hcells⟩ := Packed.cells_setCell hw (Nat.lt_succ_of_le hv) hi (dense_bound hm)
  refine ⟨p', ?_, hlen.trans hm, fun k => ?_⟩
  · rw [touchDense, if_pos ⟨Int.natCast_nonneg i, by omega⟩, Int.toNat_natCast, denseSet_eq, hset]
  · rw [hcells]
    by_cases hk : k = i
    · subst hk
      rw [if_pos rfl, List.getElem?_set_self (by rw [Packed.length_cells]; exact hi), Packed.cells_get _ hi]
      rfl
    · rw [if_neg hk, List.getElem?_set_ne (Ne.symm hk)]

/-- Registers that are all of them zero. -/
theorem cells_zero (n : ℕ) {m : ℕ} (hn : ∀ r < n, r * HLL_BITS / 8 + 1 < m) :
    Packed.cells HLL_BITS n (List.replicate m 0) = List.replicate n 0 := by
  apply List.ext_getElem?
  intro r
  by_cases hr : r < n
  · have hw : HLL_BITS ≤ 8 := by decide
    obtain ⟨x, hx, hbit⟩ := Packed.testBit_getCell (p := List.replicate m (0 : Byte)) (r := r) hw
      (by rw [List.length_replicate]; exact hn r hr)
    have hx0 : x = 0 := by
      refine Nat.eq_of_testBit_eq fun j => ?_
      rw [hbit, Nat.zero_testBit, Packed.bit, List.getElem?_replicate]
      split <;> exact Bool.and_eq_false_iff.mpr (.inr (Nat.zero_testBit _))
    rw [Packed.cells_get _ hr, hx, hx0, List.getElem?_replicate, if_pos hr]
    rfl
  · rw [List.getElem?_eq_none (by rw [Packed.length_cells]; omega), List.getElem?_eq_none (by rw [List.length_replicate]; omega)]

/-- **The dense form has the registers of the sparse one.** -/
theorem hllSparseToDense_spec (h : ValidSparse s) :
    ∃ d, hllSparseToDense s = some (d, C_OK) ∧ ValidDense d ∧ registers d = registers s := by
  have hlen : (List.replicate (HLL_DENSE_SIZE - HLL_HDR_SIZE + 1) (0 : Byte)).length = HLL_DENSE_SIZE - HLL_HDR_SIZE + 1 :=
    List.length_replicate
  have htotal : total s.ops = HLL_REGISTERS := h.covers
  obtain ⟨p, hrun, hp, hin, -⟩ := @runLoop_spec _ asInt _ _ _ _ (fun n hn => asInt_of_small hn)
      touchDense_touches _ h.body.fits 0 (List.replicate (HLL_DENSE_SIZE - HLL_HDR_SIZE + 1) 0) hlen
      (by rw [Nat.zero_add, htotal])
  have hops : s.opcodes = s.ops := by rw [h.body.opcodes]; exact List.append_nil _
  rw [Nat.zero_add, htotal, ← hops] at hrun
  have hhdr : ((s.bytes.take HLL_HDR_SIZE).set 4 HLL_DENSE).length = HLL_HDR_SIZE := by
    rw [List.length_set, h.body.header]
  have hpne : p ≠ [] := by
    rintro rfl
    exact absurd hp (by decide)
  have hdense : ValidDense (Str.withRegisters ((s.bytes.take HLL_HDR_SIZE).set 4 HLL_DENSE) p) :=
    withRegisters_valid hhdr (by rw [List.take_set_of_le (Nat.le_refl 4), List.take_take]; exact h.magic)
      (List.getElem?_set_self (by rw [h.body.header]; decide)) hp
  refine ⟨_, ?_, hdense, ?_⟩
  · rw [hllSparseToDense, h.encoding, if_neg (by decide)]
    dsimp only
    rw [show ((0 : ℕ) : ℤ) = 0 from rfl] at hrun
    rw [hrun, Option.map_some, if_neg (not_not_intro rfl)]
  · rw [hdense.registers, registers_withRegisters hhdr hpne, h.registers]
    apply List.ext_getElem?
    intro j
    by_cases hj : j < HLL_REGISTERS
    · have hj' : j < (values s.ops).length := by rw [length_values, htotal]; exact hj
      have hval : (values s.ops)[j]? = some (values s.ops)[j] := List.getElem?_eq_getElem hj'
      have hreg := hin j _ hval
      rw [Nat.zero_add, cells_zero _ (fun r hr => List.length_replicate (n := HLL_DENSE_SIZE - HLL_HDR_SIZE + 1) (a := (0 : Byte)) ▸
        dense_bound hlen r hr), List.getElem?_replicate, if_pos hj, Option.map_some] at hreg
      rw [hreg, hval]
      split
      · rename_i h0
        rw [h0]
      · rfl
    · rw [List.getElem?_eq_none (by rw [Packed.length_cells]; omega),
        List.getElem?_eq_none (by rw [length_values, htotal]; omega)]

theorem mergeDense_spec (hp : p.length = HLL_DENSE_SIZE - HLL_HDR_SIZE + 1) {max : List ℕ}
    (hmax : max.length = HLL_REGISTERS) :
    mergeDense p max = some (List.zipWith Nat.max max (Packed.cells HLL_BITS HLL_REGISTERS p)) := by
  have hloop : ∀ n, n ≤ HLL_REGISTERS → ∃ max', (List.range n).foldlM (fun (max : List ℕ) i => (hllDenseGetRegister p i).bind
      fun val => raiseMax max i val) max = some max' ∧ max'.length = HLL_REGISTERS ∧
      ∀ k, max'[k]? = if k < n then (max[k]?).map fun old => Nat.max old ((Packed.getCell HLL_BITS p k).getD 0) else max[k]? := by
    intro n
    induction n with
    | zero =>
      intro _
      exact ⟨max, rfl, hmax, fun k => (if_neg (Nat.not_lt_zero k)).symm⟩
    | succ n ih =>
      intro hn
      obtain ⟨max1, hrun, hlen, hget⟩ := ih (by omega)
      obtain ⟨x, hx, hlt⟩ := Packed.getCell_lt (dense_bound hp n (by omega))
      obtain ⟨max2, hraise, hlen2, hget2⟩ := raiseMax_touches max1 x n hlen (Nat.le_of_lt_succ hlt) (by omega)
      refine ⟨max2, ?_, hlen2, fun k => ?_⟩
      · rw [List.range_succ, List.foldlM_append, hrun, some_bind, List.foldlM_cons,
          denseGet_eq, hx, Option.bind_some, hraise]
        rfl
      · have h2 : max2[k]? = if k = n then (max1[k]?).map (fun old => Nat.max old x) else max1[k]? := hget2 k
        rw [h2, hget]
        by_cases hk : k = n
        · subst hk
          rw [if_pos rfl, if_neg (Nat.lt_irrefl k), if_pos (Nat.lt_succ_self k), hx]
          rfl
        · rw [if_neg hk]
          by_cases hkn : k < n
          · rw [if_pos hkn, if_pos (by omega)]
          · rw [if_neg hkn, if_neg (by omega)]
  obtain ⟨max', hrun, hlen, hget⟩ := hloop HLL_REGISTERS (Nat.le_refl _)
  rw [mergeDense, hrun]
  refine congrArg some (List.ext_getElem? fun k => ?_)
  rw [hget, List.getElem?_zipWith]
  by_cases hk : k < HLL_REGISTERS
  · have hmk : max[k]? = some max[k] := List.getElem?_eq_getElem (hmax ▸ hk)
    rw [if_pos hk, Packed.cells_get _ hk, hmk]
    rfl
  · rw [if_neg hk, List.getElem?_eq_none (by omega)]

/-- **Merging computes the maximum of the registers**, in either encoding. -/
theorem hllMerge_spec (h : Valid s) {max : List ℕ} (hmax : max.length = HLL_REGISTERS) :
    hllMerge max s = some (List.zipWith Nat.max max (registers s), C_OK) := by
  rcases h with h | h
  · have htotal : total s.ops = HLL_REGISTERS := h.covers
    obtain ⟨max', hrun, hlen, hin, -⟩ := @runLoop_spec _ (fun n => n) _ _ _ _ (fun _ _ => rfl) raiseMax_touches
        _ h.body.fits 0 max hmax (by rw [Nat.zero_add, htotal])
    have hops : s.opcodes = s.ops := by rw [h.body.opcodes]; exact List.append_nil _
    have hres : max' = List.zipWith Nat.max max (registers s) := by
      rw [h.registers]
      refine List.ext_getElem? fun j => ?_
      rw [List.getElem?_zipWith]
      by_cases hj : j < HLL_REGISTERS
      · have hj' : j < (values s.ops).length := by rw [length_values, htotal]; exact hj
        have hval : (values s.ops)[j]? = some (values s.ops)[j] := List.getElem?_eq_getElem hj'
        have hmj : max[j]? = some max[j] := List.getElem?_eq_getElem (hmax ▸ hj)
        have hreg := hin j _ hval
        rw [Nat.zero_add] at hreg
        have hreg : max'[j]? = (max[j]?).map fun old => if (values s.ops)[j] = 0 then old else Nat.max old (values s.ops)[j] := hreg
        rw [hreg, hval, hmj, Option.map_some]
        split
        · rename_i h0
          rw [h0]
          exact congrArg some (Nat.max_zero _).symm
        · rfl
      · have hlen : max'.length = HLL_REGISTERS := hlen
        rw [List.getElem?_eq_none (by omega), List.getElem?_eq_none (by omega)]
    rw [Nat.zero_add, htotal, ← hops] at hrun
    rw [show ((0 : ℕ) : ℤ) = 0 from rfl] at hrun
    rw [hllMerge, h.encoding, if_neg (by decide), hrun, Option.map_some, if_neg (not_not_intro rfl), hres]
  · rw [hllMerge, h.encoding, if_pos rfl, mergeDense_spec h.length hmax, h.registers]
    rfl

/-! ### Setting a register -/

/-- What `hllSparseSet` and `hllDenseSet` do alike: a register is raised to the maximum. -/
def SetsRegister (s : Str) (index count : ℕ) (r : Option (Str × ℤ)) : Prop :=
  ∃ s' old, (registers s)[index]? = some old ∧ r = some (s', if old < count then 1 else 0) ∧ Valid s' ∧
    registers s' = if old < count then (registers s).set index count else registers s

/-- The dense form of a sparse string gets the register, which is less. -/
theorem promote_spec (h : ValidSparse s) {index count v : ℕ} (hi : index < HLL_REGISTERS)
    (hc : count ≤ HLL_REGISTER_MAX) (hv : (registers s)[index]? = some v) (hlt : v < count) :
    SetsRegister s index count (promote s index count) := by
  obtain ⟨d, hd, hdense, hregs⟩ := hllSparseToDense_spec h
  obtain ⟨s', old, hold, hset, hvalid, hregs'⟩ := denseSet_spec hdense hi hc
  rw [hregs, hv] at hold
  obtain rfl := Option.some.inj hold
  refine ⟨s', v, hv, ?_, .inr hvalid, by rw [hregs', hregs]⟩
  rw [promote, hd, Option.bind_some, if_neg (show ¬ C_OK = C_ERR by decide), hset, Option.bind_some, if_pos hlt, if_pos rfl]

/-- **`hllSparseSet` sets a register to the maximum.** -/
theorem hllSparseSet_valid (hll_sparse_max_bytes : ℕ) (h : ValidSparse s) {index count : ℕ}
    (hi : index < HLL_REGISTERS) (hc : 1 ≤ count ∧ count ≤ HLL_REGISTER_MAX) :
    SetsRegister s index count (hllSparseSet hll_sparse_max_bytes s index count) := by
  have htotal : total s.ops = HLL_REGISTERS := h.covers
  have hops : s.opcodes = s.ops := by rw [h.body.opcodes]; exact List.append_nil _
  have hregs := h.registers
  obtain ⟨v, hv⟩ : ∃ v, (registers s)[index]? = some v :=
    ⟨_, List.getElem?_eq_getElem (by rw [hregs, length_values, htotal]; exact hi)⟩
  by_cases hbig : count > HLL_SPARSE_VAL_MAX_VALUE
  · have hlt : v < count := by
      have hmem := List.mem_of_getElem? hv
      rw [hregs] at hmem
      have hle := values_le h.body.fits v hmem
      omega
    rw [hllSparseSet, if_pos hbig]
    exact promote_spec h hi hc.2 hv hlt
  · have hout := hllSparseSet_spec hll_sparse_max_bytes h.body index ⟨hc.1, not_lt.mp hbig⟩
    generalize hllSparseSet hll_sparse_max_bytes s index count = r at hout
    cases hout with
    | invalid hle =>
      rw [hops, htotal] at hle
      omega
    | kept hv' hle =>
      rw [hops, ← hregs] at hv'
      exact ⟨s, _, hv', by rw [if_neg (not_lt.mpr hle)], .inl h, by rw [if_neg (not_lt.mpr hle)]⟩
    | promoted hv' hlt =>
      rw [hops, ← hregs] at hv'
      exact promote_spec h hi hc.2 hv' hlt
    | raised hv' hlt hr =>
      obtain ⟨s', ops', rfl, hbody, hvals⟩ := hr
      rw [← hregs] at hv'
      have htot' : total ops' = HLL_REGISTERS := by
        rw [← length_values, hvals, List.length_set, length_values, htotal]
      obtain ⟨hvalid, hregs'⟩ := validSparse_of_body hbody
        (by rw [take_invalidate _ (by decide), List.take_take]; exact h.magic)
        (by rw [getElem_invalidate _ (by decide), List.getElem?_take_of_lt (by decide)]; exact h.encoding) htot'
      refine ⟨s', _, hv', by rw [if_pos hlt], .inl hvalid, ?_⟩
      rw [if_pos hlt, hregs', hvals, hregs]
    | cut ht => exact absurd rfl ht

/-! ### PFMERGE -/

/-- What is not the cached cardinality makes the registers. -/
theorem valid_congr {s s' : Str} (h : Valid s) (hlen : s'.bytes.length = s.bytes.length)
    (htake : s'.bytes.take 5 = s.bytes.take 5) (hdrop : s'.bytes.drop HLL_HDR_SIZE = s.bytes.drop HLL_HDR_SIZE) :
    Valid s' ∧ registers s' = registers s := by
  have hmagic : s'.bytes.take 4 = s.bytes.take 4 := by
    have h4 := congrArg (List.take 4) htake
    rw [List.take_take, List.take_take] at h4
    exact h4
  have henc : s'.encoding = s.encoding := by
    have h5 := congrArg (fun l => l[4]?) htake
    rw [List.getElem?_take_of_lt (by decide), List.getElem?_take_of_lt (by decide)] at h5
    exact h5
  rcases h with h | h
  · have hops : s'.ops = s.ops := by rw [Str.ops, Str.ops, hdrop]
    have hvalid : ValidSparse s' :=
      ⟨hmagic.trans h.magic, henc.trans h.encoding, by rw [hdrop]; exact h.whole, by rw [hops]; exact h.covers⟩
    exact ⟨.inl hvalid, by rw [hvalid.registers, h.registers, hops]⟩
  · have hvalid : ValidDense s' := ⟨hmagic.trans h.magic, henc.trans h.encoding, hlen.trans h.size⟩
    refine ⟨.inr hvalid, ?_⟩
    rw [hvalid.registers, h.registers]
    have hw : HLL_BITS ≤ 8 := by decide
    refine Packed.cells_congr hw (by rw [hvalid.length, h.length]) (dense_bound h.length) fun k hk => ?_
    have hsize : k / 8 < (s.bytes.drop HLL_HDR_SIZE).length := by
      have h1 : HLL_DENSE_SIZE - HLL_HDR_SIZE = 12288 := by decide
      have h2 : HLL_REGISTERS * HLL_BITS = 98304 := by decide
      rw [List.length_drop, h.size, h1]
      omega
    rw [Str.registers, Str.registers, hdrop]
    exact Packed.bit_append _ _ _ hsize

theorem valid_unshare (h : Valid s) (raw : Bool) :
    Valid (dbUnshareStringValue s raw) ∧ registers (dbUnshareStringValue s raw) = registers s := by
  have hbytes : (dbUnshareStringValue s raw).bytes = s.bytes := by cases raw <;> rfl
  exact valid_congr h (by rw [hbytes]) (by rw [hbytes]) (by rw [hbytes])

theorem valid_invalidate (h : Valid s) : Valid ⟨HLL_INVALIDATE_CACHE s.bytes, s.nul⟩ ∧
    registers ⟨HLL_INVALIDATE_CACHE s.bytes, s.nul⟩ = registers s := by
  refine valid_congr h (length_invalidate _) (take_invalidate _ (by decide)) ?_
  refine List.ext_getElem? fun i => ?_
  rw [List.getElem?_drop, List.getElem?_drop, getElem_invalidate _ (by unfold HLL_HDR_SIZE; omega)]

/-- A key holds a HyperLogLog, or is not there. -/
def HllAt (db : Keyspace.Db Object) (key : Sds) : Prop :=
  db.dict key = none ∨ ∃ s raw, db.dict key = some (.string s raw) ∧ Valid s

/-- The registers at a key, all of them zero if it is not there. -/
def registersAt (db : Keyspace.Db Object) (key : Sds) : List ℕ :=
  match db.dict key with
  | some (.string s _) => registers s
  | _ => List.replicate HLL_REGISTERS 0

theorem isHLL_of_valid (h : Valid s) : isHLL s = true := by
  refine decide_eq_true ?_
  rcases h with h | h
  · exact ⟨h.size, h.magic, .inr h.encoding, fun he => absurd (h.encoding.symm.trans he) (by decide)⟩
  · exact ⟨by rw [h.size]; decide, h.magic, .inl h.encoding, fun _ => h.size⟩

theorem registersAt_length {db : Keyspace.Db Object} {key : Sds} (h : HllAt db key) :
    (registersAt db key).length = HLL_REGISTERS := by
  unfold registersAt
  rcases h with h | ⟨s, raw, h, hvalid⟩
  · rw [h]
    exact List.length_replicate
  · rw [h]
    exact hvalid.length

theorem registersAt_le {db : Keyspace.Db Object} {key : Sds} (h : HllAt db key) : ∀ v ∈ registersAt db key, v ≤ HLL_REGISTER_MAX := by
  unfold registersAt
  rcases h with h | ⟨s, raw, h, hvalid⟩
  · rw [h]
    intro v hv
    rw [(List.mem_replicate.mp hv).2]
    exact Nat.zero_le _
  · rw [h]
    exact hvalid.le

/-- The maximum of the keys is computed. -/
theorem mergeKeys_spec {db : Keyspace.Db Object} : ∀ (keys : List Sds) (max : List ℕ) (use_dense : Bool),
    (∀ key ∈ keys, HllAt db key) → max.length = HLL_REGISTERS →
    ∃ max' use_dense', mergeKeys db keys max use_dense = some (.ok (max', use_dense')) ∧ max'.length = HLL_REGISTERS ∧
      ∀ i < HLL_REGISTERS, max'[i]? =
        (max[i]?).map fun old => Nat.max old ((keys.map fun k => (registersAt db k).getD i 0).foldr Nat.max 0) := by
  intro keys
  induction keys with
  | nil =>
    intro max use_dense _ hmax
    refine ⟨max, use_dense, rfl, hmax, fun i hi => ?_⟩
    rw [List.getElem?_eq_getElem (hmax ▸ hi), Option.map_some]
    exact congrArg some (Nat.max_zero _).symm
  | cons key keys ih =>
    intro max use_dense hkeys hmax
    have hrest : ∀ k ∈ keys, HllAt db k := fun k h => hkeys k (List.mem_cons_of_mem _ h)
    have hmain : ∀ ud, ∃ max' use_dense', mergeKeys db keys (List.zipWith Nat.max max (registersAt db key)) ud =
        some (.ok (max', use_dense')) ∧ max'.length = HLL_REGISTERS ∧ ∀ i < HLL_REGISTERS, max'[i]? =
          (max[i]?).map fun old => Nat.max old (((key :: keys).map fun k => (registersAt db k).getD i 0).foldr Nat.max 0) := by
      intro ud
      have hlen := registersAt_length (hkeys key List.mem_cons_self)
      obtain ⟨max', ud', hrun, hlen', hget⟩ := ih (List.zipWith Nat.max max (registersAt db key)) ud hrest
        (by rw [List.length_zipWith, hmax, hlen, Nat.min_self])
      refine ⟨max', ud', hrun, hlen', fun i hi => ?_⟩
      rw [hget i hi, List.getElem?_zipWith, List.getElem?_eq_getElem (hmax ▸ hi), List.getElem?_eq_getElem (hlen ▸ hi),
        List.map_cons, List.foldr_cons, List.getD_eq_getElem?_getD, List.getElem?_eq_getElem (hlen ▸ hi)]
      exact congrArg some (Nat.max_assoc _ _ _)
    rcases hkeys key List.mem_cons_self with h | ⟨s, raw, h, hvalid⟩
    · have hzero : List.zipWith Nat.max max (registersAt db key) = max := by
        refine List.ext_getElem? fun i => ?_
        rw [List.getElem?_zipWith, registersAt, h]
        dsimp only
        rw [List.getElem?_replicate]
        by_cases hi : i < HLL_REGISTERS
        · rw [if_pos hi, List.getElem?_eq_getElem (hmax ▸ hi)]
          exact congrArg some (Nat.max_zero _)
        · rw [if_neg hi, List.getElem?_eq_none (by omega)]
      have hres := hmain use_dense
      rw [hzero] at hres
      rw [mergeKeys, h]
      exact hres
    · have hreg : registersAt db key = registers s := by rw [registersAt, h]
      rw [mergeKeys, h]
      simp only [isHLLObjectOrReply, isHLL_of_valid hvalid, if_true]
      rw [hllMerge_spec hvalid hmax, Option.bind_some, if_neg (show ¬ C_OK = C_ERR by decide), ← hreg]
      exact hmain _

/-- Writing a register keeps the maximum of what is there and what is written. -/
theorem writeRegister_spec (hll_sparse_max_bytes : ℕ) {max : List ℕ} {o : Str} (ho : Valid o) {j count : ℕ}
    (hj : j < HLL_REGISTERS) (hget : max[j]? = some count) (hc : count ≤ HLL_REGISTER_MAX) :
    ∃ o', writeRegister hll_sparse_max_bytes max o j = some o' ∧ Valid o' ∧ ∀ k, (registers o')[k]? =
      if k = j then ((registers o)[k]?).map fun old => Nat.max old count else (registers o)[k]? := by
  have hsame : ∀ old, (registers o)[j]? = some old → count ≤ old → ∀ k, (registers o)[k]? =
      if k = j then ((registers o)[k]?).map fun old => Nat.max old count else (registers o)[k]? := by
    intro old hold hle k
    by_cases hk : k = j
    · subst hk
      rw [if_pos rfl, hold]
      exact congrArg some (Nat.max_eq_left hle).symm
    · rw [if_neg hk]
  -- the register is set, in either encoding
  have hset : ∀ r, SetsRegister o j count r → ∃ o', r.map Prod.fst = some o' ∧ Valid o' ∧ ∀ k, (registers o')[k]? =
      if k = j then ((registers o)[k]?).map fun old => Nat.max old count else (registers o)[k]? := by
    rintro r ⟨o', old, hold, rfl, hvalid, hregs⟩
    refine ⟨o', rfl, hvalid, fun k => ?_⟩
    rw [hregs]
    by_cases hlt : old < count
    · rw [if_pos hlt]
      by_cases hk : k = j
      · subst hk
        rw [if_pos rfl, List.getElem?_set_self (by rw [ho.length]; exact hj), hold]
        exact congrArg some (Nat.max_eq_right (Nat.le_of_lt hlt)).symm
      · rw [if_neg hk, List.getElem?_set_ne (Ne.symm hk)]
    · rw [if_neg hlt]
      exact hsame old hold (not_lt.mp hlt) k
  rw [writeRegister, hget, Option.bind_some]
  by_cases h0 : count = 0
  · rw [if_pos h0]
    obtain ⟨old, hold⟩ : ∃ old, (registers o)[j]? = some old := ⟨_, List.getElem?_eq_getElem (by rw [ho.length]; exact hj)⟩
    exact ⟨o, rfl, ho, hsame old hold (by omega)⟩
  · rw [if_neg h0]
    rcases ho with h | h
    · rw [h.encoding, if_neg (by decide), if_pos rfl]
      exact hset _ (hllSparseSet_valid hll_sparse_max_bytes h hj ⟨by omega, hc⟩)
    · rw [h.encoding, if_pos rfl]
      obtain ⟨s', old, hold, hrun, hvalid, hregs⟩ := denseSet_spec h hj hc
      exact hset _ ⟨s', old, hold, hrun, .inr hvalid, hregs⟩

/-- The maximum is written to a string. -/
theorem writeRegisters_spec (hll_sparse_max_bytes : ℕ) {max : List ℕ} (hmax : max.length = HLL_REGISTERS)
    (hle : ∀ v ∈ max, v ≤ HLL_REGISTER_MAX) {o : Str} (ho : Valid o) : ∀ n, n ≤ HLL_REGISTERS →
    ∃ o', (List.range n).foldlM (writeRegister hll_sparse_max_bytes max) o = some o' ∧ Valid o' ∧ ∀ k, (registers o')[k]? =
      if k < n then ((registers o)[k]?).map fun old => Nat.max old (max.getD k 0) else (registers o)[k]? := by
  intro n
  induction n with
  | zero =>
    intro _
    exact ⟨o, rfl, ho, fun k => (if_neg (Nat.not_lt_zero k)).symm⟩
  | succ n ih =>
    intro hn
    obtain ⟨o1, hrun, hvalid, hget⟩ := ih (by omega)
    have hmn : max[n]? = some max[n] := List.getElem?_eq_getElem (hmax ▸ hn)
    obtain ⟨o2, hrun2, hvalid2, hget2⟩ := writeRegister_spec hll_sparse_max_bytes hvalid hn hmn (hle _ (List.getElem_mem _))
    refine ⟨o2, ?_, hvalid2, fun k => ?_⟩
    · rw [List.range_succ, List.foldlM_append, hrun, some_bind, List.foldlM_cons, hrun2]
      rfl
    · rw [hget2, hget]
      by_cases hk : k = n
      · subst hk
        rw [if_pos rfl, if_neg (Nat.lt_irrefl k), if_pos (Nat.lt_succ_self k), List.getD_eq_getElem?_getD, hmn]
        rfl
      · rw [if_neg hk]
        by_cases hkn : k < n
        · rw [if_pos hkn, if_pos (by omega)]
        · rw [if_neg hkn, if_neg (by omega)]

theorem dict_store_self (db : Keyspace.Db Object) (key : Sds) (s : Str) : (store db key s).dict key = some (.string s true) :=
  Function.update_self _ _ _

theorem dict_store_ne (db : Keyspace.Db Object) {key key' : Sds} (s : Str) (h : key' ≠ key) :
    (store db key s).dict key' = db.dict key' := Function.update_of_ne h _ _

theorem foldr_max_le {n : ℕ} (l : List ℕ) (h : ∀ v ∈ l, v ≤ n) : l.foldr Nat.max 0 ≤ n := by
  induction l with
  | nil => exact Nat.zero_le n
  | cons v l ih => exact Nat.max_le.mpr ⟨h v List.mem_cons_self, ih fun w hw => h w (List.mem_cons_of_mem _ hw)⟩

/-- What PFMERGE leaves at the key that it writes. -/
def Merged (s : Server) (key : Sds) (srcs : List Sds) (r : Option (Server × Reply)) : Prop :=
  ∃ s' o, r = some (s', .ok) ∧ s'.db.dict key = some (.string o true) ∧ Valid o ∧
    (∀ i < HLL_REGISTERS, (registers o)[i]? =
      some (((key :: srcs).map fun k => (registersAt s.db k).getD i 0).foldr Nat.max 0)) ∧
    ∀ k, k ≠ key → s'.db.dict k = s.db.dict k

/-- **PFMERGE computes the maximum of the registers**, whatever the encodings are. -/
theorem pfmergeCommand_spec (s : Server) (key : Sds) (srcs : List Sds) (h : ∀ k ∈ key :: srcs, HllAt s.db k) :
    Merged s key srcs (pfmergeCommand s key srcs) := by
  obtain ⟨max, use_dense, hmerge, hmax, hget⟩ := mergeKeys_spec (key :: srcs) (List.replicate HLL_REGISTERS 0) false h
    List.length_replicate
  have hget' : ∀ i < HLL_REGISTERS, max[i]? =
      some (((key :: srcs).map fun k => (registersAt s.db k).getD i 0).foldr Nat.max 0) := by
    intro i hi
    rw [hget i hi, List.getElem?_replicate, if_pos hi, Option.map_some]
    exact congrArg some (Nat.zero_max _)
  have hle : ∀ v ∈ max, v ≤ HLL_REGISTER_MAX := by
    intro v hv
    obtain ⟨i, hi⟩ := List.mem_iff_getElem?.mp hv
    have hlt : i < HLL_REGISTERS := hmax ▸ (List.getElem?_eq_some_iff.mp hi).1
    rw [hget' i hlt] at hi
    rw [← Option.some.inj hi]
    refine foldr_max_le _ fun w hw => ?_
    obtain ⟨k, hk, rfl⟩ := List.mem_map.mp hw
    have hlen := registersAt_length (h k hk)
    rw [List.getD_eq_getElem?_getD, List.getElem?_eq_getElem (hlen ▸ hlt)]
    exact registersAt_le (h k hk) _ (List.getElem_mem _)
  -- the string that is written to, none of whose registers is more than the maximum
  have hwrite : ∀ o, Valid o → registers o = registersAt s.db key → Merged s key srcs (pfmergeString s key max use_dense o) := by
    intro o ho hregs
    obtain ⟨d, hd, hvalid, hdregs⟩ : ∃ d, (if use_dense then hllSparseToDense o else some (o, C_OK)) = some (d, C_OK) ∧
        Valid d ∧ registers d = registers o := by
      cases use_dense with
      | false => exact ⟨o, rfl, ho, rfl⟩
      | true =>
        rcases ho with hs | hdense
        · obtain ⟨d, hd, hvd, hregs⟩ := hllSparseToDense_spec hs
          exact ⟨d, hd, .inr hvd, hregs⟩
        · exact ⟨o, if_pos hdense.encoding, .inr hdense, rfl⟩
    obtain ⟨o', hrun, hvalid', hreg'⟩ := writeRegisters_spec s.hll_sparse_max_bytes hmax hle hvalid HLL_REGISTERS (Nat.le_refl _)
    obtain ⟨hvalid'', hreg''⟩ := valid_invalidate hvalid'
    refine ⟨_, _, by rw [pfmergeString, hd, Option.bind_some, if_neg (show ¬ C_OK = C_ERR by decide), hrun]; rfl,
      dict_store_self _ _ _, hvalid'', ?_, fun k hk => dict_store_ne _ _ hk⟩
    intro i hi
    have hlen := registersAt_length (h key List.mem_cons_self)
    have hold : (registersAt s.db key)[i]? = some (registersAt s.db key)[i] := List.getElem?_eq_getElem (hlen ▸ hi)
    rw [hreg'', hreg', if_pos hi, hdregs, hregs, hold, Option.map_some, List.getD_eq_getElem?_getD, hget' i hi, Option.getD_some,
      List.map_cons, List.foldr_cons, List.getD_eq_getElem?_getD, hold, Option.getD_some]
    exact congrArg some (Nat.max_eq_right (Nat.le_max_left _ _))
  rw [pfmergeCommand, hmerge, Option.bind_some]
  dsimp only
  rcases h key List.mem_cons_self with hnone | ⟨str, raw, hstr, hvalid⟩
  · rw [hnone]
    refine hwrite _ (.inl createHLLObject_valid) ?_
    have hvals : registers createHLLObject = List.replicate HLL_REGISTERS 0 := by
      have hops : createHLLObject.ops = [.xzero HLL_REGISTERS] := by decide
      rw [createHLLObject_valid.registers, hops]
      exact List.append_nil _
    rw [hvals, registersAt, hnone]
  · rw [hstr]
    obtain ⟨hv, hregs⟩ := valid_unshare hvalid raw
    exact hwrite _ hv (by rw [hregs, registersAt, hstr])

/-! ### Both encodings -/

/-- `hllSparseSet` does to the registers of a sparse string what `hllDenseSet` does to those of its dense form. -/
def SetsAlike (hll_sparse_max_bytes : ℕ) (s d : Str) (index count : ℕ) : Prop :=
  ∃ s' d' old r, (registers s)[index]? = some old ∧
    hllSparseSet hll_sparse_max_bytes s index count = some (s', r) ∧ denseSet d index count = some (d', r) ∧
    Valid s' ∧ registers s' = registers d' ∧ registers s' = (registers s).set index (max old count) ∧
    (r = 1 ↔ old < count) ∧ (r = 0 ↔ count ≤ old)

/-- **The two encodings agree.** The dense form of a valid sparse string has its registers;
setting a register in place does what it does to the dense form: that register is raised to the
maximum, the others are as before, and the result is 1 exactly if it grew; merging computes the
maximum of the registers whatever the encodings are, and so does PFMERGE. -/
theorem hll_encodings_agree (hll_sparse_max_bytes : ℕ) :
    (∀ s, ValidSparse s → ∃ d, hllSparseToDense s = some (d, C_OK) ∧ ValidDense d ∧ registers d = registers s ∧
      ∀ index count, index < HLL_REGISTERS → 1 ≤ count → count ≤ HLL_Q + 1 → SetsAlike hll_sparse_max_bytes s d index count) ∧
    (∀ s max, Valid s → max.length = HLL_REGISTERS →
      hllMerge max s = some (List.zipWith Nat.max max (registers s), C_OK)) ∧
    ∀ (s : Server) key srcs, (∀ k ∈ key :: srcs, HllAt s.db k) → Merged s key srcs (pfmergeCommand s key srcs) := by
  refine ⟨?_, fun s max h hmax => hllMerge_spec h hmax, fun s key srcs h => pfmergeCommand_spec s key srcs h⟩
  intro s h
  obtain ⟨d, hd, hdense, hregs⟩ := hllSparseToDense_spec h
  refine ⟨d, hd, hdense, hregs, ?_⟩
  intro index count hi h1 h2
  have hc : count ≤ HLL_REGISTER_MAX := Nat.le_trans h2 (by decide)
  obtain ⟨s', old, hold, hrun, hvalid, hregs'⟩ := hllSparseSet_valid hll_sparse_max_bytes h hi ⟨h1, hc⟩
  obtain ⟨d', old', hold', hrun', -, hdregs'⟩ := denseSet_spec hdense hi hc
  rw [hregs, hold] at hold'
  obtain rfl := Option.some.inj hold'
  refine ⟨s', d', old, _, hold, hrun, hrun', hvalid, by rw [hregs', hdregs', hregs], ?_, ?_, ?_⟩
  · rw [hregs']
    split
    · rename_i hlt
      rw [Nat.max_eq_right (Nat.le_of_lt hlt)]
    · rename_i hlt
      obtain ⟨hlen, hget⟩ := List.getElem?_eq_some_iff.mp hold
      rw [Nat.max_eq_left (not_lt.mp hlt), ← hget, List.set_getElem_self]
  · split
    · rename_i hlt
      exact ⟨fun _ => hlt, fun _ => rfl⟩
    · rename_i hlt
      exact ⟨fun h => absurd h (by decide), fun h => absurd h hlt⟩
  · split
    · rename_i hlt
      exact ⟨fun h => absurd h (by decide), fun h => absurd hlt (not_lt.mpr h)⟩
    · rename_i hlt
      exact ⟨fun _ => not_lt.mp hlt, fun _ => rfl⟩

theorem hll_encodings_agree_empty : ∃ d, hllSparseToDense createHLLObject = some (d, C_OK) ∧
    SetsAlike 3000 createHLLObject d 5 3 := by
  obtain ⟨d, hd, -, -, hset⟩ := (hll_encodings_agree 3000).1 createHLLObject createHLLObject_valid
  exact ⟨d, hd, hset 5 3 (by decide) (by decide) (by decide)⟩

end RedisZk.HyperLogLog
