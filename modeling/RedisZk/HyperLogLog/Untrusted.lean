/-
# HyperLogLog strings of untrusted bytes

Any string with the right header is taken for a HyperLogLog. The loops over its opcodes add up
the lengths of the runs in an `int`, and test it at VAL opcodes alone: it may become negative, or
come back to 16384, and what is behind the last register is not seen if it is a VAL. An element
that is refused ends PFADD, with what the elements before it did to the string left there.

Key definitions: `Straight`, `SafeMerge`, `SafeToDense`, `Lifted`, `Spoils`.
Key theorems: `runLoop_exact`, `untrusted_exact`.
-/
import RedisZk.HyperLogLog.Agree

namespace RedisZk.HyperLogLog

open Streams (Sds asInt)
open Endian (Byte)

/-! ### The loops over the opcodes -/

/-- The lengths of the runs, `n` up to here, do not lead the loop astray: as an `int` their sum is
in range at each VAL opcode; at the one where the loop stops it is not 16384; and in the end it is
16384 only if it is. -/
def Straight (sum : ℤ → ℤ) : List Opcode → ℕ → Prop
  | [], n => asInt n = HLL_REGISTERS → n = HLL_REGISTERS
  | .zero len :: ops, n => Straight sum ops (n + len)
  | .xzero len :: ops, n => Straight sum ops (n + len)
  | .val _ len :: ops, n =>
    if sum (len + asInt n) > HLL_REGISTERS then asInt n ≠ HLL_REGISTERS
    else 0 ≤ asInt n ∧ asInt n + len ≤ HLL_REGISTERS ∧ Straight sum ops (n + len)

theorem asInt_add (n m : ℕ) : asInt (asInt n + m) = asInt ((n + m : ℕ) : ℤ) := by
  rw [asInt, asInt, Int.bmod_add_bmod]
  rfl

theorem asInt_le (n : ℕ) : asInt n ≤ n := by
  rw [asInt, Int.bmod_def]
  split <;> omega

section Loop

variable {σ : Type*} {sum : ℤ → ℤ} {touch : σ → ℤ → ℕ → Option σ} {P : σ → Prop}

/-- A register is touched exactly if it is one of the 16384. -/
def TouchesInRange (touch : σ → ℤ → ℕ → Option σ) (P : σ → Prop) : Prop :=
  ∀ m v (i : ℤ), P m → v ≤ HLL_REGISTER_MAX →
    (0 ≤ i ∧ i < HLL_REGISTERS → ∃ m', touch m i v = some m' ∧ P m') ∧ (¬ (0 ≤ i ∧ i < HLL_REGISTERS) → touch m i v = none)

theorem runRegisters_inRange (ht : TouchesInRange touch P) {v : ℕ} (hv : v ≤ HLL_REGISTER_MAX) : ∀ (len : ℕ) (i : ℤ) (m : σ),
    P m → 0 ≤ i → i + len ≤ HLL_REGISTERS → ∃ m', runRegisters touch v len i m = some (i + len, m') ∧ P m' := by
  intro len
  induction len with
  | zero =>
    intro i m hm _ _
    exact ⟨m, by rw [runRegisters, Nat.cast_zero, Int.add_zero], hm⟩
  | succ len ih =>
    intro i m hm h0 hi
    obtain ⟨m1, hm1, hP1⟩ := (ht m v i hm hv).1 ⟨h0, by omega⟩
    have hint : asInt (i + 1) = i + 1 := by
      obtain ⟨n, rfl⟩ := Int.eq_ofNat_of_zero_le h0
      exact asInt_of_small (n := n + 1) (by omega)
    obtain ⟨m2, hm2, hP2⟩ := ih (i + 1) m1 hP1 (by omega) (by omega)
    refine ⟨m2, ?_, hP2⟩
    rw [runRegisters, hm1, some_bind, hint, hm2]
    exact congrArg (fun j => some (j, m2)) (by push_cast; omega)

theorem runRegisters_outside (ht : TouchesInRange touch P) {v : ℕ} (hv : v ≤ HLL_REGISTER_MAX) : ∀ (len : ℕ) (i : ℤ) (m : σ),
    P m → 1 ≤ len → ¬ (0 ≤ i ∧ i + len ≤ HLL_REGISTERS) → runRegisters touch v len i m = none := by
  intro len
  induction len with
  | zero =>
    intro i m _ h1
    omega
  | succ len ih =>
    intro i m hm _ hout
    rw [runRegisters]
    by_cases hi : 0 ≤ i ∧ i < HLL_REGISTERS
    · obtain ⟨m1, hm1, hP1⟩ := (ht m v i hm hv).1 hi
      have hint : asInt (i + 1) = i + 1 := by
        obtain ⟨n, rfl⟩ := Int.eq_ofNat_of_zero_le hi.1
        exact asInt_of_small (n := n + 1) (by omega)
      rw [hm1, some_bind, hint]
      exact ih (i + 1) m1 hP1 (by omega) (by omega)
    · rw [(ht m v i hm hv).2 hi]
      rfl

/-- **The loop is right exactly on straight opcodes.** It touches the 16384 registers only and ends
at 16384 just in case so many registers are covered. -/
theorem runLoop_exact (hsum : ∀ n len : ℕ, sum (len + asInt n) > HLL_REGISTERS → HLL_REGISTERS < n + len)
    (ht : TouchesInRange touch P) {ops : List Opcode} (hops : ∀ op ∈ ops, op.Fits) : ∀ (n : ℕ) (m : σ), P m →
    ((∃ i m', runLoop sum touch ops (asInt n) m = some (i, m') ∧ (i = HLL_REGISTERS ↔ n + total ops = HLL_REGISTERS)) ↔
      Straight sum ops n) := by
  induction ops with
  | nil =>
    intro n m hm
    rw [runLoop, Straight, total_nil, Nat.add_zero]
    constructor
    · rintro ⟨i, m', h, hi⟩
      obtain ⟨rfl, -⟩ := Prod.mk.inj (Option.some.inj h)
      exact hi.mp
    · intro h
      refine ⟨asInt n, m, rfl, h, ?_⟩
      rintro rfl
      exact asInt_of_small (Nat.le_refl _)
  | cons op ops ih =>
    intro n m hm
    have hop := hops op List.mem_cons_self
    have ih := ih fun o h => hops o (List.mem_cons_of_mem _ h)
    rw [total_cons, ← Nat.add_assoc]
    cases op with
    | zero len | xzero len =>
      rw [runLoop, Straight, asInt_add]
      exact ih (n + len) m hm
    | val v len =>
      have hv : v ≤ HLL_REGISTER_MAX := Nat.le_trans hop.2.1 (by decide)
      have hlen : (Opcode.val v len).len = len := rfl
      rw [runLoop, Straight, hlen]
      by_cases hstop : sum (len + asInt n) > HLL_REGISTERS
      · rw [if_pos hstop, if_pos hstop]
        have hmore := hsum n len hstop
        constructor
        · rintro ⟨i, m', h, hi⟩ hat
          obtain ⟨rfl, -⟩ := Prod.mk.inj (Option.some.inj h)
          have := hi.mp hat
          omega
        · intro h
          exact ⟨asInt n, m, rfl, fun h' => absurd h' h, fun h' => by omega⟩
      · rw [if_neg hstop, if_neg hstop]
        by_cases hin : 0 ≤ asInt n ∧ asInt n + len ≤ HLL_REGISTERS
        · obtain ⟨m1, hm1, hP1⟩ := runRegisters_inRange ht hv len (asInt n) m hm hin.1 hin.2
          have hint : asInt n + len = asInt ((n + len : ℕ) : ℤ) := by
            obtain ⟨k, hk⟩ := Int.eq_ofNat_of_zero_le hin.1
            rw [← asInt_add, hk]
            exact (asInt_of_small (n := k + len) (by omega)).symm
          rw [hm1, Option.bind_some, hint, ih (n + len) m1 hP1]
          rw [← hint]
          exact ⟨fun h => ⟨hin.1, hin.2, h⟩, fun h => h.2.2⟩
        · rw [runRegisters_outside ht hv len (asInt n) m hm hop.2.2.1 hin]
          constructor
          · rintro ⟨i, m', h, -⟩
            cases h
          · exact fun h => absurd ⟨h.1, h.2.1⟩ hin

end Loop

theorem raiseMax_inRange : TouchesInRange raiseMax fun max => max.length = HLL_REGISTERS := by
  intro m v i hm hv
  constructor
  · rintro ⟨h0, hi⟩
    obtain ⟨k, rfl⟩ := Int.eq_ofNat_of_zero_le h0
    obtain ⟨m', h, hP, -⟩ := raiseMax_touches m v k hm hv (by omega)
    exact ⟨m', h, hP⟩
  · intro h
    rw [raiseMax]
    split
    · rw [List.getElem?_eq_none (by omega)]
      rfl
    · rfl

theorem touchDense_inRange : TouchesInRange touchDense fun p => p.length = HLL_DENSE_SIZE - HLL_HDR_SIZE + 1 := by
  intro m v i hm hv
  constructor
  · rintro ⟨h0, hi⟩
    obtain ⟨k, rfl⟩ := Int.eq_ofNat_of_zero_le h0
    obtain ⟨m', h, hP, -⟩ := touchDense_touches m v k hm hv (by omega)
    exact ⟨m', h, hP⟩
  · exact fun h => if_neg h

/-! ### Merging and converting any string -/

theorem opcodes_fit (s : Str) : ∀ op ∈ s.opcodes, op.Fits := by
  rw [Str.opcodes, opcodes_eq]
  refine List.forall_mem_append.mpr ⟨(code_complete _).2.2, ?_⟩
  intro op hop
  obtain ⟨x, -, rfl⟩ := List.mem_map.mp hop
  exact opcodeAt_fits x s.nul

/-- The opcodes of a sparse string cover the registers. -/
def Covers (s : Str) : Prop := s.encoding = some HLL_DENSE ∨ total s.opcodes = HLL_REGISTERS

/-- `hllMerge` touches no register but the 16384, and succeeds exactly if they are covered. -/
def SafeMerge (s : Str) : Prop :=
  ∀ max : List ℕ, max.length = HLL_REGISTERS → ∃ max' r, hllMerge max s = some (max', r) ∧ (r = C_OK ↔ Covers s)

/-- `hllSparseToDense` touches no register but the 16384, and succeeds exactly if they are covered. -/
def SafeToDense (s : Str) : Prop := ∃ d r, hllSparseToDense s = some (d, r) ∧ (r = C_OK ↔ Covers s)

theorem loop_code (i : ℤ) : (if i ≠ (HLL_REGISTERS : ℤ) then C_ERR else C_OK) = C_OK ↔ i = HLL_REGISTERS := by
  split
  · rename_i h
    exact ⟨fun h' => absurd h' (by decide), fun h' => absurd h' h⟩
  · rename_i h
    exact ⟨fun _ => not_not.mp h, fun _ => rfl⟩

variable {s : Str}

theorem safeMerge_dense (h : isHLL s = true) (hd : s.encoding = some HLL_DENSE) : SafeMerge s := by
  have hhll := of_decide_eq_true h
  have hvalid : Valid s := .inr ⟨hhll.2.1, hd, hhll.2.2.2 hd⟩
  exact fun max hmax => ⟨_, _, hllMerge_spec hvalid hmax, fun _ => .inl hd, fun _ => rfl⟩

theorem safeMerge_sparse (hd : s.encoding ≠ some HLL_DENSE) :
    SafeMerge s ↔ Straight (fun n => n) s.opcodes 0 := by
  have hexact := @runLoop_exact _ (fun n => n) raiseMax _
      (fun n len h => by have hle := asInt_le n; have h : (len : ℤ) + asInt n > HLL_REGISTERS := h; omega)
      raiseMax_inRange _ (opcodes_fit s) 0
  have hzero : asInt ((0 : ℕ) : ℤ) = 0 := rfl
  rw [hzero] at hexact
  constructor
  · intro h
    refine (hexact (List.replicate HLL_REGISTERS 0) List.length_replicate).mp ?_
    obtain ⟨max', r, hrun, hr⟩ := h (List.replicate HLL_REGISTERS 0) List.length_replicate
    rw [hllMerge, if_neg hd] at hrun
    obtain ⟨⟨i, m'⟩, hloop, heq⟩ := Option.map_eq_some_iff.mp hrun
    obtain ⟨-, rfl⟩ := Prod.mk.inj heq
    refine ⟨i, m', hloop, ?_⟩
    rw [loop_code] at hr
    rw [hr, Nat.zero_add]
    exact ⟨fun h => h.resolve_left hd, .inr⟩
  · intro h max hmax
    obtain ⟨i, m', hloop, hi⟩ := (hexact max hmax).mpr h
    refine ⟨m', _, by rw [hllMerge, if_neg hd, hloop]; rfl, ?_⟩
    rw [loop_code, hi, Nat.zero_add]
    exact ⟨.inr, fun h => h.resolve_left hd⟩

theorem safeToDense_dense (hd : s.encoding = some HLL_DENSE) : SafeToDense s :=
  ⟨s, C_OK, if_pos hd, fun _ => .inl hd, fun _ => rfl⟩

theorem asInt_sum_le (n len : ℕ) (h : asInt (len + asInt n) > HLL_REGISTERS) : HLL_REGISTERS < n + len := by
  rw [Int.add_comm, asInt_add] at h
  have hle := asInt_le (n + len)
  omega

theorem safeToDense_sparse (hd : s.encoding ≠ some HLL_DENSE) :
    SafeToDense s ↔ Straight asInt s.opcodes 0 := by
  have hexact := @runLoop_exact _ asInt touchDense _ asInt_sum_le touchDense_inRange _ (opcodes_fit s) 0
      (List.replicate (HLL_DENSE_SIZE - HLL_HDR_SIZE + 1) 0) List.length_replicate
  have hzero : asInt ((0 : ℕ) : ℤ) = 0 := rfl
  rw [hzero] at hexact
  rw [← hexact]
  have hcode : ∀ (i : ℤ) (o d : Str), (if i ≠ (HLL_REGISTERS : ℤ) then (o, C_ERR) else (d, C_OK)).2 = C_OK ↔ i = HLL_REGISTERS := by
    intro i o d
    refine Iff.trans ?_ (loop_code i)
    by_cases h : i ≠ (HLL_REGISTERS : ℤ)
    · rw [if_pos h, if_pos h]
    · rw [if_neg h, if_neg h]
  constructor
  · rintro ⟨d, r, hrun, hr⟩
    rw [hllSparseToDense, if_neg hd] at hrun
    obtain ⟨⟨i, m'⟩, hloop, heq⟩ := Option.map_eq_some_iff.mp hrun
    have hr' : r = C_OK ↔ i = HLL_REGISTERS := by
      rw [← hcode i s, heq]
    refine ⟨i, m', hloop, ?_⟩
    rw [← hr', hr, Nat.zero_add]
    exact ⟨fun h => h.resolve_left hd, .inr⟩
  · rintro ⟨i, m', hloop, hi⟩
    have hrun : hllSparseToDense s = some (if i ≠ (HLL_REGISTERS : ℤ) then (s, C_ERR)
        else (Str.withRegisters ((s.bytes.take HLL_HDR_SIZE).set 4 HLL_DENSE) m', C_OK)) := by
      rw [hllSparseToDense, if_neg hd]
      dsimp only
      rw [hloop, Option.map_some]
    have hr := hcode i s (Str.withRegisters ((s.bytes.take HLL_HDR_SIZE).set 4 HLL_DENSE) m')
    generalize (if i ≠ (HLL_REGISTERS : ℤ) then (s, C_ERR)
      else (Str.withRegisters ((s.bytes.take HLL_HDR_SIZE).set 4 HLL_DENSE) m', C_OK)) = r at hrun hr
    refine ⟨r.1, r.2, hrun, ?_⟩
    rw [hr, hi, Nat.zero_add]
    exact ⟨.inr, fun h => h.resolve_left hd⟩

/-! ### Elements that are refused -/

/-- The registers of `l`, each as it was or raised, and perhaps more of them. -/
def Below (l l' : List ℕ) : Prop := ∀ i v : ℕ, l[i]? = some v → ∃ v', l'[i]? = some v' ∧ v ≤ v'

theorem Below.trans {l l' l'' : List ℕ} (h : Below l l') (h' : Below l' l'') : Below l l'' := by
  intro i v hv
  obtain ⟨v', hv', hle⟩ := h i v hv
  obtain ⟨v'', hv'', hle'⟩ := h' i v' hv'
  exact ⟨v'', hv'', Nat.le_trans hle hle'⟩

theorem Below.antisymm {l l' : List ℕ} (h : Below l l') (h' : Below l' l) : l = l' := by
  refine List.ext_getElem? fun i => ?_
  cases hv : l[i]? with
  | none =>
    cases hv' : l'[i]? with
    | none => rfl
    | some v' =>
      obtain ⟨v, hw, -⟩ := h' i v' hv'
      rw [hv] at hw
      cases hw
  | some v =>
    obtain ⟨v', hv', hle⟩ := h i v hv
    obtain ⟨w, hw, hle'⟩ := h' i v' hv'
    rw [hv] at hw
    obtain rfl := Option.some.inj hw
    rw [hv', Nat.le_antisymm hle hle']

theorem below_set {l : List ℕ} {index v count : ℕ} (hv : l[index]? = some v) (hlt : v < count) : Below l (l.set index count) := by
  intro i w hw
  by_cases hi : i = index
  · subst hi
    rw [hv] at hw
    obtain rfl := Option.some.inj hw
    exact ⟨count, List.getElem?_set_self (List.getElem?_eq_some_iff.mp hv).1, Nat.le_of_lt hlt⟩
  · exact ⟨w, by rw [List.getElem?_set_ne (Ne.symm hi)]; exact hw, Nat.le_refl w⟩

/-- What of a string is no opcode in whole. -/
def Str.rest (s : Str) : List Byte := (complete (s.bytes.drop HLL_HDR_SIZE)).2

/-- A register was raised, or there are more of them, or a byte of an opcode is gone. -/
def Lifted (s s' : Str) : Prop :=
  Below (values s.ops) (values s'.ops) ∧ (values s.ops ≠ values s'.ops ∨ s.rest ≠ [] ∧ s'.rest = [])

theorem Lifted.trans {s s' s'' : Str} (h : Lifted s s') (h' : Lifted s' s'') : Lifted s s'' := by
  refine ⟨h.1.trans h'.1, ?_⟩
  by_cases heq : values s.ops = values s''.ops
  · have h1 : values s.ops = values s'.ops := h.1.antisymm (heq ▸ h'.1)
    have h2 : values s'.ops = values s''.ops := h1.symm.trans heq
    have hr := h.2.resolve_left (not_not_intro h1)
    have hr' := h'.2.resolve_left (not_not_intro h2)
    exact absurd hr.2 hr'.1
  · exact .inl heq

/-- Then its bytes are others. -/
theorem Lifted.bytes_ne {s s' : Str} (h : Lifted s s') : s'.bytes ≠ s.bytes := by
  intro heq
  have hops : s'.ops = s.ops := by rw [Str.ops, Str.ops, heq]
  have hrest : s'.rest = s.rest := by rw [Str.rest, Str.rest, heq]
  rcases h.2 with hne | ⟨h1, h2⟩
  · exact hne (by rw [hops])
  · exact h1 (hrest ▸ h2)

/-- What `hllAdd` does to a string that is taken for a HyperLogLog. -/
inductive AddOutcome (o : Str) : Option (Str × ℤ) → Prop
  /-- A register outside, or an assertion that fails. -/
  | undefined : AddOutcome o none
  | refused (h : o.encoding = some HLL_SPARSE) : AddOutcome o (some (o, -1))
  | kept : AddOutcome o (some (o, 0))
  | dense {o' : Str} (h : ValidDense o') : AddOutcome o (some (o', 1))
  | lifted {o' : Str} (hs : o.encoding = some HLL_SPARSE) (h : Lifted o o') (hhll : isHLL o' = true) (henc : o'.encoding = some HLL_SPARSE) :
      AddOutcome o (some (o', 1))

theorem runRegisters_keeps {σ : Type*} {touch : σ → ℤ → ℕ → Option σ} {P : σ → Prop} (ht : TouchesInRange touch P) {v : ℕ}
    (hv : v ≤ HLL_REGISTER_MAX) : ∀ (len : ℕ) (i : ℤ) (m : σ) {r : ℤ × σ}, P m → runRegisters touch v len i m = some r → P r.2 := by
  intro len
  induction len with
  | zero =>
    intro i m r hm h
    rw [← Option.some.inj h]
    exact hm
  | succ len ih =>
    intro i m r hm h
    rw [runRegisters] at h
    obtain ⟨m1, hm1, h⟩ := Option.bind_eq_some_iff.mp h
    by_cases hi : 0 ≤ i ∧ i < HLL_REGISTERS
    · obtain ⟨m', hm', hP⟩ := (ht m v i hm hv).1 hi
      rw [hm1] at hm'
      obtain rfl := Option.some.inj hm'
      exact ih _ _ hP h
    · rw [(ht m v i hm hv).2 hi] at hm1
      cases hm1

variable {ops : List Opcode}

theorem runLoop_keeps {σ : Type*} {sum : ℤ → ℤ} {touch : σ → ℤ → ℕ → Option σ} {P : σ → Prop} (ht : TouchesInRange touch P)
    (hops : ∀ op ∈ ops, op.Fits) : ∀ (i : ℤ) (m : σ) {r : ℤ × σ}, P m →
    runLoop sum touch ops i m = some r → P r.2 := by
  induction ops with
  | nil =>
    intro i m r hm h
    rw [← Option.some.inj h]
    exact hm
  | cons op ops ih =>
    intro i m r hm h
    have hop := hops op List.mem_cons_self
    have ih := ih fun o h => hops o (List.mem_cons_of_mem _ h)
    cases op with
    | zero len | xzero len => exact ih _ _ hm h
    | val v len =>
      rw [runLoop] at h
      split at h
      · rw [← Option.some.inj h]
        exact hm
      · obtain ⟨r1, hr1, h⟩ := Option.bind_eq_some_iff.mp h
        exact ih _ _ (runRegisters_keeps ht (Nat.le_trans hop.2.1 (by decide)) len i m hm hr1) h

variable {o : Str}

/-- Converting fails with the string as it was, or gives a dense string. -/
theorem hllSparseToDense_outcome (hhll : isHLL o = true) (henc : o.encoding = some HLL_SPARSE) {d : Str} {c : ℤ}
    (h : hllSparseToDense o = some (d, c)) : c = C_ERR ∧ d = o ∨ c = C_OK ∧ ValidDense d := by
  obtain ⟨hsize, hmagic, -, -⟩ := of_decide_eq_true hhll
  rw [hllSparseToDense, henc, if_neg (by decide)] at h
  obtain ⟨r, hr, h⟩ := Option.map_eq_some_iff.mp h
  have hp := runLoop_keeps touchDense_inRange (opcodes_fit o) _ _ List.length_replicate hr
  split at h
  · obtain ⟨rfl, rfl⟩ := Prod.mk.inj h
    exact .inl ⟨rfl, rfl⟩
  · obtain ⟨rfl, rfl⟩ := Prod.mk.inj h
    refine .inr ⟨rfl, withRegisters_valid ?_ ?_ ?_ hp⟩
    · rw [List.length_set, List.length_take_of_le hsize]
    · rw [List.take_set_of_le (Nat.le_refl 4), List.take_take]
      exact hmagic
    · rw [List.getElem?_set_self (by rw [List.length_take_of_le hsize]; decide)]

theorem promote_outcome (hhll : isHLL o = true) (henc : o.encoding = some HLL_SPARSE) {index count : ℕ}
    (hi : index < HLL_REGISTERS) (hc : count ≤ HLL_REGISTER_MAX) : AddOutcome o (promote o index count) := by
  rw [promote]
  cases h : hllSparseToDense o with
  | none => exact .undefined
  | some r =>
    rw [Option.bind_some]
    rcases hllSparseToDense_outcome hhll henc h with ⟨hc, hd⟩ | ⟨hok, hd⟩
    · rw [if_pos hc, hd]
      exact .refused henc
    · obtain ⟨s', old, -, hset, hvalid, -⟩ := denseSet_spec hd hi hc
      rw [if_neg (by rw [hok]; decide), hset, Option.bind_some]
      by_cases hlt : old < count
      · rw [if_pos hlt, if_pos rfl]
        exact .dense hvalid
      · rw [if_neg hlt, if_neg (show ¬ (0 : ℤ) = 1 by decide)]
        exact .undefined

theorem denseSet_outcome (h : ValidDense o) {index count : ℕ} (hi : index < HLL_REGISTERS)
    (hc : count ≤ HLL_REGISTER_MAX) : AddOutcome o (denseSet o index count) := by
  obtain ⟨s', old, hold, hset, hvalid, -⟩ := denseSet_spec h hi hc
  by_cases hlt : old < count
  · rw [hset, if_pos hlt]
    exact .dense hvalid
  · -- nothing is written
    have hget : hllDenseGetRegister o.registers index = some old := by
      obtain ⟨x, hx, -⟩ := Packed.getCell_lt (dense_bound h.length index hi)
      rw [h.registers, Packed.cells_get _ hi, hx] at hold
      rw [denseGet_eq, hx, ← Option.some.inj hold]
      rfl
    have hsame : Str.withRegisters (o.bytes.take HLL_HDR_SIZE) o.registers = o := by
      rw [Str.withRegisters, Str.registers, List.dropLast_concat, List.take_append_drop, List.getLast?_concat]
      rfl
    have hrun : denseSet o index count = some (o, 0) := by
      rw [denseSet, hllDenseSet, hget, some_bind, if_neg hlt, Option.map_some, hsame]
    rw [hrun]
    exact .kept

theorem isHLL_of_body {hdr : Sds} {tail : List Byte} (hb : Body s hdr ops tail)
    (hmagic : hdr.take 4 = magic) (henc : hdr[4]? = some HLL_SPARSE) : isHLL s = true ∧ s.encoding = some HLL_SPARSE := by
  have hlen : 4 < hdr.length := by rw [hb.header]; decide
  have henc' : s.encoding = some HLL_SPARSE := by
    rw [Str.encoding, hb.bytes, List.getElem?_append_left hlen, henc]
  refine ⟨decide_eq_true ⟨?_, ?_, .inr henc', fun h => ?_⟩, henc'⟩
  · rw [hb.bytes, List.length_append, hb.header]
    exact Nat.le_add_right _ _
  · rw [hb.bytes, List.take_append_of_le_length (by omega), hmagic]
  · rw [henc'] at h
    exact absurd h (by decide)

theorem Body.rest {hdr : Sds} {tail : List Byte} (h : Body s hdr ops tail) : s.rest = tail := by
  rw [Str.rest, h.complete]

/-- Setting a register of a sparse string refuses it, keeps it, makes it dense, or lifts it. -/
theorem hllSparseSet_outcome (hll_sparse_max_bytes : ℕ) (hhll : isHLL o = true) (henc : o.encoding = some HLL_SPARSE)
    {index count : ℕ} (hi : index < HLL_REGISTERS) (hc : 1 ≤ count ∧ count ≤ HLL_REGISTER_MAX) :
    AddOutcome o (hllSparseSet hll_sparse_max_bytes o index count) := by
  obtain ⟨hsize, hmagic, -, -⟩ := of_decide_eq_true hhll
  by_cases hbig : count > HLL_SPARSE_VAL_MAX_VALUE
  · rw [hllSparseSet, if_pos hbig]
    exact promote_outcome hhll henc hi hc.2
  · have hb := body_of_length hsize
    have hout := hllSparseSet_spec hll_sparse_max_bytes hb index ⟨hc.1, not_lt.mp hbig⟩
    have hmagic' : (HLL_INVALIDATE_CACHE (o.bytes.take HLL_HDR_SIZE)).take 4 = magic := by
      rw [take_invalidate _ (by decide), List.take_take]
      exact hmagic
    have henc' : (HLL_INVALIDATE_CACHE (o.bytes.take HLL_HDR_SIZE))[4]? = some HLL_SPARSE := by
      rw [getElem_invalidate _ (by decide), List.getElem?_take_of_lt (by decide)]
      exact henc
    generalize hllSparseSet hll_sparse_max_bytes o index count = r at hout
    cases hout with
    | invalid => exact .refused henc
    | kept => exact .kept
    | promoted => exact promote_outcome hhll henc hi hc.2
    | raised hv hlt hr =>
      obtain ⟨s', ops', rfl, hbody, hvals⟩ := hr
      obtain ⟨h1, h2⟩ := isHLL_of_body hbody hmagic' henc'
      refine .lifted henc ⟨?_, .inl ?_⟩ h1 h2
      · rw [hbody.whole, hvals]
        exact below_set hv hlt
      · rw [hbody.whole, hvals]
        intro heq
        have hget := congrArg (fun l => l[index]?) heq
        rw [hv, List.getElem?_set_self (List.getElem?_eq_some_iff.mp hv).1] at hget
        have := Option.some.inj hget
        omega
    | cut ht hbody hvals hnew hfits =>
      obtain ⟨h1, h2⟩ := isHLL_of_body hbody hmagic' henc'
      refine .lifted henc ⟨?_, ?_⟩ h1 h2
      · rw [hbody.whole, hvals, values_append]
        exact fun i v h => ⟨v, by rw [List.getElem?_append_left (List.getElem?_eq_some_iff.mp h).1]; exact h, Nat.le_refl v⟩
      · rcases hnew with hnew | htail
        · refine .inl ?_
          rw [hbody.whole, hvals, values_append]
          intro heq
          have hlen := congrArg List.length heq
          rw [List.length_append, Nat.left_eq_add, length_values] at hlen
          obtain ⟨op, rest, rfl⟩ := List.exists_cons_of_ne_nil hnew
          have hpos := (hfits op List.mem_cons_self).pos
          rw [total_cons] at hlen
          omega
        · exact .inr ⟨by rw [hb.rest]; exact ht, by rw [hbody.rest, htail]⟩

theorem hllAdd_outcome (hll_sparse_max_bytes : ℕ) (hhll : isHLL o = true) (ele : Sds) :
    AddOutcome o (hllAdd hll_sparse_max_bytes o ele) := by
  obtain ⟨-, hmagic, henc, hsize⟩ := of_decide_eq_true hhll
  obtain ⟨hi, h1, h2⟩ := hllPatLen_bounds ele
  have hc : (hllPatLen ele).2 ≤ HLL_REGISTER_MAX := Nat.le_trans h2 (by decide)
  rw [hllAdd]
  rcases henc with henc | henc
  · rw [if_pos henc]
    exact denseSet_outcome ⟨hmagic, henc, hsize henc⟩ hi hc
  · rw [if_neg (by rw [henc]; decide), if_pos henc]
    exact hllSparseSet_outcome hll_sparse_max_bytes hhll henc hi ⟨h1, hc⟩

/-! ### PFADD -/

section Elements

variable {hll_sparse_max_bytes : ℕ}

/-- The elements that are added leave the string as it was, make it dense, or lift it. -/
theorem addElements_run : ∀ {eles : List Sds} {o o' : Str} {n n' : ℕ}, isHLL o = true →
    addElements hll_sparse_max_bytes eles o n = some (o', some n') → isHLL o' = true ∧
      (o.encoding = some HLL_DENSE → o'.encoding = some HLL_DENSE) ∧
      (n' = n ∧ o' = o ∨ n < n' ∧ (o'.encoding = some HLL_DENSE ∨ Lifted o o')) := by
  intro eles
  induction eles with
  | nil =>
    intro o o' n n' hhll h
    obtain ⟨rfl, hn⟩ := Prod.mk.inj (Option.some.inj h)
    exact ⟨hhll, id, .inl ⟨(Option.some.inj hn).symm, rfl⟩⟩
  | cons ele eles ih =>
    intro o o' n n' hhll h
    rw [addElements] at h
    have hout := hllAdd_outcome hll_sparse_max_bytes hhll ele
    generalize hllAdd hll_sparse_max_bytes o ele = r at h hout
    cases hout with
    | undefined => cases h
    | refused henc =>
      rw [Option.bind_some, if_neg (show ¬ (-1 : ℤ) = 1 by decide), if_pos rfl] at h
      cases h
    | kept =>
      rw [Option.bind_some, if_neg (show ¬ (0 : ℤ) = 1 by decide), if_neg (show ¬ (0 : ℤ) = -1 by decide)] at h
      exact ih hhll h
    | dense hd =>
      rw [Option.bind_some, if_pos rfl] at h
      obtain ⟨h1, h2, h3⟩ := ih (isHLL_of_valid (.inr hd)) h
      have henc := h2 hd.encoding
      exact ⟨h1, fun _ => henc, .inr ⟨by omega, .inl henc⟩⟩
    | lifted hs hl hhll1 henc1 =>
      rw [Option.bind_some, if_pos rfl] at h
      obtain ⟨h1, h2, h3⟩ := ih hhll1 h
      refine ⟨h1, fun hd => absurd (hs.symm.trans hd) (by decide), .inr ?_⟩
      rcases h3 with ⟨hn, rfl⟩ | ⟨hn, hd | hl'⟩
      · exact ⟨by omega, .inr hl⟩
      · exact ⟨by omega, .inl hd⟩
      · exact ⟨by omega, .inr (hl.trans hl')⟩

/-- An element is refused behind others. -/
def RefusedBehind (hll_sparse_max_bytes : ℕ) (o : Str) (eles : List Sds) (n : ℕ) (o' : Str) (n' : ℕ) : Prop :=
  ∃ before ele after, eles = before ++ ele :: after ∧ addElements hll_sparse_max_bytes before o n = some (o', some n') ∧
    hllAdd hll_sparse_max_bytes o' ele = some (o', -1)

theorem addElements_refused : ∀ {eles : List Sds} {o r : Str} {n : ℕ}, isHLL o = true →
    (addElements hll_sparse_max_bytes eles o n = some (r, none) ↔ ∃ n', RefusedBehind hll_sparse_max_bytes o eles n r n') := by
  intro eles
  induction eles with
  | nil =>
    intro o r n _
    constructor
    · intro h
      cases h
    · rintro ⟨n', before, ele, after, heq, -⟩
      cases before <;> cases heq
  | cons ele eles ih =>
    intro o r n hhll
    rw [addElements]
    have hout := hllAdd_outcome hll_sparse_max_bytes hhll ele
    -- an element that is refused, at the front or behind
    have hcons : ∀ n', RefusedBehind hll_sparse_max_bytes o (ele :: eles) n r n' ↔
        (n' = n ∧ r = o ∧ hllAdd hll_sparse_max_bytes o ele = some (o, -1)) ∨
        ∃ o1 c, hllAdd hll_sparse_max_bytes o ele = some (o1, c) ∧ c ≠ -1 ∧
          RefusedBehind hll_sparse_max_bytes o1 eles (if c = 1 then n + 1 else n) r n' := by
      intro n'
      constructor
      · rintro ⟨before, e, after, heq, hrun, href⟩
        cases before with
        | nil =>
          obtain ⟨rfl, hn⟩ := Prod.mk.inj (Option.some.inj hrun)
          obtain ⟨rfl, rfl⟩ := List.cons.inj heq
          exact .inl ⟨(Option.some.inj hn).symm, rfl, href⟩
        | cons b before =>
          obtain ⟨rfl, htail⟩ := List.cons.inj heq
          rw [addElements] at hrun
          obtain ⟨⟨o1, c⟩, hadd, hrun⟩ := Option.bind_eq_some_iff.mp hrun
          refine .inr ⟨o1, c, hadd, ?_, before, e, after, htail, ?_, href⟩
          · rintro rfl
            rw [if_neg (show ¬ (-1 : ℤ) = 1 by decide), if_pos rfl] at hrun
            cases hrun
          · by_cases h1 : c = 1
            · rw [if_pos h1]
              rw [if_pos h1] at hrun
              exact hrun
            · rw [if_neg h1]
              rw [if_neg h1] at hrun
              split at hrun
              · cases hrun
              · exact hrun
      · rintro (⟨rfl, rfl, href⟩ | ⟨o1, c, hadd, hc, before, e, after, heq, hrun, href⟩)
        · exact ⟨[], ele, eles, rfl, rfl, href⟩
        · refine ⟨ele :: before, e, after, by rw [heq]; rfl, ?_, href⟩
          rw [addElements, hadd, Option.bind_some]
          by_cases h1 : c = 1
          · rw [if_pos h1]
            rw [if_pos h1] at hrun
            exact hrun
          · rw [if_neg h1, if_neg hc]
            rw [if_neg h1] at hrun
            exact hrun
    simp only [hcons]
    -- what the rest does, behind an element that is not refused
    have hrest : ∀ (o1 : Str) (c : ℤ), isHLL o1 = true → c ≠ -1 → hllAdd hll_sparse_max_bytes o ele = some (o1, c) →
        (addElements hll_sparse_max_bytes eles o1 (if c = 1 then n + 1 else n) = some (r, none) ↔
          ∃ n', n' = n ∧ r = o ∧ hllAdd hll_sparse_max_bytes o ele = some (o, -1) ∨
            ∃ o1 c, hllAdd hll_sparse_max_bytes o ele = some (o1, c) ∧ c ≠ -1 ∧
              RefusedBehind hll_sparse_max_bytes o1 eles (if c = 1 then n + 1 else n) r n') := by
      intro o1 c hhll1 hc hadd
      rw [ih hhll1, hadd]
      constructor
      · rintro ⟨n', h⟩
        exact ⟨n', .inr ⟨o1, c, rfl, hc, h⟩⟩
      · rintro ⟨n', ⟨-, -, h⟩ | ⟨o2, c2, h, -, hb⟩⟩
        · exact absurd (Prod.mk.inj (Option.some.inj h)).2 hc
        · obtain ⟨rfl, rfl⟩ := Prod.mk.inj (Option.some.inj h)
          exact ⟨n', hb⟩
    generalize hadd : hllAdd hll_sparse_max_bytes o ele = a at hout hrest ⊢
    cases hout with
    | undefined =>
      constructor
      · intro h
        cases h
      · rintro ⟨n', ⟨-, -, h⟩ | ⟨o2, c2, h, -⟩⟩ <;> cases h
    | refused henc =>
      rw [Option.bind_some, if_neg (show ¬ (-1 : ℤ) = 1 by decide), if_pos rfl]
      constructor
      · intro h
        obtain ⟨rfl, -⟩ := Prod.mk.inj (Option.some.inj h)
        exact ⟨n, .inl ⟨rfl, rfl, rfl⟩⟩
      · rintro ⟨n', ⟨-, rfl, -⟩ | ⟨o2, c2, h, hc, -⟩⟩
        · rfl
        · exact absurd (Prod.mk.inj (Option.some.inj h)).2.symm hc
    | kept =>
      rw [Option.bind_some, if_neg (show ¬ (0 : ℤ) = 1 by decide), if_neg (show ¬ (0 : ℤ) = -1 by decide)]
      exact hrest o 0 hhll (by decide) rfl
    | dense hd =>
      rw [Option.bind_some, if_pos rfl]
      exact hrest _ 1 (isHLL_of_valid (.inr hd)) (by decide) rfl
    | lifted hs hl hhll1 henc1 =>
      rw [Option.bind_some, if_pos rfl]
      exact hrest _ 1 hhll1 (by decide) rfl

end Elements

/-- A valid string refuses no element. -/
theorem addElements_valid (hll_sparse_max_bytes : ℕ) (eles : List Sds) : ∀ {o : Str}, Valid o → ∀ n,
    ∃ o' n', addElements hll_sparse_max_bytes eles o n = some (o', some n') := by
  induction eles with
  | nil => exact fun {o} _ n => ⟨o, n, rfl⟩
  | cons ele eles ih =>
    intro o ho n
    obtain ⟨hi, h1, h2⟩ := hllPatLen_bounds ele
    have hc : (hllPatLen ele).2 ≤ HLL_REGISTER_MAX := Nat.le_trans h2 (by decide)
    have hset : SetsRegister o (hllPatLen ele).1 (hllPatLen ele).2 (hllAdd hll_sparse_max_bytes o ele) := by
      rw [hllAdd]
      rcases ho with h | h
      · rw [h.encoding, if_neg (by decide), if_pos rfl]
        exact hllSparseSet_valid hll_sparse_max_bytes h hi ⟨h1, hc⟩
      · rw [h.encoding, if_pos rfl]
        obtain ⟨s', old, hold, hrun, hvalid, hregs⟩ := denseSet_spec h hi hc
        exact ⟨s', old, hold, hrun, .inr hvalid, hregs⟩
    obtain ⟨o', old, -, hrun, hvalid, -⟩ := hset
    rw [addElements, hrun, Option.bind_some]
    by_cases hlt : old < (hllPatLen ele).2
    · rw [if_pos hlt, if_pos rfl]
      exact ih hvalid (n + 1)
    · rw [if_neg hlt, if_neg (show ¬ (0 : ℤ) = 1 by decide), if_neg (show ¬ (0 : ℤ) = -1 by decide)]
      exact ih hvalid n

/-- What an object holds: of a string the bytes. -/
def Object.content : Object → Object
  | .string s _ => .string ⟨s.bytes, 0⟩ true
  | o => o

/-- An error leaves what the database holds as it was. -/
def KeepsOnError (s : Server) (r : Option (Server × Reply)) : Prop :=
  ∀ s' e, r = some (s', .error e) → ∀ k, (s'.db.dict k).map Object.content = (s.db.dict k).map Object.content

/-- An element that raises a register of the string comes before one that is refused. -/
def Spoils (hll_sparse_max_bytes : ℕ) (o : Str) (eles : List Sds) : Prop :=
  ∃ o' n, RefusedBehind hll_sparse_max_bytes o eles 0 o' n ∧ n ≠ 0

theorem bytes_unshare (s : Str) (raw : Bool) : (dbUnshareStringValue s raw).bytes = s.bytes := by cases raw <;> rfl

theorem isHLL_unshare (raw : Bool) (h : isHLL s = true) : isHLL (dbUnshareStringValue s raw) = true := by
  unfold isHLL Str.encoding at *
  rw [bytes_unshare]
  exact h

theorem content_store {db : Keyspace.Db Object} {key : Sds} {str o : Str} {raw : Bool} (hkey : db.dict key = some (.string str raw))
    (ho : o.bytes = str.bytes) (k : Sds) : ((store db key o).dict k).map Object.content = (db.dict k).map Object.content := by
  by_cases hk : k = key
  · subst hk
    rw [dict_store_self, hkey, Option.map_some, Option.map_some, Object.content, Object.content, ho]
  · rw [dict_store_ne _ _ hk]

/-- PFADD over a string ends with an error if an element is refused. -/
theorem pfaddString_error {s : Server} {key : Sds} {eles : List Sds} {n : ℕ} {s' : Server} {e : Sds} :
    pfaddString s key eles o n = some (s', .error e) ↔
      ∃ r, addElements s.hll_sparse_max_bytes eles o n = some (r, none) ∧ s' = { s with db := store s.db key r } ∧
        e = invalid_hll_err := by
  rw [pfaddString, Option.map_eq_some_iff]
  constructor
  · rintro ⟨⟨r, n'⟩, hrun, h⟩
    cases n' with
    | none =>
      obtain ⟨hs, he⟩ := Prod.mk.inj h
      exact ⟨r, hrun, hs.symm, (Reply.error.inj he).symm⟩
    | some n' =>
      dsimp only at h
      split at h <;> cases (Prod.mk.inj h).2
  · rintro ⟨r, hrun, rfl, rfl⟩
    exact ⟨(r, none), hrun, rfl⟩

/-- **An error of PFADD leaves the string as it was** exactly if no element that raises a register
comes before one that is refused. -/
theorem pfadd_exact (s : Server) (key : Sds) (eles : List Sds) : KeepsOnError s (pfaddCommand s key eles) ↔
    ∀ str raw, s.db.dict key = some (.string str raw) → isHLL str = true →
      ¬ Spoils s.hll_sparse_max_bytes (dbUnshareStringValue str raw) eles := by
  rw [pfaddCommand]
  cases hkey : s.db.dict key with
  | none =>
    refine ⟨fun _ _ _ h => (by cases h), fun _ s' e h => ?_⟩
    obtain ⟨r, hrun, -, -⟩ := pfaddString_error.mp h
    obtain ⟨o', n', hok⟩ := addElements_valid s.hll_sparse_max_bytes eles (.inl createHLLObject_valid) 1
    rw [hok] at hrun
    cases hrun
  | some obj =>
    cases obj with
    | int v | other =>
      refine ⟨fun _ _ _ h => (by cases h), fun _ s' e h k => ?_⟩
      obtain ⟨rfl, -⟩ := Prod.mk.inj (Option.some.inj h)
      rfl
    | string str raw =>
      by_cases hhll : isHLL str = true
      · simp only [isHLLObjectOrReply, if_pos hhll]
        have hhll' := isHLL_unshare raw hhll
        constructor
        · rintro hkeep str' raw' heq - ⟨o', n, href, hn⟩
          obtain ⟨rfl, rfl⟩ := Object.string.inj (Option.some.inj heq)
          have hrun := (addElements_refused hhll').mpr ⟨n, href⟩
          have hsame := hkeep _ _ (pfaddString_error.mpr ⟨o', hrun, rfl, rfl⟩) key
          dsimp only at hsame
          rw [dict_store_self, hkey, Option.map_some, Option.map_some] at hsame
          have hbytes : o'.bytes = str.bytes := (Str.mk.inj (Object.string.inj (Option.some.inj hsame)).1).1
          obtain ⟨before, ele, after, -, hbefore, hadd⟩ := href
          obtain ⟨hhll1, -, ⟨rfl, -⟩ | ⟨-, hd | hl⟩⟩ := addElements_run hhll' hbefore
          · exact hn rfl
          · -- a dense string refuses nothing
            have hout := hllAdd_outcome s.hll_sparse_max_bytes hhll1 ele
            rw [hadd] at hout
            cases hout with
            | refused henc => exact absurd (henc.symm.trans hd) (by decide)
          · exact hl.bytes_ne (hbytes.trans (bytes_unshare str raw).symm)
        · intro hno s' e h k
          obtain ⟨r, hrun, rfl, -⟩ := pfaddString_error.mp h
          obtain ⟨n, href⟩ := (addElements_refused hhll').mp hrun
          have hn : n = 0 := by
            by_contra hn
            exact hno str raw rfl hhll ⟨r, n, href, hn⟩
          obtain ⟨before, ele, after, -, hbefore, -⟩ := href
          obtain ⟨-, -, ⟨-, rfl⟩ | ⟨hlt, -⟩⟩ := addElements_run hhll' hbefore
          · exact content_store hkey (bytes_unshare str raw) k
          · omega
      · simp only [isHLLObjectOrReply, if_neg hhll]
        refine ⟨fun _ str' raw' h hhll' => ?_, fun _ s' e h k => ?_⟩
        · obtain ⟨rfl, rfl⟩ := Object.string.inj (Option.some.inj h)
          exact absurd hhll' hhll
        · obtain ⟨rfl, -⟩ := Prod.mk.inj (Option.some.inj h)
          rfl

/-! ### PFMERGE -/

theorem hllSparseToDense_err {o d : Str} (h : hllSparseToDense o = some (d, C_ERR)) : d = o := by
  rw [hllSparseToDense] at h
  split at h
  · exact absurd (Prod.mk.inj (Option.some.inj h)).2 (by decide)
  · obtain ⟨r, -, h⟩ := Option.map_eq_some_iff.mp h
    split at h
    · exact (Prod.mk.inj h).1.symm
    · exact absurd (Prod.mk.inj h).2 (by decide)

/-- PFMERGE over a string ends with an error only if it cannot be converted. -/
theorem pfmergeString_error {s : Server} {key : Sds} {max : List ℕ} {use_dense : Bool} {s' : Server} {e : Sds}
    (h : pfmergeString s key max use_dense o = some (s', .error e)) :
    use_dense = true ∧ hllSparseToDense o = some (o, C_ERR) ∧ s' = { s with db := store s.db key o } := by
  rw [pfmergeString] at h
  obtain ⟨⟨d, c⟩, hd, hres⟩ := Option.bind_eq_some_iff.mp h
  dsimp only at hres
  by_cases hc : c = C_ERR
  · rw [if_pos hc] at hres
    cases use_dense with
    | false => exact absurd ((Prod.mk.inj (Option.some.inj hd)).2.trans hc) (by decide)
    | true =>
      have hd : hllSparseToDense o = some (d, C_ERR) := hc ▸ hd
      have hdo := hllSparseToDense_err hd
      rw [hdo] at hd hres
      exact ⟨rfl, hd, (Prod.mk.inj (Option.some.inj hres)).1.symm⟩
  · rw [if_neg hc] at hres
    obtain ⟨o', -, hres⟩ := Option.map_eq_some_iff.mp hres
    cases (Prod.mk.inj hres).2

/-- **An error of PFMERGE leaves every string as it was.** -/
theorem pfmerge_keeps (s : Server) (key : Sds) (srcs : List Sds) : KeepsOnError s (pfmergeCommand s key srcs) := by
  intro s' e h k
  rw [pfmergeCommand] at h
  obtain ⟨r, -, h⟩ := Option.bind_eq_some_iff.mp h
  cases r with
  | error e' =>
    obtain ⟨rfl, -⟩ := Prod.mk.inj (Option.some.inj h)
    rfl
  | ok r =>
    obtain ⟨max, use_dense⟩ := r
    cases hkey : s.db.dict key with
    | none =>
      simp only [hkey] at h
      obtain ⟨-, herr, -⟩ := pfmergeString_error h
      obtain ⟨d, hd, -⟩ := hllSparseToDense_spec createHLLObject_valid
      rw [hd] at herr
      exact absurd (Prod.mk.inj (Option.some.inj herr)).2 (by decide)
    | some obj =>
      simp only [hkey] at h
      cases obj with
      | int v | other => cases h
      | string str raw =>
        obtain ⟨-, -, rfl⟩ := pfmergeString_error h
        exact content_store hkey (bytes_unshare str raw) k

/-! ### Which strings are safe -/

/-- A sparse string with these opcodes. -/
def sparseStr (ops : List Opcode) : Str := ⟨(magic ++ [HLL_SPARSE] ++ List.replicate 11 0) ++ code ops, 0⟩

theorem sparseStr_body (h : ∀ op ∈ ops, op.Fits) :
    Body (sparseStr ops) (magic ++ [HLL_SPARSE] ++ List.replicate 11 0) ops [] :=
  ⟨by rw [List.append_nil]; rfl, rfl, h, .inl rfl⟩

theorem runLoop_xzeros {σ : Type*} {sum : ℤ → ℤ} {touch : σ → ℤ → ℕ → Option σ} (ops : List Opcode) (m : σ) (len : ℕ) :
    ∀ k n : ℕ, runLoop sum touch (List.replicate k (.xzero len) ++ ops) (asInt n) m =
      runLoop sum touch ops (asInt ((n + k * len : ℕ) : ℤ)) m := by
  intro k
  induction k with
  | zero =>
    intro n
    rw [Nat.zero_mul]
    rfl
  | succ k ih =>
    intro n
    rw [List.replicate_succ, List.cons_append, runLoop, asInt_add, ih, Nat.succ_mul, Nat.add_assoc, Nat.add_comm len]

end RedisZk.HyperLogLog
