/-
# Setting one register of a sparse HyperLogLog

The opcode that covers the register is split, the bytes behind it are moved, and adjacent VAL
opcodes are merged. The opcodes that are there afterwards stand for the same registers, but for
the one that is set. This holds for any bytes: of the last opcode a byte may be missing, and then
what is written goes over the end of the string.

Key definitions: `Body`, `Raised`, `SetOutcome`.
Key theorems: `mergeValues_spec`, `make_room`, `splitOpcode_spec`, `splitOpcode_cut`, `hllSparseSet_spec`.
-/
import RedisZk.HyperLogLog.Sparse

namespace RedisZk.HyperLogLog

open Streams (Sds)
open Endian (Byte)
open Memory (put memmove)

/-! ### Opcodes are merged -/

theorem mergeValues_end {len p : ℕ} (h : len ≤ p) (m : List Byte) : ∀ scanlen, mergeValues scanlen m len p = some (m, len)
  | 0 => rfl
  | _ + 1 => if_neg (not_lt.mpr h)

/-- One byte takes the place of two, and what is behind them follows, the byte behind the end too. -/
theorem merge_bytes (A R sp : List Byte) (b c n x : Byte) : ∃ m1 m2 sp',
    put (A ++ b :: c :: (R ++ x :: sp)) (A.length + 1) [n] = some m1 ∧
    memmove m1 A.length (A.length + 1) (R.length + 2) = some m2 ∧
    m2.set (A.length + 1 + R.length) 0 = A ++ n :: (R ++ 0 :: sp') := by
  have hput : put (A ++ b :: c :: (R ++ x :: sp)) (A.length + 1) [n] = some (A ++ b :: n :: (R ++ x :: sp)) := by
    have h := @Memory.put_split _ (A ++ b :: c :: (R ++ x :: sp)) (A ++ [b]) [c] (R ++ x :: sp) [n]
        (A.length + 1) (by rw [List.append_assoc]; rfl) (by rw [List.length_append]; rfl) rfl
    rw [h, List.append_assoc]
    rfl
  have hmove := @Memory.memmove_front _ (A ++ b :: n :: (R ++ x :: sp)) A [b] (n :: (R ++ [x])) sp A.length
      (A.length + 1) (R.length + 2) (by simp only [List.cons_append, List.nil_append, List.append_assoc]) rfl
      rfl (by simp only [List.length_cons, List.length_append, List.length_nil])
  refine ⟨_, _, ([b] ++ (n :: (R ++ [x]) ++ sp)).drop (n :: (R ++ [x])).length, hput, hmove, ?_⟩
  have hsplit : ∀ r : List Byte, A ++ (n :: (R ++ [x]) ++ r) = (A ++ n :: R) ++ x :: r := by
    intro r
    simp only [List.cons_append, List.append_assoc, List.nil_append]
  rw [hsplit, List.set_append_right _ _ (by simp only [List.length_append, List.length_cons]; omega)]
  have hat : A.length + 1 + R.length - (A ++ n :: R).length = 0 := by
    simp only [List.length_append, List.length_cons]
    omega
  rw [hat, List.set_cons_zero, List.append_assoc, List.cons_append]

theorem isVal_of_isXZero {b : Byte} (h : isXZero b = true) : isVal b = false := by
  rw [isVal_iff, h, Bool.not_true, Bool.and_false]

/-- Two opcodes are merged if the second is a VAL of the same value. -/
theorem mergedLen_spec {value len n : ℕ} (h : (Opcode.val value len).Fits) {b : List Opcode} (hb : ∀ op ∈ b, op.Fits)
    {tail : List Byte} (htail : Cut tail) (hn : mergedLen (valSet value len) (code b ++ tail).head? = some n) :
    ∃ len' b', b = .val value len' :: b' ∧ n = len + len' ∧ len + len' ≤ HLL_SPARSE_VAL_MAX_LEN := by
  obtain ⟨-, -, hvalue, hlen⟩ := valSet_spec h
  have hnone : ∀ c : Byte, isVal c = false → mergedLen (valSet value len) (some c) = none := by
    intro c hc
    refine if_neg fun h => ?_
    rw [hc] at h
    exact absurd h.1 (by decide)
  cases b with
  | nil =>
    rcases htail with rfl | ⟨x, hx, rfl⟩
    · cases hn
    · have hx : mergedLen (valSet value len) (some x) = none := hnone x (isVal_of_isXZero hx)
      rw [show (code [] ++ [x]).head? = some x from rfl, hx] at hn
      cases hn
  | cons op b =>
    have hop := hb op List.mem_cons_self
    cases op with
    | zero l =>
      obtain ⟨hz, -, -⟩ := zeroSet_spec hop
      have hv : isVal (zeroSet l) = false := by rw [isVal_iff, hz]; rfl
      rw [show (code (.zero l :: b) ++ tail).head? = some (zeroSet l) from rfl, hnone _ hv] at hn
      cases hn
    | xzero l =>
      obtain ⟨p, p1, hset, -, hx, -⟩ := xzeroSet_spec hop
      have hhead : (code (.xzero l :: b) ++ tail).head? = some p := by
        rw [code_cons]
        show (xzeroSet l ++ code b ++ tail).head? = some p
        rw [hset]
        rfl
      rw [hhead, hnone p (isVal_of_isXZero hx)] at hn
      cases hn
    | val value' len' =>
      obtain ⟨hz, hx, hvalue', hlen'⟩ := valSet_spec hop
      rw [show (code (.val value' len' :: b) ++ tail).head? = some (valSet value' len') from rfl, mergedLen] at hn
      split at hn
      · rename_i hc
        rw [hvalue, hvalue', hlen, hlen'] at hc
        rw [hlen, hlen'] at hn
        obtain ⟨-, rfl, hle⟩ := hc
        exact ⟨len', b, rfl, (Option.some.inj hn).symm, hle⟩
      · cases hn

/-- Merging leaves opcodes that stand for the same registers. -/
theorem mergeValues_spec {hdr tail : List Byte} (htail : Cut tail) : ∀ (scanlen : ℕ) (a b : List Opcode) (x : Byte)
    (sp m : List Byte) (len p : ℕ), (∀ op ∈ a, op.Fits) → (∀ op ∈ b, op.Fits) →
    m = hdr ++ (code a ++ (code b ++ (tail ++ x :: sp))) →
    len = hdr.length + ((code a).length + ((code b).length + tail.length)) → p = hdr.length + (code a).length →
    ∃ ops x' sp', mergeValues scanlen m len p =
        some (hdr ++ (code ops ++ (tail ++ x' :: sp')), hdr.length + ((code ops).length + tail.length)) ∧
      (∀ op ∈ ops, op.Fits) ∧ values ops = values (a ++ b) := by
  intro scanlen
  induction scanlen with
  | zero =>
    intro a b x sp m len p ha hb hm hlen hp
    refine ⟨a ++ b, x, sp, ?_, List.forall_mem_append.mpr ⟨ha, hb⟩, rfl⟩
    rw [mergeValues, hm, hlen, code_append, List.append_assoc, List.length_append, Nat.add_assoc]
  | succ scanlen ih =>
    intro a b x sp m len p ha hb hm hlen hp
    have hget : ∀ c r, code b ++ (tail ++ x :: sp) = c :: r → m[p]? = some c := by
      intro c r hr
      rw [hm, hp, hr, ← List.append_assoc, List.getElem?_append_right (by rw [List.length_append]), List.length_append,
        Nat.sub_self, List.getElem?_cons_zero]
    cases b with
    | nil =>
      refine ⟨a, x, sp, ?_, ha, by rw [List.append_nil]⟩
      have hres : (m, len) = (hdr ++ (code a ++ (tail ++ x :: sp)), hdr.length + ((code a).length + tail.length)) := by
        rw [hm, hlen, code_nil, List.nil_append, List.length_nil, Nat.zero_add]
      rw [code_nil, List.length_nil, Nat.zero_add] at hlen
      rw [← hres]
      rcases htail with rfl | ⟨t, ht, rfl⟩
      · rw [List.length_nil] at hlen
        exact mergeValues_end (by omega) _ _
      · rw [List.length_singleton] at hlen
        rw [mergeValues, if_pos (by omega), hget t _ rfl, Option.bind_some, if_pos ht]
        exact mergeValues_end (by omega) _ _
    | cons op b =>
      have hop := hb op List.mem_cons_self
      have hb' : ∀ o ∈ b, o.Fits := fun o h => hb o (List.mem_cons_of_mem _ h)
      have hone : code [op] = op.code := List.append_nil _
      have hcode := length_code op
      have hpos := op.oplen_pos
      rw [code_cons] at hm hlen hget
      rw [List.length_append, hcode] at hlen
      -- the opcode is passed over
      have hpass := ih (a ++ [op]) b x sp m len (p + op.oplen)
        (List.forall_mem_append.mpr ⟨ha, List.forall_mem_singleton.mpr hop⟩) hb'
        (by rw [hm, code_append, hone]; simp only [List.append_assoc])
        (by rw [hlen, code_append, hone, List.length_append, hcode]; omega)
        (by rw [hp, code_append, hone, List.length_append, hcode]; omega)
      rw [List.append_assoc] at hpass
      rw [mergeValues, if_pos (by omega)]
      cases op with
      | zero n =>
        obtain ⟨hz, hx, -⟩ := zeroSet_spec hop
        rw [hget (zeroSet n) _ rfl, Option.bind_some, if_neg (by rw [hx]; decide), if_pos hz]
        exact hpass
      | xzero n =>
        obtain ⟨c, c1, hset, -, hx, -⟩ := xzeroSet_spec hop
        rw [hget c (c1 :: (code b ++ (tail ++ x :: sp))) (by show xzeroSet n ++ code b ++ _ = _; rw [hset]; rfl), Option.bind_some, if_pos hx]
        exact hpass
      | val value n =>
        obtain ⟨hz, hx, hvalue, hvlen⟩ := valSet_spec hop
        rw [hget (valSet value n) _ rfl, Option.bind_some, if_neg (by rw [hx]; decide), if_neg (by rw [hz]; decide)]
        have hone' : (Opcode.val value n).code = [valSet value n] := rfl
        have hoplen : (Opcode.val value n).oplen = 1 := rfl
        rw [hoplen] at hpass hlen
        have hnext : (if p + 1 < len then m[p + 1]? else none) = (code b ++ tail).head? := by
          have hR : (code b ++ tail).length = (code b).length + tail.length := List.length_append
          cases hrest : code b ++ tail with
          | nil =>
            rw [hrest, List.length_nil] at hR
            exact if_neg (by omega)
          | cons c r =>
            rw [hrest, List.length_cons] at hR
            have hm' : m = (hdr ++ (code a ++ [valSet value n])) ++ c :: (r ++ x :: sp) := by
              rw [hm, hone', List.append_assoc, ← List.append_assoc (code b), hrest]
              simp only [List.append_assoc, List.cons_append, List.nil_append]
            have hat : p + 1 = (hdr ++ (code a ++ [valSet value n])).length := by
              rw [hp]
              simp only [List.length_append, List.length_singleton]
              omega
            rw [if_pos (by omega), hm', hat, List.getElem?_append_right (Nat.le_refl _), Nat.sub_self,
              List.getElem?_cons_zero, List.head?_cons]
        rw [hnext]
        cases hmerged : mergedLen (valSet value n) (code b ++ tail).head? with
        | none => exact hpass
        | some n' =>
          obtain ⟨n2, b', rfl, rfl, hle⟩ := mergedLen_spec hop hb' htail hmerged
          obtain ⟨m1, m2, sp', hput, hmove, hm2⟩ := merge_bytes (hdr ++ code a) (code b' ++ tail) sp (valSet value n)
            (valSet value n2) (valSet value (n + n2)) x
          have hpair := hb' _ List.mem_cons_self
          have hnew : (Opcode.val value (n + n2)).Fits := ⟨hop.1, hop.2.1, Nat.le_add_right_of_le hop.2.2.1, hle⟩
          have hcode2 : (Opcode.val value n2).code = [valSet value n2] := rfl
          rw [code_cons, List.length_append, length_code] at hlen
          have hoplen2 : (Opcode.val value n2).oplen = 1 := rfl
          rw [hoplen2] at hlen
          have hm' : m = (hdr ++ code a) ++ valSet value n :: valSet value n2 :: (code b' ++ tail ++ x :: sp) := by
            rw [hm, hone', code_cons, hcode2]
            simp only [List.append_assoc, List.cons_append, List.nil_append]
          rw [List.length_append] at hput hmove hm2
          rw [← hp] at hput hmove hm2
          rw [← hm'] at hput
          have hcount : len - p = (code b' ++ tail).length + 2 := by
            rw [List.length_append]
            omega
          have hlast : len - 1 = p + 1 + (code b' ++ tail).length := by
            rw [List.length_append]
            omega
          rw [← hcount] at hmove
          rw [← hlast] at hm2
          obtain ⟨ops, x', sp'', hrun, hfits, hvals⟩ := ih a (.val value (n + n2) :: b') 0 sp' (m2.set (len - 1) 0) (len - 1) p
            ha (List.forall_mem_cons.mpr ⟨hnew, fun o h => hb' o (List.mem_cons_of_mem _ h)⟩)
            (by rw [hm2]; simp only [code_cons, Opcode.code, List.append_assoc, List.cons_append, List.nil_append])
            (by rw [code_cons, List.length_append, length_code]; show _ = _ + (_ + (1 + _ + _)); omega) hp
          refine ⟨ops, x', sp'', ?_, hfits, ?_⟩
          · dsimp only
            rw [hvalue, hput, Option.bind_some, hmove, Option.bind_some, hrun]
          · have hmerge := Runs.expand_merge (a.map Opcode.run) (b'.map Opcode.run) value n n2
            rw [hvals, values, values, List.map_append, List.map_append]
            exact hmerge.symm

/-! ### The string is edited -/

/-- The bytes of a string: a header, opcodes, and perhaps a byte of another. -/
structure Body (s : Str) (hdr : Sds) (ops : List Opcode) (tail : List Byte) : Prop where
  bytes : s.bytes = hdr ++ (code ops ++ tail)
  header : hdr.length = HLL_HDR_SIZE
  fits : ∀ op ∈ ops, op.Fits
  cut : Cut tail

theorem body_of_length {s : Str} (h : HLL_HDR_SIZE ≤ s.bytes.length) :
    Body s (s.bytes.take HLL_HDR_SIZE) s.ops (complete (s.bytes.drop HLL_HDR_SIZE)).2 := by
  obtain ⟨hcode, hcut, hfits⟩ := code_complete (s.bytes.drop HLL_HDR_SIZE)
  refine ⟨?_, List.length_take_of_le h, hfits, hcut⟩
  show _ = _ ++ (code (complete (s.bytes.drop HLL_HDR_SIZE)).1 ++ _)
  rw [hcode, List.take_append_drop]

section Body

variable {s : Str} {hdr : Sds} {ops : List Opcode} {tail : List Byte}

theorem Body.drop (h : Body s hdr ops tail) : s.bytes.drop HLL_HDR_SIZE = code ops ++ tail := by
  rw [h.bytes, ← h.header, List.drop_left]

theorem Body.complete (h : Body s hdr ops tail) : complete (s.bytes.drop HLL_HDR_SIZE) = (ops, tail) := by
  rw [h.drop, complete_code h.fits h.cut]

theorem Body.whole (h : Body s hdr ops tail) : s.ops = ops := by
  rw [Str.ops, h.complete]

theorem Body.opcodes (h : Body s hdr ops tail) : s.opcodes = ops ++ cutOpcodes s.nul tail := by
  rw [Str.opcodes, opcodes_eq, h.complete]

theorem Body.opcodes_fit (h : Body s hdr ops tail) : ∀ op ∈ s.opcodes, op.Fits := by
  rw [h.opcodes]
  refine List.forall_mem_append.mpr ⟨h.fits, ?_⟩
  intro op hop
  obtain ⟨x, -, rfl⟩ := List.mem_map.mp hop
  exact opcodeAt_fits x s.nul

end Body

theorem modify_append {α : Type*} (f : α → α) (b : List α) : ∀ (a : List α) (n : ℕ), n < a.length →
    (a ++ b).modify n f = a.modify n f ++ b
  | [], _, h => absurd h (Nat.not_lt_zero _)
  | _ :: _, 0, _ => rfl
  | x :: a, n + 1, h => by
    rw [List.cons_append, List.modify_succ_cons, List.modify_succ_cons, modify_append f b a n (Nat.lt_of_succ_lt_succ h),
      List.cons_append]

theorem invalidate_append {hdr : Sds} (body : Sds) (h : hdr.length = HLL_HDR_SIZE) :
    HLL_INVALIDATE_CACHE (hdr ++ body) = HLL_INVALIDATE_CACHE hdr ++ body := by
  unfold HLL_HDR_SIZE at h
  exact modify_append _ _ _ _ (by omega)

@[simp] theorem length_invalidate (hdr : Sds) : (HLL_INVALIDATE_CACHE hdr).length = hdr.length := List.length_modify _ _ _

/-- After the opcodes of a block are merged it is a string. -/
theorem updated_spec {hdr tail : List Byte} (hhdr : hdr.length = HLL_HDR_SIZE) (htail : Cut tail) {a b : List Opcode}
    {x : Byte} {sp m : List Byte} {len start : ℕ} (ha : ∀ op ∈ a, op.Fits) (hb : ∀ op ∈ b, op.Fits)
    (hm : m = hdr ++ (code a ++ (code b ++ (tail ++ x :: sp))))
    (hlen : len = hdr.length + ((code a).length + ((code b).length + tail.length)))
    (hstart : start = HLL_HDR_SIZE + (code a).length) : ∃ s' ops, updated m len start = some (s', 1) ∧
      Body s' (HLL_INVALIDATE_CACHE hdr) ops tail ∧ values ops = values (a ++ b) := by
  obtain ⟨ops, x', sp', hrun, hfits, hvals⟩ := mergeValues_spec htail 5 a b x sp m len start ha hb hm hlen
    (by rw [hstart, hhdr])
  have hsplit : hdr ++ (code ops ++ (tail ++ x' :: sp')) = (hdr ++ (code ops ++ tail)) ++ x' :: sp' := by
    simp only [List.append_assoc]
  have hlen' : hdr.length + ((code ops).length + tail.length) = (hdr ++ (code ops ++ tail)).length := by
    simp only [List.length_append]
  refine ⟨⟨HLL_INVALIDATE_CACHE (hdr ++ (code ops ++ tail)), x'⟩, ops, ?_, ⟨?_, ?_, hfits, htail⟩, hvals⟩
  · rw [updated, hrun, Option.bind_some]
    dsimp only
    rw [hsplit, hlen', List.getElem?_append_right (Nat.le_refl _), Nat.sub_self, List.getElem?_cons_zero, List.take_left]
    rfl
  · exact invalidate_append _ hhdr
  · rw [length_invalidate, hhdr]

/-- The bytes behind an opcode are moved if the new opcodes have another length. -/
theorem make_room {A old R sp : List Byte} {x : Byte} {k : ℕ} (hk : 1 ≤ k ∧ k ≤ old.length + 3)
    (hsp : sp.length = 3) : ∃ w c0 c, w.length = k ∧
      (if (k : ℤ) - old.length ≠ 0 ∧ A.length + old.length < A.length + (old.length + R.length) then
        memmove (A ++ (old ++ (R ++ x :: sp))) ((A.length + old.length : ℕ) + ((k : ℤ) - old.length)).toNat
          (A.length + old.length) (A.length + (old.length + R.length) - (A.length + old.length))
      else some (A ++ (old ++ (R ++ x :: sp)))) = some (A ++ (w ++ (R ++ c0 :: c))) := by
  by_cases hcond : (k : ℤ) - old.length ≠ 0 ∧ A.length + old.length < A.length + (old.length + R.length)
  · rw [if_pos hcond]
    have hn : A.length + (old.length + R.length) - (A.length + old.length) = R.length := by omega
    rw [hn]
    rcases Nat.lt_or_ge k old.length with hless | hmore
    · -- the new opcodes are shorter
      obtain ⟨c0, c, hc⟩ : ∃ c0 c, (old.drop k ++ (R ++ x :: sp)).drop R.length = c0 :: c := by
        refine List.exists_cons_of_length_pos ?_
        simp only [List.length_drop, List.length_append, List.length_cons]
        omega
      have hmove := @Memory.memmove_front _ (A ++ (old ++ (R ++ x :: sp))) (A ++ old.take k) (old.drop k) R
          (x :: sp) (((A.length + old.length : ℕ) + ((k : ℤ) - old.length)).toNat) (A.length + old.length)
          R.length (by rw [List.append_assoc, ← List.append_assoc (old.take k), List.take_append_drop])
          (by rw [List.length_append, List.length_take]; omega)
          (by rw [List.length_append, List.length_take, List.length_drop]; omega) rfl
      refine ⟨old.take k, c0, c, by rw [List.length_take]; omega, ?_⟩
      rw [hmove, hc, List.append_assoc]
    · -- they are longer
      obtain ⟨c0, c, hc⟩ : ∃ c0 c, (x :: sp).drop (k - old.length) = c0 :: c := by
        refine List.exists_cons_of_length_pos ?_
        rw [List.length_drop, List.length_cons]
        omega
      have hmove := @Memory.memmove_end _ (A ++ (old ++ (R ++ x :: sp))) (A ++ old) R
          ((x :: sp).take (k - old.length)) (c0 :: c)
          (((A.length + old.length : ℕ) + ((k : ℤ) - old.length)).toNat) (A.length + old.length) R.length
          (by rw [← hc, List.take_append_drop, List.append_assoc]) (by rw [List.length_append]) rfl
          (by rw [List.length_append, List.length_take, List.length_cons]; omega)
      have hdst : ((A.length + old.length : ℕ) + ((k : ℤ) - old.length)).toNat = A.length + k := by omega
      rw [hdst] at hmove ⊢
      refine ⟨(old ++ (R ++ x :: sp)).take k, c0, c, ?_, ?_⟩
      · rw [List.length_take]
        simp only [List.length_append, List.length_cons]
        omega
      · rw [hmove, List.take_length_add_append, List.append_assoc]
  · rw [if_neg hcond]
    -- nothing is moved: the length is the same, or there is nothing behind
    have hrest : k = old.length ∨ R = [] := by
      by_contra h
      obtain ⟨h1, h2⟩ := not_or.mp h
      have hR := List.length_pos_iff.mpr h2
      exact hcond ⟨by omega, by omega⟩
    rcases hrest with rfl | rfl
    · exact ⟨old, x, sp, rfl, rfl⟩
    · obtain ⟨c0, c, hc⟩ : ∃ c0 c, (old ++ x :: sp).drop k = c0 :: c := by
        refine List.exists_cons_of_length_pos ?_
        rw [List.length_drop, List.length_append, List.length_cons]
        omega
      refine ⟨(old ++ x :: sp).take k, c0, c, ?_, ?_⟩
      · rw [List.length_take, List.length_append, List.length_cons]
        omega
      · rw [List.nil_append, List.nil_append, ← hc, List.take_append_drop]

/-- What became of setting a register of a sparse string in place: the opcodes stand for the same, but for that register. -/
def Raised (hdr : Sds) (ops : List Opcode) (tail : List Byte) (index count : ℕ) (r : Option (Str × ℤ)) : Prop :=
  ∃ s' ops', r = some (s', 1) ∧ Body s' (HLL_INVALIDATE_CACHE hdr) ops' tail ∧ values ops' = (values ops).set index count

section Split

variable {s : Str} {hdr : Sds} {pre post : List Opcode} {op : Opcode} {tail : List Byte} {index count first start : ℕ}

theorem length_pieces (hop : op.Fits) (hlow : first ≤ index) (hhigh : index < first + op.len) :
    1 ≤ (code (pieces op first index count)).length ∧ (code (pieces op first index count)).length ≤ op.oplen + 3 := by
  have hleft := @length_part _ hop (index - first) (by omega)
  have hright := @length_part _ hop (first + op.len - 1 - index) (by omega)
  have hval : (Opcode.val count 1).code.length = 1 := rfl
  have h2 : op.oplen ≤ 2 := by
    cases op with
    | xzero n => exact Nat.le_refl 2
    | zero n | val v n => exact Nat.le_succ 1
  rw [pieces, code_append, code_cons, List.length_append, List.length_append, hval]
  omega

/-- The pieces are in the place of the opcode. -/
theorem updated_pieces (hb : Body s hdr (pre ++ op :: post) tail) (hfirst : first = total pre) (hlow : first ≤ index)
    (hhigh : index < first + op.len) (hc : 1 ≤ count ∧ count ≤ HLL_SPARSE_VAL_MAX_VALUE) {a b : List Opcode}
    (hab : pre = a ++ b) (hstart : start = HLL_HDR_SIZE + (code a).length) {m : List Byte} {len : ℕ} {x : Byte} {sp : List Byte}
    (hm : m = hdr ++ (code pre ++ (code (pieces op first index count) ++ (code post ++ (tail ++ x :: sp)))))
    (hlen : len = hdr.length + ((code pre).length + ((code (pieces op first index count)).length +
      ((code post).length + tail.length)))) :
    Raised hdr (pre ++ op :: post) tail index count (updated m len start) := by
  have hfits := List.forall_mem_append.mp hb.fits
  have hfits' := List.forall_mem_cons.mp hfits.2
  have hpieces := pieces_fits hfits'.1 hhigh hc hlow
  have hpre := List.forall_mem_append.mp (hab ▸ hfits.1)
  obtain ⟨s', ops', hrun, hbody, hvals⟩ := @updated_spec _ _ hb.header hb.cut a
      (b ++ (pieces op first index count ++ post)) x sp m len start hpre.1
      (List.forall_mem_append.mpr ⟨hpre.2, List.forall_mem_append.mpr ⟨hpieces, hfits'.2⟩⟩)
      (by rw [hm, hab]; simp only [code_append, List.append_assoc])
      (by rw [hlen, hab]; simp only [code_append, List.length_append]; omega) hstart
  refine ⟨s', ops', hrun, hbody, ?_⟩
  rw [hvals, ← List.append_assoc, ← hab]
  exact values_pieces count hlow hhigh post hfirst

theorem splitOpcode_spec (hll_sparse_max_bytes : ℕ) (hb : Body s hdr (pre ++ op :: post) tail) {pl : Place} (hop : pl.op = op)
    (hp : pl.p = HLL_HDR_SIZE + (code pre).length) (hfirst : pl.first = total pre) (hlow : pl.first ≤ index)
    (hhigh : index < pl.first + op.len) (hc : 1 ≤ count ∧ count ≤ HLL_SPARSE_VAL_MAX_VALUE) {a b : List Opcode}
    (hab : pre = a ++ b) (hstart : start = HLL_HDR_SIZE + (code a).length) :
    let r := splitOpcode hll_sparse_max_bytes s (s.bytes ++ s.nul :: List.replicate 3 0) s.bytes.length pl start index count
    r = promote s index count ∨ Raised hdr (pre ++ op :: post) tail index count r := by
  intro r
  have hfits' := List.forall_mem_cons.mp (List.forall_mem_append.mp hb.fits).2
  have hk := @length_pieces _ _ count _ hfits'.1 hlow hhigh
  rw [← length_code op] at hk
  have hlen : s.bytes.length = (hdr ++ code pre).length + (op.code.length + (code post ++ tail).length) := by
    rw [hb.bytes]
    simp only [code_append, code_cons, List.length_append]
    omega
  have hm : s.bytes ++ s.nul :: List.replicate 3 0 =
      (hdr ++ code pre) ++ (op.code ++ ((code post ++ tail) ++ s.nul :: List.replicate 3 0)) := by
    rw [hb.bytes]
    simp only [code_append, code_cons, List.append_assoc]
  obtain ⟨w, c0, c, hw, hroom⟩ := make_room (A := hdr ++ code pre) (R := code post ++ tail) (x := s.nul) hk
    (List.length_replicate (n := 3) (a := (0 : Byte)))
  have hp' : pl.p = (hdr ++ code pre).length := by rw [hp, List.length_append, hb.header]
  have hr : r = splitOpcode hll_sparse_max_bytes s (s.bytes ++ s.nul :: List.replicate 3 0) s.bytes.length pl start index count := rfl
  rw [splitOpcode, hop, splitSeq_eq hlow hhigh] at hr
  dsimp only at hr
  split at hr
  · exact .inl hr
  · refine .inr ?_
    rw [hlen, hm, hp', ← length_code op, hroom, Option.bind_some] at hr
    have hlen' : (((hdr ++ code pre).length + (op.code.length + (code post ++ tail).length) : ℕ) +
        (((code (pieces op pl.first index count)).length : ℤ) - op.code.length)).toNat =
        (hdr ++ code pre ++ w ++ (code post ++ tail)).length := by
      rw [@List.length_append _ (hdr ++ code pre ++ w) _, @List.length_append _ (hdr ++ code pre) w]
      omega
    have hset : (hdr ++ code pre ++ (w ++ (code post ++ tail ++ c0 :: c))).set
        (hdr ++ code pre ++ w ++ (code post ++ tail)).length 0 = hdr ++ code pre ++ (w ++ (code post ++ tail ++ 0 :: c)) := by
      have hsplit : ∀ d : List Byte, hdr ++ code pre ++ (w ++ (code post ++ tail ++ d)) =
          (hdr ++ code pre ++ w ++ (code post ++ tail)) ++ d := by
        intro d
        simp only [List.append_assoc]
      rw [hsplit, List.set_append_right _ _ (Nat.le_refl _), Nat.sub_self, List.set_cons_zero, hsplit]
    have hput := @Memory.put_split _ (hdr ++ code pre ++ (w ++ (code post ++ tail ++ 0 :: c)))
        (hdr ++ code pre) w (code post ++ tail ++ 0 :: c) (code (pieces op pl.first index count)) _ rfl rfl
        hw.symm
    rw [hlen', hset, hput, Option.bind_some] at hr
    rw [hr]
    refine @updated_pieces _ _ _ _ _ _ _ _ _ _ hb hfirst hlow hhigh hc _ _ hab hstart _ _ 0 c ?_ ?_
    · simp only [List.append_assoc]
    · simp only [List.length_append, hw]
      omega

/-- An opcode that is written behind the end of the string loses its last byte: what is left of it is no single byte. -/
theorem dropLast_pieces (hop : op.Fits) (hc : 1 ≤ count ∧ count ≤ HLL_SPARSE_VAL_MAX_VALUE) (hlow : first ≤ index)
    (hhigh : index < first + op.len) {y : Byte} (hy : isXZero y = true) :
    (code (pieces op first index count)).dropLast ≠ [y] := by
  intro h
  have hval : Opcode.Fits (.val count 1) := ⟨hc.1, hc.2, Nat.le_refl 1, by decide⟩
  have hfits := pieces_fits hop hhigh hc hlow
  have hlen := congrArg List.length h
  rw [List.length_dropLast, List.length_singleton] at hlen
  -- the first of the pieces is an XZERO, and the VAL is not behind it
  have hfirst : ∀ o rest, pieces op first index count = o :: rest → o.oplen = 2 ∧ code rest = [] := by
    intro o rest hpieces
    obtain ⟨p, s, hcode, hx, -⟩ := opcodeAt_code (hfits o (hpieces ▸ List.mem_cons_self)) 0
    have hos := length_code o
    rw [hcode, List.length_cons] at hos
    rw [hpieces, code_cons, hcode] at h hlen
    rw [List.length_append, List.length_cons] at hlen
    have hpy : p = y := by
      cases hsr : s ++ code rest with
      | nil =>
        rw [List.cons_append, hsr] at h
        cases h
      | cons a l =>
        rw [List.cons_append, hsr] at h
        exact (List.cons.inj h).1
    rw [hpy, hy] at hx
    have h2 := of_decide_eq_true hx.symm
    exact ⟨h2, List.length_eq_zero_iff.mp (by omega)⟩
  cases hleft : part op (index - first) with
  | nil =>
    obtain ⟨h2, -⟩ := hfirst (.val count 1) (part op (first + op.len - 1 - index)) (by rw [pieces, hleft]; rfl)
    cases h2
  | cons o l =>
    obtain ⟨-, hrest⟩ := hfirst o (l ++ .val count 1 :: part op (first + op.len - 1 - index)) (by rw [pieces, hleft]; rfl)
    rw [code_append, code_cons] at hrest
    have hnil := (List.append_eq_nil_iff.mp (List.append_eq_nil_iff.mp hrest).2).1
    cases hnil

/-- An opcode of which the last byte is missing is split: there are more opcodes, or that byte is gone. -/
theorem splitOpcode_cut (hll_sparse_max_bytes : ℕ) {t : Byte} (ht : isXZero t = true) (hb : Body s hdr pre [t]) {pl : Place}
    (hop : pl.op = opcodeAt t s.nul) (hp : pl.p = HLL_HDR_SIZE + (code pre).length) (hlow : pl.first ≤ index)
    (hhigh : index < pl.first + pl.op.len) (hc : 1 ≤ count ∧ count ≤ HLL_SPARSE_VAL_MAX_VALUE) {a b : List Opcode}
    (hab : pre = a ++ b) (hstart : start = HLL_HDR_SIZE + (code a).length) :
    let r := splitOpcode hll_sparse_max_bytes s (s.bytes ++ s.nul :: List.replicate 3 0) s.bytes.length pl start index count
    r = promote s index count ∨ ∃ s' ops' new tail', r = some (s', 1) ∧ Body s' (HLL_INVALIDATE_CACHE hdr) ops' tail' ∧
      values ops' = values (pre ++ new) ∧ (new ≠ [] ∨ tail' = []) ∧ ∀ op ∈ new, op.Fits := by
  intro r
  have hfits : pl.op.Fits := hop ▸ opcodeAt_fits t s.nul
  have hk := @length_pieces _ _ count _ hfits hlow hhigh
  have hoplen : pl.op.oplen = 2 := by
    have hcode := code_opcodeAt t s.nul
    rw [if_pos ht] at hcode
    rw [hop, ← length_code, hcode]
    rfl
  rw [hoplen] at hk
  have hlen : s.bytes.length = (hdr ++ code pre).length + 1 := by
    rw [hb.bytes]
    simp only [List.length_append, List.length_singleton]
    omega
  have hm : s.bytes ++ s.nul :: List.replicate 3 0 = (hdr ++ code pre) ++ t :: s.nul :: List.replicate 3 0 := by
    rw [hb.bytes]
    simp only [List.append_assoc, List.cons_append, List.nil_append]
  have hp' : pl.p = (hdr ++ code pre).length := by rw [hp, List.length_append, hb.header]
  have hr : r = splitOpcode hll_sparse_max_bytes s (s.bytes ++ s.nul :: List.replicate 3 0) s.bytes.length pl start index count := rfl
  rw [splitOpcode, splitSeq_eq hlow hhigh, hoplen, Nat.cast_ofNat] at hr
  dsimp only at hr
  split at hr
  · exact .inl hr
  · refine .inr ?_
    rw [if_neg (by rw [hlen, hp']; omega), Option.bind_some, hlen, hm, hp'] at hr
    obtain ⟨seq, hseq⟩ : ∃ seq, seq = code (pieces pl.op pl.first index count) := ⟨_, rfl⟩
    obtain ⟨y, hy⟩ : ∃ y, seq = seq.dropLast ++ [y] :=
      ⟨_, (List.dropLast_append_getLast (List.length_pos_iff.mp (by rw [hseq]; omega))).symm⟩
    rw [← hseq] at hr hk
    obtain ⟨Y, hY, hYlen⟩ : ∃ Y : List Byte, ((hdr ++ code pre) ++ t :: s.nul :: List.replicate 3 0).set
        ((((hdr ++ code pre).length + 1 : ℕ) : ℤ) + ((seq.length : ℤ) - 2)).toNat 0 = (hdr ++ code pre) ++ Y ∧ Y.length = 5 := by
      refine ⟨_, List.set_append_right _ _ (by omega), ?_⟩
      rw [List.length_set]
      rfl
    have hput := @Memory.put_split _ ((hdr ++ code pre) ++ Y) (hdr ++ code pre) (Y.take seq.length)
        (Y.drop seq.length) seq _ (by rw [List.take_append_drop]) rfl (by rw [List.length_take]; omega)
    obtain ⟨hcode, hcut, hnew⟩ := code_complete seq.dropLast
    obtain ⟨D, hD⟩ : ∃ D, D = Y.drop seq.length := ⟨_, rfl⟩
    obtain ⟨C, hC⟩ : ∃ C, C = complete seq.dropLast := ⟨_, rfl⟩
    rw [← hC] at hcode hcut hnew
    rw [← hD] at hput
    have hpre := List.forall_mem_append.mp (hab ▸ hb.fits)
    have hdl := congrArg List.length hcode
    rw [List.length_append, List.length_dropLast] at hdl
    obtain ⟨s', ops', hrun, hbody, hvals⟩ := @updated_spec _ _ hb.header hcut a (b ++ C.1) y D
        (hdr ++ code pre ++ (seq ++ D))
        (((((hdr ++ code pre).length + 1 : ℕ) : ℤ) + ((seq.length : ℤ) - 2)).toNat) start hpre.1
        (List.forall_mem_append.mpr ⟨hpre.2, hnew⟩) (by
        rw [hab, hy, ← hcode]
        simp only [code_append, List.append_assoc, List.cons_append, List.nil_append])
        (by rw [hab, code_append, code_append]; simp only [List.length_append]; omega) hstart
    refine ⟨s', ops', C.1, C.2, ?_, hbody, ?_, ?_, hnew⟩
    · rw [hr]
      rw [hY, hput, Option.bind_some]
      exact hrun
    · rw [hvals, hab, List.append_assoc]
    · by_contra h
      obtain ⟨h1, h2⟩ := not_or.mp h
      rcases hcut with hcut | ⟨z, hz, hcut⟩
      · exact h2 hcut
      · rw [not_not.mp h1, hcut, hseq] at hcode
        exact dropLast_pieces hfits hc hlow hhigh hz hcode.symm

end Split

/-! ### What setting a register does -/

/-- The outcomes of `hllSparseSet` for a `count` that a VAL opcode has room for. -/
inductive SetOutcome (s : Str) (hdr : Sds) (ops : List Opcode) (tail : List Byte) (index count : ℕ) : Option (Str × ℤ) → Prop
  /-- The opcodes do not reach the register. -/
  | invalid (h : total s.opcodes ≤ index) : SetOutcome s hdr ops tail index count (some (s, -1))
  /-- The register is not less than `count`. -/
  | kept {v : ℕ} (h : (values s.opcodes)[index]? = some v) (hv : count ≤ v) : SetOutcome s hdr ops tail index count (some (s, 0))
  /-- There is no room in `hll_sparse_max_bytes`. -/
  | promoted {v : ℕ} (h : (values s.opcodes)[index]? = some v) (hv : v < count) :
      SetOutcome s hdr ops tail index count (promote s index count)
  /-- The register is raised in place. -/
  | raised {v : ℕ} {r : Option (Str × ℤ)} (h : (values ops)[index]? = some v) (hv : v < count)
      (hr : Raised hdr ops tail index count r) : SetOutcome s hdr ops tail index count r
  /-- The register is one of the opcode of which the last byte is missing. -/
  | cut {s' : Str} {ops' new : List Opcode} {tail' : List Byte} (ht : tail ≠ []) (hbody : Body s' (HLL_INVALIDATE_CACHE hdr) ops' tail')
      (hvals : values ops' = values (ops ++ new)) (hnew : new ≠ [] ∨ tail' = []) (hfits : ∀ op ∈ new, op.Fits) :
      SetOutcome s hdr ops tail index count (some (s', 1))

theorem values_place {pre post : List Opcode} {op : Opcode} {index : ℕ} (hlow : total pre ≤ index)
    (hhigh : index < total pre + op.len) : (values (pre ++ op :: post))[index]? = some op.run.1 := by
  have hrun : op.run = (op.run.1, op.len) := by rw [← run_snd]
  have h := @Runs.getElem_expand _ (pre.map Opcode.run) (post.map Opcode.run) op.run.1 (index - total pre)
      op.len index (by rw [← values, length_values]; omega) (by omega)
  rw [← hrun] at h
  rw [values, List.map_append, List.map_cons]
  exact h

/-- What `hllSparseSet` does, by where the opcode is that covers the register. -/
theorem hllSparseSet_spec (hll_sparse_max_bytes : ℕ) {s : Str} {hdr : Sds} {ops : List Opcode} {tail : List Byte}
    (hb : Body s hdr ops tail) (index : ℕ) {count : ℕ} (hc : 1 ≤ count ∧ count ≤ HLL_SPARSE_VAL_MAX_VALUE) :
    SetOutcome s hdr ops tail index count (hllSparseSet hll_sparse_max_bytes s index count) := by
  rw [hllSparseSet, if_neg (not_lt.mpr hc.2)]
  dsimp only
  rcases locate_spec index hb.opcodes_fit HLL_HDR_SIZE 0 none (Nat.zero_le _) with ⟨hnone, hout⟩ | ⟨pl, pre, post, hpl, hfound⟩
  · rw [hnone]
    rw [Nat.zero_add] at hout
    exact .invalid hout
  rw [hpl]
  dsimp only
  obtain ⟨a, b, hab, hstart⟩ := hfound.start
  have hfirst : pl.first = total pre := by rw [hfound.first, Nat.zero_add]
  have hlow := hfound.low
  have hhigh := hfound.high
  have hval : (values s.opcodes)[index]? = some pl.op.run.1 := by
    rw [hfound.split]
    exact values_place (hfirst ▸ hlow) (hfirst ▸ hhigh)
  have hwhere : (∃ post', ops = pre ++ pl.op :: post') ∨ ∃ t, isXZero t = true ∧ tail = [t] ∧ ops = pre ∧ pl.op = opcodeAt t s.nul := by
    have hsplit := hfound.split
    rw [hb.opcodes] at hsplit
    rcases hb.cut with rfl | ⟨t, ht, rfl⟩
    · exact .inl ⟨post, by rw [← hsplit]; exact (List.append_nil _).symm⟩
    · have hcut : cutOpcodes s.nul [t] = [opcodeAt t s.nul] := rfl
      rw [hcut] at hsplit
      rcases List.eq_nil_or_concat post with rfl | ⟨post', z, rfl⟩
      · obtain ⟨h1, h2⟩ := List.append_inj' hsplit rfl
        exact .inr ⟨t, ht, rfl, h1, ((List.cons.inj h2).1).symm⟩
      · have hsplit' : ops ++ [opcodeAt t s.nul] = (pre ++ pl.op :: post') ++ [z] := by
          rw [hsplit, List.concat_eq_append, List.append_assoc, List.cons_append]
        exact .inl ⟨post', (List.append_inj' hsplit' rfl).1⟩
  rcases hwhere with ⟨post', rfl⟩ | ⟨t, ht, rfl, rfl, hop⟩
  · have hval' : (values (pre ++ pl.op :: post'))[index]? = some pl.op.run.1 := values_place (hfirst ▸ hlow) (hfirst ▸ hhigh)
    have hsplit : pl.op.run.1 < count → SetOutcome s hdr (pre ++ pl.op :: post') tail index count
        (splitOpcode hll_sparse_max_bytes s (s.bytes ++ s.nul :: List.replicate 3 0) s.bytes.length pl
          (pl.prev.getD HLL_HDR_SIZE) index count) := by
      intro hv
      rcases splitOpcode_spec hll_sparse_max_bytes hb rfl hfound.place hfirst hlow hhigh hc hab hstart with h | h
      · rw [h]
        exact .promoted hval hv
      · exact .raised hval' hv h
    -- an opcode of one byte for one register is replaced
    have hone : pl.op.len = 1 → pl.op.oplen = 1 → pl.op.run.1 < count → SetOutcome s hdr (pre ++ pl.op :: post') tail index count
        ((put (s.bytes ++ s.nul :: List.replicate 3 0) pl.p [valSet count 1]).bind fun m =>
          updated m s.bytes.length (pl.prev.getD HLL_HDR_SIZE)) := by
      intro hlen hoplen hv
      have hat : pl.first = index := by omega
      have hpieces : code (pieces pl.op pl.first index count) = [valSet count 1] := by
        have hright : pl.first + pl.op.len - 1 - index = 0 := by omega
        rw [pieces, hat, Nat.sub_self, ← hat] at *
        rw [hright]
        rfl
      have hm : s.bytes ++ s.nul :: List.replicate 3 0 =
          (hdr ++ code pre) ++ (pl.op.code ++ (code post' ++ (tail ++ s.nul :: List.replicate 3 0))) := by
        rw [hb.bytes]
        simp only [code_append, code_cons, List.append_assoc]
      have hput := Memory.put_split (s := [valSet count 1]) (p := pl.p) hm (by rw [hfound.place, List.length_append, hb.header])
        (by rw [length_code, hoplen]; rfl)
      rw [hput, Option.bind_some]
      refine .raised hval' hv (@updated_pieces _ _ _ _ _ _ _ _ _ _ hb hfirst hlow hhigh hc _ _ hab hstart _ _
          s.nul (List.replicate 3 0) ?_ ?_)
      · rw [hpieces, List.append_assoc]
      · rw [hpieces, hb.bytes]
        simp only [code_append, code_cons, List.length_append, length_code, hoplen, List.length_singleton]
        omega
    cases hop : pl.op with
    | zero n =>
      have hv : pl.op.run.1 < count := by rw [hop]; exact hc.1
      rw [hop] at hsplit hone
      dsimp only
      split
      · rename_i h1
        exact hone h1 rfl (hop ▸ hv)
      · exact hsplit (hop ▸ hv)
    | xzero n =>
      have hv : pl.op.run.1 < count := by rw [hop]; exact hc.1
      rw [hop] at hsplit
      exact hsplit (hop ▸ hv)
    | val v n =>
      have hval : (values s.opcodes)[index]? = some v := by rw [hval, hop]; rfl
      rw [hop] at hsplit hone
      dsimp only
      split
      · rename_i h
        exact .kept hval h
      · rename_i h
        split
        · rename_i h1
          exact hone h1 rfl (not_le.mp h)
        · exact hsplit (not_le.mp h)
  · obtain ⟨n, hn⟩ : ∃ n, pl.op = .xzero n := by
      have hz : isZero t = false := by
        have h : ∀ t : Byte, isXZero t = true → isZero t = false := by decide +kernel
        exact h t ht
      exact ⟨_, by rw [hop, opcodeAt, hz, if_neg (by decide), if_pos ht]⟩
    have hmain := splitOpcode_cut hll_sparse_max_bytes ht hb hop hfound.place hlow hhigh hc hab hstart
    rw [hn]
    dsimp only
    rcases hmain with h | ⟨s', ops', new, tail', h, hbody, hvals, hnew, hfits⟩
    · rw [h]
      refine .promoted hval ?_
      rw [hn]
      exact hc.1
    · rw [h]
      exact .cut (List.cons_ne_nil _ _) hbody hvals hnew hfits

end RedisZk.HyperLogLog
