/-
# Walking a listpack

Behind every element is its length, in groups of seven bits that are read from the last byte back, so
that a listpack can be walked both ways. Pointers are offsets, NULL is the inner `none`, and a read
outside of the listpack is the outer one.

Key definitions: `lpEncodeBacklen`, `lpDecodeBacklen`, `lpNext`, `lpPrev`, `lpSeek`, `WellFormed`.
Key theorems: `lpDecodeBacklen_encode`, `navigation_exact`.
-/
import RedisZk.Streams.Listpack
import RedisZk.Lib.Endian

namespace RedisZk.Listpack

open Streams (Sds UINT64_MAX)
open Endian (little ofLittle)

def LP_HDR_SIZE : ℕ := 6
def LP_HDR_NUMELE_UNKNOWN : ℕ := 65535
def LP_EOF : Fin 256 := 255

/-! ### The functions -/

/-- `l >> 7 * n`, and the groups behind it with the flag that another byte is before them. -/
def groups (l : ℕ) : ℕ → Sds
  | 0 => [Fin.ofNat 256 l]
  | n + 1 => groups (l / 128) n ++ [Fin.ofNat 256 (l % 128 + 128)]

/-- The bytes that are written; their count is returned. -/
def lpEncodeBacklen (l : ℕ) : Sds :=
  groups l (if l ≤ 127 then 0 else if l < 16383 then 1 else if l < 2097151 then 2 else if l < 268435455 then 3 else 4)

/-- The loop over the bytes from `p` back; the groups do not overlap. -/
def decodeLoop (val shift : ℕ) : Sds → Option ℕ
  | [] => none
  | b :: p =>
    let val := val + b.val % 128 * 2 ^ shift
    if b.val < 128 then some val
    else if shift + 7 > 28 then some UINT64_MAX
    else decodeLoop val (shift + 7) p

def lpDecodeBacklen (lp : Sds) (p : ℕ) : Option ℕ := if p < lp.length then decodeLoop 0 0 (lp.take (p + 1)).reverse else none

/-- The masks of the encodings leave these ranges of the first byte. -/
def lpCurrentEncodedSize : Sds → Option ℕ
  | [] => none
  | b :: p =>
    if b.val < 0x80 then some 1
    else if b.val < 0xC0 then some (1 + b.val % 64)
    else if b.val < 0xE0 then some 2
    else if b.val = 0xF1 then some 3
    else if b.val = 0xF2 then some 4
    else if b.val = 0xF3 then some 5
    else if b.val = 0xF4 then some 9
    else if b.val < 0xF0 then p.head?.map fun b' => 2 + (b.val % 16 * 256 + b'.val)
    else if b.val = 0xF0 then if p.length < 4 then none else some ((5 + ofLittle (p.take 4)) % 2 ^ 32)
    else some (if b = LP_EOF then 1 else 0)

def lpSkip (lp : Sds) (p : ℕ) : Option ℕ :=
  (lpCurrentEncodedSize (lp.drop p)).map fun entrylen => p + (entrylen + (lpEncodeBacklen entrylen).length)

def lpNext (lp : Sds) (p : ℕ) : Option (Option ℕ) := do
  let p ← lpSkip lp p
  let b ← lp[p]?
  some (if b = LP_EOF then none else some p)

def lpPrev (lp : Sds) (p : ℕ) : Option (Option ℕ) :=
  if p = LP_HDR_SIZE then some none
  else do
    let prevlen ← lpDecodeBacklen lp (p - 1)
    let prevlen := prevlen + (lpEncodeBacklen prevlen).length
    if p < prevlen then none else some (some (p - prevlen))

def lpFirst (lp : Sds) : Option (Option ℕ) := lp[LP_HDR_SIZE]?.map fun b => if b = LP_EOF then none else some LP_HDR_SIZE

def lpLast (lp : Sds) : Option (Option ℕ) := lpPrev lp (ofLittle (lp.take 4) - 1)

/-- The loop of `lpSeek`, which ends at NULL. -/
def steps (turn : ℕ → Option (Option ℕ)) : ℕ → Option ℕ → Option (Option ℕ)
  | 0, ele => some ele
  | _ + 1, none => some none
  | n + 1, some ele => turn ele >>= steps turn n

def lpSeek (lp : Sds) (index : ℤ) : Option (Option ℕ) :=
  let numele := ofLittle ((lp.drop 4).take 2)
  let forward (index : ℤ) := lpFirst lp >>= steps (lpNext lp) index.toNat
  let backward (index : ℤ) := lpLast lp >>= steps (lpPrev lp) (-1 - index).toNat
  if numele ≠ LP_HDR_NUMELE_UNKNOWN then
    let index := if index < 0 then numele + index else index
    if index < 0 ∨ index ≥ numele then some none
    else if index > (numele / 2 : ℕ) then backward (index - numele) else forward index
  else if index < 0 then backward index else forward index

/-! ### Listpacks -/

/-- The bytes of an element: how many they are can be read from them, whatever is behind. -/
structure Element (e : Sds) : Prop where
  head : e.head? ≠ some LP_EOF
  size : ∀ rest, lpCurrentEncodedSize (e ++ rest) = some e.length

def cells (es : List Sds) : Sds := es.flatMap fun e => e ++ lpEncodeBacklen e.length

structure WellFormed (lp : Sds) (es : List Sds) : Prop where
  element : ∀ e ∈ es, Element e
  small : 7 + (cells es).length < 2 ^ 32
  layout : ∃ numele, (numele = es.length ∨ numele = LP_HDR_NUMELE_UNKNOWN) ∧ numele ≤ LP_HDR_NUMELE_UNKNOWN ∧
    lp = little 4 (7 + (cells es).length) ++ (little 2 numele ++ (cells es ++ [LP_EOF]))

/-- Where the element of an index begins, or the end is. -/
def place (es : List Sds) (i : ℕ) : ℕ := LP_HDR_SIZE + (cells (es.take i)).length

/-! ### The length behind an element -/

theorem length_groups (n : ℕ) : ∀ l, (groups l n).length = n + 1 := by
  induction n with
  | zero => exact fun _ => rfl
  | succ n ih =>
    intro l
    simp [groups, ih]

theorem decodeLoop_groups (n : ℕ) (p : Sds) : ∀ {l shift : ℕ} (val : ℕ), l < 128 ^ (n + 1) → shift + 7 * n ≤ 28 →
    decodeLoop val shift ((groups l n).reverse ++ p) = some (val + l * 2 ^ shift) := by
  induction n with
  | zero =>
    intro l shift val hl _
    have hl : l < 128 := by simpa using hl
    simp [groups, decodeLoop, Nat.mod_eq_of_lt (hl.trans (by decide : 128 < 256)), Nat.mod_eq_of_lt hl, hl]
  | succ n ih =>
    intro l shift val hl hshift
    have hbyte : (Fin.ofNat 256 (l % 128 + 128)).val = l % 128 + 128 := by
      rw [Fin.val_ofNat]
      omega
    have hdiv : l / 128 < 128 ^ (n + 1) := Nat.div_lt_of_lt_mul (by rw [← pow_succ']; exact hl)
    rw [groups, List.reverse_append, List.reverse_singleton, List.singleton_append, List.cons_append, decodeLoop, hbyte, if_neg (by omega), if_neg (by omega), ih _ hdiv (by omega)]
    calc some (val + (l % 128 + 128) % 128 * 2 ^ shift + l / 128 * 2 ^ (shift + 7))
        = some (val + (l % 128 + 128 * (l / 128)) * 2 ^ shift) := by
          rw [pow_add, Nat.add_mod_right, Nat.mod_mod]
          congr 1
          ring
      _ = some (val + l * 2 ^ shift) := by rw [Nat.mod_add_div]

/-- **The length is read back from its last byte**, and no byte before it is read. -/
theorem lpDecodeBacklen_encode (pre rest : Sds) {l p : ℕ} (hl : l < 2 ^ 35) (hp : p = pre.length + (lpEncodeBacklen l).length) :
    lpDecodeBacklen (pre ++ (lpEncodeBacklen l ++ rest)) (p - 1) = some l := by
  have hpos : 0 < (lpEncodeBacklen l).length := by
    rw [lpEncodeBacklen, length_groups]
    exact Nat.succ_pos _
  have htake : (pre ++ (lpEncodeBacklen l ++ rest)).take (p - 1 + 1) = pre ++ lpEncodeBacklen l := by
    rw [← List.append_assoc]
    exact List.take_left' (by rw [List.length_append]; omega)
  rw [lpDecodeBacklen, if_pos (by simp only [List.length_append]; omega), htake, List.reverse_append, lpEncodeBacklen]
  refine (decodeLoop_groups _ _ 0 ?_ ?_).trans (by simp)
  · split_ifs <;> omega
  · split_ifs <;> decide

/-! ### Places -/

variable {lp : Sds} {es : List Sds} {i : ℕ}

theorem cells_append (es es' : List Sds) : cells (es ++ es') = cells es ++ cells es' := List.flatMap_append

theorem drop_place (h : WellFormed lp es) (i : ℕ) : lp.drop (place es i) = cells (es.drop i) ++ [LP_EOF] := by
  obtain ⟨numele, -, -, rfl⟩ := h.layout
  have hcells : cells es = cells (es.take i) ++ cells (es.drop i) := by rw [← cells_append, List.take_append_drop]
  rw [place, LP_HDR_SIZE, ← List.append_assoc, ← List.drop_drop, List.drop_left' (by simp), hcells, List.append_assoc, List.drop_left]

theorem cells_drop (hi : i < es.length) : ∃ e ∈ es, cells (es.drop i) = e ++ (lpEncodeBacklen e.length ++ cells (es.drop (i + 1))) ∧
    place es (i + 1) = place es i + (e.length + (lpEncodeBacklen e.length).length) := by
  refine ⟨es[i], List.getElem_mem hi, ?_, ?_⟩
  · rw [List.drop_eq_getElem_cons hi, cells, List.flatMap_cons, List.append_assoc]
    rfl
  · rw [place, place, List.take_succ_eq_append_getElem hi, cells_append]
    simp [cells, Nat.add_assoc]

/-- At the place of an element there is its first byte, and at the end the byte 255. -/
theorem head_place (h : WellFormed lp es) (i : ℕ) : ∃ b, lp[place es i]? = some b ∧ (b = LP_EOF ↔ es.length ≤ i) := by
  rw [← List.head?_drop, drop_place h]
  by_cases hi : i < es.length
  · obtain ⟨e, he, hcells, -⟩ := cells_drop hi
    rw [hcells]
    cases e with
    | nil => exact absurd ((h.element [] he).size []) nofun
    | cons b e => exact ⟨b, rfl, iff_of_false (fun hb => (h.element _ he).head (congrArg some hb)) (by omega)⟩
  · rw [List.drop_eq_nil_of_le (by omega)]
    exact ⟨LP_EOF, rfl, iff_of_true rfl (by omega)⟩

/-- The pointer to the element of an index. -/
def ptr (es : List Sds) (i : ℕ) : Option ℕ := if es.length ≤ i then none else some (place es i)

theorem lpNext_place (h : WellFormed lp es) (hi : i < es.length) : lpNext lp (place es i) = some (ptr es (i + 1)) := by
  obtain ⟨e, he, hcells, hplace⟩ := cells_drop hi
  obtain ⟨b, hb, hend⟩ := head_place h (i + 1)
  rw [lpNext, lpSkip, drop_place h, hcells, List.append_assoc, (h.element e he).size, Option.map_some, ← hplace,
    some_bind, hb, some_bind, ptr, if_congr hend rfl rfl]

theorem place_lt (h : WellFormed lp es) (i : ℕ) : place es i < lp.length ∧ lp.length < 2 ^ 32 := by
  obtain ⟨b, hb, -⟩ := head_place h i
  refine ⟨(List.getElem?_eq_some_iff.mp hb).1, ?_⟩
  have hsmall := h.small
  obtain ⟨numele, -, -, rfl⟩ := h.layout
  simp
  omega

theorem lpPrev_place (h : WellFormed lp es) (hi : i < es.length) : lpPrev lp (place es (i + 1)) = some (some (place es i)) := by
  obtain ⟨e, he, hcells, hplace⟩ := cells_drop hi
  obtain ⟨hlt, hsmall⟩ := place_lt h (i + 1)
  have hlp : lp = (lp.take (place es i) ++ e) ++ (lpEncodeBacklen e.length ++ (cells (es.drop (i + 1)) ++ [LP_EOF])) := by
    conv_lhs => rw [← List.take_append_drop (place es i) lp, drop_place h, hcells]
    simp only [List.append_assoc]
  have hpos : 0 < (lpEncodeBacklen e.length).length := by simp [lpEncodeBacklen, length_groups]
  have hten : LP_HDR_SIZE ≤ place es i := Nat.le_add_right _ _
  have hdec := lpDecodeBacklen_encode (lp.take (place es i) ++ e) (cells (es.drop (i + 1)) ++ [LP_EOF]) (l := e.length)
    (p := place es (i + 1)) (by omega) (by rw [List.length_append, List.length_take_of_le (by omega)]; omega)
  rw [← hlp] at hdec
  rw [lpPrev, if_neg (by omega), hdec, some_bind, if_neg (by omega), hplace, Nat.add_sub_cancel]

/-! ### The loops -/

theorem steps_none (turn : ℕ → Option (Option ℕ)) (k : ℕ) : steps turn k none = some none := by
  cases k <;> rfl

theorem steps_next (h : WellFormed lp es) (k : ℕ) : ∀ i, steps (lpNext lp) k (ptr es i) = some (ptr es (i + k)) := by
  induction k with
  | zero => exact fun _ => rfl
  | succ k ih =>
    intro i
    by_cases hi : es.length ≤ i
    · rw [ptr, ptr, if_pos hi, if_pos (by omega), steps_none]
    · rw [ptr, if_neg hi, steps, lpNext_place h (by omega), some_bind, ih, Nat.add_right_comm, Nat.add_assoc]

theorem steps_prev (h : WellFormed lp es) (k : ℕ) : ∀ i ≤ es.length, steps (lpPrev lp) k (some (place es i)) =
    some (if k ≤ i then some (place es (i - k)) else none) := by
  induction k with
  | zero => exact fun i _ => rfl
  | succ k ih =>
    intro i hi
    cases i with
    | zero => exact steps_none _ k
    | succ i =>
      rw [steps, lpPrev_place h hi, some_bind, ih i (by omega), Nat.add_sub_add_right]
      simp only [Nat.add_le_add_iff_right]

theorem lpFirst_eq (h : WellFormed lp es) : lpFirst lp = some (ptr es 0) := by
  obtain ⟨b, hb, hend⟩ := head_place h 0
  rw [lpFirst, show lp[LP_HDR_SIZE]? = some b from hb, Option.map_some, if_congr hend rfl rfl]
  rfl

/-- From the tail, `k` elements back. -/
theorem steps_last (h : WellFormed lp es) (k : ℕ) : (lpLast lp >>= steps (lpPrev lp) k) =
    some (if k + 1 ≤ es.length then some (place es (es.length - (k + 1))) else none) := by
  have hlast : ofLittle (lp.take 4) - 1 = place es es.length := by
    have hsmall := h.small
    obtain ⟨numele, -, -, rfl⟩ := h.layout
    rw [List.take_left' (by simp), Endian.ofLittle_little (by simpa using hsmall), place, List.take_length, LP_HDR_SIZE]
    omega
  rw [lpLast, hlast, ← steps_prev h (k + 1) es.length le_rfl]
  rfl

/-- The pointer to the element of an index, which is counted from the tail if it is negative. -/
def nth (es : List Sds) (index : ℤ) : Option ℕ :=
  let i := if index < 0 then es.length + index else index
  if 0 ≤ i ∧ i < es.length then some (place es i.toNat) else none

theorem lpSeek_nth (h : WellFormed lp es) (index : ℤ) : lpSeek lp index = some (nth es index) := by
  have hforward : ∀ index : ℤ, 0 ≤ index → (lpFirst lp >>= steps (lpNext lp) index.toNat) = some (nth es index) := by
    intro index hpos
    rw [lpFirst_eq h, some_bind, steps_next h, Nat.zero_add, nth, ptr]
    split_ifs <;> first | rfl | omega
  have hbackward : ∀ index : ℤ, index < 0 → (lpLast lp >>= steps (lpPrev lp) (-1 - index).toNat) = some (nth es index) := by
    intro index hneg
    rw [steps_last h, nth, if_pos hneg, if_congr (by omega : (-1 - index).toNat + 1 ≤ es.length ↔ 0 ≤ es.length + index ∧ es.length + index < es.length)
      rfl rfl, (by omega : es.length - ((-1 - index).toNat + 1) = (es.length + index).toNat)]
  obtain ⟨numele, hnumele, hmax, hlp⟩ := h.layout
  have hcount : ofLittle ((lp.drop 4).take 2) = numele := by
    rw [hlp, List.drop_left' (by simp), List.take_left' (by simp), Endian.ofLittle_little (hmax.trans_lt (by decide))]
  rw [lpSeek, hcount]
  dsimp only
  by_cases hunknown : numele = LP_HDR_NUMELE_UNKNOWN
  · rw [if_neg (not_not.mpr hunknown)]
    split
    · exact hbackward index ‹_›
    · exact hforward index (not_lt.mp ‹_›)
  · obtain rfl := hnumele.resolve_right hunknown
    rw [if_pos hunknown, nth]
    generalize (if index < 0 then (es.length : ℤ) + index else index) = i
    split
    · rw [if_neg (by omega)]
    · split
      · rw [hbackward _ (by omega)]
        simp only [nth, if_pos (by omega : i - es.length < 0), add_sub_cancel]
      · rw [hforward _ (by omega)]
        simp only [nth, if_neg (by omega : ¬i < 0)]

/-- **A listpack is walked and sought exactly**, both ways, also when its count is not known. -/
theorem navigation_exact (h : WellFormed lp es) :
    (∀ i < es.length, lpNext lp (place es i) = some (ptr es (i + 1)) ∧
      lpPrev lp (place es i) = some (if i = 0 then none else some (place es (i - 1)))) ∧
    ∀ index, lpSeek lp index = some (nth es index) := by
  refine ⟨fun i hi => ⟨lpNext_place h hi, ?_⟩, lpSeek_nth h⟩
  cases i with
  | zero => rfl
  | succ i => exact lpPrev_place h (by omega)

/-- The number 5 and the string `ab`, of which the count is not known. -/
def pair : List Sds := [[5], [130, 97, 98]]

theorem pair_wellFormed : WellFormed [13, 0, 0, 0, 255, 255, 5, 1, 130, 97, 98, 3, 255] pair := by
  refine ⟨fun e he => ?_, by decide, 65535, .inr rfl, le_rfl, by decide⟩
  rcases List.mem_pair.mp he with rfl | rfl
  · exact ⟨by decide, fun _ => rfl⟩
  · exact ⟨by decide, fun _ => rfl⟩

theorem navigation_exact_pair :
    (∀ i < pair.length, lpNext [13, 0, 0, 0, 255, 255, 5, 1, 130, 97, 98, 3, 255] (place pair i) = some (ptr pair (i + 1)) ∧
      lpPrev [13, 0, 0, 0, 255, 255, 5, 1, 130, 97, 98, 3, 255] (place pair i) =
        some (if i = 0 then none else some (place pair (i - 1)))) ∧
    ∀ index, lpSeek [13, 0, 0, 0, 255, 255, 5, 1, 130, 97, 98, 3, 255] index = some (nth pair index) :=
  navigation_exact pair_wellFormed

end RedisZk.Listpack
