/-
# Merging two ziplists

The one with more entries is made larger: the entries of the second are copied behind it, or its own
entries are moved back and what the first holds is copied before them. The offset of the tail is summed
up from both, and the length before the first entry of the second is mended.

Key definitions: `ziplistMerge`, `ziplistPrev`, `merged`, `ziplistNext`.
Key theorems: `copy_block`, `mend_seam`, `ziplistStringsBack_wellFormed`, `ziplistMerge_exact`, `ziplistNext_place`.
-/
import RedisZk.Ziplist.Delete

namespace RedisZk.Ziplist

open Streams (Sds)
open Endian (little ofLittle)
open Memory (put memmove)

/-! ### The code -/

def ZIPLIST_END_SIZE : ℕ := 1

/-- `n` bytes of another block. -/
def memcpy (m : Sds) (dst : ℕ) (source : Sds) (src n : ℕ) : Option Sds :=
  if src + n ≤ source.length then put m dst ((source.drop src).take n) else none

/-- What is returned, and the two pointers as they are then; none is NULL. -/
structure Merge where
  result : Option Sds
  first : Option Sds
  second : Option Sds
deriving DecidableEq

variable (fresh : ℕ → Fin 256)

/-- The bytes of both in the one block. -/
def mergeBytes (first second : Sds) : Option Sds :=
  let first_bytes := ziplistBytes first
  let second_bytes := ziplistBytes second
  let zlbytes := first_bytes + second_bytes - ZIPLIST_HEADER_SIZE - ZIPLIST_END_SIZE
  if ziplistLength first ≥ ziplistLength second then
    memcpy (zrealloc fresh first zlbytes) (first_bytes - ZIPLIST_END_SIZE) second ZIPLIST_HEADER_SIZE
      (second_bytes - ZIPLIST_HEADER_SIZE)
  else do
    let target ← memmove (zrealloc fresh second zlbytes) (first_bytes - ZIPLIST_END_SIZE) ZIPLIST_HEADER_SIZE
      (second_bytes - ZIPLIST_HEADER_SIZE)
    memcpy target 0 first 0 (first_bytes - ZIPLIST_END_SIZE)

/-- The two pointers may be NULL, or the `same`. -/
def ziplistMerge (first second : Option Sds) (same : Bool) : Option Merge :=
  match first, second with
  | none, second => some ⟨none, none, second⟩
  | some first, none => some ⟨none, some first, none⟩
  | some first, some second =>
    if same then some ⟨none, some first, some second⟩
    else do
      let zllength := ziplistLength first + ziplistLength second
      let zllength := if zllength < UINT16_MAX then zllength else UINT16_MAX
      let target ← mergeBytes fresh first second
      let target := setBytes target (ziplistBytes first + ziplistBytes second - ZIPLIST_HEADER_SIZE - ZIPLIST_END_SIZE)
      let target := setLength target zllength
      let target := setTailOffset target
        (((ziplistBytes first : ℤ) - ZIPLIST_END_SIZE) + (ziplistTailOffset second - ZIPLIST_HEADER_SIZE))
      let target ← ziplistCascadeUpdate fresh target (ziplistTailOffset first)
      some (if ziplistLength first ≥ ziplistLength second then ⟨some target, some target, none⟩ else ⟨some target, none, some target⟩)

/-- The entry before `p`, which may be the end. -/
def ziplistPrev (zl : Sds) (p : ℕ) : Option (Option ℕ) := do
  let first ← (zl.drop p).head?
  if first = ZIP_END then do
    let t ← (zl.drop (ziplistTailOffset zl)).head?
    some (if t = ZIP_END then none else some (ziplistTailOffset zl))
  else if p = ZIPLIST_HEADER_SIZE then some none
  else do
    let (_, prevlen) ← zipDecodePrevlen (zl.drop p)
    -- assert(prevlen > 0)
    if prevlen = 0 ∨ p < prevlen then none else some (some (p - prevlen))

/-- The strings of the entries before `p`, from the back. -/
def decodedBack (zl : Sds) : ℕ → ℕ → Option (List Sds)
  | 0, _ => none
  | n + 1, p => do
    match ← ziplistPrev zl p with
    | none => some []
    | some q => do
      let v ← ziplistGet (zl.drop q)
      let rest ← decodedBack zl n q
      some (v.text :: rest)

/-- What a ziplist holds, traversed backward from `ZIPLIST_ENTRY_END`. -/
def ziplistStringsBack (zl : Sds) : Option (List Sds) := decodedBack zl zl.length (ziplistBytes zl - 1)

/-! ### Backward -/

variable {es : List Entry}

theorem place_length : place es es.length = ZIPLIST_HEADER_SIZE + (bytes es).length := by
  rw [place, List.take_length]

variable {zl : Sds}

theorem ziplistPrev_place (h : WellFormed zl es) {i : ℕ} (hi : i < es.length) :
    ziplistPrev zl (place es (i + 1)) = some (some (place es i)) := by
  obtain ⟨c, -, -, hzl⟩ := h.layout
  have hsmall := h.small
  obtain ⟨-, hplace, hpos⟩ := decode_place h hi
  have hhead : ∀ j, j < es.length → ∃ b, (zl.drop (place es j)).head? = some b ∧ b ≠ ZIP_END := by
    intro j hj
    obtain ⟨e, he, hdrop⟩ := drop_getElem hj
    obtain ⟨b, hb, hne⟩ := head_bytes (h.valid e he) (bytes (es.drop (j + 1)) ++ [ZIP_END])
    refine ⟨b, ?_, hne⟩
    rw [drop_place h j, hdrop, bytes_cons, List.append_assoc, hb]
  by_cases hlast : i + 1 = es.length
  · have hend : zl.drop (place es (i + 1)) = [ZIP_END] := by
      rw [drop_place h, hlast, List.drop_length]
      rfl
    have htail : ziplistTailOffset zl = place es i := by
      have hle := length_dropLast_le es
      rw [hzl, ziplistTailOffset_layout _ (by rw [tailOffset]; rw [total] at hsmall; omega), tailOffset, place, List.dropLast_eq_take,
        ← hlast, Nat.add_sub_cancel]
    obtain ⟨b, hb, hne⟩ := hhead i hi
    simp only [ziplistPrev, hend, htail, hb, List.head?_cons, if_neg hne, if_true, bind, Option.bind]
  · obtain ⟨b, hb, hne⟩ := hhead (i + 1) (by omega)
    obtain ⟨⟨n, hdec⟩, -, -⟩ := decode_place h (show i + 1 < es.length by omega)
    have hhdr : ¬ place es (i + 1) = ZIPLIST_HEADER_SIZE := by
      have : ZIPLIST_HEADER_SIZE ≤ place es i := Nat.le_add_right _ _
      omega
    have hsub : place es (i + 1) - lastSize 0 (es.take (i + 1)) = place es i := by omega
    simp only [ziplistPrev, hb, if_neg hne, if_neg hhdr, hdec, bind, Option.bind, hsub,
      if_neg (show ¬ (lastSize 0 (es.take (i + 1)) = 0 ∨ place es (i + 1) < lastSize 0 (es.take (i + 1))) by omega)]

theorem ziplistPrev_zero (h : WellFormed zl es) : ziplistPrev zl (place es 0) = some none := by
  have hdrop := drop_place h 0
  cases es with
  | nil =>
    obtain ⟨c, -, -, hzl⟩ := h.layout
    have htail : ziplistTailOffset zl = place [] 0 := by
      rw [hzl]
      exact ziplistTailOffset_layout _ (by decide) _ _
    simp only [ziplistPrev, htail, hdrop, bind, Option.bind]
    rfl
  | cons e es =>
    obtain ⟨b, hb, hne⟩ := head_bytes (h.valid e List.mem_cons_self) (bytes es ++ [ZIP_END])
    have hat : place (e :: es) 0 = ZIPLIST_HEADER_SIZE := rfl
    have hhead : (zl.drop (place (e :: es) 0)).head? = some b := by
      rw [hdrop, List.drop_zero, bytes_cons, List.append_assoc, hb]
    simp only [ziplistPrev, hhead, if_neg hne, if_pos hat, bind, Option.bind]

theorem decodedBack_place (h : WellFormed zl es) {l : List Sds} (hl : es.map Entry.text = l.map some)
    (i : ℕ) : ∀ {n : ℕ}, i < n → i ≤ es.length → decodedBack zl n (place es i) = some (l.take i).reverse := by
  induction i with
  | zero =>
    intro n hn _
    obtain ⟨n, rfl⟩ : ∃ m, n = m + 1 := ⟨n - 1, by omega⟩
    simp only [decodedBack, ziplistPrev_zero h, bind, Option.bind, List.take_zero, List.reverse_nil]
  | succ i ih =>
    intro n hn hi
    obtain ⟨n, rfl⟩ : ∃ m, n = m + 1 := ⟨n - 1, by omega⟩
    obtain ⟨e, he, hdrop⟩ := drop_getElem (show i < es.length by omega)
    obtain ⟨v, hv⟩ := (h.valid e he).value
    have hget : ziplistGet (zl.drop (place es i)) = some v := by
      rw [drop_place h, hdrop, bytes_cons, List.append_assoc, ziplistGet_bytes (h.valid e he), hv]
    have hli : l[i]? = some v.text := by
      have hat : (es.map Entry.text)[i]? = (l.map some)[i]? := by rw [hl]
      have hei : es[i]? = some e := by
        have h0 := congrArg List.head? hdrop
        rwa [List.head?_drop] at h0
      rw [List.getElem?_map, List.getElem?_map, hei, Option.map_some, Entry.text, hv] at hat
      obtain ⟨t, ht, htext⟩ := Option.map_eq_some_iff.mp hat.symm
      rw [ht, htext]
      rfl
    have hrev : (l.take (i + 1)).reverse = v.text :: (l.take i).reverse := by
      rw [List.take_add_one, hli, Option.toList_some, List.reverse_append]
      rfl
    simp only [decodedBack, ziplistPrev_place h (show i < es.length by omega), hget, ih (show i < n by omega) (by omega), bind,
      Option.bind, hrev]

/-- Backward the strings are those that are held, in reverse. -/
theorem ziplistStringsBack_wellFormed (h : WellFormed zl es) {l : List Sds}
    (hl : ziplistStrings zl = some l) : ziplistStringsBack zl = some l.reverse := by
  obtain ⟨l', hl', htexts⟩ := ziplistStrings_wellFormed h
  obtain ⟨c, -, -, hzl⟩ := h.layout
  have hsmall := h.small
  have hcount := length_le_bytes es
  rw [hl] at hl'
  cases hl'
  have hlen : es.length = l.length := by
    have := congrArg List.length htexts
    rwa [List.length_map, List.length_map] at this
  have hbytes : ziplistBytes zl - 1 = place es es.length := by
    rw [hzl, ziplistBytes_layout hsmall, place_length, total]
    omega
  have hfuel : zl.length = ZIPLIST_HEADER_SIZE + (bytes es).length + 1 := by
    rw [hzl, length_layout, List.length_append, List.length_singleton]
    rfl
  rw [ziplistStringsBack, hbytes, decodedBack_place h htexts es.length (by omega) le_rfl, hlen, List.take_length]

/-! ### Copying -/

theorem setBytes_layout (n t c m : ℕ) (rest : Sds) : setBytes (layout n t c rest) m = layout m t c rest := by
  rw [setBytes, layout, List.drop_left' (Endian.length_little 4 n)]
  rfl

theorem zrealloc_grow (fresh : ℕ → Fin 256) (m : Sds) {len : ℕ} (h : m.length ≤ len) :
    ∃ new : Sds, new.length = len - m.length ∧ zrealloc fresh m len = m ++ new := by
  refine ⟨(List.range' m.length (len - m.length)).map fresh, by rw [List.length_map, List.length_range'], ?_⟩
  rw [zrealloc, List.take_of_length_le h]

/-- Either way the bytes of the first are before those of the second, under some header. -/
theorem copy_block (fresh : ℕ → Fin 256) {n1 t1 c1 n2 t2 c2 : ℕ} {x1 x2 : Sds} (h1 : n1 = ZIPLIST_HEADER_SIZE + x1.length + 1)
    (h2 : n2 = ZIPLIST_HEADER_SIZE + x2.length + 1) (hlt1 : n1 < 2 ^ 32) (hlt2 : n2 < 2 ^ 32) :
    ∃ n t c, mergeBytes fresh (layout n1 t1 c1 (x1 ++ [ZIP_END])) (layout n2 t2 c2 (x2 ++ [ZIP_END])) =
      some (layout n t c (x1 ++ (x2 ++ [ZIP_END]))) := by
  have hten : ZIPLIST_HEADER_SIZE = 10 := rfl
  have hone : ZIPLIST_END_SIZE = 1 := rfl
  have hlen : ∀ n t c (x : Sds), (layout n t c (x ++ [ZIP_END])).length = ZIPLIST_HEADER_SIZE + x.length + 1 := by
    intro n t c x
    rw [length_layout, List.length_append, List.length_singleton]
    omega
  have hsplit : ∀ n t c (x : Sds) (new : Sds), layout n t c (x ++ [ZIP_END]) ++ new = layout n t c x ++ ([ZIP_END] ++ new ++ []) := by
    intro n t c x new
    simp only [layout, List.append_assoc, List.append_nil]
  simp only [mergeBytes, ziplistBytes_layout hlt1, ziplistBytes_layout hlt2]
  split
  · obtain ⟨new, hnew, hgrow⟩ := zrealloc_grow fresh (layout n1 t1 c1 (x1 ++ [ZIP_END]))
      (show (layout n1 t1 c1 (x1 ++ [ZIP_END])).length ≤ n1 + n2 - ZIPLIST_HEADER_SIZE - ZIPLIST_END_SIZE by rw [hlen]; omega)
    rw [hlen] at hnew
    have hsrc : ((layout n2 t2 c2 (x2 ++ [ZIP_END])).drop ZIPLIST_HEADER_SIZE).take (n2 - ZIPLIST_HEADER_SIZE) = x2 ++ [ZIP_END] := by
      have hdrop : (layout n2 t2 c2 (x2 ++ [ZIP_END])).drop ZIPLIST_HEADER_SIZE = x2 ++ [ZIP_END] := drop_layout _ _ _ _ 0
      rw [hdrop, List.take_of_length_le (by rw [List.length_append, List.length_singleton]; omega)]
    refine ⟨n1, t1, c1, ?_⟩
    rw [memcpy, if_pos (by rw [hlen]; omega), hsrc, hgrow,
      Memory.put_split (s := x2 ++ [ZIP_END]) (hsplit n1 t1 c1 x1 new) (by rw [length_layout]; omega)
        (by simp only [List.length_append, List.length_singleton]; omega)]
    simp only [layout, List.append_assoc, List.append_nil]
  · obtain ⟨new, hnew, hgrow⟩ := zrealloc_grow fresh (layout n2 t2 c2 (x2 ++ [ZIP_END]))
      (show (layout n2 t2 c2 (x2 ++ [ZIP_END])).length ≤ n1 + n2 - ZIPLIST_HEADER_SIZE - ZIPLIST_END_SIZE by rw [hlen]; omega)
    rw [hlen] at hnew
    obtain ⟨m, hm⟩ : ∃ m, m = layout n2 t2 c2 (x2 ++ [ZIP_END]) ++ new := ⟨_, rfl⟩
    have hmlen : m.length = ZIPLIST_HEADER_SIZE + x2.length + 1 + new.length := by rw [hm, List.length_append, hlen]
    have hmove : memmove m (n1 - ZIPLIST_END_SIZE) ZIPLIST_HEADER_SIZE (n2 - ZIPLIST_HEADER_SIZE) =
        some (m.take (n1 - ZIPLIST_END_SIZE) ++ ((x2 ++ [ZIP_END]) ++ [])) := by
      refine Memory.memmove_end (k := layout n2 t2 c2 []) (g := new) ?_ ?_ ?_ ?_
      · rw [hm]
        simp only [layout, List.append_assoc, List.append_nil]
      · rw [length_layout]
        rfl
      · rw [List.length_append, List.length_singleton]
        omega
      · rw [length_layout, List.length_nil]
        omega
    have hfirst : ((layout n1 t1 c1 (x1 ++ [ZIP_END])).drop 0).take (n1 - ZIPLIST_END_SIZE) = layout n1 t1 c1 x1 := by
      have hs : layout n1 t1 c1 (x1 ++ [ZIP_END]) = layout n1 t1 c1 x1 ++ [ZIP_END] := by simp only [layout, List.append_assoc]
      rw [List.drop_zero, hs, List.take_left' (by rw [length_layout]; omega)]
    refine ⟨n1, t1, c1, ?_⟩
    have hput := Memory.put_split (m := m.take (n1 - ZIPLIST_END_SIZE) ++ ((x2 ++ [ZIP_END]) ++ [])) (a := []) (s := layout n1 t1 c1 x1)
      (p := 0) rfl rfl (by rw [length_layout, List.length_take]; omega)
    rw [hgrow, ← hm, hmove, some_bind, memcpy, if_pos (by rw [hlen]; omega), hfirst, hput]
    simp only [layout, List.append_assoc, List.append_nil, List.nil_append]

/-! ### The seam -/

/-- The entries of both, where those of the second follow the last of the first. -/
def merged (es es' : List Entry) : List Entry :=
  match es.getLast? with
  | none => es'
  | some cur => es ++ cascade cur es'

theorem cascade_same {cur : Entry} (h : Chained cur.size es) : cascade cur es = es := by
  cases es with
  | nil => rfl
  | cons e es => rw [cascade, if_pos h.1]

/-- Behind the last entry the loop ends. -/
theorem ziplistCascadeUpdate_last (fresh : ℕ → Fin 256) {p : ℕ} {cur : Entry} (hcur : cur.Valid) (hlt : cur.size < 2 ^ 32)
    (hdrop : zl.drop p = cur.bytes ++ [ZIP_END]) : ziplistCascadeUpdate fresh zl p = some zl := by
  obtain ⟨b, hb, hne⟩ := head_bytes hcur [ZIP_END]
  obtain ⟨x, hx, -, -, hsize, -⟩ := zipEntry_bytes hcur [ZIP_END]
  have hraw : uint (x.headersize + x.len) = cur.size := by rw [hsize, uint, Nat.mod_eq_of_lt hlt]
  have hbehind : zl.drop (p + cur.size) = [ZIP_END] := by rw [← List.drop_drop, hdrop, Entry.size, List.drop_left]
  obtain ⟨n, hn⟩ : ∃ n, zl.length = n + 1 := by
    refine ⟨zl.length - 1, ?_⟩
    have hlen := congrArg List.length hdrop
    rw [List.length_drop, List.length_append, List.length_singleton] at hlen
    omega
  rw [ziplistCascadeUpdate, hn]
  simp only [cascadeLoop, hdrop, hb, hx, hraw, hbehind, if_neg hne, List.head?_cons, if_true, bind, Option.bind]

theorem ziplistCascadeUpdate_end (fresh : ℕ → Fin 256) {p : ℕ} (hdrop : zl.drop p = [ZIP_END]) :
    ziplistCascadeUpdate fresh zl p = some zl := by
  obtain ⟨n, hn⟩ : ∃ n, zl.length = n + 1 := by
    refine ⟨zl.length - 1, ?_⟩
    have hlen := congrArg List.length hdrop
    rw [List.length_drop, List.length_singleton] at hlen
    omega
  rw [ziplistCascadeUpdate, hn, cascadeLoop, hdrop]
  rfl

/-- The cascade from the last entry of the first mends the seam, if there is room. -/
theorem mend_seam (fresh : ℕ → Fin 256) (c : ℕ) {es es' : List Entry} (hes : ∀ e ∈ es, e.Valid) (hes' : ∀ e ∈ es', e.Valid)
    (hchained : Chained 0 es') (hne : es' ≠ []) (hlt : total (es ++ es') < 2 ^ 32) :
    ziplistCascadeUpdate fresh (layout (total (es ++ es')) (tailOffset (es ++ es')) c (bytes (es ++ es') ++ [ZIP_END])) (tailOffset es) =
      if Room es es' then
        some (layout (total (merged es es')) (tailOffset (merged es es')) c (bytes (merged es es') ++ [ZIP_END]))
      else none := by
  obtain ⟨e, rest, rfl⟩ := List.exists_cons_of_ne_nil hne
  induction es using List.reverseRecOn with
  | nil =>
    have hroom : Room [] (e :: rest) := by
      rw [Room, show lastSize 0 [] = 0 from rfl, growth_chained hchained]
      exact hlt
    have hbytes : total (e :: rest) = ZIPLIST_HEADER_SIZE + ([] : Sds).length + (bytes (e :: cascade e rest)).length + 1 := by
      rw [cascade_same hchained.2]
      rfl
    have hrun := @ziplistCascadeUpdate_block fresh c [] _ rest (hes' e List.mem_cons_self)
        (fun x hx => hes' x (List.mem_cons_of_mem _ hx)) (hbytes ▸ hlt)
    rw [cascade_same hchained.2] at hrun
    rw [if_pos hroom]
    exact hrun
  | append_singleton es cur _ =>
    have hcur : cur.Valid := hes cur (by simp)
    have hlast : lastSize 0 (es ++ [cur]) = cur.size := by
      rw [lastSize, List.getLast?_concat]
      rfl
    have htail : tailOffset (es ++ [cur]) = ZIPLIST_HEADER_SIZE + (bytes es).length := by rw [tailOffset, List.dropLast_concat]
    have hmerged : merged (es ++ [cur]) (e :: rest) = es ++ cur :: cascade cur (e :: rest) := by
      rw [merged, List.getLast?_concat]
      exact List.append_assoc _ _ _
    have htotal : ∀ l, total (es ++ cur :: l) = ZIPLIST_HEADER_SIZE + (bytes es).length + (bytes (cur :: l)).length + 1 := by
      intro l
      rw [total, bytes_append, List.length_append]
      omega
    rw [List.append_assoc, List.singleton_append] at hlt
    rw [htail, hmerged, List.append_assoc, List.singleton_append, block_of_layout, block_of_layout]
    split
    · rename_i hroom
      rw [Room, hlast, List.append_assoc, List.singleton_append, htotal, bytes_cons, List.length_append] at hroom
      refine ziplistCascadeUpdate_block fresh c _ hcur hes' ?_
      rw [bytes_cons, List.length_append, length_bytes_cascade]
      omega
    · rename_i hroom
      rw [Room, hlast, List.append_assoc, List.singleton_append, htotal] at hroom
      exact ziplistCascadeUpdate_overflow fresh c _ hcur hes' (htotal _ ▸ hlt) (not_lt.mp hroom)

/-! ### Merging -/

/-- What a merge gives: the entries of both, in the pointer of the one with more entries. -/
structure MergedAs (zl1 zl2 zl' : Sds) (m : Merge) : Prop where
  result : m.result = some zl'
  pointers : (ziplistLength zl2 ≤ ziplistLength zl1 ∧ m.first = some zl' ∧ m.second = none) ∨
    (ziplistLength zl1 < ziplistLength zl2 ∧ m.first = none ∧ m.second = some zl')
  wellFormed : ∃ es', WellFormed zl' es'
  strings : ∃ l1 l2, ziplistStrings zl1 = some l1 ∧ ziplistStrings zl2 = some l2 ∧ ziplistStrings zl' = some (l1 ++ l2) ∧
    ziplistStringsBack zl' = some (l1 ++ l2).reverse

/-- The bytes before the cascade: those of all entries, with the offset of the tail of the second. -/
theorem mergeBytes_wellFormed (fresh : ℕ → Fin 256) {zl1 zl2 : Sds} {es1 es2 : List Entry} (h1 : WellFormed zl1 es1)
    (h2 : WellFormed zl2 es2) (hlt : total (es1 ++ es2) < 2 ^ 32) (c : ℕ) :
    ∃ target, mergeBytes fresh zl1 zl2 = some target ∧
      setTailOffset (setLength (setBytes target (ziplistBytes zl1 + ziplistBytes zl2 - ZIPLIST_HEADER_SIZE - ZIPLIST_END_SIZE)) c)
          (((ziplistBytes zl1 : ℤ) - ZIPLIST_END_SIZE) + (ziplistTailOffset zl2 - ZIPLIST_HEADER_SIZE)) =
        layout (total (es1 ++ es2)) (ZIPLIST_HEADER_SIZE + (bytes es1).length + (bytes es2.dropLast).length) c
          (bytes (es1 ++ es2) ++ [ZIP_END]) ∧ ziplistTailOffset zl1 = tailOffset es1 := by
  obtain ⟨c1, -, -, -, hzl1⟩ := ziplistLength_wellFormed h1
  obtain ⟨c2, -, -, -, hzl2⟩ := ziplistLength_wellFormed h2
  have hs1 := h1.small
  have hs2 := h2.small
  have hle1 := length_dropLast_le es1
  have hle2 := length_dropLast_le es2
  have hone : ZIPLIST_END_SIZE = 1 := rfl
  have hten : ZIPLIST_HEADER_SIZE = 10 := rfl
  have hsum : total (es1 ++ es2) = ZIPLIST_HEADER_SIZE + (bytes es1).length + (bytes es2).length + 1 := by
    rw [total, bytes_append, List.length_append]
    omega
  have hb1 : ziplistBytes zl1 = total es1 := by rw [hzl1, ziplistBytes_layout hs1]
  have hb2 : ziplistBytes zl2 = total es2 := by rw [hzl2, ziplistBytes_layout hs2]
  have ht1 : ziplistTailOffset zl1 = tailOffset es1 := by
    rw [hzl1, ziplistTailOffset_layout]
    rw [total] at hs1
    rw [tailOffset]
    omega
  have ht2 : ziplistTailOffset zl2 = tailOffset es2 := by
    rw [hzl2, ziplistTailOffset_layout]
    rw [total] at hs2
    rw [tailOffset]
    omega
  have hcopy : ∃ n t c', mergeBytes fresh zl1 zl2 = some (layout n t c' (bytes es1 ++ (bytes es2 ++ [ZIP_END]))) := by
    rw [hzl1, hzl2]
    exact copy_block fresh rfl rfl hs1 hs2
  obtain ⟨n, t, c', hcopy⟩ := hcopy
  refine ⟨_, hcopy, ?_, ht1⟩
  have htail : (((total es1 : ℤ) - ZIPLIST_END_SIZE) + ((tailOffset es2 : ℤ) - ZIPLIST_HEADER_SIZE)) % 2 ^ 32 =
      (ZIPLIST_HEADER_SIZE + (bytes es1).length + (bytes es2.dropLast).length : ℕ) := by
    rw [total, tailOffset]
    omega
  rw [hb1, hb2, ht2, setBytes_layout, setLength_layout, setTailOffset_layout _ _ _ _ htail, bytes_append, List.append_assoc,
    show total es1 + total es2 - ZIPLIST_HEADER_SIZE - ZIPLIST_END_SIZE = total (es1 ++ es2) by rw [hsum, total, total]; omega]

theorem text_merged (es es' : List Entry) : (merged es es').map Entry.text = es.map Entry.text ++ es'.map Entry.text := by
  rw [merged]
  cases h : es.getLast? with
  | none =>
    rw [List.getLast?_eq_none_iff.mp h]
    rfl
  | some cur => rw [List.map_append, text_cascade]

theorem length_merged (es es' : List Entry) : (merged es es').length = es.length + es'.length := by
  have h := congrArg List.length (text_merged es es')
  rwa [List.length_append, List.length_map, List.length_map, List.length_map] at h

/-- The entries of both, with the header of their count, are a ziplist. -/
theorem merged_wellFormed {es es' : List Entry} (hes : ∀ e ∈ es, e.Valid) (hes' : ∀ e ∈ es', e.Valid) (hchained : Chained 0 es)
    (hchained' : Chained 0 es') (hroom : Room es es') {c : ℕ} (hc : c = es.length + es'.length ∨ c = UINT16_MAX) (hcmax : c ≤ UINT16_MAX) :
    WellFormed (layout (total (merged es es')) (tailOffset (merged es es')) c (bytes (merged es es') ++ [ZIP_END])) (merged es es') := by
  have hcount := length_merged es es'
  induction es using List.reverseRecOn with
  | nil =>
    rw [Room, show lastSize 0 [] = 0 from rfl, growth_chained hchained'] at hroom
    exact ⟨hes', hchained', hroom, c, hcount ▸ hc, hcmax, rfl⟩
  | append_singleton es cur _ =>
    have hcur : cur.Valid := hes cur (by simp)
    have hlast : lastSize 0 (es ++ [cur]) = cur.size := by
      rw [lastSize, List.getLast?_concat]
      rfl
    have hmerged : merged (es ++ [cur]) es' = es ++ [cur] ++ cascade cur es' := by rw [merged, List.getLast?_concat]
    have hlt : total (es ++ [cur] ++ cascade cur es') < 2 ^ 32 := by
      rw [Room, hlast, total, bytes_append, List.length_append] at hroom
      rw [total, bytes_append, List.length_append, length_bytes_cascade]
      omega
    have hparts := hlt
    rw [total, bytes_append, bytes_append, bytes_cons, List.length_append, List.length_append, List.length_append] at hparts
    rw [hmerged] at hcount ⊢
    refine ⟨fun e he => ?_, ?_, hlt, c, hcount ▸ hc, hcmax, rfl⟩
    · rcases List.mem_append.mp he with he | he
      · exact hes e he
      · refine valid_cascade es' hes' ?_ (by omega) e he
        rw [Entry.size]
        omega
    · rw [chained_append, hlast]
      exact ⟨hchained, chained_cascade es' _ _ hchained'⟩

/-- Behind a first that is not empty an empty second leaves the offset of the tail at the end. -/
theorem not_wellFormed_tail (hne : es ≠ []) (hlt : total es < 2 ^ 32) (c : ℕ) :
    ¬ ∃ es', WellFormed (layout (total es) (ZIPLIST_HEADER_SIZE + (bytes es).length) c (bytes es ++ [ZIP_END])) es' := by
  rintro ⟨es', h⟩
  obtain ⟨c', -, -, hzl⟩ := h.layout
  have hs := h.small
  have hle := length_dropLast_le es'
  have hbytes := congrArg ziplistBytes hzl
  have htail := congrArg ziplistTailOffset hzl
  rw [ziplistBytes_layout hlt, ziplistBytes_layout hs, total, total] at hbytes
  rw [total] at hlt hs
  rw [ziplistTailOffset_layout _ (by omega), ziplistTailOffset_layout _ (by rw [tailOffset]; omega)] at htail
  have hadd := tailOffset_add es'
  have hcount := length_le_bytes es
  have hpos := List.length_pos_iff.mpr hne
  have hzero : lastSize 0 es' = 0 := by omega
  cases hlast : es'.getLast? with
  | none =>
    have hnil := List.getLast?_eq_none_iff.mp hlast
    rw [hnil, bytes_nil, List.length_nil] at hbytes
    omega
  | some e =>
    rw [lastSize, hlast, Option.map_some, Option.getD_some, Entry.size_eq] at hzero
    split at hzero <;> omega

/-- What the cascade makes of the bytes of both. -/
theorem seam_cases (fresh : ℕ → Fin 256) (c : ℕ) {es es' : List Entry} (hes : ∀ e ∈ es, e.Valid) (hes' : ∀ e ∈ es', e.Valid)
    (hchained : Chained 0 es') (hlt : total (es ++ es') < 2 ^ 32) :
    ((es' ≠ [] ∨ es = []) ∧ Room es es' →
      ziplistCascadeUpdate fresh (layout (total (es ++ es')) (ZIPLIST_HEADER_SIZE + (bytes es).length + (bytes es'.dropLast).length) c
        (bytes (es ++ es') ++ [ZIP_END])) (tailOffset es) =
          some (layout (total (merged es es')) (tailOffset (merged es es')) c (bytes (merged es es') ++ [ZIP_END]))) ∧
    (¬ ((es' ≠ [] ∨ es = []) ∧ Room es es') → ∀ zl',
      ziplistCascadeUpdate fresh (layout (total (es ++ es')) (ZIPLIST_HEADER_SIZE + (bytes es).length + (bytes es'.dropLast).length) c
        (bytes (es ++ es') ++ [ZIP_END])) (tailOffset es) = some zl' → ¬ ∃ es'', WellFormed zl' es'') := by
  by_cases hne : es' = []
  · subst hne
    rw [List.append_nil] at hlt ⊢
    have hroom : Room es [] := by
      rw [Room, List.append_nil, growth]
      exact hlt
    by_cases hnil : es = []
    · subst hnil
      have hend : (layout (total []) (ZIPLIST_HEADER_SIZE + (bytes []).length + (bytes [].dropLast).length) c
          (bytes [] ++ [ZIP_END])).drop (tailOffset []) = [ZIP_END] := drop_layout _ _ _ _ 0
      exact ⟨fun _ => ziplistCascadeUpdate_end fresh hend, fun h => absurd ⟨.inr rfl, hroom⟩ h⟩
    · refine ⟨fun h => absurd (h.1.resolve_left (not_not.mpr rfl)) hnil, fun _ zl' hrun => ?_⟩
      obtain ⟨pre, cur, rfl⟩ : ∃ pre cur, es = pre ++ [cur] := ⟨_, _, (List.dropLast_append_getLast hnil).symm⟩
      have hcur : cur.Valid := hes cur (by simp)
      have hsize : cur.size < 2 ^ 32 := by
        rw [total, bytes_append, bytes_cons, List.length_append, List.length_append] at hlt
        rw [Entry.size]
        omega
      have hdrop : ∀ t, (layout (total (pre ++ [cur])) t c (bytes (pre ++ [cur]) ++ [ZIP_END])).drop (tailOffset (pre ++ [cur])) =
          cur.bytes ++ [ZIP_END] := by
        intro t
        rw [tailOffset, List.dropLast_concat, drop_layout, bytes_append, List.append_assoc, List.drop_left, bytes_cons, bytes_nil,
          List.append_nil]
      rw [ziplistCascadeUpdate_last fresh hcur hsize (hdrop _)] at hrun
      cases hrun
      exact not_wellFormed_tail hnil hlt c
  · have htail : ZIPLIST_HEADER_SIZE + (bytes es).length + (bytes es'.dropLast).length = tailOffset (es ++ es') := by
      rw [tailOffset, List.dropLast_append_of_ne_nil hne, bytes_append, List.length_append, Nat.add_assoc]
    rw [htail, mend_seam fresh c hes hes' hchained hne hlt]
    constructor
    · rintro ⟨-, hroom⟩
      rw [if_pos hroom]
    · intro h zl' hrun
      rw [if_neg fun hroom => h ⟨.inl hne, hroom⟩] at hrun
      cases hrun

/-- **A merge is the concatenation, unless only the second is empty, or there is no room.** With an empty
second the offset of the tail is that of the end. -/
theorem ziplistMerge_exact (fresh : ℕ → Fin 256) {zl1 zl2 : Sds} {es1 es2 : List Entry} (h1 : WellFormed zl1 es1)
    (h2 : WellFormed zl2 es2) (hlt : total (es1 ++ es2) < 2 ^ 32) :
    (∃ m zl', ziplistMerge fresh (some zl1) (some zl2) false = some m ∧ MergedAs zl1 zl2 zl' m) ↔
      (es2 ≠ [] ∨ es1 = []) ∧ Room es1 es2 := by
  obtain ⟨c1, hlen1, hc1, hcount1, -⟩ := ziplistLength_wellFormed h1
  obtain ⟨c2, hlen2, hc2, hcount2, -⟩ := ziplistLength_wellFormed h2
  obtain ⟨c, hc⟩ : ∃ c, c = if c1 + c2 < UINT16_MAX then c1 + c2 else UINT16_MAX := ⟨_, rfl⟩
  obtain ⟨target, hbytes, hheader, htail⟩ := mergeBytes_wellFormed fresh h1 h2 hlt c
  obtain ⟨hseam, hbroken⟩ := seam_cases fresh c h1.valid h2.valid h2.chained hlt
  have hcmax : c ≤ UINT16_MAX := by
    rw [hc]
    split <;> omega
  have hccount : c = es1.length + es2.length ∨ c = UINT16_MAX := by
    rw [hc]
    split
    · left
      rw [← hcount1 (by omega), ← hcount2 (by omega)]
    · exact .inr rfl
  have hrun : ziplistMerge fresh (some zl1) (some zl2) false =
      (ziplistCascadeUpdate fresh (layout (total (es1 ++ es2)) (ZIPLIST_HEADER_SIZE + (bytes es1).length + (bytes es2.dropLast).length) c
        (bytes (es1 ++ es2) ++ [ZIP_END])) (tailOffset es1)).map fun target =>
          if c1 ≥ c2 then ⟨some target, some target, none⟩ else ⟨some target, none, some target⟩ := by
    rw [← hheader, ← htail, hc]
    simp only [ziplistMerge, Bool.false_eq_true, if_false, hbytes, hlen1, hlen2, bind, Option.bind]
    cases ziplistCascadeUpdate fresh _ (ziplistTailOffset zl1) with
    | none => rfl
    | some target => rfl
  rw [hrun]
  by_cases hok : (es2 ≠ [] ∨ es1 = []) ∧ Room es1 es2
  · refine ⟨fun _ => hok, fun _ => ?_⟩
    have hwell := merged_wellFormed h1.valid h2.valid h1.chained h2.chained hok.2 hccount hcmax
    obtain ⟨l1, hl1, htexts1⟩ := ziplistStrings_wellFormed h1
    obtain ⟨l2, hl2, htexts2⟩ := ziplistStrings_wellFormed h2
    obtain ⟨l, hl, htexts⟩ := ziplistStrings_wellFormed hwell
    have hconcat : l = l1 ++ l2 := by
      apply List.map_injective_iff.mpr (Option.some_injective _)
      rw [← htexts, text_merged, htexts1, htexts2, List.map_append]
    rw [hseam hok]
    refine ⟨_, _, rfl, ?_, ?_, ⟨_, hwell⟩, l1, l2, hl1, hl2, hconcat ▸ hl, hconcat ▸ ziplistStringsBack_wellFormed hwell hl⟩
    · split
      · rfl
      · rfl
    · rw [hlen1, hlen2]
      by_cases hle : c2 ≤ c1
      · refine .inl ⟨hle, ?_, ?_⟩ <;> simp only [ge_iff_le, if_pos hle]
      · refine .inr ⟨by omega, ?_, ?_⟩ <;> simp only [ge_iff_le, if_neg hle]
  · refine ⟨?_, fun h => absurd h hok⟩
    rintro ⟨m, zl', hm, hmerged⟩
    obtain ⟨target, htarget, rfl⟩ := Option.map_eq_some_iff.mp hm
    have hres : target = zl' := by
      have := hmerged.result
      split at this
      · exact Option.some.inj this
      · exact Option.some.inj this
    exact absurd hmerged.wellFormed (hbroken hok zl' (hres ▸ htarget))

/-- The two entries before themselves, in another block. -/
theorem ziplistMerge_exact_two :
    (∃ m zl', ziplistMerge (fun _ => 0) (some [16, 0, 0, 0, 13, 0, 0, 0, 2, 0, 0, 1, 97, 3, 253, 255])
        (some [16, 0, 0, 0, 13, 0, 0, 0, 2, 0, 0, 1, 97, 3, 253, 255]) false = some m ∧
      MergedAs [16, 0, 0, 0, 13, 0, 0, 0, 2, 0, 0, 1, 97, 3, 253, 255] [16, 0, 0, 0, 13, 0, 0, 0, 2, 0, 0, 1, 97, 3, 253, 255] zl' m) ↔
      (two ≠ [] ∨ two = []) ∧ Room two two :=
  ziplistMerge_exact (fun _ => 0) two_wellFormed two_wellFormed (by decide)

/-- After an empty ziplist is appended the offset of the tail is that of the end, so that backward there is nothing. -/
theorem ziplistMerge_empty_second :
    ∃ zl', (ziplistMerge (fun _ => 0) (some [16, 0, 0, 0, 13, 0, 0, 0, 2, 0, 0, 1, 97, 3, 253, 255]) (some ziplistNew) false).map
        Merge.result = some (some zl') ∧ ziplistTailOffset zl' = 15 ∧ ziplistStrings zl' = some [[97], [49, 50]] ∧
      ziplistStringsBack zl' = some [] :=
  ⟨[16, 0, 0, 0, 15, 0, 0, 0, 2, 0, 0, 1, 97, 3, 253, 255], by decide⟩

/-! ### Walking -/

/-- The entry after `p`, "which could be equal to ZIP_END, caused by ziplistDelete". -/
def ziplistNext (zl : Sds) (p : ℕ) : Option (Option ℕ) := do
  let first ← (zl.drop p).head?
  if first = ZIP_END then some none
  else do
    let len ← zipRawEntryLength (zl.drop p)
    let next ← (zl.drop (p + len)).head?
    some (if next = ZIP_END then none else some (p + len))

/-- At a place there is the beginning of an entry, and at the end the byte 255. -/
theorem head_place (h : WellFormed zl es) (i : ℕ) :
    ∃ b, (zl.drop (place es i)).head? = some b ∧ (b = ZIP_END ↔ es.length ≤ i) := by
  rw [drop_place h i]
  by_cases hi : i < es.length
  · obtain ⟨e, he, hdrop⟩ := drop_getElem hi
    obtain ⟨b, hb, hne⟩ := head_bytes (h.valid e he) (bytes (es.drop (i + 1)) ++ [ZIP_END])
    refine ⟨b, ?_, iff_of_false hne (by omega)⟩
    rw [hdrop, bytes_cons, List.append_assoc, hb]
  · rw [List.drop_eq_nil_of_le (by omega)]
    exact ⟨ZIP_END, rfl, iff_of_true rfl (by omega)⟩

theorem ziplistNext_place (h : WellFormed zl es) {i : ℕ} (hi : i < es.length) :
    ziplistNext zl (place es i) = some (if i + 1 < es.length then some (place es (i + 1)) else none) := by
  obtain ⟨b, hb, hend⟩ := head_place h i
  obtain ⟨b', hb', hend'⟩ := head_place h (i + 1)
  obtain ⟨e, he, hdrop⟩ := drop_getElem hi
  have hsmall := h.small
  rw [total] at hsmall
  have hsize : e.size < 2 ^ 32 := by
    have hsplit : bytes es = bytes (es.take i) ++ (e.bytes ++ bytes (es.drop (i + 1))) := by
      rw [← bytes_cons, ← hdrop, ← bytes_append, List.take_append_drop]
    rw [hsplit, List.length_append, List.length_append] at hsmall
    rw [Entry.size]
    omega
  have hlen : zipRawEntryLength (zl.drop (place es i)) = some e.size := by
    rw [drop_place h i, hdrop, bytes_cons, List.append_assoc, zipRawEntryLength_bytes (h.valid e he) hsize]
  have hplace : place es i + e.size = place es (i + 1) := by
    have htake : es.take (i + 1) = es.take i ++ [e] := by
      have hsplit := List.take_add (l := es) (i := i) (j := 1)
      rw [hsplit, hdrop]
      rfl
    rw [place, place, htake, bytes_append, bytes_cons, bytes_nil, List.append_nil, List.length_append, Nat.add_assoc]
    rfl
  simp only [ziplistNext, hb, if_neg (fun heq => absurd (hend.mp heq) (by omega)), hlen, hplace, hb', bind, Option.bind]
  by_cases hlast : i + 1 < es.length
  · rw [if_neg (fun heq => absurd (hend'.mp heq) (by omega)), if_pos hlast]
  · rw [if_pos (hend'.mpr (by omega)), if_neg hlast]

theorem ziplistIndex_empty (h : WellFormed zl []) (index : ℤ) : ziplistIndex zl index = some none := by
  have hdrop : zl.drop (place [] 0) = [ZIP_END] := drop_place h 0
  obtain ⟨c, -, -, hzl⟩ := h.layout
  have htail : ziplistTailOffset zl = place [] 0 := by
    rw [hzl]
    exact ziplistTailOffset_layout _ (by decide) _ _
  by_cases hneg : index < 0
  · simp only [ziplistIndex, if_pos hneg, htail, hdrop, List.head?_cons, bind, Option.bind]
    rfl
  · have hforward : indexForward zl ZIPLIST_HEADER_SIZE index.toNat = some (place [] 0, index.toNat) := by
      have hat : zl.drop ZIPLIST_HEADER_SIZE = [ZIP_END] := hdrop
      unfold indexForward
      simp only [hat, List.head?_cons, bind, Option.bind]
      rfl
    simp only [ziplistIndex, if_neg hneg, hforward, hdrop, List.head?_cons, bind, Option.bind]
    rfl

end RedisZk.Ziplist
