/-
# The lengths behind an entry that has changed

Where an entry has changed its length the entries behind it are gone through, until one has room
for the length of the one before it. Every entry then says how long the one before it is.

Key definitions: `cascade`, `block`.
Key theorems: `chained_cascade`, `ziplistResize_layout`, `cascadeLoop_block`.
-/
import RedisZk.Ziplist.Entries

namespace RedisZk.Ziplist

open Streams (Sds)
open Endian (little ofLittle)
open Memory (put memmove)

/-! ### The header -/

theorem length_layout (n t c : ℕ) (rest : Sds) : (layout n t c rest).length = ZIPLIST_HEADER_SIZE + rest.length := by
  simp only [layout, List.length_append, Endian.length_little, ZIPLIST_HEADER_SIZE]
  omega

theorem drop_layout (n t c : ℕ) (rest : Sds) (p : ℕ) : (layout n t c rest).drop (ZIPLIST_HEADER_SIZE + p) = rest.drop p := by
  have h10 : (little 4 n ++ (little 4 t ++ little 2 c)).length = ZIPLIST_HEADER_SIZE := by
    simp only [List.length_append, Endian.length_little]
    rfl
  have hsplit : layout n t c rest = (little 4 n ++ (little 4 t ++ little 2 c)) ++ rest := by
    simp only [layout, List.append_assoc]
  rw [hsplit, ← List.drop_drop, ← h10, List.drop_left]

theorem ziplistBytes_layout {n : ℕ} (h : n < 2 ^ 32) (t c : ℕ) (rest : Sds) : ziplistBytes (layout n t c rest) = n := by
  have htake : (layout n t c rest).take 4 = little 4 n := List.take_left' (Endian.length_little 4 n)
  rw [ziplistBytes, htake, Endian.ofLittle_little (by omega)]

theorem ziplistTailOffset_layout (n : ℕ) {t : ℕ} (h : t < 2 ^ 32) (c : ℕ) (rest : Sds) :
    ziplistTailOffset (layout n t c rest) = t := by
  have hdrop : (layout n t c rest).drop 4 = little 4 t ++ (little 2 c ++ rest) := List.drop_left' (Endian.length_little 4 n)
  rw [ziplistTailOffset, hdrop, List.take_left' (Endian.length_little 4 t), Endian.ofLittle_little (by omega)]

theorem ziplistLength_layout (n t : ℕ) {c : ℕ} (h : c ≤ UINT16_MAX) (rest : Sds) : ziplistLength (layout n t c rest) = c := by
  have hmax : UINT16_MAX = 65535 := rfl
  have hdrop : (layout n t c rest).drop 8 = little 2 c ++ rest := by
    have h8 : (little 4 n ++ little 4 t).length = 8 := by simp
    rw [layout, ← List.append_assoc, List.drop_left' h8]
  rw [ziplistLength, hdrop, List.take_left' (Endian.length_little 2 c), Endian.ofLittle_little (by omega)]

theorem setTailOffset_layout (n t c : ℕ) (rest : Sds) {x : ℤ} {t' : ℕ} (h : x % 2 ^ 32 = (t' : ℤ)) :
    setTailOffset (layout n t c rest) x = layout n t' c rest := by
  have hx : (x % 2 ^ 32).toNat = t' := by omega
  have htake : (layout n t c rest).take 4 = little 4 n := List.take_left' (Endian.length_little 4 n)
  have hdrop : (layout n t c rest).drop 8 = little 2 c ++ rest := by
    have h8 : (little 4 n ++ little 4 t).length = 8 := by simp
    rw [layout, ← List.append_assoc, List.drop_left' h8]
  rw [setTailOffset, htake, hdrop, hx]
  rfl

theorem setLength_layout (n t c c' : ℕ) (rest : Sds) : setLength (layout n t c rest) c' = layout n t c' rest := by
  have h8 : (little 4 n ++ little 4 t).length = 8 := by simp
  have htake : (layout n t c rest).take 8 = little 4 n ++ little 4 t := by
    rw [layout, ← List.append_assoc, List.take_left' h8]
  have hdrop : (layout n t c rest).drop 10 = rest := drop_layout n t c rest 0
  rw [setLength, htake, hdrop, layout, List.append_assoc]

/-- The end is put at the end, and is where it was as well. -/
theorem ziplistResize_layout (fresh : ℕ → Fin 256) (n t c : ℕ) (x : Sds) (d : ℕ) {len : ℕ}
    (hlen : len = ZIPLIST_HEADER_SIZE + x.length + 1 + d) (hlt : len < 2 ^ 32) :
    ∃ gap : Sds, gap.length = d ∧ (gap ++ [ZIP_END]).head? = some ZIP_END ∧
      ziplistResize fresh (layout n t c (x ++ [ZIP_END])) len = some (layout len t c (x ++ (gap ++ [ZIP_END]))) := by
  obtain ⟨new, hnew⟩ : ∃ new, new = (List.range' (layout n t c (x ++ [ZIP_END])).length d).map fresh := ⟨_, rfl⟩
  have hnewlen : new.length = d := by rw [hnew, List.length_map, List.length_range']
  have hold : (layout n t c (x ++ [ZIP_END])).length = ZIPLIST_HEADER_SIZE + x.length + 1 := by
    rw [length_layout, List.length_append, List.length_singleton]
    omega
  have hrealloc : setBytes (zrealloc fresh (layout n t c (x ++ [ZIP_END])) len) len =
      layout len t c (x ++ (ZIP_END :: new)) := by
    rw [zrealloc, List.take_of_length_le (by omega), hold, show len - (ZIPLIST_HEADER_SIZE + x.length + 1) = d by omega, ← hold,
      ← hnew, setBytes]
    have hdrop : (layout n t c (x ++ [ZIP_END]) ++ new).drop 4 = little 4 t ++ (little 2 c ++ (x ++ (ZIP_END :: new))) := by
      rw [layout, List.append_assoc, List.drop_left' (Endian.length_little 4 n)]
      simp only [List.append_assoc, List.singleton_append]
    rw [hdrop]
    rfl
  have hne : ZIP_END :: new ≠ [] := List.cons_ne_nil _ _
  refine ⟨(ZIP_END :: new).dropLast, by rw [List.length_dropLast, List.length_cons, hnewlen]; rfl, ?_, ?_⟩
  · cases new with
    | nil => rfl
    | cons y new => rfl
  · rw [ziplistResize, uint, Nat.mod_eq_of_lt hlt, hrealloc]
    have hsplit : layout len t c (x ++ (ZIP_END :: new)) =
        layout len t c (x ++ (ZIP_END :: new).dropLast) ++ ([(ZIP_END :: new).getLast hne] ++ []) := by
      rw [List.append_nil]
      conv_lhs => rw [← List.dropLast_append_getLast hne]
      simp only [layout, List.append_assoc]
    have hput := Memory.put_split (s := [ZIP_END]) hsplit (p := len - 1) (by
      rw [length_layout, List.length_append, List.length_dropLast, List.length_cons, hnewlen]
      omega) rfl
    rw [hput, List.append_nil]
    simp only [layout, List.append_assoc]

/-! ### The cascade -/

/-- What is done with the entries behind `cur`. -/
def cascade (cur : Entry) : List Entry → List Entry
  | [] => []
  | next :: rest =>
    if next.prevlen = cur.size then next :: rest
    else if next.large = false ∧ ZIP_BIG_PREVLEN ≤ cur.size then
      { next with large := true, prevlen := cur.size } :: cascade { next with large := true, prevlen := cur.size } rest
    else { next with prevlen := cur.size } :: rest

/-- Behind an entry that had the size `n` before. -/
theorem chained_cascade (rest : List Entry) : ∀ (cur : Entry) (n : ℕ), Chained n rest → Chained cur.size (cascade cur rest) := by
  induction rest with
  | nil => exact fun _ _ _ => trivial
  | cons next rest ih =>
    intro cur n h
    obtain ⟨-, hrest⟩ := h
    rw [cascade]
    split
    · exact ⟨‹_›, hrest⟩
    · split
      · exact ⟨rfl, ih _ _ hrest⟩
      · refine ⟨rfl, ?_⟩
        rw [Entry.size_eq] at hrest ⊢
        exact hrest

theorem length_cascade (rest : List Entry) : ∀ cur : Entry, (cascade cur rest).length = rest.length ∧
    (bytes rest).length ≤ (bytes (cascade cur rest)).length := by
  induction rest with
  | nil => exact fun _ => ⟨rfl, le_rfl⟩
  | cons next rest ih =>
    intro cur
    have hsize : ∀ e : Entry, e.bytes.length = e.size := fun _ => rfl
    rw [cascade]
    split
    · exact ⟨rfl, le_rfl⟩
    · split
      · rename_i hl
        obtain ⟨hlen, hle⟩ := ih { next with large := true, prevlen := cur.size }
        refine ⟨by rw [List.length_cons, List.length_cons, hlen], ?_⟩
        rw [bytes_cons, bytes_cons, List.length_append, List.length_append, hsize, hsize, Entry.size_eq, Entry.size_eq, hl.1]
        simp only [if_true, Bool.false_eq_true, if_false]
        omega
      · refine ⟨rfl, ?_⟩
        rw [bytes_cons, bytes_cons, List.length_append, List.length_append, hsize, hsize, Entry.size_eq, Entry.size_eq]

/-- Nothing but the lengths changes. -/
theorem text_cascade (rest : List Entry) : ∀ cur : Entry, (cascade cur rest).map Entry.text = rest.map Entry.text := by
  induction rest with
  | nil => exact fun _ => rfl
  | cons next rest ih =>
    intro cur
    rw [cascade]
    split
    · rfl
    · split
      · rw [List.map_cons, List.map_cons, ih]
        rfl
      · rfl

theorem valid_cascade (rest : List Entry) : ∀ {cur : Entry}, (∀ e ∈ rest, e.Valid) → cur.size < 2 ^ 32 →
    (bytes (cascade cur rest)).length < 2 ^ 32 → ∀ e ∈ cascade cur rest, e.Valid := by
  induction rest with
  | nil => exact fun _ _ _ _ he => absurd he List.not_mem_nil
  | cons next rest ih =>
    intro cur hrest hcur hlt e he
    have hnext := hrest next List.mem_cons_self
    rw [cascade] at he hlt
    split at he
    · exact hrest e he
    · rename_i hne
      rw [if_neg hne] at hlt
      split at he
      · rename_i hl
        rw [if_pos hl, bytes_cons, List.length_append] at hlt
        rcases List.mem_cons.mp he with rfl | he
        · exact ⟨hcur, nofun, hnext.body⟩
        · refine ih (fun e he => hrest e (List.mem_cons_of_mem _ he)) ?_ (by omega) e he
          show Entry.size _ < _
          rw [Entry.size]
          omega
      · rename_i hl
        rcases List.mem_cons.mp he with rfl | he
        · refine ⟨hcur, fun hs => ?_, hnext.body⟩
          show cur.size < ZIP_BIG_PREVLEN
          have hs : next.large = false := hs
          by_contra hle
          exact hl ⟨hs, by omega⟩
        · exact hrest e (List.mem_cons_of_mem _ he)

/-! ### The loop -/

/-- A ziplist that ends with some entries, before which there are any bytes. -/
def block (zllen : ℕ) (pre : Sds) (es : List Entry) : Sds :=
  layout (ZIPLIST_HEADER_SIZE + pre.length + (bytes es).length + 1)
    (ZIPLIST_HEADER_SIZE + pre.length + (bytes es.dropLast).length) zllen (pre ++ (bytes es ++ [ZIP_END]))

theorem block_cons (c : ℕ) (pre : Sds) (cur e : Entry) (es : List Entry) :
    block c (pre ++ cur.bytes) (e :: es) = block c pre (cur :: e :: es) := by
  rw [block, block, List.dropLast_cons_cons, bytes_cons cur (e :: es), bytes_cons cur]
  simp only [List.length_append, List.append_assoc, Nat.add_assoc]

theorem drop_block (c : ℕ) (pre : Sds) (es : List Entry) :
    (block c pre es).drop (ZIPLIST_HEADER_SIZE + pre.length) = bytes es ++ [ZIP_END] := by
  rw [block, drop_layout, List.drop_left]

theorem drop_block_cons (c : ℕ) (pre : Sds) (e : Entry) (es : List Entry) :
    (block c pre (e :: es)).drop (ZIPLIST_HEADER_SIZE + pre.length + e.size) = bytes es ++ [ZIP_END] := by
  rw [← List.drop_drop, drop_block, bytes_cons, List.append_assoc, Entry.size, List.drop_left]

/-- The length of the next entry is written, in as many bytes as it has. -/
theorem put_prevlen (c : ℕ) (pre : Sds) (cur next : Entry) (rest : List Entry) {w : Sds} {p : ℕ}
    (hp : p = ZIPLIST_HEADER_SIZE + pre.length + cur.size) (hw : w = Entry.prev { next with prevlen := cur.size }) :
    put (block c pre (cur :: next :: rest)) p w = some (block c pre (cur :: { next with prevlen := cur.size } :: rest)) := by
  have hlen : w.length = next.prev.length := by rw [hw, Entry.length_prev, Entry.length_prev]
  have hsize : Entry.size { next with prevlen := cur.size } = next.size :=
    (Entry.size_eq _).trans (Entry.size_eq next).symm
  have hbytes : ∀ es : List Entry, (bytes ({ next with prevlen := cur.size } :: es)).length = (bytes (next :: es)).length := by
    intro es
    rw [bytes_cons, bytes_cons, List.length_append, List.length_append]
    exact congrArg (· + _) hsize
  have hlast : (bytes (cur :: { next with prevlen := cur.size } :: rest).dropLast).length =
      (bytes (cur :: next :: rest).dropLast).length := by
    rw [List.dropLast_cons_cons, List.dropLast_cons_cons, bytes_cons cur, bytes_cons cur, List.length_append, List.length_append]
    cases rest with
    | nil => rfl
    | cons e es => rw [List.dropLast_cons_cons, List.dropLast_cons_cons, hbytes]
  obtain ⟨n, hn⟩ : ∃ n, n = ZIPLIST_HEADER_SIZE + pre.length + (bytes (cur :: next :: rest)).length + 1 := ⟨_, rfl⟩
  obtain ⟨t, ht⟩ : ∃ t, t = ZIPLIST_HEADER_SIZE + pre.length + (bytes (cur :: next :: rest).dropLast).length := ⟨_, rfl⟩
  have h1 : block c pre (cur :: next :: rest) =
      layout n t c (pre ++ cur.bytes) ++ (next.prev ++ (next.body ++ (bytes rest ++ [ZIP_END]))) := by
    rw [block, ← hn, ← ht, bytes_cons, bytes_cons, Entry.bytes.eq_1 next]
    simp only [layout, List.append_assoc]
  have h2 : block c pre (cur :: { next with prevlen := cur.size } :: rest) =
      layout n t c (pre ++ cur.bytes) ++ (w ++ (next.body ++ (bytes rest ++ [ZIP_END]))) := by
    have hn' : ZIPLIST_HEADER_SIZE + pre.length + (bytes (cur :: { next with prevlen := cur.size } :: rest)).length + 1 = n := by
      rw [hn, bytes_cons cur, bytes_cons cur, List.length_append, List.length_append, hbytes]
    rw [block, hn', hlast, ← ht, bytes_cons, bytes_cons, hw]
    simp only [layout, Entry.bytes, List.append_assoc]
  rw [h2]
  exact Memory.put_split h1 (by rw [hp, length_layout, List.length_append]; exact Nat.add_assoc _ _ _) hlen

theorem length_dropLast_le (es : List Entry) : (bytes es.dropLast).length ≤ (bytes es).length := by
  by_cases h : es = []
  · rw [h]
    exact le_rfl
  · have hsplit := congrArg (fun l => (bytes l).length) (List.dropLast_append_getLast h)
    simp only [bytes_append, List.length_append] at hsplit
    omega

/-- The next entry is made larger. -/
theorem grow_next (fresh : ℕ → Fin 256) (c : ℕ) (pre : Sds) (cur next : Entry) (rest : List Entry) (hl : next.large = false)
    (hcur : ZIP_BIG_PREVLEN ≤ cur.size) {curlen np : ℕ}
    (hcurlen : curlen = ZIPLIST_HEADER_SIZE + pre.length + (bytes (cur :: next :: rest)).length + 1)
    (hnp : np = ZIPLIST_HEADER_SIZE + pre.length + cur.size) (hlt : curlen + 4 < 2 ^ 32) :
    ((ziplistResize fresh (block c pre (cur :: next :: rest)) (curlen + 4)).bind fun zl =>
      (memmove (if ziplistTailOffset zl ≠ np then setTailOffset zl (ziplistTailOffset zl + (4 : ℕ)) else zl) (np + 5) (np + 1)
        (curlen - np - 1 - 1)).bind fun zl => put zl np (zipStorePrevEntryLength cur.size)) =
      some (block c (pre ++ cur.bytes) ({ next with large := true, prevlen := cur.size } :: rest)) := by
  obtain ⟨next', hnext'⟩ : ∃ next', next' = { next with large := true, prevlen := cur.size } := ⟨_, rfl⟩
  have hsizes : next'.size = next.size + 4 := by
    rw [Entry.size_eq, Entry.size_eq, hnext', hl]
    simp only [if_true, Bool.false_eq_true, if_false]
    omega
  have hall : ∀ es : List Entry, (bytes (next' :: es)).length = (bytes (next :: es)).length + 4 := by
    intro es
    rw [bytes_cons, bytes_cons, List.length_append, List.length_append]
    have h1 : next'.bytes.length = next'.size := rfl
    have h2 : next.bytes.length = next.size := rfl
    omega
  have hone : next.prev.length = 1 := by
    rw [Entry.length_prev, hl]
    rfl
  have hcurs : cur.bytes.length = cur.size := rfl
  have hw : zipStorePrevEntryLength cur.size = next'.prev ∧ (zipStorePrevEntryLength cur.size).length = 5 := by
    have hmod : cur.size < 2 ^ 32 := by
      rw [bytes_cons, List.length_append] at hcurlen
      omega
    have hlen := length_store hmod
    rw [if_neg (by omega)] at hlen
    refine ⟨?_, hlen⟩
    rw [store_eq hmod next.body, hnext', decide_eq_true hcur]
  obtain ⟨t, ht⟩ : ∃ t, t = ZIPLIST_HEADER_SIZE + pre.length + (bytes (cur :: next :: rest).dropLast).length := ⟨_, rfl⟩
  obtain ⟨t', ht'⟩ : ∃ t', t' = ZIPLIST_HEADER_SIZE + (pre ++ cur.bytes).length + (bytes (next' :: rest).dropLast).length :=
    ⟨_, rfl⟩
  have htails : t < 2 ^ 32 ∧ t' < 2 ^ 32 ∧ (t ≠ np → t' = t + 4) ∧ (t = np → t' = t) := by
    rw [List.length_append] at ht'
    rw [List.dropLast_cons_cons, bytes_cons, List.length_append] at ht
    rw [bytes_cons, List.length_append] at hcurlen
    cases rest with
    | nil =>
      simp only [List.dropLast_singleton, bytes_nil, List.length_nil] at ht ht'
      omega
    | cons e es =>
      have hle := length_dropLast_le (e :: es)
      have hpos : 0 < next.size := by
        rw [Entry.size_eq, hl]
        exact Nat.add_pos_left (by decide) _
      have hnexts : next.bytes.length = next.size := rfl
      rw [List.dropLast_cons_cons] at ht ht'
      have hall' := hall (e :: es).dropLast
      rw [bytes_cons next, List.length_append] at hall'
      rw [bytes_cons next, List.length_append] at ht hcurlen
      omega
  obtain ⟨htlt, htlt', hne, heq⟩ := htails
  obtain ⟨gap, hgap, -, hresize⟩ := ziplistResize_layout fresh curlen t c (pre ++ bytes (cur :: next :: rest)) 4
    (show curlen + 4 = _ by rw [hcurlen, List.length_append]; omega) hlt
  have hblock : block c pre (cur :: next :: rest) = layout curlen t c (pre ++ bytes (cur :: next :: rest) ++ [ZIP_END]) := by
    rw [block, ← hcurlen, ← ht, List.append_assoc]
  have htail : (if ziplistTailOffset (layout (curlen + 4) t c (pre ++ bytes (cur :: next :: rest) ++ (gap ++ [ZIP_END]))) ≠ np then
        setTailOffset (layout (curlen + 4) t c (pre ++ bytes (cur :: next :: rest) ++ (gap ++ [ZIP_END])))
          (ziplistTailOffset (layout (curlen + 4) t c (pre ++ bytes (cur :: next :: rest) ++ (gap ++ [ZIP_END]))) + (4 : ℕ))
      else layout (curlen + 4) t c (pre ++ bytes (cur :: next :: rest) ++ (gap ++ [ZIP_END]))) =
      layout (curlen + 4) t' c (pre ++ bytes (cur :: next :: rest) ++ (gap ++ [ZIP_END])) := by
    rw [ziplistTailOffset_layout _ htlt]
    by_cases h : t = np
    · rw [if_neg (not_not.mpr h), heq h]
    · rw [if_pos h]
      have ht4 := hne h
      exact setTailOffset_layout _ _ _ _ (by omega)
  rw [hblock, hresize, Option.bind_some, htail]
  have hwiden : (memmove (layout (curlen + 4) t' c (pre ++ bytes (cur :: next :: rest) ++ (gap ++ [ZIP_END]))) (np + 5) (np + 1)
      (curlen - np - 1 - 1)).bind (fun zl => put zl np (zipStorePrevEntryLength cur.size)) =
      some (layout (curlen + 4) t' c (pre ++ cur.bytes) ++
        (zipStorePrevEntryLength cur.size ++ (next.body ++ bytes rest ++ [ZIP_END]))) :=
    Memory.widen (o := next.prev) (g := gap) ?_ ?_ ?_ ?_ ?_ ?_
  · rw [hwiden]
    congr 1
    have hlen : curlen + 4 = ZIPLIST_HEADER_SIZE + (pre ++ cur.bytes).length + (bytes (next' :: rest)).length + 1 := by
      rw [hall, hcurlen, List.length_append, bytes_cons cur, List.length_append]
      omega
    rw [← hnext', block, ← hlen, ← ht', hw.1, bytes_cons, Entry.bytes.eq_1 next', hnext']
    simp only [layout, List.append_assoc]
  · rw [bytes_cons, bytes_cons, Entry.bytes.eq_1 next]
    simp only [layout, List.append_assoc]
  · rw [hnp, length_layout, List.length_append]
    exact Nat.add_assoc _ _ _
  · rw [hw.2, hone, hgap]
  · rw [hw.2, hnp, length_layout, List.length_append, hcurs]
    omega
  · rw [hone, hnp, length_layout, List.length_append, hcurs]
    omega
  · have hnexts : next.bytes.length = next.prev.length + next.body.length := List.length_append
    rw [hcurlen, hnp, List.length_append, bytes_cons, bytes_cons, List.length_append, List.length_append, hcurs]
    omega

/-- **The loop does the cascade**, and it has turns enough. -/
theorem cascadeLoop_block (fresh : ℕ → Fin 256) (c : ℕ) (rest : List Entry) : ∀ (cur : Entry) (pre : Sds) (n curlen : ℕ),
    rest.length < n → cur.Valid → (∀ e ∈ rest, e.Valid) →
    curlen = ZIPLIST_HEADER_SIZE + pre.length + (bytes (cur :: rest)).length + 1 →
    ZIPLIST_HEADER_SIZE + pre.length + (bytes (cur :: cascade cur rest)).length + 1 < 2 ^ 32 →
    cascadeLoop fresh n curlen (block c pre (cur :: rest)) (ZIPLIST_HEADER_SIZE + pre.length) =
      some (block c pre (cur :: cascade cur rest)) := by
  induction rest with
  | nil =>
    intro cur pre n curlen hn hcur _ _ hlt
    obtain ⟨n, rfl⟩ : ∃ m, n = m + 1 := ⟨n - 1, by omega⟩
    obtain ⟨b, hb, hne⟩ := head_bytes hcur [ZIP_END]
    obtain ⟨x, hx, -, -, hsize, -⟩ := zipEntry_bytes hcur [ZIP_END]
    have hcurs : cur.bytes.length = cur.size := rfl
    have hdrop : (block c pre [cur]).drop (ZIPLIST_HEADER_SIZE + pre.length) = cur.bytes ++ [ZIP_END] := by
      rw [drop_block, bytes_cons, bytes_nil, List.append_nil]
    have hbehind := drop_block_cons c pre cur []
    have hraw : uint (x.headersize + x.len) = cur.size := by
      rw [bytes_cons, List.length_append] at hlt
      rw [hsize, uint, Nat.mod_eq_of_lt (by omega)]
    simp only [cascadeLoop, hdrop, hb, hx, hraw, hbehind, bind, Option.bind, if_neg hne, bytes_nil, List.nil_append,
      List.head?_cons, if_true]
    rfl
  | cons next rest ih =>
    intro cur pre n curlen hn hcur hrest hcurlen hlt
    obtain ⟨n, rfl⟩ : ∃ m, n = m + 1 := ⟨n - 1, by omega⟩
    have hnext := hrest next List.mem_cons_self
    obtain ⟨b, hb, hne⟩ := head_bytes hcur (bytes (next :: rest) ++ [ZIP_END])
    obtain ⟨x, hx, -, -, hsize, -⟩ := zipEntry_bytes hcur (bytes (next :: rest) ++ [ZIP_END])
    obtain ⟨b', hb', hne'⟩ := head_bytes hnext (bytes rest ++ [ZIP_END])
    obtain ⟨y, hy, hprevsize, hprevlen, -, -⟩ := zipEntry_bytes hnext (bytes rest ++ [ZIP_END])
    have hcurs : cur.bytes.length = cur.size := rfl
    have hcurlt : cur.size < 2 ^ 32 := by
      rw [bytes_cons, List.length_append] at hlt
      omega
    have hraw : uint (x.headersize + x.len) = cur.size := by rw [hsize, uint, Nat.mod_eq_of_lt hcurlt]
    have hdrop : (block c pre (cur :: next :: rest)).drop (ZIPLIST_HEADER_SIZE + pre.length) =
        cur.bytes ++ (bytes (next :: rest) ++ [ZIP_END]) := by
      rw [drop_block, bytes_cons cur, List.append_assoc]
    have hbehind : (block c pre (cur :: next :: rest)).drop (ZIPLIST_HEADER_SIZE + pre.length + cur.size) =
        next.bytes ++ (bytes rest ++ [ZIP_END]) := by
      rw [drop_block_cons, bytes_cons, List.append_assoc]
    have hstore := length_store hcurlt
    have hprevs := next.length_prev
    rw [cascade] at hlt ⊢
    simp only [cascadeLoop, hdrop, hb, hx, hraw, hbehind, hb', hy, hprevsize, hprevlen, bind, Option.bind, if_neg hne,
      if_neg hne']
    by_cases hsame : next.prevlen = cur.size
    · rw [if_pos hsame, if_pos hsame]
    · rw [if_neg hsame, if_neg hsame]
      rw [if_neg hsame] at hlt
      by_cases hgrow : next.large = false ∧ ZIP_BIG_PREVLEN ≤ cur.size
      · rw [if_pos hgrow] at hlt ⊢
        have hone : next.prev.length = 1 := by
          rw [hprevs, hgrow.1]
          rfl
        have hfive : (zipStorePrevEntryLength cur.size).length = 5 := by
          rw [hstore, if_neg (by omega)]
        rw [if_pos (by omega)]
        have hle := (length_cascade rest { next with large := true, prevlen := cur.size }).2
        have hnextsize : Entry.size { next with large := true, prevlen := cur.size } = next.size + 4 := by
          rw [Entry.size_eq next, Entry.size_eq, hgrow.1]
          simp only [if_true, Bool.false_eq_true, if_false]
          omega
        have hlens : next.bytes.length = next.size ∧
            (Entry.bytes { next with large := true, prevlen := cur.size }).length = next.size + 4 := ⟨rfl, hnextsize⟩
        rw [bytes_cons, bytes_cons, List.length_append, List.length_append] at hlt
        have hcurlen' : curlen + 4 < 2 ^ 32 := by
          rw [hcurlen, bytes_cons, bytes_cons, List.length_append, List.length_append]
          omega
        have hgrown := grow_next fresh c pre cur next rest hgrow.1 hgrow.2 hcurlen rfl hcurlen'
        have hih := ih { next with large := true, prevlen := cur.size } (pre ++ cur.bytes) n (curlen + 4)
          (by rw [List.length_cons] at hn; omega) ⟨hcurlt, by rintro ⟨⟩, hnext.body⟩ (fun e he => hrest e (List.mem_cons_of_mem _ he))
          (by rw [hcurlen, bytes_cons, bytes_cons, bytes_cons, List.length_append, List.length_append, List.length_append,
                List.length_append]; omega)
          (by rw [bytes_cons, List.length_append, List.length_append]; omega)
        rw [List.length_append, ← Nat.add_assoc, hcurs, block_cons c pre cur _ (cascade _ rest)] at hih
        obtain ⟨zl1, h1, hgrown⟩ := Option.bind_eq_some_iff.mp hgrown
        obtain ⟨zl2, h2, h3⟩ := Option.bind_eq_some_iff.mp hgrown
        rw [hone, hfive]
        simp only [Nat.reduceSub, h1, h2, h3]
        exact hih
      · rw [if_neg hgrow]
        have hput := fun w => put_prevlen c pre cur next rest (w := w) (p := ZIPLIST_HEADER_SIZE + pre.length + cur.size) rfl
        cases hl : next.large with
        | false =>
          have hsmall : cur.size < ZIP_BIG_PREVLEN := by
            by_contra h
            exact hgrow ⟨hl, by omega⟩
          rw [hl] at hprevs
          rw [if_pos hsmall] at hstore
          rw [hprevs, hstore, if_neg (by decide), if_neg (by decide), ← hl]
          refine hput _ ?_
          rw [store_eq hcurlt next.body, hl, decide_eq_false (by omega)]
        | true =>
          rw [hl] at hprevs
          by_cases hsmall : cur.size < ZIP_BIG_PREVLEN
          · rw [if_pos hsmall] at hstore
            rw [hprevs, hstore, if_neg (by decide), if_pos (by decide), ← hl]
            refine hput _ ?_
            rw [Entry.prev, hl]
            rfl
          · rw [if_neg hsmall] at hstore
            rw [hprevs, hstore, if_neg (by decide), if_neg (by decide), ← hl]
            refine hput _ ?_
            rw [store_eq hcurlt next.body, hl, decide_eq_true (by omega)]

end RedisZk.Ziplist
