/-
# Deleting from a ziplist

The entries are gone through to the first that stays. It gets the length of the entry before the
deleted ones, which is written so that it ends where it did: into the last bytes of what is deleted
if it takes more, and with bytes left over if it takes fewer. From there on the rest is moved to the
place, and the block is cut.

Key definitions: `ziplistIndex`, `prevlenStore`, `ziplistDelete`, `ziplistDeleteRange`.
Key theorems: `ziplistResize_cut`, `deleteMove_block`, `ziplistDelete_layout`, `ziplistIndex_place`, `ziplistDelete_exact`.
-/
import RedisZk.Ziplist.Find
import RedisZk.Ziplist.Growth

namespace RedisZk.Ziplist

open Streams (Sds)
open Endian (little ofLittle)
open Memory (put memmove)

/-! ### Indices -/

/-- The loop of `ziplistIndex` back from the entry at `p`; and what is left of the index. -/
def indexBack (zl : Sds) : ℕ → ℕ → ℕ → Option (ℕ × ℕ)
  | p, prevlen, index =>
    if 0 < prevlen then
      match index with
      | 0 => some (p, 0)
      | index + 1 =>
        if p < prevlen then none
        else do
          let (_, prevlen') ← zipDecodePrevlen (zl.drop (p - prevlen))
          indexBack zl (p - prevlen) prevlen' index
    else some (p, index)

/-- The loop forward. -/
def indexForward (zl : Sds) : ℕ → ℕ → Option (ℕ × ℕ)
  | p, index => do
    let first ← (zl.drop p).head?
    if first = ZIP_END then some (p, index)
    else match index with
      | 0 => some (p, 0)
      | index + 1 => do
        let len ← zipRawEntryLength (zl.drop p)
        indexForward zl (p + len) index

/-- The place of an entry, counted from the tail with negative indices; none for NULL. -/
def ziplistIndex (zl : Sds) (index : ℤ) : Option (Option ℕ) := do
  let (p, left) ←
    if index < 0 then do
      let first ← (zl.drop (ziplistTailOffset zl)).head?
      if first ≠ ZIP_END then do
        let (_, prevlen) ← zipDecodePrevlen (zl.drop (ziplistTailOffset zl))
        indexBack zl (ziplistTailOffset zl) prevlen (-index - 1).toNat
      else some (ziplistTailOffset zl, (-index - 1).toNat)
    else indexForward zl ZIPLIST_HEADER_SIZE index.toNat
  let first ← (zl.drop p).head?
  some (if first = ZIP_END ∨ left > 0 then none else some p)

/-! ### Deletion -/

/-- The place behind `num` entries from `p` on, or the end, and how many there were. -/
def skipEntries (zl : Sds) : ℕ → ℕ → Option (ℕ × ℕ)
  | 0, p => do
    let _ ← (zl.drop p).head?
    some (p, 0)
  | num + 1, p => do
    let first ← (zl.drop p).head?
    if first ≠ ZIP_END then do
      let len ← zipRawEntryLength (zl.drop p)
      let (q, deleted) ← skipEntries zl num (p + len)
      some (q, deleted + 1)
    else some (p, 0)

/-- How many bytes more the length before the entry at `p` takes once it is `prevlen`, where it is then
written, and its bytes. -/
def prevlenStore (zl : Sds) (p prevlen : ℕ) : Option (ℤ × ℕ × Sds) := do
  let nextdiff ← zipPrevLenByteDiff (zl.drop p) prevlen
  some (nextdiff, (p - nextdiff).toNat, zipStorePrevEntryLength prevlen)

/-- The entry at `q` gets the length `prevlen` before it, the offset of the tail is set, and the rest is
moved to `p`; and how many bytes more the entry takes. -/
def deleteMove (zl : Sds) (p q totlen prevlen : ℕ) : Option (Sds × ℤ) := do
  let (nextdiff, q, stored) ← prevlenStore zl q prevlen
  let zl ← put zl q stored
  let zl := setTailOffset zl (ziplistTailOffset zl - totlen)
  let tail ← zipEntry (zl.drop q)
  let behind ← (zl.drop (q + uint (tail.headersize + tail.len))).head?
  let zl := if behind ≠ ZIP_END then setTailOffset zl (ziplistTailOffset zl + nextdiff) else zl
  let zl ← memmove zl p q (ziplistBytes zl - q - 1)
  some (zl, nextdiff)

/-- `ZIPLIST_INCR_LENGTH` of a negative number. -/
def ziplistDecrLength (zl : Sds) (deleted : ℕ) : Sds :=
  if ziplistLength zl < UINT16_MAX then setLength zl (((ziplistLength zl : ℤ) - deleted) % 2 ^ 16).toNat else zl

variable (fresh : ℕ → Fin 256)

/-- `__ziplistDelete` -/
def ziplistDelete (zl : Sds) (p num : ℕ) : Option Sds := do
  let first ← zipEntry (zl.drop p)
  let (q, deleted) ← skipEntries zl num p
  let totlen := uint (q - p)
  if totlen > 0 then do
    let behind ← (zl.drop q).head?
    let (zl, nextdiff) ←
      if behind ≠ ZIP_END then deleteMove zl p q totlen first.prevrawlen
      else some (setTailOffset zl (p - first.prevrawlen), 0)
    let zl ← ziplistResize fresh zl (((ziplistBytes zl : ℤ) - totlen + nextdiff) % 2 ^ 32).toNat
    let zl := ziplistDecrLength zl deleted
    if nextdiff ≠ 0 then ziplistCascadeUpdate fresh zl p else some zl
  else some zl

def ziplistDeleteRange (zl : Sds) (index : ℤ) (num : ℕ) : Option Sds := do
  match ← ziplistIndex zl index with
  | none => some zl
  | some p => ziplistDelete fresh zl p num

/-! ### Skipping -/

variable {zl : Sds}

/-- The entries up to the end are skipped, at most `num` of them. -/
theorem skipEntries_spec (num : ℕ) : ∀ {es : List Entry} {p : ℕ}, (∀ e ∈ es, e.Valid) → (bytes es).length < 2 ^ 32 →
    zl.drop p = bytes es ++ [ZIP_END] →
    skipEntries zl num p = some (p + (bytes (es.take num)).length, (es.take num).length) := by
  induction num with
  | zero =>
    intro es p _ _ hdrop
    cases es with
    | nil =>
      rw [skipEntries, hdrop]
      rfl
    | cons e es =>
      rw [skipEntries, hdrop]
      cases h : (bytes (e :: es) ++ [ZIP_END]).head? with
      | none => simp at h
      | some b => rfl
  | succ num ih =>
    intro es p hes hlt hdrop
    cases es with
    | nil =>
      rw [skipEntries, hdrop]
      rfl
    | cons e es =>
      have he := hes e List.mem_cons_self
      have hsize : e.bytes.length = e.size := rfl
      rw [bytes_cons, List.length_append] at hlt
      rw [bytes_cons, List.append_assoc] at hdrop
      obtain ⟨b, hb, hne⟩ := head_bytes he (bytes es ++ [ZIP_END])
      have hlen := zipRawEntryLength_bytes he (by omega) (bytes es ++ [ZIP_END])
      have hnext : zl.drop (p + e.size) = bytes es ++ [ZIP_END] := by rw [← List.drop_drop, hdrop, Entry.size, List.drop_left]
      have hrest := ih (fun e he => hes e (List.mem_cons_of_mem _ he)) (by omega) hnext
      simp only [skipEntries, hdrop, hb, ne_eq, hne, not_false_eq_true, if_true, hlen, hrest, bind, Option.bind]
      rw [List.take_succ_cons, bytes_cons, List.length_append, List.length_cons, Nat.add_assoc, Entry.size]

/-! ### Cutting the block -/

theorem ziplistResize_cut (fresh : ℕ → Fin 256) (n t c : ℕ) (x : Sds) {y : Sds} (hy : 0 < y.length) {len : ℕ}
    (hlen : len = ZIPLIST_HEADER_SIZE + x.length + 1) (hlt : len < 2 ^ 32) :
    ziplistResize fresh (layout n t c (x ++ y)) len = some (layout len t c (x ++ [ZIP_END])) := by
  obtain ⟨b, y, rfl⟩ := List.exists_cons_of_length_pos hy
  have hold : (layout n t c (x ++ b :: y)).length = len + y.length := by
    rw [length_layout, List.length_append, List.length_cons]
    omega
  have hsplit : layout n t c (x ++ b :: y) = layout n t c (x ++ [b]) ++ y := by
    simp only [layout, List.append_assoc, List.cons_append, List.nil_append]
  have hcut : (layout n t c (x ++ b :: y)).take len = layout n t c (x ++ [b]) := by
    rw [hsplit, List.take_left']
    rw [length_layout, List.length_append, List.length_singleton, hlen]
    omega
  have hrealloc : zrealloc fresh (layout n t c (x ++ b :: y)) len = layout n t c (x ++ [b]) := by
    rw [zrealloc, hcut, hold, show len - (len + y.length) = 0 by omega]
    exact List.append_nil _
  have hset : setBytes (layout n t c (x ++ [b])) len = layout len t c x ++ ([b] ++ []) := by
    rw [setBytes, layout, List.drop_left' (Endian.length_little 4 n)]
    simp only [layout, List.append_assoc, List.append_nil]
  rw [ziplistResize, uint, Nat.mod_eq_of_lt hlt, hrealloc,
    Memory.put_split (s := [ZIP_END]) hset (by rw [length_layout, hlen, Nat.add_sub_cancel]) rfl]
  simp only [layout, List.append_assoc, List.append_nil]

theorem ziplistDecrLength_layout (n t : ℕ) {c deleted : ℕ} (hc : c ≤ UINT16_MAX) (hd : c < UINT16_MAX → deleted ≤ c) (rest : Sds) :
    ziplistDecrLength (layout n t c rest) deleted = layout n t (if c < UINT16_MAX then c - deleted else c) rest := by
  have hmax : UINT16_MAX = 65535 := rfl
  rw [ziplistDecrLength, ziplistLength_layout n t hc]
  split
  · rename_i h
    have hle := hd h
    have hval : (((c : ℤ) - deleted) % 2 ^ 16).toNat = c - deleted := by omega
    rw [hval]
    exact setLength_layout _ _ _ _ _
  · rfl

/-! ### The entry that stays -/

/-- The entries that stay, behind one of `n` bytes. -/
def joined (n : ℕ) : List Entry → List Entry
  | [] => []
  | next :: rest =>
    if (newEntry n next.body).large = next.large then newEntry n next.body :: rest
    else newEntry n next.body :: cascade (newEntry n next.body) rest

/-- A length in five bytes was in five bytes before, or there are four more. -/
theorem length_prev_le (n : ℕ) (next : Entry) {r : ℕ} (hroom : n < ZIP_BIG_PREVLEN ∨ 4 ≤ r) :
    (newEntry n next.body).prev.length ≤ r + next.prev.length := by
  rw [Entry.length_prev, Entry.length_prev]
  show (if decide (ZIP_BIG_PREVLEN ≤ n) then 5 else 1) ≤ _
  rcases hroom with h | h
  · rw [decide_eq_false (by omega), if_neg (by decide)]
    split <;> omega
  · split <;> split <;> omega

variable {next : Entry}

/-- The length that is written ends where the old one did, and there is room for it. -/
theorem prevlenStore_bytes {p n : ℕ} (hn : n < 2 ^ 32) (hnext : next.Valid) {rest : Sds}
    (hdrop : zl.drop p = next.bytes ++ rest) (hroom : n < ZIP_BIG_PREVLEN ∨ 4 ≤ p) :
    ∃ q, prevlenStore zl p n = some (((newEntry n next.body).prev.length : ℤ) - next.prev.length, q, (newEntry n next.body).prev) ∧
      q + (newEntry n next.body).prev.length = p + next.prev.length := by
  have hstore : zipStorePrevEntryLength n = (newEntry n next.body).prev := store_eq hn next.body
  have hdiff : zipPrevLenByteDiff (zl.drop p) n = some (((newEntry n next.body).prev.length : ℤ) - next.prev.length) := by
    rw [hdrop, Entry.bytes, List.append_assoc]
    simp only [zipPrevLenByteDiff, zipDecodePrevlen_prev hnext, bind, Option.bind, hstore]
  refine ⟨((p : ℤ) - (((newEntry n next.body).prev.length : ℤ) - next.prev.length)).toNat, ?_, ?_⟩
  · simp only [prevlenStore, hdiff, hstore, bind, Option.bind]
  · have hle := length_prev_le n next hroom
    omega

/-- The rest is moved to the place; what is behind it is cut later. -/
theorem deleteMove_block (c : ℕ) (pre D : Sds) (hnext : next.Valid) {rest : List Entry} (hrest : ∀ e ∈ rest, e.Valid)
    {n p q : ℕ} (hn : n < 2 ^ 32) (hroom : n < ZIP_BIG_PREVLEN ∨ 4 ≤ D.length) (hp : p = ZIPLIST_HEADER_SIZE + pre.length)
    (hq : q = p + D.length) (hlt : ZIPLIST_HEADER_SIZE + (pre ++ D).length + (bytes (next :: rest)).length + 1 < 2 ^ 32) :
    ∃ y : Sds, y.length + (newEntry n next.body).prev.length = D.length + next.prev.length + 1 ∧
      deleteMove (block c (pre ++ D) (next :: rest)) p q D.length n =
        some (layout (ZIPLIST_HEADER_SIZE + (pre ++ D).length + (bytes (next :: rest)).length + 1)
          (ZIPLIST_HEADER_SIZE + pre.length + (bytes (newEntry n next.body :: rest).dropLast).length) c
          (pre ++ bytes (newEntry n next.body :: rest) ++ y), ((newEntry n next.body).prev.length : ℤ) - next.prev.length) := by
  obtain ⟨next', hnext'⟩ : ∃ next', next' = newEntry n next.body := ⟨_, rfl⟩
  obtain ⟨curlen, hcurlen⟩ : ∃ k, k = ZIPLIST_HEADER_SIZE + (pre ++ D).length + (bytes (next :: rest)).length + 1 := ⟨_, rfl⟩
  obtain ⟨t, ht⟩ : ∃ t, t = ZIPLIST_HEADER_SIZE + (pre ++ D).length + (bytes (next :: rest).dropLast).length := ⟨_, rfl⟩
  have hten : ZIPLIST_HEADER_SIZE = 10 := rfl
  have hdrop : (block c (pre ++ D) (next :: rest)).drop q = next.bytes ++ (bytes rest ++ [ZIP_END]) := by
    rw [hq, hp, Nat.add_assoc, ← List.length_append, drop_block, bytes_cons, List.append_assoc]
  obtain ⟨q', hstore, hq'⟩ := prevlenStore_bytes hn hnext hdrop (hroom.imp_right fun h => by omega)
  have hvalid : next'.Valid := by
    rw [hnext']
    exact ⟨hn, fun hlarge => not_le.mp (of_decide_eq_false hlarge), hnext.body⟩
  have hbody : next'.body = next.body := by rw [hnext']; rfl
  rw [← hnext'] at hstore hq' ⊢
  rw [← hcurlen] at hlt ⊢
  have hfits : next'.prev.length ≤ D.length + next.prev.length := hnext' ▸ length_prev_le n next hroom
  obtain ⟨k, hk⟩ : ∃ k, k = D.length + next.prev.length - next'.prev.length := ⟨_, rfl⟩
  have hplace : q' = p + k := by omega
  -- What is left over, and the bytes that the length is written to.
  obtain ⟨junk, hjunk⟩ : ∃ junk, junk = (D ++ next.prev).take k := ⟨_, rfl⟩
  have hjunklen : junk.length = k := by rw [hjunk, List.length_take, List.length_append]; omega
  have hsplit : D ++ next.prev = junk ++ (D ++ next.prev).drop k := by rw [hjunk, List.take_append_drop]
  have hslot : ((D ++ next.prev).drop k).length = next'.prev.length := by
    rw [List.length_drop, List.length_append]
    omega
  have hlens : next.bytes.length = next.prev.length + next.body.length ∧
      next'.bytes.length = next'.prev.length + next.body.length := ⟨List.length_append, hbody ▸ List.length_append⟩
  have hblock : block c (pre ++ D) (next :: rest) =
      layout curlen t c (pre ++ junk) ++ ((D ++ next.prev).drop k ++ (next.body ++ (bytes rest ++ [ZIP_END]))) := by
    have hbytes : pre ++ D ++ (bytes (next :: rest) ++ [ZIP_END]) =
        pre ++ junk ++ ((D ++ next.prev).drop k ++ (next.body ++ (bytes rest ++ [ZIP_END]))) := by
      rw [bytes_cons, Entry.bytes, List.append_assoc pre junk, ← List.append_assoc junk, ← hsplit]
      simp only [List.append_assoc]
    rw [block, ← hcurlen, ← ht, hbytes]
    simp only [layout, List.append_assoc]
  have hput : put (block c (pre ++ D) (next :: rest)) q' next'.prev =
      some (layout curlen t c (pre ++ junk ++ (bytes (next' :: rest) ++ [ZIP_END]))) := by
    rw [Memory.put_split (s := next'.prev) hblock (by rw [length_layout, List.length_append, hjunklen]; omega) hslot.symm,
      bytes_cons, Entry.bytes.eq_1 next', hbody]
    simp only [layout, List.append_assoc]
  have hafter : ∀ t, (layout curlen t c (pre ++ junk ++ (bytes (next' :: rest) ++ [ZIP_END]))).drop q' =
      next'.bytes ++ (bytes rest ++ [ZIP_END]) := by
    intro t
    have hplace' : q' = ZIPLIST_HEADER_SIZE + (pre ++ junk).length := by rw [List.length_append, hjunklen]; omega
    rw [hplace', drop_layout, List.drop_left, bytes_cons, List.append_assoc]
  obtain ⟨x, hx, -, -, hsize, -⟩ := zipEntry_bytes hvalid (bytes rest ++ [ZIP_END])
  have hsum := hcurlen
  rw [bytes_cons, List.length_append, List.length_append] at hsum
  have hraw : uint (x.headersize + x.len) = next'.bytes.length := by
    have hle : next'.bytes.length < 2 ^ 32 := by omega
    rw [hsize, Entry.size, uint, Nat.mod_eq_of_lt hle]
  have hbehind : ∀ t, (layout curlen t c (pre ++ junk ++ (bytes (next' :: rest) ++ [ZIP_END]))).drop (q' + next'.bytes.length) =
      bytes rest ++ [ZIP_END] := by
    intro t
    rw [← List.drop_drop, hafter, List.drop_left]
  obtain ⟨t', ht'⟩ : ∃ t', t' = ZIPLIST_HEADER_SIZE + pre.length + (bytes (next' :: rest).dropLast).length := ⟨_, rfl⟩
  obtain ⟨t1, ht1⟩ : ∃ t1, t1 = ZIPLIST_HEADER_SIZE + pre.length + (bytes (next :: rest).dropLast).length := ⟨_, rfl⟩
  rw [← ht']
  have hlastle := length_dropLast_le (next :: rest)
  rw [bytes_cons next rest, List.length_append] at hlastle
  rw [List.length_append] at ht
  have htail : ((t : ℤ) - D.length) % 2 ^ 32 = t1 := by omega
  have hmove : memmove (layout curlen t' c (pre ++ junk ++ (bytes (next' :: rest) ++ [ZIP_END]))) p q' (curlen - q' - 1) =
      some (layout curlen t' c (pre ++ bytes (next' :: rest) ++
        (junk ++ (bytes (next' :: rest) ++ [ZIP_END])).drop (bytes (next' :: rest)).length)) := by
    have hfront := @Memory.memmove_front _
        (layout curlen t' c (pre ++ junk ++ (bytes (next' :: rest) ++ [ZIP_END]))) (layout curlen t' c pre) junk
        (bytes (next' :: rest)) [ZIP_END] p q' (curlen - q' - 1) (by simp only [layout, List.append_assoc])
        (by rw [length_layout, hp]) (by rw [length_layout, hjunklen, ← hp, hplace])
        (by rw [bytes_cons, List.length_append]; omega)
    rw [hfront]
    simp only [layout, List.append_assoc]
  have hfinal : ∀ zl2, (zl2 = layout curlen t' c (pre ++ junk ++ (bytes (next' :: rest) ++ [ZIP_END]))) →
      memmove zl2 p q' (ziplistBytes zl2 - q' - 1) =
      some (layout curlen t' c (pre ++ bytes (next' :: rest) ++
        (junk ++ (bytes (next' :: rest) ++ [ZIP_END])).drop (bytes (next' :: rest)).length)) := by
    rintro zl2 rfl
    rw [ziplistBytes_layout hlt, hmove]
  refine ⟨(junk ++ (bytes (next' :: rest) ++ [ZIP_END])).drop (bytes (next' :: rest)).length, ?_, ?_⟩
  · rw [List.length_drop, List.length_append, List.length_append, hjunklen, List.length_singleton]
    omega
  · simp only [deleteMove, hstore, hput, bind, Option.bind]
    rw [ziplistTailOffset_layout _ (by omega), setTailOffset_layout _ _ _ _ htail, hafter, hx]
    simp only [hraw, hbehind]
    cases rest with
    | nil =>
      have heq : t' = t1 := by
        rw [ht', ht1]
        rfl
      simp only [bytes_nil, List.nil_append, List.head?_cons, ne_eq, not_true_eq_false, if_false]
      rw [hfinal _ (by rw [heq])]
    | cons e es =>
      obtain ⟨b', hb', hne'⟩ := head_bytes (hrest e List.mem_cons_self) (bytes es ++ [ZIP_END])
      rw [← List.append_assoc, ← bytes_cons] at hb'
      have htwo : ((t1 : ℤ) + ((next'.prev.length : ℤ) - next.prev.length)) % 2 ^ 32 = t' := by
        rw [List.dropLast_cons_cons, bytes_cons, List.length_append] at ht' ht1
        have hle := length_dropLast_le (e :: es)
        omega
      rw [hb']
      simp only [ne_eq, hne', not_false_eq_true, if_true]
      rw [ziplistTailOffset_layout _ (by omega), setTailOffset_layout _ _ _ _ htwo, hfinal _ rfl]

/-! ### Deletion -/

/-- The last entry ends at the end. -/
theorem tailOffset_add (es : List Entry) : tailOffset es + lastSize 0 es = ZIPLIST_HEADER_SIZE + (bytes es).length := by
  induction es using List.reverseRecOn with
  | nil => rfl
  | append_singleton es e _ =>
    have hsize : e.bytes.length = e.size := rfl
    rw [tailOffset, lastSize, List.dropLast_concat, List.getLast?_concat, bytes_append, bytes_cons, bytes_nil, List.append_nil,
      List.length_append, Option.map_some, Option.getD_some, hsize, Nat.add_assoc]

/-- The first entry that stays grows or shrinks; where it shrinks no other grows. -/
theorem growth_joined {rest : List Entry} (hnext : next.Valid) (hrest : ∀ e ∈ rest, e.Valid)
    (hchained : Chained next.size rest) (hl : (newEntry n next.body).large ≠ next.large) :
    ((newEntry n next.body).size = next.size + 4 ∧ growth n (next :: rest) = growth (newEntry n next.body).size rest + 1) ∨
      ((newEntry n next.body).size + 4 = next.size ∧ growth n (next :: rest) = 0 ∧ growth (newEntry n next.body).size rest = 0) := by
  have hlarge : (newEntry n next.body).large = decide (ZIP_BIG_PREVLEN ≤ n) := rfl
  have hsize := Entry.size_eq (newEntry n next.body)
  have hbody : (newEntry n next.body).body = next.body := rfl
  rw [hlarge] at hl
  rw [hlarge, hbody] at hsize
  cases hln : next.large with
  | false =>
    have hbig : ZIP_BIG_PREVLEN ≤ n := by
      rw [hln] at hl
      exact of_decide_eq_true (Bool.eq_true_of_not_eq_false hl)
    have hsmall := hnext.small hln
    rw [decide_eq_true hbig] at hsize
    have hnew : (newEntry n next.body).size = next.size + 4 := by
      rw [hsize, Entry.size_eq next, hln]
      simp only [if_true, Bool.false_eq_true, if_false]
      omega
    refine .inl ⟨hnew, ?_⟩
    rw [growth, if_pos ⟨by omega, hln, hbig⟩, hnew]
  | true =>
    have hbig : ¬ ZIP_BIG_PREVLEN ≤ n := by
      rw [hln] at hl
      exact of_decide_eq_false (Bool.eq_false_of_not_eq_true hl)
    rw [decide_eq_false hbig] at hsize
    have hnew : (newEntry n next.body).size + 4 = next.size := by
      rw [hsize, Entry.size_eq next, hln]
      simp only [if_true, Bool.false_eq_true, if_false]
      omega
    refine .inr ⟨hnew, ?_, ?_⟩
    · rw [growth, if_neg (fun h => hbig h.2.2)]
    · cases rest with
      | nil => rfl
      | cons e es =>
        rw [growth, if_neg]
        rintro ⟨-, hle, hbig'⟩
        have hsmall := (hrest e List.mem_cons_self).small hle
        have hprevlen := hchained.1
        omega

/-- Where the first entry that stays has changed its length the entries behind it follow, if there is room. -/
theorem cascade_joined (fresh : ℕ → Fin 256) (c : ℕ) {A rest : List Entry} (hn : n = lastSize 0 A)
    (hnlt : n < 2 ^ 32) (hnext : next.Valid) (hrest : ∀ e ∈ rest, e.Valid) (hchained : Chained next.size rest)
    (hold : total (A ++ next :: rest) < 2 ^ 32) (hnew : total (A ++ newEntry n next.body :: rest) < 2 ^ 32) :
    (if ¬ ((newEntry n next.body).prev.length : ℤ) - next.prev.length = 0 then
        ziplistCascadeUpdate fresh (block c (bytes A) (newEntry n next.body :: rest)) (ZIPLIST_HEADER_SIZE + (bytes A).length)
      else some (block c (bytes A) (newEntry n next.body :: rest))) =
      if Room A (next :: rest) then some (block c (bytes A) (joined n (next :: rest))) else none := by
  have hroom : ∀ k, growth n (next :: rest) = k → (Room A (next :: rest) ↔ total (A ++ next :: rest) + 4 * k < 2 ^ 32) := by
    rintro k rfl
    rw [Room, ← hn]
  have hvalid : (newEntry n next.body).Valid := ⟨hnlt, fun hlarge => not_le.mp (of_decide_eq_false hlarge), hnext.body⟩
  have hprevs : (newEntry n next.body).prev.length = (if (newEntry n next.body).large then 5 else 1) ∧
      next.prev.length = if next.large then 5 else 1 := ⟨Entry.length_prev _, Entry.length_prev _⟩
  have htotal : ∀ e : Entry, total (A ++ e :: rest) = ZIPLIST_HEADER_SIZE + (bytes A).length + (e.size + (bytes rest).length) + 1 := by
    intro e
    rw [total, bytes_append, List.length_append, bytes_cons, List.length_append, Entry.size]
    omega
  have hblock : ZIPLIST_HEADER_SIZE + (bytes A).length + (bytes (newEntry n next.body :: rest)).length + 1 =
      total (A ++ newEntry n next.body :: rest) := by
    rw [total, bytes_append, List.length_append, ← Nat.add_assoc]
  by_cases hl : (newEntry n next.body).large = next.large
  · have hzero : ((newEntry n next.body).prev.length : ℤ) - next.prev.length = 0 := by
      rw [hprevs.1, hprevs.2, hl]
      exact sub_self _
    have hnone : growth n (next :: rest) = 0 := by
      rw [growth, if_neg]
      rintro ⟨-, hln, hbig⟩
      have hlarge : (newEntry n next.body).large = decide (ZIP_BIG_PREVLEN ≤ n) := rfl
      rw [hlarge, decide_eq_true hbig, hln] at hl
      cases hl
    rw [if_neg (not_not.mpr hzero), if_pos ((hroom 0 hnone).mpr hold), joined, if_pos hl]
  · have hdiff : ¬ ((newEntry n next.body).prev.length : ℤ) - next.prev.length = 0 := by
      rw [hprevs.1, hprevs.2]
      revert hl
      cases (newEntry n next.body).large <;> cases next.large <;> decide
    rw [if_pos hdiff, joined, if_neg hl]
    -- The size of the result, from what each entry adds to it.
    have hiff : Room A (next :: rest) ↔
        total (A ++ newEntry n next.body :: rest) + 4 * growth (newEntry n next.body).size rest < 2 ^ 32 := by
      rcases growth_joined hnext hrest hchained hl with ⟨hsize, hgrowth⟩ | ⟨hsize, hgrowth, hnone⟩
      · rw [hroom _ hgrowth, htotal, htotal, hsize]
        omega
      · rw [hroom _ hgrowth, hnone]
        omega
    by_cases hfits : Room A (next :: rest)
    · rw [if_pos hfits]
      refine ziplistCascadeUpdate_block fresh c _ hvalid hrest ?_
      have hlt := hiff.mp hfits
      rw [htotal, Entry.size] at hlt
      rw [bytes_cons, List.length_append, length_bytes_cascade]
      rw [Entry.size]
      omega
    · rw [if_neg hfits]
      have hle := not_lt.mp (hiff.not.mp hfits)
      refine ziplistCascadeUpdate_overflow fresh c _ hvalid hrest ?_ ?_
      · rw [hblock]
        exact hnew
      · rw [hblock]
        exact hle

/-- The bytes that result are those of the entries that stay, if there is room for them. -/
theorem ziplistDelete_layout (fresh : ℕ → Fin 256) {A D B : List Entry} (hvalid : ∀ e ∈ A ++ (D ++ B), e.Valid)
    (hchained : Chained 0 (A ++ (D ++ B))) (hsmall : total (A ++ (D ++ B)) < 2 ^ 32) {c : ℕ} (hc : c ≤ UINT16_MAX)
    (hcount : c < UINT16_MAX → c = (A ++ (D ++ B)).length) (hD : D ≠ []) {num : ℕ} (hnum : (D ++ B).take num = D) :
    ziplistDelete fresh (layout (total (A ++ (D ++ B))) (tailOffset (A ++ (D ++ B))) c (bytes (A ++ (D ++ B)) ++ [ZIP_END]))
        (ZIPLIST_HEADER_SIZE + (bytes A).length) num =
      if Room A B then
        some (layout (total (A ++ joined (lastSize 0 A) B)) (tailOffset (A ++ joined (lastSize 0 A) B))
          (if c < UINT16_MAX then c - D.length else c) (bytes (A ++ joined (lastSize 0 A) B) ++ [ZIP_END]))
      else none := by
  obtain ⟨d, D', rfl⟩ := List.exists_cons_of_ne_nil hD
  obtain ⟨n, hn⟩ : ∃ n, n = lastSize 0 A := ⟨_, rfl⟩
  obtain ⟨D, hDeq⟩ : ∃ D, D = d :: D' := ⟨_, rfl⟩
  obtain ⟨-, hchainedB⟩ := (chained_append A _ 0).mp hchained
  rw [← hn] at hchainedB ⊢
  have hprevlen : d.prevlen = n := hchainedB.1
  have hd : d.Valid := hvalid d (List.mem_append_right _ (List.mem_append_left _ List.mem_cons_self))
  have hnlt : n < 2 ^ 32 := hprevlen ▸ hd.prevlen
  have hvalidDB : ∀ e ∈ D ++ B, e.Valid := fun e he => hvalid e (List.mem_append_right _ (hDeq ▸ he))
  have hlenD : (bytes D).length = d.prev.length + d.body.length + (bytes D').length := by
    rw [hDeq, bytes_cons, List.length_append, Entry.bytes, List.length_append]
  have hposD : 0 < (bytes D).length := by
    rw [hlenD, d.length_prev]
    split <;> omega
  have hroom : n < ZIP_BIG_PREVLEN ∨ 4 ≤ (bytes D).length := by
    by_cases h : n < ZIP_BIG_PREVLEN
    · exact .inl h
    · have hl : d.large = true := Bool.eq_true_of_not_eq_false fun hl => h (hprevlen ▸ hd.small hl)
      refine .inr ?_
      rw [hlenD, d.length_prev, hl]
      simp only [if_true]
      omega
  rw [← hDeq] at hnum hsmall hcount ⊢
  obtain ⟨p, hp⟩ : ∃ p, p = ZIPLIST_HEADER_SIZE + (bytes A).length := ⟨_, rfl⟩
  have htotal : total (A ++ (D ++ B)) = ZIPLIST_HEADER_SIZE + (bytes A).length + ((bytes D).length + (bytes B).length) + 1 := by
    rw [total, bytes_append, bytes_append, List.length_append, List.length_append]
    omega
  obtain ⟨zl, hzl⟩ : ∃ zl, zl = layout (total (A ++ (D ++ B))) (tailOffset (A ++ (D ++ B))) c (bytes (A ++ (D ++ B)) ++ [ZIP_END]) :=
    ⟨_, rfl⟩
  have hdrop : zl.drop p = bytes (D ++ B) ++ [ZIP_END] := by
    rw [hzl, hp, drop_layout, bytes_append A, List.append_assoc, List.drop_left]
  have hdropq : zl.drop (p + (bytes D).length) = bytes B ++ [ZIP_END] := by
    rw [← List.drop_drop, hdrop, bytes_append, List.append_assoc, List.drop_left]
  have hskip := skipEntries_spec num hvalidDB (by rw [bytes_append, List.length_append]; omega) hdrop
  rw [hnum] at hskip
  obtain ⟨x, hx, -, hxprev, -⟩ := zipEntry_bytes hd (bytes (D' ++ B) ++ [ZIP_END])
  have hfirst : zipEntry (zl.drop p) = some x := by
    rw [hdrop, hDeq, List.cons_append, bytes_cons, List.append_assoc, hx]
  have hxn : x.prevrawlen = n := hxprev.trans hprevlen
  have htotlen : uint (p + (bytes D).length - p) = (bytes D).length := by
    rw [Nat.add_sub_cancel_left, uint, Nat.mod_eq_of_lt (by omega)]
  have hdecr : ∀ m t rest, ziplistDecrLength (layout m t c rest) D.length = layout m t (if c < UINT16_MAX then c - D.length else c) rest := by
    intro m t rest
    refine ziplistDecrLength_layout m t hc (fun h => ?_) rest
    rw [hcount h, List.length_append, List.length_append]
    omega
  rw [← hzl, ← hp]
  simp only [ziplistDelete, hfirst, hskip, htotlen, hxn, bind, Option.bind, gt_iff_lt, hposD, if_true, hdropq]
  obtain ⟨c', hc'⟩ : ∃ c', c' = if c < UINT16_MAX then c - D.length else c := ⟨_, rfl⟩
  rw [← hc'] at hdecr ⊢
  cases B with
  | nil =>
    have hoff := tailOffset_add A
    have hroomA : Room A [] := by
      rw [Room, List.append_nil, growth, total]
      omega
    have htail : ((p : ℤ) - n) % 2 ^ 32 = tailOffset A := by
      rw [← hn] at hoff
      omega
    have hlen : (((total (A ++ (D ++ [])) : ℤ) - (bytes D).length + 0) % 2 ^ 32).toNat = total A := by
      rw [htotal, total, bytes_nil, List.length_nil]
      omega
    have hcut : ziplistResize fresh (layout (total (A ++ D)) (tailOffset A) c (bytes A ++ (bytes D ++ [ZIP_END]))) (total A) =
        some (layout (total A) (tailOffset A) c (bytes A ++ [ZIP_END])) :=
      ziplistResize_cut fresh _ _ _ _ (by simp) rfl (by rw [total]; omega)
    simp only [bytes_nil, List.nil_append, List.head?_cons, ne_eq, not_true_eq_false, if_false]
    rw [if_pos hroomA, hzl, setTailOffset_layout _ _ _ _ htail, ziplistBytes_layout hsmall, hlen, bytes_append, List.append_nil,
      List.append_assoc, hcut]
    simp only [hdecr]
    rw [joined, List.append_nil]
  | cons next rest =>
    have hnext := hvalidDB next (List.mem_append_right _ List.mem_cons_self)
    have hrest : ∀ e ∈ rest, e.Valid := fun e he => hvalidDB e (List.mem_append_right _ (List.mem_cons_of_mem _ he))
    obtain ⟨b, hb, hne⟩ := head_bytes hnext (bytes rest ++ [ZIP_END])
    rw [← List.append_assoc, ← bytes_cons] at hb
    obtain ⟨next', hnext'⟩ : ∃ next', next' = newEntry n next.body := ⟨_, rfl⟩
    have hvalid' : next'.Valid := by
      rw [hnext']
      exact ⟨hnlt, fun hlarge => not_le.mp (of_decide_eq_false hlarge), hnext.body⟩
    have hfits : next'.prev.length ≤ (bytes D).length + next.prev.length := hnext' ▸ length_prev_le n next hroom
    have hlens : (bytes (next' :: rest)).length + next.prev.length = (bytes (next :: rest)).length + next'.prev.length := by
      rw [bytes_cons, bytes_cons, List.length_append, List.length_append, Entry.bytes, Entry.bytes, List.length_append,
        List.length_append, show next'.body = next.body from hnext' ▸ rfl]
      omega
    have hpos : 0 < (bytes (next' :: rest)).length := by
      have := next'.length_prev
      rw [bytes_cons, List.length_append, Entry.bytes, List.length_append]
      split at this <;> omega
    have hlenAD : (bytes A ++ bytes D).length = (bytes A).length + (bytes D).length := List.length_append
    obtain ⟨y, hy, hmove⟩ := deleteMove_block c (bytes A) (bytes D) hnext hrest hnlt hroom hp rfl
      (by rw [hlenAD]; omega)
    have hblock : zl = block c (bytes A ++ bytes D) (next :: rest) := by
      rw [hzl, ← List.append_assoc, ← bytes_append, block_of_layout]
    obtain ⟨m, hm⟩ : ∃ m, m = ZIPLIST_HEADER_SIZE + (bytes A ++ bytes (next' :: rest)).length + 1 := ⟨_, rfl⟩
    have hlenx : (bytes A ++ bytes (next' :: rest)).length = (bytes A).length + (bytes (next' :: rest)).length := List.length_append
    rw [← hnext'] at hy hmove
    have hlen : (((ZIPLIST_HEADER_SIZE + (bytes A ++ bytes D).length + (bytes (next :: rest)).length + 1 : ℕ) : ℤ) - (bytes D).length +
        ((next'.prev.length : ℤ) - next.prev.length)) % 2 ^ 32 = (m : ℤ) := by
      rw [hlenAD]
      omega
    have hcut : ziplistResize fresh (layout (ZIPLIST_HEADER_SIZE + (bytes A ++ bytes D).length + (bytes (next :: rest)).length + 1)
        (ZIPLIST_HEADER_SIZE + (bytes A).length + (bytes (next' :: rest).dropLast).length) c (bytes A ++ bytes (next' :: rest) ++ y)) m =
        some (layout m (ZIPLIST_HEADER_SIZE + (bytes A).length + (bytes (next' :: rest).dropLast).length) c
          (bytes A ++ bytes (next' :: rest) ++ [ZIP_END])) :=
      ziplistResize_cut fresh _ _ _ _ (by omega) hm (by omega)
    have hafter : layout m (ZIPLIST_HEADER_SIZE + (bytes A).length + (bytes (next' :: rest).dropLast).length) c'
        (bytes A ++ bytes (next' :: rest) ++ [ZIP_END]) = block c' (bytes A) (next' :: rest) := by
      rw [block, hm, hlenx, List.append_assoc, ← Nat.add_assoc]
    simp only [hb, ne_eq, hne, not_false_eq_true, if_true, hblock, hmove]
    rw [ziplistBytes_layout (by rw [hlenAD]; omega), hlen, Int.toNat_natCast, hcut]
    rw [← hDeq] at hchainedB
    obtain ⟨-, -, hnextchained⟩ := (chained_append D (next :: rest) n).mp hchainedB
    have hend := cascade_joined fresh c' hn hnlt hnext hrest hnextchained
      (by rw [total, bytes_append, List.length_append]; omega)
      (by rw [← hnext', total, bytes_append, List.length_append]; omega)
    rw [← hnext', ← hp] at hend
    simp only [hdecr, hafter]
    rw [hend]
    obtain ⟨e, es, hcons⟩ : ∃ e es, joined n (next :: rest) = e :: es := by
      rw [joined]
      split
      · exact ⟨_, _, rfl⟩
      · exact ⟨_, _, rfl⟩
    rw [hcons, block_of_layout]

/-! ### Indices -/

theorem indexForward_spec (es : List Entry) : ∀ {p i : ℕ}, (∀ e ∈ es, e.Valid) → (bytes es).length < 2 ^ 32 →
    zl.drop p = bytes es ++ [ZIP_END] → i < es.length → indexForward zl p i = some (p + (bytes (es.take i)).length, 0) := by
  induction es with
  | nil => exact fun _ _ _ hi => absurd hi (Nat.not_lt_zero _)
  | cons e es ih =>
    intro p i hes hlt hdrop hi
    have he := hes e List.mem_cons_self
    have hsize : e.bytes.length = e.size := rfl
    rw [bytes_cons, List.length_append] at hlt
    rw [bytes_cons, List.append_assoc] at hdrop
    obtain ⟨b, hb, hne⟩ := head_bytes he (bytes es ++ [ZIP_END])
    cases i with
    | zero =>
      simp only [indexForward, hdrop, hb, if_neg hne, bind, Option.bind]
      rfl
    | succ i =>
      have hlen := zipRawEntryLength_bytes he (by omega) (bytes es ++ [ZIP_END])
      have hnext : zl.drop (p + e.size) = bytes es ++ [ZIP_END] := by rw [← List.drop_drop, hdrop, Entry.size, List.drop_left]
      have hrest := ih (fun e he => hes e (List.mem_cons_of_mem _ he)) (by omega) hnext (Nat.lt_of_succ_lt_succ hi)
      simp only [indexForward, hdrop, hb, if_neg hne, hlen, hrest, bind, Option.bind]
      rw [List.take_succ_cons, bytes_cons, List.length_append, Nat.add_assoc, Entry.size]

variable {i : ℕ}

theorem drop_getElem {es : List Entry} (hi : i < es.length) : ∃ e, e ∈ es ∧ es.drop i = e :: es.drop (i + 1) :=
  ⟨es[i], List.getElem_mem hi, List.drop_eq_getElem_cons hi⟩

/-- Each entry says how long the one before it is, and begins that far behind it. -/
theorem decode_place {es : List Entry} (h : WellFormed zl es) (hi : i < es.length) :
    (∃ n, zipDecodePrevlen (zl.drop (place es i)) = some (n, lastSize 0 (es.take i))) ∧
      place es (i + 1) = place es i + lastSize 0 (es.take (i + 1)) ∧ 0 < lastSize 0 (es.take (i + 1)) := by
  obtain ⟨e, he, hdrop⟩ := drop_getElem hi
  have htake : es.take (i + 1) = es.take i ++ [e] := by
    have hsplit := List.take_add (l := es) (i := i) (j := 1)
    rw [hsplit, hdrop]
    rfl
  have hchained := h.chained
  rw [← List.take_append_drop i es, chained_append, hdrop] at hchained
  obtain ⟨-, hprevlen, -⟩ := hchained
  refine ⟨⟨e.prev.length, ?_⟩, ?_, ?_⟩
  · rw [drop_place h i, hdrop, bytes_cons, List.append_assoc, Entry.bytes, List.append_assoc,
      zipDecodePrevlen_prev (h.valid e he), hprevlen]
  · rw [place, place, htake, lastSize, List.getLast?_concat, bytes_append, bytes_cons, bytes_nil, List.append_nil,
      List.length_append, Nat.add_assoc]
    rfl
  · rw [htake, lastSize, List.getLast?_concat]
    show 0 < e.size
    rw [Entry.size_eq]
    split <;> omega

theorem indexBack_spec {es : List Entry} (h : WellFormed zl es) (k : ℕ) : ∀ {j : ℕ}, j < es.length → k ≤ j →
    indexBack zl (place es j) (lastSize 0 (es.take j)) k = some (place es (j - k), 0) := by
  induction k with
  | zero =>
    intro j _ _
    rw [indexBack]
    split
    · rfl
    · rfl
  | succ k ih =>
    intro j hj hk
    obtain ⟨j, rfl⟩ : ∃ m, j = m + 1 := ⟨j - 1, by omega⟩
    obtain ⟨⟨n, hdec⟩, hplace, hpos⟩ := decode_place h (show j < es.length by omega)
    have hback := ih (show j < es.length by omega) (by omega)
    have hsub : place es (j + 1) - lastSize 0 (es.take (j + 1)) = place es j := by omega
    rw [indexBack, if_pos hpos]
    simp only [hsub, if_neg (show ¬ place es (j + 1) < lastSize 0 (es.take (j + 1)) by omega), hdec, bind, Option.bind]
    rw [hback, Nat.add_sub_add_right]

/-- An index in the range, from the head or from the tail, gives the place of its entry. -/
theorem ziplistIndex_place {es : List Entry} (h : WellFormed zl es) (hi : i < es.length) {index : ℤ}
    (hindex : index = i ∨ index = (i : ℤ) - es.length) : ziplistIndex zl index = some (some (place es i)) := by
  obtain ⟨c, -, -, hzl⟩ := h.layout
  have hsmall := h.small
  have hhead : ∀ j, j < es.length → ∃ b, (zl.drop (place es j)).head? = some b ∧ b ≠ ZIP_END := by
    intro j hj
    obtain ⟨e, he, hdrop⟩ := drop_getElem hj
    obtain ⟨b, hb, hne⟩ := head_bytes (h.valid e he) (bytes (es.drop (j + 1)) ++ [ZIP_END])
    refine ⟨b, ?_, hne⟩
    rw [drop_place h j, hdrop, bytes_cons, List.append_assoc, hb]
  obtain ⟨b, hb, hne⟩ := hhead i hi
  rcases hindex with rfl | rfl
  · have hdrop : zl.drop ZIPLIST_HEADER_SIZE = bytes es ++ [ZIP_END] := drop_place h 0
    rw [total] at hsmall
    have hforward := indexForward_spec es h.valid (by omega) hdrop hi
    rw [← place] at hforward
    simp only [ziplistIndex, if_neg (show ¬ (i : ℤ) < 0 by omega), Int.toNat_natCast, hforward, hb, hne, bind, Option.bind]
    rfl
  · have htail : ziplistTailOffset zl = place es (es.length - 1) := by
      have hle := length_dropLast_le es
      rw [hzl, ziplistTailOffset_layout _ (by rw [tailOffset]; rw [total] at hsmall; omega), tailOffset, place, List.dropLast_eq_take]
    obtain ⟨b', hb', hne'⟩ := hhead (es.length - 1) (by omega)
    obtain ⟨⟨n, hdec⟩, -, -⟩ := decode_place h (show es.length - 1 < es.length by omega)
    have hcount : (-((i : ℤ) - es.length) - 1).toNat = es.length - 1 - i := by omega
    have hback := indexBack_spec h (es.length - 1 - i) (show es.length - 1 < es.length by omega) (by omega)
    rw [show es.length - 1 - (es.length - 1 - i) = i by omega] at hback
    simp only [ziplistIndex, if_pos (show (i : ℤ) - es.length < 0 by omega), htail, hb', ne_eq, hne', not_false_eq_true, if_true, hdec,
      hcount, hback, hb, hne, bind, Option.bind]
    rfl

/-! ### The entries that stay -/

section Joined

variable {n : ℕ} {es : List Entry}

theorem chained_joined {m : ℕ} (h : Chained m es) : Chained n (joined n es) := by
  cases es with
  | nil => trivial
  | cons next rest =>
    obtain ⟨-, hrest⟩ := h
    rw [joined]
    split
    · rename_i hl
      refine ⟨rfl, ?_⟩
      have hsize : (newEntry n next.body).size = next.size := by
        rw [Entry.size_eq, Entry.size_eq, hl]
        rfl
      rw [hsize]
      exact hrest
    · exact ⟨rfl, chained_cascade rest _ _ hrest⟩

theorem text_joined : (joined n es).map Entry.text = es.map Entry.text := by
  cases es with
  | nil => rfl
  | cons next rest =>
    rw [joined]
    split
    · rfl
    · rw [List.map_cons, List.map_cons, text_cascade]
      rfl

theorem length_joined : (joined n es).length = es.length := by
  cases es with
  | nil => rfl
  | cons next rest =>
    rw [joined]
    split
    · rfl
    · rw [List.length_cons, List.length_cons, (length_cascade rest _).1]

theorem valid_joined (hes : ∀ e ∈ es, e.Valid) (hn : n < 2 ^ 32) (hlt : (bytes (joined n es)).length < 2 ^ 32) :
    ∀ e ∈ joined n es, e.Valid := by
  cases es with
  | nil => exact fun e he => absurd he List.not_mem_nil
  | cons next rest =>
    have hnext : (newEntry n next.body).Valid :=
      ⟨hn, fun hlarge => not_le.mp (of_decide_eq_false hlarge), (hes next List.mem_cons_self).body⟩
    have hrest : ∀ e ∈ rest, e.Valid := fun e he => hes e (List.mem_cons_of_mem _ he)
    intro e he
    rw [joined] at he hlt
    split at he
    · rcases List.mem_cons.mp he with rfl | he
      · exact hnext
      · exact hrest e he
    · rename_i hl
      rw [if_neg hl, bytes_cons, List.length_append] at hlt
      rcases List.mem_cons.mp he with rfl | he
      · exact hnext
      · refine valid_cascade rest hrest ?_ (by omega) e he
        rw [Entry.size]
        omega

/-- What the entries take is not more than was counted. -/
theorem length_joined_le {m : ℕ} (hes : ∀ e ∈ es, e.Valid) (hchained : Chained m es) :
    (bytes (joined n es)).length ≤ (bytes es).length + 4 * growth n es := by
  cases es with
  | nil => exact le_rfl
  | cons next rest =>
    have hnext := hes next List.mem_cons_self
    have hsize : ∀ e : Entry, e.bytes.length = e.size := fun _ => rfl
    rw [joined]
    split
    · rename_i hl
      have heq : (newEntry n next.body).size = next.size := by
        rw [Entry.size_eq, Entry.size_eq, hl]
        rfl
      rw [bytes_cons, bytes_cons, List.length_append, List.length_append, hsize, hsize, heq]
      omega
    · rename_i hl
      rw [bytes_cons, bytes_cons, List.length_append, List.length_append, length_bytes_cascade, hsize, hsize]
      rcases growth_joined hnext (fun e he => hes e (List.mem_cons_of_mem _ he)) hchained.2 hl with ⟨h1, h2⟩ | ⟨h1, h2, h3⟩
      · omega
      · omega

end Joined

/-! ### Deletion is exact -/

/-- The ziplist after `num` entries from `i` on are deleted. -/
structure Deleted (zl zl' : Sds) (i num : ℕ) : Prop where
  wellFormed : ∃ es', WellFormed zl' es' ∧ ziplistLength zl' = if ziplistLength zl < UINT16_MAX then es'.length else UINT16_MAX
  strings : ∃ l, ziplistStrings zl = some l ∧ ziplistStrings zl' = some (l.take i ++ l.drop (i + num))

/-- The length before the entry that stays is written to bytes that are deleted or that it was in. -/
def StoresInside (zl : Sds) (es : List Entry) (i num : ℕ) : Prop :=
  ∀ next rest, 0 < num → es.drop (i + num) = next :: rest → ∃ nextdiff q stored,
    prevlenStore zl (place es (i + num)) (lastSize 0 (es.take i)) = some (nextdiff, q, stored) ∧
      place es i ≤ q ∧ q + stored.length = place es (i + num) + next.prev.length

theorem ziplistLength_wellFormed {es : List Entry} (h : WellFormed zl es) :
    ∃ c, ziplistLength zl = c ∧ c ≤ UINT16_MAX ∧ (c < UINT16_MAX → c = es.length) ∧
      zl = layout (total es) (tailOffset es) c (bytes es ++ [ZIP_END]) := by
  obtain ⟨c, hc, hcmax, hzl⟩ := h.layout
  refine ⟨c, ?_, hcmax, fun hlt => hc.resolve_right (by omega), hzl⟩
  rw [hzl]
  exact ziplistLength_layout _ _ hcmax _

theorem storesInside_wellFormed {es : List Entry} (h : WellFormed zl es) {i num : ℕ} : StoresInside zl es i num := by
  intro next rest hnum hrest
  have hes : es = es.take i ++ es.drop i := (List.take_append_drop i es).symm
  have hchained := h.chained
  have hdrop : zl.drop (place es (i + num)) = next.bytes ++ (bytes rest ++ [ZIP_END]) := by
    rw [drop_place h, hrest, bytes_cons, List.append_assoc]
  have hnext : next.Valid := h.valid next (List.mem_of_mem_drop (hrest ▸ List.mem_cons_self))
  have hi : i + num < es.length := by
    by_contra hge
    rw [List.drop_eq_nil_of_le (not_lt.mp hge)] at hrest
    cases hrest
  obtain ⟨d, hd, hdropi⟩ := drop_getElem (show i < es.length by omega)
  rw [hes, chained_append, hdropi] at hchained
  obtain ⟨-, hprevlen, -⟩ := hchained
  have hplace : place es (i + num) = place es i + (bytes ((es.drop i).take num)).length := by
    rw [place, place, List.take_add, bytes_append, List.length_append, Nat.add_assoc]
  obtain ⟨num, rfl⟩ : ∃ m, num = m + 1 := ⟨num - 1, by omega⟩
  have hlen : d.prev.length ≤ (bytes ((es.drop i).take (num + 1))).length := by
    rw [hdropi, List.take_succ_cons, bytes_cons, List.length_append, Entry.bytes, List.length_append]
    omega
  have hvalid := h.valid d hd
  have hroom : lastSize 0 (es.take i) < ZIP_BIG_PREVLEN ∨ 4 ≤ place es (i + (num + 1)) - place es i := by
    rw [← hprevlen]
    by_cases hsmall : d.prevlen < ZIP_BIG_PREVLEN
    · exact .inl hsmall
    · have hl : d.large = true := Bool.eq_true_of_not_eq_false fun hl => hsmall (hvalid.small hl)
      rw [d.length_prev, hl, if_pos rfl] at hlen
      exact .inr (by omega)
  obtain ⟨q, hstore, hq⟩ := prevlenStore_bytes (hprevlen ▸ hvalid.prevlen) hnext hdrop (hroom.imp_right fun h => by omega)
  have hle := length_prev_le _ next hroom
  exact ⟨_, q, _, hstore, by omega, hq⟩

theorem ziplistDelete_zero (fresh : ℕ → Fin 256) {es : List Entry} (h : WellFormed zl es) (hi : i < es.length) :
    ziplistDelete fresh zl (place es i) 0 = some zl := by
  obtain ⟨e, he, hdrop⟩ := drop_getElem hi
  have hat : zl.drop (place es i) = e.bytes ++ (bytes (es.drop (i + 1)) ++ [ZIP_END]) := by
    rw [drop_place h i, hdrop, bytes_cons, List.append_assoc]
  obtain ⟨x, hx, -⟩ := zipEntry_bytes (h.valid e he) (bytes (es.drop (i + 1)) ++ [ZIP_END])
  obtain ⟨b, hb, -⟩ := head_bytes (h.valid e he) (bytes (es.drop (i + 1)) ++ [ZIP_END])
  have hzero : ¬ 0 < uint 0 := by decide
  simp only [ziplistDelete, skipEntries, hat, hx, hb, bind, Option.bind, Nat.sub_self, gt_iff_lt, if_neg hzero]

/-- What the deletion of at least one entry gives. -/
theorem ziplistDelete_succ (fresh : ℕ → Fin 256) {es : List Entry} (h : WellFormed zl es) (hi : i < es.length)
    {num : ℕ} (hnum : 0 < num) :
    (Room (es.take i) (es.drop (i + num)) → ∃ zl', ziplistDelete fresh zl (place es i) num = some zl' ∧ Deleted zl zl' i num) ∧
      (¬ Room (es.take i) (es.drop (i + num)) → ziplistDelete fresh zl (place es i) num = none) := by
  obtain ⟨c, hlength, hcmax, hcount, hzl⟩ := ziplistLength_wellFormed h
  obtain ⟨l, hl, htexts⟩ := ziplistStrings_wellFormed h
  obtain ⟨A, hA⟩ : ∃ A, A = es.take i := ⟨_, rfl⟩
  obtain ⟨D, hDeq⟩ : ∃ D, D = (es.drop i).take num := ⟨_, rfl⟩
  obtain ⟨B, hB⟩ : ∃ B, B = es.drop (i + num) := ⟨_, rfl⟩
  have hDB : D ++ B = es.drop i := by rw [hDeq, hB, ← List.drop_drop, List.take_append_drop]
  have hes : A ++ (D ++ B) = es := by rw [hA, hDB, List.take_append_drop]
  have hD : D ≠ [] := by
    intro hnil
    have hlen := congrArg List.length hDeq
    rw [hnil, List.length_take, List.length_drop, List.length_nil] at hlen
    omega
  have hrun := @ziplistDelete_layout fresh A D B (hes.symm ▸ h.valid) (hes.symm ▸ h.chained)
      (hes.symm ▸ h.small) _ hcmax (hes.symm ▸ hcount) hD num (by rw [hDB, hDeq])
  rw [hes, ← hzl, hA, ← place, ← hA] at hrun
  rw [← hA, ← hB, hrun]
  refine ⟨fun hroom => ?_, fun hroom => if_neg hroom⟩
  · rw [if_pos hroom]
    refine ⟨_, rfl, ?_⟩
    have hvalid : ∀ e ∈ A ++ (D ++ B), e.Valid := hes.symm ▸ h.valid
    have hchained : Chained 0 (A ++ (D ++ B)) := hes.symm ▸ h.chained
    rw [chained_append, chained_append] at hchained
    obtain ⟨hchainedA, -, hchainedB⟩ := hchained
    have hvalidB : ∀ e ∈ B, e.Valid := fun e he => hvalid e (List.mem_append_right _ (List.mem_append_right _ he))
    have hle := length_joined_le (n := lastSize 0 A) hvalidB hchainedB
    have hlast := lastSize_le 0 A
    have hlt : total (A ++ joined (lastSize 0 A) B) < 2 ^ 32 := by
      rw [Room, total, bytes_append, List.length_append] at hroom
      rw [total, bytes_append, List.length_append]
      omega
    have hparts := hlt
    rw [total, bytes_append, List.length_append] at hparts
    obtain ⟨c', hc'⟩ : ∃ c', c' = if c < UINT16_MAX then c - D.length else c := ⟨_, rfl⟩
    have hlens : es.length = A.length + (D.length + B.length) := by rw [← hes, List.length_append, List.length_append]
    have hc'eq : c' = if c < UINT16_MAX then (A ++ joined (lastSize 0 A) B).length else UINT16_MAX := by
      rw [hc', List.length_append, length_joined]
      split
      · rename_i hclt
        have := hcount hclt
        omega
      · omega
    have hwell : WellFormed (layout (total (A ++ joined (lastSize 0 A) B)) (tailOffset (A ++ joined (lastSize 0 A) B)) c'
        (bytes (A ++ joined (lastSize 0 A) B) ++ [ZIP_END])) (A ++ joined (lastSize 0 A) B) := by
      refine ⟨fun e he => ?_, ?_, hlt, c', ?_, ?_, rfl⟩
      · rcases List.mem_append.mp he with he | he
        · exact hvalid e (List.mem_append_left _ he)
        · exact valid_joined hvalidB (by omega) (by omega) e he
      · exact (chained_append _ _ 0).mpr ⟨hchainedA, chained_joined hchainedB⟩
      · rw [hc'eq]
        split
        · exact .inl rfl
        · exact .inr rfl
      · rw [hc']
        split <;> omega
    rw [← hc']
    obtain ⟨l', hl', htexts'⟩ := ziplistStrings_wellFormed hwell
    refine ⟨⟨_, hwell, ?_⟩, l, hl, hl'.trans (congrArg some ?_)⟩
    · rw [ziplistLength_layout _ _ (by rw [hc']; split <;> omega), hc'eq, hlength]
    · apply List.map_injective_iff.mpr (Option.some_injective _)
      rw [← htexts', List.map_append, text_joined, List.map_append, List.map_take, List.map_drop, ← htexts, hA, hB, List.map_take,
        List.map_drop]

/-- **A deletion is exact, if there is room for what stays.** The entries are removed and the ziplist is
well formed; the length that is written anew stays inside. The lengths behind it may have to grow,
though, and where they come to `2^32` bytes the deletion fails. -/
theorem ziplistDelete_exact (fresh : ℕ → Fin 256) {zl : Sds} {es : List Entry} (h : WellFormed zl es) {i : ℕ} (hi : i < es.length)
    (num : ℕ) {index : ℤ} (hindex : index = i ∨ index = (i : ℤ) - es.length) :
    (∃ zl', ziplistDelete fresh zl (place es i) num = some zl' ∧ ziplistDeleteRange fresh zl index num = some zl' ∧
      Deleted zl zl' i num ∧ StoresInside zl es i num) ↔ Room (es.take i) (es.drop (i + num)) := by
  have hat := ziplistIndex_place h hi hindex
  have hrange : ziplistDeleteRange fresh zl index num = ziplistDelete fresh zl (place es i) num := by
    simp only [ziplistDeleteRange, hat, bind, Option.bind]
  rw [hrange]
  rcases Nat.eq_zero_or_pos num with rfl | hnum
  · have hzero := ziplistDelete_zero fresh h hi
    obtain ⟨c, hlength, hcmax, hcount, -⟩ := ziplistLength_wellFormed h
    obtain ⟨l, hl, -⟩ := ziplistStrings_wellFormed h
    have hchained := h.chained
    rw [← List.take_append_drop i es, chained_append] at hchained
    have hroom : Room (es.take i) (es.drop (i + 0)) := by
      rw [Room, Nat.add_zero, List.take_append_drop, growth_chained hchained.2]
      exact h.small
    refine ⟨fun _ => hroom, fun _ => ⟨zl, hzero, hzero, ⟨⟨es, h, ?_⟩, l, hl, ?_⟩, storesInside_wellFormed h⟩⟩
    · rw [hlength]
      split
      · exact hcount ‹_›
      · omega
    · rw [Nat.add_zero, List.take_append_drop, hl]
  · have hsucc := ziplistDelete_succ fresh h hi hnum
    by_cases hroom : Room (es.take i) (es.drop (i + num))
    · obtain ⟨zl', hrun, hdeleted⟩ := hsucc.1 hroom
      exact ⟨fun _ => hroom, fun _ => ⟨zl', hrun, hrun, hdeleted, storesInside_wellFormed h⟩⟩
    · constructor
      · rintro ⟨zl', hrun, -⟩
        rw [hsucc.2 hroom] at hrun
        cases hrun
      · exact fun h => absurd h hroom

/-- The first of two entries is deleted, counted from the tail. -/
theorem ziplistDelete_exact_two :
    (∃ zl', ziplistDelete (fun _ => 0) [16, 0, 0, 0, 13, 0, 0, 0, 2, 0, 0, 1, 97, 3, 253, 255] (place two 0) 1 = some zl' ∧
      ziplistDeleteRange (fun _ => 0) [16, 0, 0, 0, 13, 0, 0, 0, 2, 0, 0, 1, 97, 3, 253, 255] (-2) 1 = some zl' ∧
      Deleted [16, 0, 0, 0, 13, 0, 0, 0, 2, 0, 0, 1, 97, 3, 253, 255] zl' 0 1 ∧
      StoresInside [16, 0, 0, 0, 13, 0, 0, 0, 2, 0, 0, 1, 97, 3, 253, 255] two 0 1) ↔ Room (two.take 0) (two.drop (0 + 1)) :=
  ziplistDelete_exact (fun _ => 0) two_wellFormed (by decide) 1 (.inr (by decide))

/-! ### A ziplist without room -/

/-- An entry of 253 bytes behind one of `prevlen`. -/
def tight (prevlen : ℕ) : Entry := ⟨false, prevlen, 64 :: 250 :: List.replicate 250 98⟩

/-- An entry of 303 bytes. -/
def long : Entry := ⟨false, 0, 65 :: 44 :: List.replicate 300 98⟩

/-- A long entry, a short one, and entries that grow as soon as they are behind one that is not shorter than 254 bytes. -/
def packed (n : ℕ) : List Entry :=
  long :: ⟨true, 303, [1, 97]⟩ :: tight 7 :: List.replicate n (tight 253)

theorem tight_valid {prevlen : ℕ} (h : prevlen < ZIP_BIG_PREVLEN) : (tight prevlen).Valid := by
  have hbig : ZIP_BIG_PREVLEN = 254 := rfl
  refine ⟨?_, fun _ => h, ZIP_STR_14B, 2, 250, rfl, ?_⟩
  · show prevlen < 2 ^ 32
    omega
  · rw [tight, List.length_cons, List.length_cons, List.length_replicate]

theorem size_tight (prevlen : ℕ) : (tight prevlen).size = 253 := by
  rw [Entry.size_eq, tight, List.length_cons, List.length_cons, List.length_replicate, if_neg Bool.false_ne_true]

theorem size_long : long.size = 303 := by
  rw [Entry.size_eq, long, List.length_cons, List.length_cons, List.length_replicate, if_neg (by decide)]

theorem length_bytes_replicate (n : ℕ) (e : Entry) : (bytes (List.replicate n e)).length = n * e.size := by
  induction n with
  | zero => simp
  | succ n ih =>
    rw [List.replicate_succ, bytes_cons, List.length_append, ih, Entry.size]
    ring

theorem chained_replicate (n : ℕ) : Chained 253 (List.replicate n (tight 253)) := by
  induction n with
  | zero => trivial
  | succ n ih =>
    rw [List.replicate_succ]
    refine ⟨rfl, ?_⟩
    rw [size_tight]
    exact ih

theorem growth_replicate (n : ℕ) : ∀ {m : ℕ}, ZIP_BIG_PREVLEN ≤ m → growth m (List.replicate n (tight 253)) = n := by
  have hbig : ZIP_BIG_PREVLEN = 254 := rfl
  induction n with
  | zero => exact fun _ => rfl
  | succ n ih =>
    intro m hm
    have hne : (tight 253).prevlen ≠ m := by
      show 253 ≠ m
      omega
    rw [List.replicate_succ, growth, if_pos ⟨hne, rfl, hm⟩, ih (by rw [size_tight]; omega)]

theorem total_packed (n : ℕ) : total (packed n) = 574 + 253 * n := by
  have h1 := size_long
  have h2 : Entry.size ⟨true, 303, [1, 97]⟩ = 7 := rfl
  have h3 := size_tight 7
  have hten : ZIPLIST_HEADER_SIZE = 10 := rfl
  rw [Entry.size] at h1 h2 h3
  rw [total, packed, bytes_cons, bytes_cons, bytes_cons, List.length_append, List.length_append, List.length_append, h1, h2, h3,
    length_bytes_replicate, size_tight]
  omega

theorem packed_valid {e : Entry} (he : e ∈ packed n) : e.Valid := by
  rcases List.mem_cons.mp he with rfl | he
  · exact ⟨by decide, fun _ => (by decide : (0 : ℕ) < ZIP_BIG_PREVLEN), ZIP_STR_14B, 2, 300, rfl, by
      rw [long, List.length_cons, List.length_cons, List.length_replicate]⟩
  · rcases List.mem_cons.mp he with rfl | he
    · exact ⟨(by decide : 303 < 2 ^ 32), nofun, ZIP_STR_06B, 1, 1, rfl, rfl⟩
    · rcases List.mem_cons.mp he with rfl | he
      · exact tight_valid (by decide)
      · rw [List.eq_of_mem_replicate he]
        exact tight_valid (by decide)

theorem packed_wellFormed (hn : 574 + 253 * n < 2 ^ 32) :
    WellFormed (layout (total (packed n)) (tailOffset (packed n)) UINT16_MAX (bytes (packed n) ++ [ZIP_END])) (packed n) := by
  refine ⟨fun e he => packed_valid he, ⟨rfl, size_long.symm, rfl, ?_⟩, by rw [total_packed]; exact hn, UINT16_MAX, .inr rfl, le_rfl, rfl⟩
  rw [size_tight]
  exact chained_replicate n

theorem growth_long (n : ℕ) : growth long.size (tight 7 :: List.replicate n (tight 253)) = n + 1 := by
  rw [size_long, growth, if_pos ⟨(by decide : (7 : ℕ) ≠ 303), rfl, (by decide : ZIP_BIG_PREVLEN ≤ 303)⟩,
    growth_replicate n (by rw [size_tight]; decide)]

theorem total_long (n : ℕ) : total (long :: tight 7 :: List.replicate n (tight 253)) = 567 + 253 * n := by
  have hsum := total_packed n
  rw [total, packed, bytes_cons, bytes_cons, List.length_append, List.length_append] at hsum
  have h2 : (Entry.bytes ⟨true, 303, [1, 97]⟩).length = 7 := rfl
  rw [total, bytes_cons, List.length_append]
  omega

theorem packed_full (hn : 2 ^ 32 - 571 ≤ 257 * n) : ¬ Room ((packed n).take 1) ((packed n).drop (1 + 1)) := by
  show ¬ total (long :: tight 7 :: List.replicate n (tight 253)) + 4 * growth long.size (tight 7 :: List.replicate n (tight 253)) < 2 ^ 32
  rw [total_long, growth_long]
  omega

theorem packed_overflow (fresh : ℕ → Fin 256) (hn : 574 + 253 * n < 2 ^ 32) (hfull : 2 ^ 32 - 571 ≤ 257 * n) :
    ¬ ∃ zl', ziplistDelete fresh (layout (total (packed n)) (tailOffset (packed n)) UINT16_MAX (bytes (packed n) ++ [ZIP_END]))
      (place (packed n) 1) 1 = some zl' := by
  have hi : 1 < (packed n).length := by
    rw [packed, List.length_cons, List.length_cons]
    omega
  have hwell := packed_wellFormed hn
  rintro ⟨zl', hrun⟩
  rw [(ziplistDelete_succ fresh hwell hi Nat.one_pos).2 (packed_full hfull)] at hrun
  cases hrun

/-- Entries for four gigabytes, of which the second is deleted: those behind it grow, and the block does not. -/
theorem ziplistDelete_overflow :
    WellFormed (layout (total (packed 16974000)) (tailOffset (packed 16974000)) UINT16_MAX (bytes (packed 16974000) ++ [ZIP_END]))
        (packed 16974000) ∧
      ¬ ∃ zl', ziplistDelete (fun _ => 0) (layout (total (packed 16974000)) (tailOffset (packed 16974000)) UINT16_MAX
        (bytes (packed 16974000) ++ [ZIP_END])) (place (packed 16974000) 1) 1 = some zl' :=
  ⟨packed_wellFormed (by norm_num), packed_overflow (fun _ => 0) (by norm_num) (by norm_num)⟩

end RedisZk.Ziplist
