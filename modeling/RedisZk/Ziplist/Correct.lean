/-
# Insertion keeps a ziplist well formed

What is inserted is an entry that says how long the one before it is. The next entry is made to
say how long the new one is: it grows if it has to, it shrinks if the new entry is long enough to
make up for it, and the entries behind it follow where its length has changed. The bytes are
those of these entries, and decoding them gives the strings as before, with the new one among
them.

Key definitions: `follow`, `inserted`, `ziplistStrings`.
Key theorems: `insertMove_block`, `room_next`, `put_entry`, `ziplistInsert_wellFormed`.
-/
import RedisZk.Ziplist.Cascade

namespace RedisZk.Ziplist

open Streams (Sds)
open Endian (little ofLittle)
open Memory (put memmove)

/-! ### The entries -/

/-- The size of the last entry, or `n`. -/
def lastSize (n : ℕ) (es : List Entry) : ℕ := (es.getLast?.map Entry.size).getD n

theorem chained_append (es es' : List Entry) : ∀ n, Chained n (es ++ es') ↔ Chained n es ∧ Chained (lastSize n es) es' := by
  induction es with
  | nil =>
    intro n
    show Chained n es' ↔ True ∧ Chained n es'
    rw [true_and]
  | cons e es ih =>
    intro n
    have hlast : lastSize n (e :: es) = lastSize e.size es := by
      rw [lastSize, lastSize, List.getLast?_cons]
      cases es.getLast? <;> rfl
    rw [List.cons_append, Chained, Chained, ih, hlast, and_assoc]

/-- The entry with a payload, as it is written behind one of the size `prevlen`. -/
def newEntry (prevlen : ℕ) (body : Sds) : Entry := ⟨decide (ZIP_BIG_PREVLEN ≤ prevlen), prevlen, body⟩

/-- The next entry, behind the new one. -/
def nextEntry (new next : Entry) : Entry :=
  { next with
    large := if new.size < ZIP_BIG_PREVLEN then next.large && decide (new.size < 4) else true
    prevlen := new.size }

/-- The entries behind the new one. -/
def follow (new : Entry) : List Entry → List Entry
  | [] => []
  | next :: rest =>
    if (nextEntry new next).large = next.large then nextEntry new next :: rest
    else nextEntry new next :: cascade (nextEntry new next) rest

/-- The entries after `s` is inserted before the one at `i`. -/
def inserted (es : List Entry) (i : ℕ) (s : Sds) : List Entry :=
  let new := newEntry (lastSize 0 (es.take i)) (((zipEncode s).map fun r => r.1 ++ r.2).getD [])
  es.take i ++ new :: follow new (es.drop i)

variable {new next : Entry}

theorem size_nextEntry_eq (h : (nextEntry new next).large = next.large) :
    (nextEntry new next).size = next.size := by
  rw [Entry.size_eq, Entry.size_eq, h]
  rfl

variable {es : List Entry}

theorem chained_follow (new : Entry) {n : ℕ} (h : Chained n es) : Chained new.size (follow new es) := by
  cases es with
  | nil => trivial
  | cons next rest =>
    obtain ⟨-, hrest⟩ := h
    rw [follow]
    split
    · rename_i hl
      refine ⟨rfl, ?_⟩
      rw [size_nextEntry_eq hl]
      exact hrest
    · exact ⟨rfl, chained_cascade rest _ _ hrest⟩

theorem text_follow (new : Entry) (es : List Entry) : (follow new es).map Entry.text = es.map Entry.text := by
  cases es with
  | nil => rfl
  | cons next rest =>
    rw [follow]
    split
    · rfl
    · rw [List.map_cons, List.map_cons, text_cascade]
      rfl

theorem length_follow (new : Entry) (es : List Entry) : (follow new es).length = es.length := by
  cases es with
  | nil => rfl
  | cons next rest =>
    rw [follow]
    split
    · rfl
    · rw [List.length_cons, List.length_cons, (length_cascade rest _).1]

theorem valid_nextEntry (hnext : next.Valid) (hnew : new.size < 2 ^ 32) : (nextEntry new next).Valid := by
  refine ⟨hnew, fun hs => ?_, hnext.body⟩
  show new.size < ZIP_BIG_PREVLEN
  by_contra h
  have hs : (if new.size < ZIP_BIG_PREVLEN then next.large && decide (new.size < 4) else true) = false := hs
  rw [if_neg h] at hs
  cases hs

theorem valid_follow {new : Entry} (hes : ∀ e ∈ es, e.Valid) (hnew : new.size < 2 ^ 32)
    (hlt : (bytes (follow new es)).length < 2 ^ 32) : ∀ e ∈ follow new es, e.Valid := by
  cases es with
  | nil => exact fun e he => absurd he List.not_mem_nil
  | cons next rest =>
    have hnext := valid_nextEntry (hes next List.mem_cons_self) hnew
    have hrest : ∀ e ∈ rest, e.Valid := fun e he => hes e (List.mem_cons_of_mem _ he)
    intro e he
    rw [follow] at he hlt
    split at he
    · rcases List.mem_cons.mp he with rfl | he
      · exact hnext
      · exact hrest e he
    · rename_i hl
      rw [if_neg hl, bytes_cons, List.length_append] at hlt
      rcases List.mem_cons.mp he with rfl | he
      · exact hnext
      · refine valid_cascade rest hrest ?_ (by omega) e he
        rw [Entry.size]
        omega

theorem lastSize_le (n : ℕ) (es : List Entry) : lastSize n es ≤ n + (bytes es).length := by
  induction es using List.reverseRecOn with
  | nil => exact Nat.le_add_right _ _
  | append_singleton es e _ =>
    have hsize : e.bytes.length = e.size := rfl
    rw [lastSize, List.getLast?_concat, bytes_append, bytes_cons, List.length_append, List.length_append, hsize]
    show e.size ≤ _
    omega

/-! ### The place -/

/-- A ziplist whose last entries are those from the place on. -/
theorem block_of_layout (c : ℕ) (es : List Entry) (next : Entry) (rest : List Entry) :
    layout (total (es ++ next :: rest)) (tailOffset (es ++ next :: rest)) c (bytes (es ++ next :: rest) ++ [ZIP_END]) =
      block c (bytes es) (next :: rest) := by
  have hlast : (es ++ next :: rest).dropLast = es ++ (next :: rest).dropLast := List.dropLast_append_of_ne_nil (by simp)
  rw [block, total, tailOffset, hlast, bytes_append, bytes_append]
  simp only [List.length_append, List.append_assoc, Nat.add_assoc]

theorem prevlenAt_block (c : ℕ) (pre : Sds) {next : Entry} (hnext : next.Valid) (rest : List Entry) :
    prevlenAt (block c pre (next :: rest)) (ZIPLIST_HEADER_SIZE + pre.length) = some next.prevlen := by
  obtain ⟨b, hb, hne⟩ := head_bytes hnext (bytes rest ++ [ZIP_END])
  have hdrop : (block c pre (next :: rest)).drop (ZIPLIST_HEADER_SIZE + pre.length) = next.bytes ++ (bytes rest ++ [ZIP_END]) := by
    rw [drop_block, bytes_cons, List.append_assoc]
  have hdec : zipDecodePrevlen (next.bytes ++ (bytes rest ++ [ZIP_END])) = some (next.prev.length, next.prevlen) := by
    rw [Entry.bytes, List.append_assoc]
    exact zipDecodePrevlen_prev hnext _
  simp only [prevlenAt, hdrop, hb, hdec, bind, Option.bind, ne_eq, hne, not_false_eq_true, if_true]

theorem prevlenAt_end (hes : ∀ e ∈ es, e.Valid) (c : ℕ) (hlt : total es < 2 ^ 32) :
    prevlenAt (layout (total es) (tailOffset es) c (bytes es ++ [ZIP_END])) (ZIPLIST_HEADER_SIZE + (bytes es).length) =
      some (lastSize 0 es) := by
  have hend : (layout (total es) (tailOffset es) c (bytes es ++ [ZIP_END])).drop (ZIPLIST_HEADER_SIZE + (bytes es).length) =
      [ZIP_END] := by rw [drop_layout, List.drop_left]
  have htail : tailOffset es < 2 ^ 32 := by
    have := length_dropLast_le es
    rw [total] at hlt
    rw [tailOffset]
    omega
  have hoff := ziplistTailOffset_layout (total es) htail c (bytes es ++ [ZIP_END])
  rw [prevlenAt, hend, hoff]
  simp only [List.head?_cons, bind, Option.bind, ne_eq, not_true_eq_false, if_false]
  induction es using List.reverseRecOn with
  | nil =>
    have hdrop : (layout (total []) (tailOffset []) c (bytes [] ++ [ZIP_END])).drop (tailOffset []) = [ZIP_END] :=
      drop_layout _ _ _ _ 0
    rw [hdrop]
    rfl
  | append_singleton es e _ =>
    have he := hes e (by simp)
    obtain ⟨b, hb, hne⟩ := head_bytes he [ZIP_END]
    have hdrop : (layout (total (es ++ [e])) (tailOffset (es ++ [e])) c (bytes (es ++ [e]) ++ [ZIP_END])).drop
        (tailOffset (es ++ [e])) = e.bytes ++ [ZIP_END] := by
      rw [tailOffset, List.dropLast_concat, drop_layout, bytes_append, List.append_assoc, List.drop_left, bytes_cons,
        bytes_nil, List.append_nil]
    have hsize : e.size < 2 ^ 32 := by
      rw [total, bytes_append, bytes_cons, List.length_append, List.length_append] at hlt
      rw [Entry.size]
      omega
    rw [hdrop, hb]
    simp only [hne, not_false_eq_true, if_true, zipRawEntryLength_bytes he hsize, lastSize, List.getLast?_concat, Option.map_some,
      Option.getD_some]

/-! ### Moving -/

/-- How many bytes more the next entry takes, and what is written for it. -/
theorem nextEntry_prev {new : Entry} (hnew : new.size < 2 ^ 32) (next : Entry) {diff : ℤ} {forcelarge : Bool}
    (hdiff : diff = ((zipStorePrevEntryLength new.size).length : ℤ) - next.prev.length)
    (hforce : forcelarge = decide (diff = -4 ∧ new.size < 4)) :
    (if forcelarge then 0 else diff) = ((nextEntry new next).prev.length : ℤ) - next.prev.length ∧
      (if forcelarge then zipStorePrevEntryLengthLarge new.size else zipStorePrevEntryLength new.size) =
        (nextEntry new next).prev := by
  have hstore := length_store hnew
  have hbig : ZIP_BIG_PREVLEN = 254 := rfl
  rw [next.length_prev] at hdiff ⊢
  rw [Entry.length_prev, Entry.prev]
  by_cases hsmall : new.size < ZIP_BIG_PREVLEN
  · rw [if_pos hsmall] at hstore
    have hone : zipStorePrevEntryLength new.size = [byte new.size] := by
      rw [zipStorePrevEntryLength, uint, Nat.mod_eq_of_lt hnew, if_pos hsmall]
    simp only [nextEntry, if_pos hsmall]
    cases hl : next.large with
    | false =>
      rw [hl, hstore] at hdiff
      have hf : forcelarge = false := by
        rw [hforce, hdiff]
        simp
      rw [hf]
      simp [hdiff, hone]
    | true =>
      rw [hl, hstore] at hdiff
      have hd : diff = -4 := hdiff
      by_cases h4 : new.size < 4
      · have hf : forcelarge = true := by
          rw [hforce]
          simp [hd, h4]
        rw [hf]
        simp [h4]
      · have hf : forcelarge = false := by
          rw [hforce]
          simp [h4]
        rw [hf]
        simp [hd, hone, h4]
  · rw [if_neg hsmall] at hstore
    have hlarge : zipStorePrevEntryLength new.size = zipStorePrevEntryLengthLarge new.size := by
      rw [zipStorePrevEntryLength, uint, Nat.mod_eq_of_lt hnew, if_neg hsmall]
    have hf : forcelarge = false := by
      rw [hforce]
      have h4 : ¬ new.size < 4 := by omega
      simp [h4]
    rw [hf, hdiff, hstore]
    simp [nextEntry, if_neg hsmall, hlarge]

/-- A next entry that shrinks leaves no more room than the new one takes. -/
theorem nextEntry_shrunk (h : (nextEntry new next).large = false) : next.large = false ∨ 4 ≤ new.size := by
  have h : (if new.size < ZIP_BIG_PREVLEN then next.large && decide (new.size < 4) else true) = false := h
  split at h
  · cases hl : next.large with
    | false => exact .inl rfl
    | true =>
      rw [hl, Bool.true_and] at h
      exact .inr (not_lt.mp (of_decide_eq_false h))
  · cases h

/-- The entries from the place on are moved, and the next of them says how long the new one is going
to be. -/
theorem insertMove_block (fresh : ℕ → Fin 256) (c : ℕ) (pre : Sds) (hnext : next.Valid)
    (hnew : new.size < 2 ^ 32) {rest : List Entry} (hrest : ∀ e ∈ rest, e.Valid) {curlen p : ℕ} {diff : ℤ} {forcelarge : Bool}
    (hcurlen : curlen = ZIPLIST_HEADER_SIZE + pre.length + (bytes (next :: rest)).length + 1)
    (hp : p = ZIPLIST_HEADER_SIZE + pre.length)
    (hdiff : diff = ((nextEntry new next).prev.length : ℤ) - next.prev.length)
    (hforce : (if forcelarge then zipStorePrevEntryLengthLarge new.size else zipStorePrevEntryLength new.size) =
      (nextEntry new next).prev)
    (hlt : ZIPLIST_HEADER_SIZE + pre.length + new.size + (bytes (nextEntry new next :: rest)).length + 1 < 2 ^ 32) :
    ∃ junk : Sds, junk.length = new.size ∧
      ((ziplistResize fresh (block c pre (next :: rest)) (curlen + new.size + diff).toNat).bind fun zl =>
        insertMove zl p curlen new.size diff forcelarge) = some (block c (pre ++ junk) (nextEntry new next :: rest)) := by
  obtain ⟨next', hnext'⟩ : ∃ next', next' = nextEntry new next := ⟨_, rfl⟩
  rw [← hnext'] at hdiff hforce hlt ⊢
  have hvalid : next'.Valid := hnext' ▸ valid_nextEntry hnext hnew
  have hbody : next'.body = next.body := by
    rw [hnext']
    rfl
  have hten : ZIPLIST_HEADER_SIZE = 10 := rfl
  have hu := next'.length_prev
  have ho := next.length_prev
  have hlens : next.bytes.length = next.prev.length + next.body.length ∧
      next'.bytes.length = next'.prev.length + next.body.length := ⟨List.length_append, hbody ▸ List.length_append⟩
  have hroom : next.prev.length ≤ new.size + next'.prev.length := by
    rw [hu, ho]
    cases hl' : next'.large with
    | true => split <;> simp
    | false =>
      rcases nextEntry_shrunk (hnext' ▸ hl') with hl | h4
      · rw [hl]
        simp
      · simp only [Bool.false_eq_true, if_false]
        split <;> omega
  rw [bytes_cons, List.length_append] at hcurlen hlt
  obtain ⟨t, ht⟩ : ∃ t, t = ZIPLIST_HEADER_SIZE + pre.length + (bytes (next :: rest).dropLast).length := ⟨_, rfl⟩
  obtain ⟨d, hd⟩ : ∃ d, d = new.size + next'.prev.length - next.prev.length := ⟨_, rfl⟩
  have hlen : ((curlen : ℤ) + new.size + diff).toNat = curlen + d := by omega
  obtain ⟨gap, hgap, -, hresize⟩ := ziplistResize_layout fresh curlen t c (pre ++ bytes (next :: rest)) d
    (show curlen + d = _ by rw [hcurlen, List.length_append, bytes_cons, List.length_append]; omega) (by omega)
  have hblock : block c pre (next :: rest) = layout curlen t c (pre ++ bytes (next :: rest) ++ [ZIP_END]) := by
    rw [block, ← ht, List.append_assoc, hcurlen, bytes_cons, List.length_append]
  rw [hlen, hblock, hresize, Option.bind_some]
  -- The block after it is made larger.
  obtain ⟨m, hm⟩ : ∃ m, m = layout (curlen + d) t c (pre ++ bytes (next :: rest) ++ (gap ++ [ZIP_END])) := ⟨_, rfl⟩
  rw [← hm]
  have hdropm : m.drop p = next.bytes ++ (bytes rest ++ (gap ++ [ZIP_END])) := by
    rw [hm, hp, drop_layout, List.append_assoc, List.drop_left, bytes_cons, List.append_assoc]
  obtain ⟨b, hb, hne⟩ := head_bytes hnext (bytes rest ++ (gap ++ [ZIP_END]))
  obtain ⟨junk, hjunk⟩ : ∃ junk, junk = (m.drop p).take new.size := ⟨_, rfl⟩
  have hjunklen : junk.length = new.size := by
    rw [hjunk, hdropm, List.length_take, List.length_append, List.length_append, List.length_append, hgap]
    omega
  have htake : m.take (p + new.size) = layout (curlen + d) t c (pre ++ junk) := by
    have hpre : m.take p = layout (curlen + d) t c pre := by
      have hsplit : m = layout (curlen + d) t c pre ++ (bytes (next :: rest) ++ (gap ++ [ZIP_END])) := by
        rw [hm]
        simp only [layout, List.append_assoc]
      rw [hsplit, hp, List.take_left' (length_layout _ _ _ _)]
    rw [List.take_add, hpre, ← hjunk]
    simp only [layout, List.append_assoc]
  have hcarry : (memmove m (p + new.size) (p - diff).toNat (curlen - p - 1 + diff).toNat).bind
      (fun m => put m (p + new.size) next'.prev) = some (m.take (p + new.size) ++ (next'.prev ++ (next.body ++ bytes rest ++ [ZIP_END]))) :=
    Memory.carry (k := layout (curlen + d) t c (pre ++ next.prev)) (g := gap) ?_ ?_ ?_ ?_ ?_
  · obtain ⟨m1, hm1, hm2⟩ := Option.bind_eq_some_iff.mp hcarry
    have hm2' : m.take (p + new.size) ++ (next'.prev ++ (next.body ++ bytes rest ++ [ZIP_END])) =
        layout (curlen + d) t c (pre ++ junk ++ (bytes (next' :: rest) ++ [ZIP_END])) := by
      rw [htake, bytes_cons, Entry.bytes, hbody]
      simp only [layout, List.append_assoc]
    rw [hm2'] at hm2
    refine ⟨junk, hjunklen, ?_⟩
    have hplace : p + new.size = ZIPLIST_HEADER_SIZE + (pre ++ junk).length := by
      rw [List.length_append, hjunklen, hp, Nat.add_assoc]
    have hafter : ∀ t, (layout (curlen + d) t c (pre ++ junk ++ (bytes (next' :: rest) ++ [ZIP_END]))).drop (p + new.size) =
        next'.bytes ++ (bytes rest ++ [ZIP_END]) := by
      intro t
      rw [hplace, drop_layout, List.drop_left, bytes_cons, List.append_assoc]
    obtain ⟨x, hx, -, -, hsize, -⟩ := zipEntry_bytes hvalid (bytes rest ++ [ZIP_END])
    have hraw : uint (x.headersize + x.len) = next'.bytes.length := by
      rw [hsize, uint, Nat.mod_eq_of_lt (by rw [Entry.size]; omega)]
      rfl
    have hbehind : ∀ t, (layout (curlen + d) t c (pre ++ junk ++ (bytes (next' :: rest) ++ [ZIP_END]))).drop
        (p + new.size + next'.bytes.length) = bytes rest ++ [ZIP_END] := by
      intro t
      rw [← List.drop_drop, hafter, List.drop_left]
    have hlast : (bytes (next' :: rest).dropLast).length + next.prev.length =
        (bytes (next :: rest).dropLast).length + (if rest = [] then next.prev.length else next'.prev.length) := by
      cases rest with
      | nil => rfl
      | cons e es =>
        rw [List.dropLast_cons_cons, List.dropLast_cons_cons, bytes_cons, bytes_cons, List.length_append, List.length_append,
          if_neg (List.cons_ne_nil _ _)]
        omega
    have hlastle := length_dropLast_le (next' :: rest)
    rw [bytes_cons next' rest, List.length_append] at hlastle
    have hfirstle := length_dropLast_le (next :: rest)
    rw [bytes_cons next rest, List.length_append] at hfirstle
    have htlt : t < 2 ^ 32 := by
      split at hlast <;> omega
    -- The sum may wrap, before what the next entry has shrunk by is taken from it.
    obtain ⟨t1, ht1⟩ : ∃ t1 : ℕ, ((t : ℤ) + new.size) % 2 ^ 32 = t1 := ⟨(((t : ℤ) + new.size) % 2 ^ 32).toNat, by omega⟩
    rw [insertMove, hdropm, hb]
    simp only [bind, Option.bind, ne_eq, hne, not_false_eq_true, if_true, hm1, hforce, hm2]
    rw [ziplistTailOffset_layout _ htlt, setTailOffset_layout _ _ _ _ ht1, hafter, hx]
    simp only [hraw, hbehind]
    have hlenb : curlen + d = ZIPLIST_HEADER_SIZE + (pre ++ junk).length + (bytes (next' :: rest)).length + 1 := by
      rw [List.length_append, bytes_cons, List.length_append, hjunklen]
      omega
    have hprejunk : (pre ++ junk).length = pre.length + new.size := by rw [List.length_append, hjunklen]
    cases rest with
    | nil =>
      simp only [bytes_nil, List.nil_append, List.head?_cons, not_true_eq_false, if_false]
      have htail : t1 = ZIPLIST_HEADER_SIZE + (pre ++ junk).length + (bytes [next'].dropLast).length := by
        simp only [List.dropLast_singleton, bytes_nil, List.length_nil] at ht ⊢
        omega
      rw [block, ← hlenb, ← htail]
    | cons e es =>
      obtain ⟨b', hb', hne'⟩ := head_bytes (hrest e List.mem_cons_self) (bytes es ++ [ZIP_END])
      rw [← List.append_assoc, ← bytes_cons] at hb'
      rw [if_neg (List.cons_ne_nil _ _)] at hlast
      have htail : ((t1 : ℤ) + diff) % 2 ^ 32 =
          (ZIPLIST_HEADER_SIZE + (pre ++ junk).length + (bytes (next' :: e :: es).dropLast).length : ℕ) := by omega
      rw [hb']
      simp only [hne', not_false_eq_true, if_true]
      rw [ziplistTailOffset_layout _ (by omega), setTailOffset_layout _ _ _ _ htail, block, ← hlenb]
  · rw [hm, bytes_cons, Entry.bytes]
    simp only [layout, List.append_assoc]
  · rw [length_layout, List.length_append, hu]
    split <;> omega
  · rw [length_layout, List.length_append]
    omega
  · rw [List.length_append]
    omega
  · rw [length_layout, List.length_append]
    omega

/-! ### Room for the new entry -/

theorem length_le_bytes (es : List Entry) : es.length ≤ (bytes es).length := by
  induction es with
  | nil => exact le_rfl
  | cons e es ih =>
    have hsize : e.bytes.length = e.size := rfl
    have hpos : 0 < e.size := by
      rw [Entry.size_eq]
      split <;> omega
    rw [List.length_cons, bytes_cons, List.length_append]
    omega

theorem length_block (c : ℕ) (pre : Sds) (es : List Entry) :
    (block c pre es).length = ZIPLIST_HEADER_SIZE + pre.length + (bytes es).length + 1 := by
  rw [block, length_layout, List.length_append, List.length_append, List.length_singleton]
  omega

theorem ziplistCascadeUpdate_block (fresh : ℕ → Fin 256) (c : ℕ) (pre : Sds) {cur : Entry} {rest : List Entry} (hcur : cur.Valid)
    (hrest : ∀ e ∈ rest, e.Valid)
    (hlt : ZIPLIST_HEADER_SIZE + pre.length + (bytes (cur :: cascade cur rest)).length + 1 < 2 ^ 32) :
    ziplistCascadeUpdate fresh (block c pre (cur :: rest)) (ZIPLIST_HEADER_SIZE + pre.length) =
      some (block c pre (cur :: cascade cur rest)) := by
  have hle := (length_cascade rest cur).2
  have hcount := length_le_bytes rest
  have hlen := length_block c pre (cur :: rest)
  rw [bytes_cons, List.length_append] at hlt hlen
  have hbytes : ziplistBytes (block c pre (cur :: rest)) = (block c pre (cur :: rest)).length := by
    rw [length_block, block]
    exact ziplistBytes_layout (by rw [bytes_cons, List.length_append]; omega) _ _ _
  rw [ziplistCascadeUpdate, hbytes]
  refine cascadeLoop_block fresh c rest cur pre _ _ (by omega) hcur hrest (length_block c pre _) ?_
  rw [bytes_cons, List.length_append]
  omega

/-- Behind the last entry there is nothing to move. -/
theorem room_end (fresh : ℕ → Fin 256) (c : ℕ) (es : List Entry) (n : ℕ) (hlt : total es + n < 2 ^ 32) :
    ∃ junk zl, junk.length = n ∧
      ziplistResize fresh (layout (total es) (tailOffset es) c (bytes es ++ [ZIP_END])) (total es + n) = some zl ∧
      insertMove zl (ZIPLIST_HEADER_SIZE + (bytes es).length) (total es) n 0 false =
        some (layout (total es + n) (ZIPLIST_HEADER_SIZE + (bytes es).length) c (bytes es ++ (junk ++ [ZIP_END]))) := by
  obtain ⟨junk, hjunk, hend, hresize⟩ := ziplistResize_layout fresh (total es) (tailOffset es) c (bytes es) n rfl hlt
  refine ⟨junk, _, hjunk, hresize, ?_⟩
  rw [insertMove, drop_layout, List.drop_left, hend]
  simp only [bind, Option.bind, ne_eq, not_true_eq_false, if_false]
  rw [total] at hlt
  exact congrArg some (setTailOffset_layout _ _ _ _ (by omega))

/-- Before an entry the rest is moved, and the entries behind the new one follow. -/
theorem room_next (fresh : ℕ → Fin 256) (c : ℕ) (pre : Sds) (hnext : next.Valid) (hnew : new.size < 2 ^ 32)
    {rest : List Entry} (hrest : ∀ e ∈ rest, e.Valid) {diff : ℤ} {forcelarge : Bool}
    (hdiff : diff = ((nextEntry new next).prev.length : ℤ) - next.prev.length)
    (hforce : (if forcelarge then zipStorePrevEntryLengthLarge new.size else zipStorePrevEntryLength new.size) =
      (nextEntry new next).prev) {curlen p : ℕ}
    (hcurlen : curlen = ZIPLIST_HEADER_SIZE + pre.length + (bytes (next :: rest)).length + 1)
    (hp : p = ZIPLIST_HEADER_SIZE + pre.length)
    (hlt : ZIPLIST_HEADER_SIZE + pre.length + new.size + (bytes (follow new (next :: rest))).length + 1 < 2 ^ 32) :
    ∃ junk zl1 zl2, junk.length = new.size ∧
      ziplistResize fresh (block c pre (next :: rest)) (curlen + new.size + diff).toNat = some zl1 ∧
      insertMove zl1 p curlen new.size diff forcelarge = some zl2 ∧
      (if diff ≠ 0 then ziplistCascadeUpdate fresh zl2 (p + new.size) else some zl2) =
        some (block c (pre ++ junk) (follow new (next :: rest))) := by
  have hprevs : (nextEntry new next).prev.length = (if (nextEntry new next).large then 5 else 1) ∧
      next.prev.length = if next.large then 5 else 1 := ⟨Entry.length_prev _, Entry.length_prev _⟩
  have hle : (bytes (nextEntry new next :: rest)).length ≤ (bytes (follow new (next :: rest))).length := by
    rw [follow]
    split
    · exact le_rfl
    · have hcascade := (length_cascade rest (nextEntry new next)).2
      rw [bytes_cons, bytes_cons, List.length_append, List.length_append]
      omega
  obtain ⟨junk, hjunk, hmove⟩ := insertMove_block fresh c pre hnext hnew hrest hcurlen hp hdiff hforce (by omega)
  obtain ⟨zl, hresize, hmove⟩ := Option.bind_eq_some_iff.mp hmove
  refine ⟨junk, zl, _, hjunk, hresize, hmove, ?_⟩
  rw [follow] at hlt ⊢
  by_cases hl : (nextEntry new next).large = next.large
  · have hzero : diff = 0 := by
      rw [hdiff, hprevs.1, hprevs.2, hl]
      exact sub_self _
    rw [if_neg (not_not.mpr hzero), if_pos hl]
  · have hne : diff ≠ 0 := by
      rw [hdiff, hprevs.1, hprevs.2]
      revert hl
      cases (nextEntry new next).large <;> cases next.large <;> decide
    rw [if_neg hl] at hlt
    have hplace : p + new.size = ZIPLIST_HEADER_SIZE + (pre ++ junk).length := by
      rw [hp, List.length_append, hjunk, Nat.add_assoc]
    rw [if_pos hne, if_neg hl, hplace]
    refine ziplistCascadeUpdate_block fresh c _ (valid_nextEntry hnext hnew) hrest ?_
    rw [List.length_append, hjunk]
    omega

/-! ### The new entry -/

/-- The new entry is written where there is room for it. -/
theorem put_entry (n t c : ℕ) (pre rest : Sds) {junk prev encoding payload : Sds} {p : ℕ}
    (hp : p = ZIPLIST_HEADER_SIZE + pre.length) (hjunk : junk.length = prev.length + (encoding.length + payload.length)) :
    ∃ zl1 zl2, put (layout n t c (pre ++ (junk ++ rest))) p prev = some zl1 ∧ put zl1 (p + prev.length) encoding = some zl2 ∧
      put zl2 (p + prev.length + encoding.length) payload =
        some (layout n t c (pre ++ (prev ++ (encoding ++ payload) ++ rest))) := by
  obtain ⟨k, hk⟩ : ∃ k, k = prev.length + encoding.length := ⟨_, rfl⟩
  have hsplit : junk = junk.take k ++ junk.drop k := (List.take_append_drop _ _).symm
  have hlens : (junk.take k).length = k ∧ (junk.drop k).length = payload.length := by
    rw [List.length_take, List.length_drop]
    omega
  have hbefore : layout n t c (pre ++ (junk ++ rest)) = layout n t c pre ++ (junk.take k ++ (junk.drop k ++ rest)) := by
    rw [← List.append_assoc (junk.take k), ← hsplit]
    simp only [layout, List.append_assoc]
  have hplace : p = (layout n t c pre).length := by rw [length_layout, hp]
  have htwo := Memory.put_put (s := prev) (t := encoding) hbefore hplace (by rw [List.length_append, hlens.1, hk])
  obtain ⟨zl1, h1, h2⟩ := Option.bind_eq_some_iff.mp htwo
  refine ⟨zl1, _, h1, h2, ?_⟩
  have hthird : layout n t c pre ++ (prev ++ encoding ++ (junk.drop k ++ rest)) =
      layout n t c pre ++ (prev ++ encoding) ++ (junk.drop k ++ rest) := by simp only [List.append_assoc]
  have hafter : p + prev.length + encoding.length = (layout n t c pre ++ (prev ++ encoding)).length := by
    rw [hplace, List.length_append, List.length_append, Nat.add_assoc]
  have h3 := Memory.put_split hthird hafter hlens.2.symm
  rw [h3]
  simp only [layout, List.append_assoc]

theorem ziplistIncrLength_layout (n t : ℕ) {c : ℕ} (hc : c ≤ UINT16_MAX) (rest : Sds) :
    ziplistIncrLength (layout n t c rest) 1 = layout n t (if c < UINT16_MAX then c + 1 else c) rest := by
  rw [ziplistIncrLength, ziplistLength_layout n t hc]
  split
  · exact setLength_layout _ _ _ _ _
  · rfl

/-! ### Decoding -/

/-- The strings of the entries up to the end. -/
def decoded : ℕ → Sds → Option (List Sds)
  | 0, _ => none
  | n + 1, p => do
    let first ← p.head?
    if first = ZIP_END then some []
    else do
      let v ← ziplistGet p
      let len ← zipRawEntryLength p
      let rest ← decoded n (p.drop len)
      some (v.text :: rest)

/-- What a ziplist holds. -/
def ziplistStrings (zl : Sds) : Option (List Sds) := decoded zl.length (zl.drop ZIPLIST_HEADER_SIZE)

theorem zipLoadInteger_isSome {encoding len : ℕ} (h : zipIntSize encoding = some len) (p : Sds) :
    ∃ v, zipLoadInteger p encoding = some v := by
  rw [zipIntSize] at h
  rw [zipLoadInteger]
  repeat' split
  all_goals first | exact ⟨_, rfl⟩ | skip
  rename_i h8 h16 h32 h24 h64 himm
  rw [if_neg h8, if_neg h16, if_neg h24, if_neg h32, if_neg h64, if_neg himm] at h
  cases h

theorem Entry.Valid.value {e : Entry} (h : e.Valid) : ∃ v, e.value = some v := by
  obtain ⟨encoding, lensize, len, hbody, -⟩ := h.body
  simp only [Entry.value, hbody, bind, Option.bind]
  split
  · exact ⟨_, rfl⟩
  · rename_i hint
    obtain ⟨v, hv⟩ := zipLoadInteger_isSome (int_of_zipDecodeLength hbody hint) (e.body.drop lensize)
    rw [hv]
    exact ⟨_, rfl⟩

theorem decoded_bytes (es : List Entry) : ∀ n, es.length < n → (∀ e ∈ es, e.Valid) → (bytes es).length < 2 ^ 32 →
    ∃ l, decoded n (bytes es ++ [ZIP_END]) = some l ∧ es.map Entry.text = l.map some := by
  induction es with
  | nil =>
    intro n hn _ _
    obtain ⟨n, rfl⟩ : ∃ m, n = m + 1 := ⟨n - 1, by omega⟩
    exact ⟨[], rfl, rfl⟩
  | cons e es ih =>
    intro n hn hes hlt
    obtain ⟨n, rfl⟩ : ∃ m, n = m + 1 := ⟨n - 1, by omega⟩
    have he := hes e List.mem_cons_self
    rw [bytes_cons, List.length_append] at hlt
    have hsize : e.bytes.length = e.size := rfl
    obtain ⟨l, hl, htexts⟩ := ih n (by rw [List.length_cons] at hn; omega) (fun e he => hes e (List.mem_cons_of_mem _ he)) (by omega)
    obtain ⟨v, hv⟩ := he.value
    obtain ⟨b, hb, hne⟩ := head_bytes he (bytes es ++ [ZIP_END])
    have hlen := zipRawEntryLength_bytes he (by omega) (bytes es ++ [ZIP_END])
    refine ⟨v.text :: l, ?_, ?_⟩
    · rw [bytes_cons, List.append_assoc]
      simp only [decoded, hb, if_neg hne, ziplistGet_bytes he, hv, hlen, ← hsize, List.drop_left, hl, bind, Option.bind]
    · rw [List.map_cons, List.map_cons, htexts, Entry.text, hv]
      rfl

theorem ziplistStrings_layout (hvalid : ∀ e ∈ es, e.Valid) (hsmall : total es < 2 ^ 32) (n t c : ℕ) :
    ∃ l, ziplistStrings (layout n t c (bytes es ++ [ZIP_END])) = some l ∧ es.map Entry.text = l.map some := by
  have hcount := length_le_bytes es
  rw [total] at hsmall
  rw [ziplistStrings, show (layout n t c (bytes es ++ [ZIP_END])).drop ZIPLIST_HEADER_SIZE = _ from drop_layout _ _ _ _ 0]
  refine decoded_bytes es _ ?_ hvalid (by omega)
  rw [length_layout, List.length_append, List.length_singleton]
  omega

theorem ziplistStrings_wellFormed {zl : Sds} (h : WellFormed zl es) :
    ∃ l, ziplistStrings zl = some l ∧ es.map Entry.text = l.map some := by
  obtain ⟨c, -, -, rfl⟩ := h.layout
  exact ziplistStrings_layout h.valid h.small _ _ _

/-! ### Insertion -/

/-- The bytes that result are those of the entries with the new one. -/
theorem ziplistInsert_layout (fresh : ℕ → Fin 256) {A B : List Entry} (hvalid : ∀ e ∈ A ++ B, e.Valid) (hchained : Chained 0 (A ++ B))
    (hsmall : total (A ++ B) < 2 ^ 32) {c : ℕ} (hc : c ≤ UINT16_MAX) {s encoding payload : Sds}
    (henc : zipEncode s = some (encoding, payload)) {new : Entry} (hnew : new = newEntry (lastSize 0 A) (encoding ++ payload))
    (hlt : total (A ++ new :: follow new B) < 2 ^ 32) :
    ziplistInsert fresh (layout (total (A ++ B)) (tailOffset (A ++ B)) c (bytes (A ++ B) ++ [ZIP_END]))
        (ZIPLIST_HEADER_SIZE + (bytes A).length) s =
      some (layout (total (A ++ new :: follow new B)) (tailOffset (A ++ new :: follow new B))
        (if c < UINT16_MAX then c + 1 else c) (bytes (A ++ new :: follow new B) ++ [ZIP_END])) := by
  obtain ⟨prevlen, hprevlen⟩ : ∃ prevlen, prevlen = lastSize 0 A := ⟨_, rfl⟩
  have hle := lastSize_le 0 A
  rw [← hprevlen] at hle hnew
  have hA : ∀ e ∈ A, e.Valid := fun e he => hvalid e (List.mem_append_left _ he)
  have hB : ∀ e ∈ B, e.Valid := fun e he => hvalid e (List.mem_append_right _ he)
  have hsum : total (A ++ new :: follow new B) =
      ZIPLIST_HEADER_SIZE + (bytes A).length + new.size + (bytes (follow new B)).length + 1 := by
    have hsize : new.bytes.length = new.size := rfl
    rw [total, bytes_append, bytes_cons, List.length_append, List.length_append, hsize]
    omega
  have hprev : zipStorePrevEntryLength prevlen = new.prev := by
    rw [hnew]
    exact store_eq (by omega) _
  have hbody : new.body = encoding ++ payload := by
    rw [hnew]
    rfl
  have hnewbytes : new.bytes = new.prev ++ (encoding ++ payload) := by rw [Entry.bytes, hbody]
  have hreqlen : payload.length + new.prev.length + encoding.length = new.size := by
    rw [Entry.size, hnewbytes, List.length_append, List.length_append]
    omega
  have hcurlen := ziplistBytes_layout hsmall (tailOffset (A ++ B)) c (bytes (A ++ B) ++ [ZIP_END])
  have hput : ∀ n t (junk : Sds) (rest : Sds), junk.length = new.size →
      ∃ zl1 zl2, put (layout n t c (bytes A ++ (junk ++ rest))) (ZIPLIST_HEADER_SIZE + (bytes A).length) new.prev = some zl1 ∧
        put zl1 (ZIPLIST_HEADER_SIZE + (bytes A).length + new.prev.length) encoding = some zl2 ∧
        put zl2 (ZIPLIST_HEADER_SIZE + (bytes A).length + new.prev.length + encoding.length) payload =
          some (layout n t c (bytes A ++ (new.bytes ++ rest))) := by
    intro n t junk rest hjunk
    rw [hnewbytes]
    exact put_entry n t c (bytes A) rest rfl (by omega)
  cases B with
  | nil =>
    rw [List.append_nil] at hsmall hcurlen ⊢
    have hend : (layout (total A) (tailOffset A) c (bytes A ++ [ZIP_END])).drop (ZIPLIST_HEADER_SIZE + (bytes A).length) =
        [ZIP_END] := by rw [drop_layout, List.drop_left]
    have hat := prevlenAt_end hA c hsmall
    rw [← hprevlen] at hat
    have hsum' : total (A ++ new :: follow new []) = total A + new.size := by
      rw [hsum, total, follow, bytes_nil, List.length_nil]
      omega
    obtain ⟨junk, zl, hjunk, hresize, hmove⟩ := room_end fresh c A new.size (by omega)
    obtain ⟨zl1, zl2, h1, h2, h3⟩ := hput (total A + new.size) (ZIPLIST_HEADER_SIZE + (bytes A).length) junk [ZIP_END] hjunk
    have hdiff : ((total A : ℤ) + new.size + 0).toNat = total A + new.size := by omega
    have hlast : tailOffset (A ++ new :: follow new []) = ZIPLIST_HEADER_SIZE + (bytes A).length := by
      rw [follow, tailOffset, List.dropLast_concat]
    simp only [ziplistInsert, hcurlen, hend, hat, henc, hprev, hreqlen, List.head?_cons, bind, Option.bind, ne_eq,
      not_true_eq_false, if_false]
    have hzero : decide ((0 : ℤ) = -4 ∧ new.size < 4) = false := rfl
    simp only [hzero, Bool.false_eq_true, if_false, not_true_eq_false, hdiff, hresize, hmove, h1, h2, h3]
    rw [ziplistIncrLength_layout _ _ hc, hsum', hlast, follow, bytes_append, bytes_cons, bytes_nil, List.append_nil,
      List.append_assoc]
  | cons next rest =>
    have hnext := hB next List.mem_cons_self
    have hrest : ∀ e ∈ rest, e.Valid := fun e he => hB e (List.mem_cons_of_mem _ he)
    obtain ⟨-, hprevnext, -⟩ := (chained_append A (next :: rest) 0).mp hchained
    rw [← hprevlen] at hprevnext
    have hnewlt : new.size < 2 ^ 32 := by omega
    have hat := prevlenAt_block c (bytes A) hnext rest
    rw [hprevnext] at hat
    obtain ⟨b, hb, hne⟩ := head_bytes hnext (bytes rest ++ [ZIP_END])
    have hdrop : (block c (bytes A) (next :: rest)).drop (ZIPLIST_HEADER_SIZE + (bytes A).length) =
        next.bytes ++ (bytes rest ++ [ZIP_END]) := by rw [drop_block, bytes_cons, List.append_assoc]
    have hdiff : zipPrevLenByteDiff (next.bytes ++ (bytes rest ++ [ZIP_END])) new.size =
        some (((zipStorePrevEntryLength new.size).length : ℤ) - next.prev.length) := by
      rw [Entry.bytes, List.append_assoc]
      simp only [zipPrevLenByteDiff, zipDecodePrevlen_prev hnext, bind, Option.bind]
    obtain ⟨diff, hd⟩ : ∃ diff, diff = ((zipStorePrevEntryLength new.size).length : ℤ) - next.prev.length := ⟨_, rfl⟩
    obtain ⟨forcelarge, hf⟩ : ∃ forcelarge, forcelarge = decide (diff = -4 ∧ new.size < 4) := ⟨_, rfl⟩
    obtain ⟨hdiff', hforce⟩ := nextEntry_prev hnewlt next hd hf
    rw [block_of_layout] at hcurlen ⊢
    rw [← hd] at hdiff
    simp only [ziplistInsert, hcurlen, hdrop, hb, hat, henc, hprev, hreqlen, hdiff, bind, Option.bind, ne_eq,
      hne, not_false_eq_true, if_true, ← hf]
    generalize (if forcelarge = true then 0 else diff) = d at hdiff' ⊢
    have hlen : total (A ++ next :: rest) = ZIPLIST_HEADER_SIZE + (bytes A).length + (bytes (next :: rest)).length + 1 := by
      rw [total, bytes_append, List.length_append]
      omega
    obtain ⟨junk, zl1, zl2, hjunk, hresize, hmove, hcascade⟩ := room_next fresh c (bytes A) hnext hnewlt hrest hdiff' hforce hlen rfl
      (by omega)
    have hblock : block c (bytes A ++ junk) (follow new (next :: rest)) =
        layout (total (A ++ new :: follow new (next :: rest))) (tailOffset (A ++ new :: follow new (next :: rest))) c
          (bytes A ++ (junk ++ (bytes (follow new (next :: rest)) ++ [ZIP_END]))) := by
      have hne : follow new (next :: rest) ≠ [] := by
        rw [follow]
        split <;> exact List.cons_ne_nil _ _
      have hsize : new.bytes.length = new.size := rfl
      have hlast : (A ++ new :: follow new (next :: rest)).dropLast = A ++ new :: (follow new (next :: rest)).dropLast := by
        rw [List.dropLast_append_of_ne_nil (List.cons_ne_nil _ _), List.dropLast_cons_of_ne_nil hne]
      rw [block, hsum, tailOffset, hlast, bytes_append, bytes_cons, List.length_append, List.length_append, List.length_append,
        hjunk, hsize]
      simp only [List.append_assoc, Nat.add_assoc]
    obtain ⟨zl3, zl4, h1, h2, h3⟩ := hput (total (A ++ new :: follow new (next :: rest)))
      (tailOffset (A ++ new :: follow new (next :: rest))) junk (bytes (follow new (next :: rest)) ++ [ZIP_END]) hjunk
    rw [hblock] at hcascade
    have hfinal : bytes (A ++ new :: follow new (next :: rest)) ++ [ZIP_END] =
        bytes A ++ (new.bytes ++ (bytes (follow new (next :: rest)) ++ [ZIP_END])) := by
      rw [bytes_append, bytes_cons]
      simp only [List.append_assoc]
    rw [hfinal]
    by_cases hz : d = 0
    · subst hz
      rw [if_neg (not_not.mpr rfl)] at hcascade
      cases hcascade
      simp only [hresize, hmove, not_true_eq_false, if_false, h1, h2, h3, ziplistIncrLength_layout _ _ hc]
    · rw [if_pos hz] at hcascade
      simp only [hresize, hmove, hz, not_false_eq_true, if_true, hcascade, h1, h2, h3, ziplistIncrLength_layout _ _ hc]

/-- There is an encoding, and the payload of a long string is the string. -/
theorem zipEncode_isSome (s : Sds) :
    ∃ encoding payload, zipEncode s = some (encoding, payload) ∧ (s.length < 32 ∨ payload = s) := by
  cases htry : zipTryEncoding s with
  | none => exact ⟨_, s, by rw [zipEncode, htry], .inr rfl⟩
  | some r =>
    have hread := htry
    rw [zipTryEncoding] at hread
    split at hread
    · cases hread
    · rename_i hshort
      obtain ⟨v, hv, rfl⟩ := Option.map_eq_some_iff.mp hread
      obtain ⟨-, -, payload, hsave, -⟩ := zipSaveInteger_spec (Streams.isInt64_lpStringToInt64 hv)
      refine ⟨zipStoreEntryEncoding (intEncoding v) s.length, payload, ?_, .inl (by omega)⟩
      simp only [zipEncode, htry, hsave, bind, Option.bind]

/-- **An insertion gives a well-formed ziplist**, which holds what the ziplist did and the string at
its place. -/
theorem ziplistInsert_wellFormed (fresh : ℕ → Fin 256) {zl : Sds} {es : List Entry} (h : WellFormed zl es) {i : ℕ} (s : Sds)
    (hlt : total (inserted es i s) < 2 ^ 32) :
    ∃ zl' l, ziplistInsert fresh zl (ZIPLIST_HEADER_SIZE + (bytes (es.take i)).length) s = some zl' ∧
      WellFormed zl' (inserted es i s) ∧ ziplistStrings zl = some l ∧
      ziplistStrings zl' = some (l.take i ++ s :: l.drop i) := by
  obtain ⟨c, hc, hcmax, hzl⟩ := h.layout
  obtain ⟨l, hl, htexts⟩ := ziplistStrings_wellFormed h
  have hes : es.take i ++ es.drop i = es := List.take_append_drop i es
  have hsmall := h.small
  have hle := lastSize_le 0 (es.take i)
  have htake : (bytes (es.take i)).length ≤ (bytes es).length := by
    have hsum := congrArg (fun es => (bytes es).length) hes
    simp only [bytes_append, List.length_append] at hsum
    omega
  have hprevlen : lastSize 0 (es.take i) < 2 ^ 32 := by
    rw [total] at hsmall
    omega
  -- A long string is its own payload, so it is not longer than the result.
  have hs : s.length < 2 ^ 32 := by
    obtain ⟨encoding, payload, henc, hshort | rfl⟩ := zipEncode_isSome s
    · omega
    · rw [inserted, henc, total, bytes_append, bytes_cons, List.length_append, List.length_append, Entry.bytes,
        List.length_append] at hlt
      simp only [newEntry, Option.map_some, Option.getD_some, List.length_append] at hlt
      omega
  obtain ⟨encoding, payload, henc, ⟨enc, hdec⟩, htext⟩ :=
    zipEncode_spec hs (decide (ZIP_BIG_PREVLEN ≤ lastSize 0 (es.take i))) (lastSize 0 (es.take i))
  obtain ⟨new, hnew⟩ : ∃ new, new = newEntry (lastSize 0 (es.take i)) (encoding ++ payload) := ⟨_, rfl⟩
  have hinserted : inserted es i s = es.take i ++ new :: follow new (es.drop i) := by
    rw [inserted, henc, hnew]
    rfl
  rw [hinserted] at hlt ⊢
  have hvalid : ∀ e ∈ es.take i ++ es.drop i, e.Valid := hes.symm ▸ h.valid
  have hchained : Chained 0 (es.take i ++ es.drop i) := hes.symm ▸ h.chained
  obtain ⟨hchainedA, hchainedB⟩ := (chained_append _ _ 0).mp hchained
  have hrun := ziplistInsert_layout fresh hvalid hchained (hes.symm ▸ hsmall) hcmax henc hnew hlt
  rw [hes, ← hzl] at hrun
  have hsize : new.bytes.length = new.size := rfl
  have hparts := hlt
  rw [total, bytes_append, bytes_cons, List.length_append, List.length_append, hsize] at hparts
  have hnewvalid : new.Valid := by
    rw [hnew]
    exact ⟨hprevlen, fun hlarge => not_le.mp (of_decide_eq_false hlarge), enc, _, _, hdec, List.length_append⟩
  have hwell : WellFormed (layout (total (es.take i ++ new :: follow new (es.drop i)))
      (tailOffset (es.take i ++ new :: follow new (es.drop i))) (if c < UINT16_MAX then c + 1 else c)
      (bytes (es.take i ++ new :: follow new (es.drop i)) ++ [ZIP_END])) (es.take i ++ new :: follow new (es.drop i)) := by
    refine ⟨fun e he => ?_, ?_, hlt, _, ?_, ?_, rfl⟩
    · rcases List.mem_append.mp he with he | he
      · exact hvalid e (List.mem_append_left _ he)
      · rcases List.mem_cons.mp he with rfl | he
        · exact hnewvalid
        · exact valid_follow (fun e he => hvalid e (List.mem_append_right _ he)) (by omega) (by omega) e he
    · refine (chained_append _ _ 0).mpr ⟨hchainedA, ?_, chained_follow new hchainedB⟩
      rw [hnew]
      rfl
    · rw [List.length_append, List.length_cons, length_follow, ← Nat.add_assoc, ← List.length_append, hes]
      split
      · rcases hc with rfl | rfl
        · exact .inl rfl
        · omega
      · exact .inr (by omega)
    · split <;> omega
  obtain ⟨l', hl', htexts'⟩ := ziplistStrings_wellFormed hwell
  refine ⟨_, l, hrun, hwell, hl, hl'.trans (congrArg some ?_)⟩
  have hnewtext : new.text = some s := by
    rw [hnew]
    exact htext
  apply List.map_injective_iff.mpr (Option.some_injective _)
  rw [← htexts', List.map_append, List.map_cons, text_follow, hnewtext, List.map_append, List.map_cons, List.map_take,
    List.map_drop, htexts, List.map_take, List.map_drop]

/-- The entries of `a` and `12`. -/
def two : List Entry := [⟨false, 0, [1, 97]⟩, ⟨false, 3, [253]⟩]

theorem two_wellFormed : WellFormed [16, 0, 0, 0, 13, 0, 0, 0, 2, 0, 0, 1, 97, 3, 253, 255] two := by
  refine ⟨?_, ⟨rfl, rfl, trivial⟩, by decide, 2, .inl rfl, by decide, by decide⟩
  intro e he
  rcases List.mem_cons.mp he with rfl | he
  · exact ⟨by decide, fun _ => by decide, 0, 1, 1, rfl, rfl⟩
  · rcases List.mem_singleton.mp he with rfl
    exact ⟨by decide, fun _ => by decide, 253, 1, 0, rfl, rfl⟩

/-- A long string between the two, which makes the second entry larger. -/
theorem ziplistInsert_wellFormed_two :
    ∃ zl' l, ziplistInsert (fun _ => 0) [16, 0, 0, 0, 13, 0, 0, 0, 2, 0, 0, 1, 97, 3, 253, 255]
        (ZIPLIST_HEADER_SIZE + (bytes (two.take 1)).length) (List.replicate 300 98) = some zl' ∧
      WellFormed zl' (inserted two 1 (List.replicate 300 98)) ∧
      ziplistStrings [16, 0, 0, 0, 13, 0, 0, 0, 2, 0, 0, 1, 97, 3, 253, 255] = some l ∧
      ziplistStrings zl' = some (l.take 1 ++ List.replicate 300 98 :: l.drop 1) :=
  ziplistInsert_wellFormed (fun _ => 0) two_wellFormed (List.replicate 300 98) (by decide +kernel)

end RedisZk.Ziplist
