/-
# Where the cascade has no room

Every entry that is made larger takes four bytes more. The length that `ziplistResize` takes is an
`unsigned int`: at `2^32` bytes the block is cut down to what is left of the sum, and the bytes that
are moved then are outside of it.

Key definitions: `growth`, `Room`.
Key theorems: `length_bytes_cascade`, `cascadeLoop_overflow`, `ziplistCascadeUpdate_overflow`.
-/
import RedisZk.Ziplist.Correct

namespace RedisZk.Ziplist

open Streams (Sds)
open Endian (little ofLittle)
open Memory (put memmove)

/-! ### The entries that grow -/

/-- How many of the entries, the first of which is behind one of `n` bytes, get a length of the previous
entry in five bytes for one in one byte. -/
def growth : ℕ → List Entry → ℕ
  | _, [] => 0
  | n, next :: rest =>
    if next.prevlen ≠ n ∧ next.large = false ∧ ZIP_BIG_PREVLEN ≤ n then growth (next.size + 4) rest + 1 else 0

/-- Entries fit behind others. -/
def Room (es es' : List Entry) : Prop := total (es ++ es') + 4 * growth (lastSize 0 es) es' < 2 ^ 32

instance (es es' : List Entry) : Decidable (Room es es') := Nat.decLt _ _

theorem size_large {next : Entry} (h : next.large = false) (n : ℕ) : Entry.size ⟨true, n, next.body⟩ = next.size + 4 := by
  rw [Entry.size_eq, Entry.size_eq, h]
  simp only [if_true, Bool.false_eq_true, if_false]
  omega

theorem length_bytes_cascade (rest : List Entry) :
    ∀ cur : Entry, (bytes (cascade cur rest)).length = (bytes rest).length + 4 * growth cur.size rest := by
  induction rest with
  | nil => exact fun _ => rfl
  | cons next rest ih =>
    intro cur
    rw [cascade, growth]
    by_cases hsame : next.prevlen = cur.size
    · rw [if_pos hsame, if_neg (fun h => h.1 hsame)]
      rfl
    · rw [if_neg hsame]
      by_cases hgrow : next.large = false ∧ ZIP_BIG_PREVLEN ≤ cur.size
      · have hsize := size_large hgrow.1 cur.size
        have hlens : (Entry.bytes ⟨true, cur.size, next.body⟩).length = next.bytes.length + 4 := hsize
        rw [if_pos hgrow, if_pos ⟨hsame, hgrow⟩, bytes_cons, bytes_cons, List.length_append, List.length_append, ih, hsize, hlens]
        omega
      · have hsize : (Entry.bytes { next with prevlen := cur.size }).length = next.bytes.length :=
          (Entry.size_eq _).trans (Entry.size_eq next).symm
        rw [if_neg hgrow, if_neg (fun h => hgrow h.2), bytes_cons, bytes_cons, List.length_append, List.length_append, hsize]
        rfl

/-- A chain that is right does not grow. -/
theorem growth_chained {n : ℕ} {es : List Entry} (h : Chained n es) : growth n es = 0 := by
  cases es with
  | nil => rfl
  | cons e es => rw [growth, if_neg (fun hne => hne.1 h.1)]

/-! ### The loop -/

theorem ziplistResize_overflow (fresh : ℕ → Fin 256) {zl : Sds} (hzl : 4 ≤ zl.length) {len : ℕ} (hle : 2 ^ 32 ≤ len)
    (hlt : len < 2 ^ 32 + 4) : ∃ zl', ziplistResize fresh zl len = some zl' ∧ zl'.length = 4 := by
  have hsmall : uint len < 4 := by
    rw [uint]
    omega
  have hrealloc : zrealloc fresh zl (uint len) = zl.take (uint len) := by
    rw [zrealloc, show uint len - zl.length = 0 by omega]
    exact List.append_nil _
  have hset : setBytes (zl.take (uint len)) (uint len) = little 4 (uint len) := by
    rw [setBytes, List.drop_eq_nil_of_le (by rw [List.length_take]; omega), List.append_nil]
  have hlen := Endian.length_little 4 (uint len)
  obtain ⟨zl', hput, hlen'⟩ := Memory.put_of_le (m := little 4 (uint len)) (p := uint len - 1) (s := [ZIP_END])
    (by rw [hlen, List.length_singleton]; omega)
  refine ⟨zl', ?_, hlen'.trans hlen⟩
  rw [ziplistResize, hrealloc, hset, hput]

theorem memmove_beyond {zl : Sds} {dst src n : ℕ} (h : zl.length < src + n) : memmove zl dst src n = none := by
  rw [memmove, if_neg (by omega)]

/-- **The cascade fails where there is no room for it.** -/
theorem cascadeLoop_overflow (fresh : ℕ → Fin 256) (c : ℕ) (rest : List Entry) : ∀ (cur : Entry) (pre : Sds) (n curlen : ℕ),
    cur.Valid → (∀ e ∈ rest, e.Valid) → curlen = ZIPLIST_HEADER_SIZE + pre.length + (bytes (cur :: rest)).length + 1 →
    curlen < 2 ^ 32 → 2 ^ 32 ≤ curlen + 4 * growth cur.size rest →
    cascadeLoop fresh n curlen (block c pre (cur :: rest)) (ZIPLIST_HEADER_SIZE + pre.length) = none := by
  induction rest with
  | nil =>
    intro cur pre n curlen _ _ _ hlt hle
    rw [growth] at hle
    omega
  | cons next rest ih =>
    intro cur pre n curlen hcur hrest hcurlen hlt hle
    cases n with
    | zero => rfl
    | succ n =>
    have hgrow : next.prevlen ≠ cur.size ∧ next.large = false ∧ ZIP_BIG_PREVLEN ≤ cur.size := by
      by_contra hno
      rw [growth, if_neg hno] at hle
      omega
    rw [growth, if_pos hgrow] at hle
    obtain ⟨hsame, hl, hbig⟩ := hgrow
    have hnext := hrest next List.mem_cons_self
    obtain ⟨b, hb, hne⟩ := head_bytes hcur (bytes (next :: rest) ++ [ZIP_END])
    obtain ⟨x, hx, -, -, hsize, -⟩ := zipEntry_bytes hcur (bytes (next :: rest) ++ [ZIP_END])
    obtain ⟨b', hb', hne'⟩ := head_bytes hnext (bytes rest ++ [ZIP_END])
    obtain ⟨y, hy, hprevsize, hprevlen, -, -⟩ := zipEntry_bytes hnext (bytes rest ++ [ZIP_END])
    have hcurs : cur.bytes.length = cur.size := rfl
    have hnexts : next.bytes.length = next.size := rfl
    have hten : ZIPLIST_HEADER_SIZE = 10 := rfl
    have hpos : 0 < next.size := by
      rw [Entry.size_eq, hl]
      exact Nat.add_pos_left (by decide) _
    have hsum := hcurlen
    rw [bytes_cons, bytes_cons, List.length_append, List.length_append] at hsum
    have hcurlt : cur.size < 2 ^ 32 := by omega
    have hraw : uint (x.headersize + x.len) = cur.size := by rw [hsize, uint, Nat.mod_eq_of_lt hcurlt]
    have hdrop : (block c pre (cur :: next :: rest)).drop (ZIPLIST_HEADER_SIZE + pre.length) =
        cur.bytes ++ (bytes (next :: rest) ++ [ZIP_END]) := by
      rw [drop_block, bytes_cons cur, List.append_assoc]
    have hbehind : (block c pre (cur :: next :: rest)).drop (ZIPLIST_HEADER_SIZE + pre.length + cur.size) =
        next.bytes ++ (bytes rest ++ [ZIP_END]) := by
      rw [drop_block_cons, bytes_cons, List.append_assoc]
    have hone : next.prev.length = 1 := by
      rw [Entry.length_prev, hl]
      rfl
    have hfive : (zipStorePrevEntryLength cur.size).length = 5 := by rw [length_store hcurlt, if_neg (by omega)]
    simp only [cascadeLoop, hdrop, hb, hx, hraw, hbehind, hb', hy, hprevsize, hprevlen, bind, Option.bind, if_neg hne,
      if_neg hne', if_neg hsame, hone, hfive, Nat.reduceLT, if_true, Nat.reduceSub]
    by_cases hfits : curlen + 4 < 2 ^ 32
    · have hgrown := grow_next fresh c pre cur next rest hl hbig hcurlen rfl hfits
      obtain ⟨zl1, h1, hgrown⟩ := Option.bind_eq_some_iff.mp hgrown
      obtain ⟨zl2, h2, h3⟩ := Option.bind_eq_some_iff.mp hgrown
      simp only [h1, h2, h3]
      have hnextsize := size_large hl cur.size
      have hgrownlen : (Entry.bytes ⟨true, cur.size, next.body⟩).length = next.size + 4 := hnextsize
      have hih := ih ⟨true, cur.size, next.body⟩ (pre ++ cur.bytes) n (curlen + 4) ⟨hcurlt, by rintro ⟨⟩, hnext.body⟩
        (fun e he => hrest e (List.mem_cons_of_mem _ he))
        (by rw [bytes_cons, List.length_append, List.length_append, hgrownlen]; omega) hfits (by rw [hnextsize]; omega)
      rw [List.length_append, ← Nat.add_assoc, hcurs] at hih
      exact hih
    · obtain ⟨zl1, h1, hlen1⟩ := @ziplistResize_overflow fresh (block c pre (cur :: next :: rest))
        (by rw [length_block]; omega) _ (not_lt.mp hfits) (by omega)
      have hlen2 : ∀ v : ℤ, (setTailOffset zl1 v).length ≤ 8 := by
        intro v
        simp only [setTailOffset, List.length_append, List.length_take, List.length_drop, Endian.length_little]
        omega
      simp only [h1]
      rw [memmove_beyond]
      have hplace : 8 < ZIPLIST_HEADER_SIZE + pre.length + cur.size + 1 + (curlen - (ZIPLIST_HEADER_SIZE + pre.length + cur.size) - 1 - 1) := by
        omega
      split
      · exact (hlen2 _).trans_lt hplace
      · omega

theorem ziplistCascadeUpdate_overflow (fresh : ℕ → Fin 256) (c : ℕ) (pre : Sds) {cur : Entry} {rest : List Entry} (hcur : cur.Valid)
    (hrest : ∀ e ∈ rest, e.Valid) (hlt : ZIPLIST_HEADER_SIZE + pre.length + (bytes (cur :: rest)).length + 1 < 2 ^ 32)
    (hle : 2 ^ 32 ≤ ZIPLIST_HEADER_SIZE + pre.length + (bytes (cur :: rest)).length + 1 + 4 * growth cur.size rest) :
    ziplistCascadeUpdate fresh (block c pre (cur :: rest)) (ZIPLIST_HEADER_SIZE + pre.length) = none := by
  have hbytes : ziplistBytes (block c pre (cur :: rest)) = ZIPLIST_HEADER_SIZE + pre.length + (bytes (cur :: rest)).length + 1 := by
    rw [block]
    exact ziplistBytes_layout hlt _ _ _
  rw [ziplistCascadeUpdate, hbytes]
  exact cascadeLoop_overflow fresh c rest cur pre _ _ hcur hrest rfl hlt hle

end RedisZk.Ziplist
