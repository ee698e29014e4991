/-
# The cascade repairs a ziplist

One length of a previous entry may be wrong, as it is behind an entry that was put in or written anew.
The cascade writes it, and those behind it that follow, and stops with a ziplist that is well formed;
no length is made narrower. It is as with a deletion, though: there has to be room for what grows.

Key definitions: `Misfit`, `Widened`.
Key theorems: `ziplistCascadeUpdate_exact`.
-/
import RedisZk.Ziplist.Delete

namespace RedisZk.Ziplist

open Streams (Sds)

/-- A ziplist that is well formed, but for the length that the first entry of `rest` has for `cur`. -/
structure Misfit (zl : Sds) (A : List Entry) (cur : Entry) (rest : List Entry) : Prop where
  valid : ∀ e ∈ A ++ cur :: rest, e.Valid
  before : Chained 0 (A ++ [cur])
  behind : ∃ n, Chained n rest
  small : total (A ++ cur :: rest) < 2 ^ 32
  layout : ∃ zllen, (zllen = (A ++ cur :: rest).length ∨ zllen = UINT16_MAX) ∧ zllen ≤ UINT16_MAX ∧
    zl = layout (total (A ++ cur :: rest)) (tailOffset (A ++ cur :: rest)) zllen (bytes (A ++ cur :: rest) ++ [ZIP_END])

/-- The second entry is the first with a length that is not narrower. -/
structure Widened (e e' : Entry) : Prop where
  body : e'.body = e.body
  width : e.prev.length ≤ e'.prev.length

theorem Widened.refl (e : Entry) : Widened e e := ⟨rfl, le_rfl⟩

theorem widened_cascade (rest : List Entry) : ∀ cur : Entry, List.Forall₂ Widened rest (cascade cur rest) := by
  induction rest with
  | nil => exact fun _ => .nil
  | cons next rest ih =>
    intro cur
    have hrefl : List.Forall₂ Widened rest rest := List.forall₂_same.mpr fun e _ => Widened.refl e
    rw [cascade]
    split
    · exact .cons (Widened.refl next) hrefl
    · split
      · refine .cons ⟨rfl, ?_⟩ (ih _)
        rw [Entry.length_prev, Entry.length_prev, if_pos rfl]
        split <;> decide
      · refine .cons ⟨rfl, ?_⟩ hrefl
        rw [Entry.length_prev, Entry.length_prev]

variable {zl : Sds} {A rest : List Entry} {cur : Entry}

theorem layout_block (c : ℕ) (A : List Entry) (cur : Entry) (rest : List Entry) :
    layout (total (A ++ cur :: rest)) (tailOffset (A ++ cur :: rest)) c (bytes (A ++ cur :: rest) ++ [ZIP_END]) =
      block c (bytes A) (cur :: rest) := by
  rw [block, total, tailOffset, List.dropLast_append_of_ne_nil (List.cons_ne_nil _ _), bytes_append, bytes_append,
    List.length_append, List.length_append, List.append_assoc]
  simp only [Nat.add_assoc]

/-- **The cascade repairs, if there is room, and stops.** The ziplist it leaves is well formed and holds
what was held, the entries up to `p` stay, and no length is narrowed; it does so exactly if four bytes
more for every entry that grows do not come to `2^32`. -/
theorem ziplistCascadeUpdate_exact (fresh : ℕ → Fin 256) (h : Misfit zl A cur rest) :
    (∃ zl' es, ziplistCascadeUpdate fresh zl (ZIPLIST_HEADER_SIZE + (bytes A).length) = some zl' ∧ WellFormed zl' (A ++ cur :: es) ∧
      ziplistStrings zl' = ziplistStrings zl ∧ List.Forall₂ Widened rest es) ↔
        total (A ++ cur :: rest) + 4 * growth cur.size rest < 2 ^ 32 := by
  obtain ⟨c, hc, hmax, hzl⟩ := h.layout
  obtain ⟨hchained, hsize⟩ := (chained_append A [cur] 0).mp h.before
  obtain ⟨n, hrest⟩ := h.behind
  have hcur := h.valid cur (List.mem_append_right _ List.mem_cons_self)
  have hvalid : ∀ e ∈ rest, e.Valid := fun e he => h.valid e (List.mem_append_right _ (List.mem_cons_of_mem _ he))
  have hgrown := length_bytes_cascade rest cur
  have htotal : ∀ es, total (A ++ cur :: es) = ZIPLIST_HEADER_SIZE + (bytes A).length + (bytes (cur :: es)).length + 1 := by
    intro es
    rw [total, bytes_append, List.length_append, ← Nat.add_assoc]
  have hsum : total (A ++ cur :: cascade cur rest) = total (A ++ cur :: rest) + 4 * growth cur.size rest := by
    rw [htotal, htotal, bytes_cons, bytes_cons, List.length_append, List.length_append, hgrown]
    omega
  have hsmall := h.small
  rw [hzl, layout_block]
  constructor
  · rintro ⟨zl', es, hrun, -⟩
    by_contra hno
    rw [ziplistCascadeUpdate_overflow fresh c (bytes A) hcur hvalid (htotal rest ▸ hsmall) (by rw [← htotal]; omega)] at hrun
    cases hrun
  · intro hroom
    rw [← hsum] at hroom
    have hfits := hroom
    rw [htotal, bytes_cons, List.length_append] at hfits
    have hcursize : cur.bytes.length = cur.size := rfl
    have hwell : WellFormed (block c (bytes A) (cur :: cascade cur rest)) (A ++ cur :: cascade cur rest) := by
      refine ⟨fun e he => ?_, (chained_append _ _ 0).mpr ⟨hchained, hsize.1, chained_cascade rest cur n hrest⟩, hroom, c, ?_, hmax,
        (layout_block c A cur _).symm⟩
      · rcases List.mem_append.mp he with he | he
        · exact h.valid e (List.mem_append_left _ he)
        · rcases List.mem_cons.mp he with rfl | he
          · exact hcur
          · exact valid_cascade rest hvalid (by omega) (by omega) e he
      · rw [List.length_append, List.length_cons, (length_cascade rest cur).1, ← List.length_cons, ← List.length_append]
        exact hc
    refine ⟨_, _, ziplistCascadeUpdate_block fresh c (bytes A) hcur hvalid (htotal _ ▸ hroom), hwell, ?_, widened_cascade rest cur⟩
    obtain ⟨l', hl', htexts'⟩ := ziplistStrings_wellFormed hwell
    obtain ⟨l, hl, htexts⟩ := ziplistStrings_layout h.valid hsmall (total (A ++ cur :: rest)) (tailOffset (A ++ cur :: rest)) c
    rw [layout_block] at hl
    rw [hl, hl', Option.some.injEq]
    apply List.map_injective_iff.mpr (Option.some_injective _)
    rw [← htexts', ← htexts, List.map_append, List.map_append, List.map_cons, List.map_cons, text_cascade]

/-- A long entry before one that takes it for 7, and entries that follow as soon as it is 257 bytes long. -/
theorem misfit_long {n : ℕ} (hn : 567 + 253 * n < 2 ^ 32) :
    Misfit (block UINT16_MAX [] (long :: tight 7 :: List.replicate n (tight 253))) [] long (tight 7 :: List.replicate n (tight 253)) := by
  refine ⟨fun e he => packed_valid (n := n) ?_, ⟨rfl, trivial⟩, ⟨7, rfl, ?_⟩, ?_, ?_⟩
  · rcases List.mem_cons.mp he with rfl | he
    · exact List.mem_cons_self
    · exact List.mem_cons_of_mem _ (List.mem_cons_of_mem _ he)
  · rw [size_tight]
    exact chained_replicate n
  · rw [List.nil_append, total_long]
    exact hn
  · exact ⟨UINT16_MAX, .inr rfl, le_rfl, (layout_block UINT16_MAX [] long _).symm⟩

/-- The one that has the wrong length grows, and the last follows. -/
theorem ziplistCascadeUpdate_exact_long :
    (∃ zl' es, ziplistCascadeUpdate (fun _ => 0) (block UINT16_MAX [] (long :: tight 7 :: List.replicate 1 (tight 253)))
        (ZIPLIST_HEADER_SIZE + (bytes []).length) = some zl' ∧ WellFormed zl' ([] ++ long :: es) ∧
      ziplistStrings zl' = ziplistStrings (block UINT16_MAX [] (long :: tight 7 :: List.replicate 1 (tight 253))) ∧
      List.Forall₂ Widened (tight 7 :: List.replicate 1 (tight 253)) es) ↔
        total ([] ++ long :: tight 7 :: List.replicate 1 (tight 253)) + 4 * growth long.size (tight 7 :: List.replicate 1 (tight 253)) < 2 ^ 32 :=
  ziplistCascadeUpdate_exact (fun _ => 0) (misfit_long (by decide))

end RedisZk.Ziplist
