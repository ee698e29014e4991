/-
# The first and the last element of a range

`zslFirstInRange`, `zslLastInRange` and their siblings for ranges of elements are the
same walks with other conditions. A range is between two conditions, one that is met
from some place of the sorted set on and one that is met up to some place, and is
known to be empty from its ends in some cases. The code looks at the last node and at
the first one, walks to the cut of one condition and tests the other at the cut.

Key definitions: `Bounds`, `zslFirstInRange`, `zslLastInRange`, `zslFirstInLexRange`, `zslLastInLexRange`.
Key theorems: `zslFirstIn_spec`, `zslLastIn_spec`, `Sorted.scoreOrdered`, `Sorted.lexOrdered`.
-/
import RedisZk.Zset.Ops
import RedisZk.Lib.Interval

namespace RedisZk.Zset

open Interval

variable {σ : Type} {zsl : Zskiplist σ} {l pre post : List (Item σ)} {it : Item σ}

/-! ### Ranges -/

/-- What is tested of a range: that its ends leave nothing, and of a pair that it is not
below the min, and not above the max. -/
structure Bounds (σ : Type) where
  isEmpty : Bool
  gteMin : σ × Sds → Bool
  lteMax : σ × Sds → Bool

def Bounds.contains (range : Bounds σ) (r : σ × Sds) : Bool := range.gteMin r && range.lteMax r

/-- `sdscmplex`, of two bounds. -/
def sdscmplexBounds : LexBound → LexBound → Ordering
  | .minstring, .minstring => .eq
  | .maxstring, .maxstring => .eq
  | .minstring, _ => .lt
  | _, .maxstring => .lt
  | .maxstring, _ => .gt
  | _, .minstring => .gt
  | .str a, .str b => sdscmp a b

def ZrangeSpec.bounds [LinearOrder σ] (range : ZrangeSpec σ) : Bounds σ where
  isEmpty := decide (range.min > range.max ∨ range.min = range.max ∧ (range.minex = true ∨ range.maxex = true))
  gteMin := fun r => zslValueGteMin r.1 range
  lteMax := fun r => zslValueLteMax r.1 range

def ZlexRangeSpec.bounds (range : ZlexRangeSpec) : Bounds σ where
  isEmpty := decide (sdscmplexBounds range.min range.max = .gt ∨
    sdscmplexBounds range.min range.max = .eq ∧ (range.minex = true ∨ range.maxex = true))
  gteMin := fun r => zslLexValueGteMin r.2 range
  lteMax := fun r => zslLexValueLteMax r.2 range

/-! ### The walks -/

/-- `zslIsInRange` and `zslIsInLexRange`. -/
def zslIsIn (zsl : Zskiplist σ) (range : Bounds σ) : Except ZslAbort Bool :=
  if range.isEmpty then .ok false
  else
    match zsl.tail with
    | none => .ok false
    | some a => do
      let x ← zsl.node a
      if range.gteMin (x.score, x.ele) then do
        let l ← zsl.getLevel .header 0
        match l.forward with
        | none => .ok false
        | some a => do
          let x ← zsl.node a
          .ok (range.lteMax (x.score, x.ele))
      else .ok false

/-- "Go forward while *OUT* of range." -/
def zslFirstIn (zsl : Zskiplist σ) (range : Bounds σ) : Except ZslAbort (Option ℕ) := do
  if ← zslIsIn zsl range then
    let update ← zslSeek zsl (fun n _ => !range.gteMin (n.score, n.ele)) id
    match ← zslNext zsl update with
    | none => .error .assert
    | some a => do
      let x ← zsl.node a
      .ok (if range.lteMax (x.score, x.ele) then some a else none)
  else .ok none

/-- "Go forward while *IN* range." In the header there is no element to test. -/
def zslLastIn (zsl : Zskiplist σ) (range : Bounds σ) : Except ZslAbort (Option ℕ) := do
  if ← zslIsIn zsl range then
    let update ← zslSeek zsl (fun n _ => range.lteMax (n.score, n.ele)) id
    let (x, _) ← updateAt update 0
    match x with
    | .header => .error .wildPointer
    | .node a => do
      let x ← zsl.node a
      .ok (if range.gteMin (x.score, x.ele) then some a else none)
  else .ok none

section Names

variable [LinearOrder σ]

def zslIsInRange (zsl : Zskiplist σ) (range : ZrangeSpec σ) := zslIsIn zsl range.bounds
def zslFirstInRange (zsl : Zskiplist σ) (range : ZrangeSpec σ) := zslFirstIn zsl range.bounds
def zslLastInRange (zsl : Zskiplist σ) (range : ZrangeSpec σ) := zslLastIn zsl range.bounds

end Names

def zslIsInLexRange (zsl : Zskiplist σ) (range : ZlexRangeSpec) := zslIsIn zsl range.bounds
def zslFirstInLexRange (zsl : Zskiplist σ) (range : ZlexRangeSpec) := zslFirstIn zsl range.bounds
def zslLastInLexRange (zsl : Zskiplist σ) (range : ZlexRangeSpec) := zslLastIn zsl range.bounds

/-! ### Ranges of a row -/

/-- On a row of pairs a range is between a condition that rises and one that falls. -/
structure Bounds.Ordered (range : Bounds σ) (rs : List (σ × Sds)) : Prop where
  rising : Rising range.gteMin rs
  falling : Falling range.lteMax rs
  isEmpty : range.isEmpty = true → ∀ r ∈ rs, range.contains r = false

variable {range : Bounds σ}

theorem Bounds.contains_gte {r : σ × Sds} (h : range.gteMin r = false) : range.contains r = false := by
  rw [Bounds.contains, h, Bool.false_and]

theorem Bounds.contains_lte {r : σ × Sds} (h : range.lteMax r = false) : range.contains r = false := by
  rw [Bounds.contains, h, Bool.and_false]

/-- What the first and the last node tell: nothing is in the range, or there is a first
node up to the max and a last one from the min on. -/
theorem zslIsIn_spec (h : Linked zsl l) (hr : range.Ordered (l.map Item.pair)) :
    ∃ b, zslIsIn zsl range = .ok b ∧ (b = false → ∀ r ∈ l.map Item.pair, range.contains r = false) ∧
      (b = true → (∃ it ∈ l.head?, range.lteMax it.pair = true) ∧ ∃ it ∈ l.getLast?, range.gteMin it.pair = true) := by
  unfold zslIsIn
  cases hempty : range.isEmpty with
  | true => exact ⟨false, rfl, fun _ => hr.isEmpty hempty, nofun⟩
  | false =>
    rw [if_neg Bool.false_ne_true, h.tail]
    rcases List.eq_nil_or_concat l with rfl | ⟨e, z, rfl⟩
    · exact ⟨false, rfl, fun _ => by simp, nofun⟩
    · rw [List.concat_eq_append] at h hr ⊢
      obtain ⟨n, hn, hele, hscore, -⟩ := h.node_of e z [] rfl
      have hpair : (n.score, n.ele) = z.pair := by rw [hele, hscore]; rfl
      simp only [List.getLast?_concat, Option.map_some, node_eq hn, bind, Except.bind, hpair]
      cases hz : range.gteMin z.pair with
      | false =>
        refine ⟨false, rfl, fun _ r hin => Bounds.contains_gte ?_, nofun⟩
        have hrise := hr.rising
        rw [List.map_append] at hrise hin
        exact hrise.none_of_last hz r hin
      | true =>
        have hlink := h.link [] (e ++ [z]) 0 rfl h.level.1 .nil
        rw [lastRef_nil] at hlink
        obtain ⟨y, q, hyq⟩ : ∃ y q, e ++ [z] = y :: q := by
          cases e with
          | nil => exact ⟨z, [], rfl⟩
          | cons y e => exact ⟨y, e ++ [z], rfl⟩
        have hfirst : (linkTo 0 (y :: q)).forward = some y.addr := by
          rw [linkTo, nextTower_zero fun it hit => (h.heights it (hyq ▸ hit)).1]
          rfl
        obtain ⟨m, hm, hmele, hmscore, -⟩ := h.node_of [] y q hyq
        have hmpair : (m.score, m.ele) = y.pair := by rw [hmele, hmscore]; rfl
        rw [if_pos rfl, hlink]
        simp only [hyq, hfirst, node_eq hm, hmpair]
        refine ⟨_, rfl, fun hfalse r hin => Bounds.contains_lte ?_, fun htrue => ⟨⟨y, by simp, htrue⟩, z, by simp, hz⟩⟩
        have hfall := hr.falling
        rw [hyq] at hfall
        rw [List.map_cons] at hfall hin
        exact hfall.none_of_first hfalse r hin

theorem map_pair_split (hl : l = pre ++ it :: post) :
    l.map Item.pair = pre.map Item.pair ++ it.pair :: post.map Item.pair := by
  rw [hl, List.map_append, List.map_cons]

theorem getElem?_split (hl : l = pre ++ it :: post) : l[(pre.map Item.pair).length]? = some it := by
  rw [hl, List.length_map, List.getElem?_append_right le_rfl, Nat.sub_self]
  rfl

/-- The first node of the range, or NULL if there is none. -/
theorem zslFirstIn_spec (h : Linked zsl l) (hr : range.Ordered (l.map Item.pair)) :
    zslFirstIn zsl range = .ok (((l.map Item.pair).findIdx? range.contains).bind fun i => l[i]?.map Item.addr) := by
  obtain ⟨b, hb, hnone, hsome⟩ := zslIsIn_spec h hr
  unfold zslFirstIn
  rw [hb]
  cases b with
  | false =>
    rw [findIdx?_none (hnone rfl)]
    rfl
  | true =>
    obtain ⟨-, z, hz, hzmin⟩ := hsome rfl
    obtain ⟨pre, post, update, hl, hseek, -, hfeet, hhead, hlast⟩ := zslSeek_spec h
      (sees_of (A := fun it => !range.gteMin it.pair) (f := fun n => !range.gteMin (n.score, n.ele))
        fun n it hele hscore => by rw [hele, hscore]; rfl) rfl
    have hnext := zslNext_spec (hl ▸ h : Linked zsl (pre ++ post)) hfeet
    -- before the cut, no pair is from the min on
    have hpre : ∀ r ∈ pre.map Item.pair, range.gteMin r = false := by
      rcases List.eq_nil_or_concat pre with rfl | ⟨e, y, rfl⟩
      · simp
      · have hrise := hr.rising
        rw [hl, List.concat_eq_append, List.append_assoc, List.map_append, List.map_append, ← List.append_assoc] at hrise
        have hy : range.gteMin y.pair = false := by
          have hout := hlast e y (List.concat_eq_append ..)
          rwa [Bool.not_eq_true'] at hout
        rw [List.concat_eq_append, List.map_append]
        exact Rising.none_of_last (List.pairwise_append.mp hrise).1 hy
    have hpost : ∃ it q, post = it :: q := by
      cases post with
      | cons it q => exact ⟨it, q, rfl⟩
      | nil =>
        rw [List.append_nil] at hl
        have hout := hpre z.pair (List.mem_map_of_mem (hl ▸ List.mem_of_mem_getLast? hz))
        rw [hzmin] at hout
        cases hout
    obtain ⟨it, q, rfl⟩ := hpost
    have hmin : range.gteMin it.pair = true := by
      have hin := hhead it q rfl
      rwa [Bool.not_eq_false'] at hin
    obtain ⟨n, hn, hele, hscore, -⟩ := h.node_of pre it q hl
    have hpair : (n.score, n.ele) = it.pair := by rw [hele, hscore]; rfl
    have hfall := hr.falling
    rw [map_pair_split hl] at hfall ⊢
    have hfirst : ((pre.map Item.pair ++ it.pair :: q.map Item.pair).findIdx? range.contains) = _ :=
      first_between hfall hpre hmin
    rw [hfirst]
    simp only [bind, Except.bind, if_pos, hseek, hnext, List.head?_cons, Option.map_some, node_eq hn, hpair]
    split
    · rw [Option.bind_some, getElem?_split hl]
      rfl
    · rfl

/-- The last node of the range, or NULL if there is none. -/
theorem zslLastIn_spec (h : Linked zsl l) (hr : range.Ordered (l.map Item.pair)) :
    zslLastIn zsl range = .ok ((lastIdx range.contains (l.map Item.pair)).bind fun i => l[i]?.map Item.addr) := by
  obtain ⟨b, hb, hnone, hsome⟩ := zslIsIn_spec h hr
  unfold zslLastIn
  rw [hb]
  cases b with
  | false =>
    rw [lastIdx_none (hnone rfl)]
    rfl
  | true =>
    obtain ⟨⟨y, hy, hymax⟩, -⟩ := hsome rfl
    obtain ⟨pre, post, update, hl, hseek, -, hfeet, hhead, hlast⟩ := zslSeek_spec h
      (sees_of (A := fun it => range.lteMax it.pair) (f := fun n => range.lteMax (n.score, n.ele))
        fun n it hele hscore => by rw [hele, hscore]; rfl) rfl
    -- behind the cut, no pair is up to the max
    have hpost : ∀ r ∈ post.map Item.pair, range.lteMax r = false := by
      cases post with
      | nil => simp
      | cons z q =>
        have hfall := hr.falling
        rw [hl, List.map_append] at hfall
        exact Falling.none_of_first (List.pairwise_append.mp hfall).2.1 (hhead z q rfl)
    have hpre : ∃ e it, pre = e ++ [it] := by
      rcases List.eq_nil_or_concat pre with rfl | ⟨e, it, rfl⟩
      · rw [List.nil_append] at hl
        have hout := hpost y.pair (List.mem_map_of_mem (hl ▸ List.mem_of_mem_head? hy))
        rw [hymax] at hout
        cases hout
      · exact ⟨e, it, List.concat_eq_append ..⟩
    obtain ⟨e, it, rfl⟩ := hpre
    have hmax : range.lteMax it.pair = true := hlast e it rfl
    have hfoot := (hl ▸ h : Linked zsl (e ++ [it] ++ post)).feet_zero hfeet
    replace hl : l = e ++ it :: post := by rw [hl, List.append_assoc, List.singleton_append]
    obtain ⟨n, hn, hele, hscore, -⟩ := h.node_of e it post hl
    have hpair : (n.score, n.ele) = it.pair := by rw [hele, hscore]; rfl
    have hrise := hr.rising
    rw [map_pair_split hl] at hrise ⊢
    have hlastIdx : lastIdx range.contains (e.map Item.pair ++ it.pair :: post.map Item.pair) = _ :=
      last_between hrise hpost hmax
    rw [hlastIdx]
    simp only [bind, Except.bind, if_pos, hseek, updateAt_eq hfoot, lastRef_concat, node_eq hn, hpair]
    split
    · rw [Option.bind_some, getElem?_split hl]
      rfl
    · rfl

/-! ### Scores and elements in order -/

section Order

variable [LinearOrder σ]

theorem gteMin_mono {a b : σ} (hab : a ≤ b) (range : ZrangeSpec σ) (h : zslValueGteMin a range = true) :
    zslValueGteMin b range = true := by
  unfold zslValueGteMin at h ⊢
  split at h
  · rename_i hex
    rw [if_pos hex]
    exact decide_eq_true (lt_of_lt_of_le (of_decide_eq_true h) hab)
  · rename_i hex
    rw [if_neg hex]
    exact decide_eq_true (le_trans (of_decide_eq_true (p := range.min ≤ a) h) hab)

theorem lteMax_mono {a b : σ} (hab : a ≤ b) (range : ZrangeSpec σ) (h : zslValueLteMax b range = true) :
    zslValueLteMax a range = true := by
  unfold zslValueLteMax at h ⊢
  split at h
  · rename_i hex
    rw [if_pos hex]
    exact decide_eq_true (lt_of_le_of_lt hab (of_decide_eq_true h))
  · rename_i hex
    rw [if_neg hex]
    exact decide_eq_true (hab.trans (of_decide_eq_true h))

/-- A range of scores, on a row in order. -/
theorem Sorted.scoreOrdered (hs : Sorted l) (range : ZrangeSpec σ) : range.bounds.Ordered (l.map Item.pair) := by
  have hle : l.Pairwise fun a b => a.score ≤ b.score := by
    refine List.Pairwise.imp ?_ hs
    intro a b hab
    rcases key_lt_iff.mp hab with hlt | ⟨heq, -⟩
    · exact hlt.le
    · exact heq.le
  refine ⟨List.pairwise_map.mpr (hle.imp fun hab => gteMin_mono hab range),
    List.pairwise_map.mpr (hle.imp fun hab => lteMax_mono hab range), fun hempty r _ => ?_⟩
  have hends := of_decide_eq_true hempty
  rw [Bounds.contains, Bool.and_eq_false_iff]
  change zslValueGteMin r.1 range = false ∨ zslValueLteMax r.1 range = false
  by_contra hin
  push Not at hin
  have hmin : zslValueGteMin r.1 range = true := Bool.eq_true_of_not_eq_false hin.1
  have hmax : zslValueLteMax r.1 range = true := Bool.eq_true_of_not_eq_false hin.2
  have hlo : range.min ≤ r.1 := by
    unfold zslValueGteMin at hmin
    split at hmin
    · exact (of_decide_eq_true hmin).le
    · exact of_decide_eq_true hmin
  have hhi : r.1 ≤ range.max := by
    unfold zslValueLteMax at hmax
    split at hmax
    · exact (of_decide_eq_true hmax).le
    · exact of_decide_eq_true hmax
  rcases hends with hgt | ⟨heq, hex | hex⟩
  · exact absurd (hlo.trans hhi) (not_le.mpr hgt)
  · rw [zslValueGteMin, if_pos hex] at hmin
    exact absurd (heq ▸ hhi) (not_le.mpr (of_decide_eq_true hmin))
  · rw [zslValueLteMax, if_pos hex] at hmax
    exact absurd (heq ▸ hlo) (not_le.mpr (of_decide_eq_true hmax))

theorem lexGteMin_mono {a b : Sds} (hab : a < b) (range : ZlexRangeSpec) (h : zslLexValueGteMin a range = true) :
    zslLexValueGteMin b range = true := by
  obtain ⟨h1, h2⟩ := sdscmplex_mono hab range.min
  unfold zslLexValueGteMin at h ⊢
  split at h
  · rename_i hex
    rw [if_pos hex, beq_iff_eq]
    rw [beq_iff_eq] at h
    by_contra hb
    exact h2 hb h
  · rename_i hex
    rw [if_neg hex, bne_iff_ne]
    rw [bne_iff_ne] at h
    exact fun hb => h (h1 hb)

theorem lexLteMax_mono {a b : Sds} (hab : a < b) (range : ZlexRangeSpec) (h : zslLexValueLteMax b range = true) :
    zslLexValueLteMax a range = true := by
  obtain ⟨h1, h2⟩ := sdscmplex_mono hab range.max
  unfold zslLexValueLteMax at h ⊢
  split at h
  · rename_i hex
    rw [if_pos hex, beq_iff_eq]
    exact h1 (beq_iff_eq.mp h)
  · rename_i hex
    rw [if_neg hex, bne_iff_ne]
    exact h2 (bne_iff_ne.mp h)

/-- Where a string is from the min on and up to the max, the min is up to the max, and the same
only if the string is both. -/
theorem sdscmplexBounds_of_between {a : Sds} {min max : LexBound} (hmin : sdscmplex a min ≠ .lt) (hmax : sdscmplex a max ≠ .gt) :
    sdscmplexBounds min max ≠ .gt ∧
      (sdscmplexBounds min max = .eq → sdscmplex a min = .eq ∧ sdscmplex a max = .eq) := by
  cases min with
  | minstring =>
    cases max with
    | minstring => exact absurd rfl hmax
    | maxstring => exact ⟨nofun, nofun⟩
    | str c => exact ⟨nofun, nofun⟩
  | maxstring => exact absurd rfl hmin
  | str b =>
    cases max with
    | minstring => exact absurd rfl hmax
    | maxstring => exact ⟨nofun, nofun⟩
    | str c =>
      have hba : b ≤ a := by
        have hcmp := sdscmp_spec a b
        change sdscmp a b ≠ .lt at hmin
        cases hm : sdscmp a b with
        | lt => exact absurd hm hmin
        | gt =>
          rw [hm] at hcmp
          exact hcmp.le
        | eq =>
          rw [hm] at hcmp
          exact hcmp.ge
      have hac : a ≤ c := by
        have hcmp := sdscmp_spec a c
        change sdscmp a c ≠ .gt at hmax
        cases hm : sdscmp a c with
        | gt => exact absurd hm hmax
        | lt =>
          rw [hm] at hcmp
          exact hcmp.le
        | eq =>
          rw [hm] at hcmp
          exact hcmp.le
      change sdscmp b c ≠ .gt ∧ (sdscmp b c = .eq → sdscmp a b = .eq ∧ sdscmp a c = .eq)
      constructor
      · intro hgt
        have hcmp := sdscmp_spec b c
        rw [hgt] at hcmp
        exact absurd (hba.trans hac) (not_le.mpr hcmp)
      · intro heq
        have hbc := sdscmp_eq_eq.mp heq
        rw [← hbc] at hac ⊢
        have hab := le_antisymm hac hba
        exact ⟨sdscmp_eq_eq.mpr hab, sdscmp_eq_eq.mpr hab⟩

/-- A range of elements, on a row in order with one score. -/
theorem Sorted.lexOrdered (hs : Sorted l) (hone : ∀ a ∈ l, ∀ b ∈ l, a.score = b.score) (range : ZlexRangeSpec) :
    (range.bounds : Bounds σ).Ordered (l.map Item.pair) := by
  have hlt : l.Pairwise fun a b => a.ele < b.ele := by
    refine hs.imp_of_mem ?_
    intro a b ha hb hab
    rcases key_lt_iff.mp hab with hlt | ⟨-, hlt⟩
    · exact absurd (hone a ha b hb) hlt.ne
    · exact hlt
  refine ⟨List.pairwise_map.mpr (hlt.imp fun hab => lexGteMin_mono hab range),
    List.pairwise_map.mpr (hlt.imp fun hab => lexLteMax_mono hab range), fun hempty r _ => ?_⟩
  have hends := of_decide_eq_true hempty
  rw [Bounds.contains, Bool.and_eq_false_iff]
  change zslLexValueGteMin r.2 range = false ∨ zslLexValueLteMax r.2 range = false
  by_contra hin
  push Not at hin
  have hmin : zslLexValueGteMin r.2 range = true := Bool.eq_true_of_not_eq_false hin.1
  have hmax : zslLexValueLteMax r.2 range = true := Bool.eq_true_of_not_eq_false hin.2
  have hlo : sdscmplex r.2 range.min ≠ .lt := by
    unfold zslLexValueGteMin at hmin
    split at hmin
    · rw [beq_iff_eq] at hmin
      rw [hmin]
      nofun
    · exact bne_iff_ne.mp hmin
  have hhi : sdscmplex r.2 range.max ≠ .gt := by
    unfold zslLexValueLteMax at hmax
    split at hmax
    · rw [beq_iff_eq] at hmax
      rw [hmax]
      nofun
    · exact bne_iff_ne.mp hmax
  obtain ⟨hgt, heq⟩ := sdscmplexBounds_of_between hlo hhi
  rcases hends with hends | ⟨hends, hex | hex⟩
  · exact hgt hends
  · rw [zslLexValueGteMin, if_pos hex, (heq hends).1] at hmin
    cases hmin
  · rw [zslLexValueLteMax, if_pos hex, (heq hends).2] at hmax
    cases hmax

end Order

end RedisZk.Zset
