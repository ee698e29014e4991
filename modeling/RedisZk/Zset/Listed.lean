/-
# Sorted sets in a ziplist

A small sorted set is a ziplist of its pairs in order, each an element and the text of
its score, and the functions for ranges go through it from the front or from the
back. On a ziplist that holds the pairs of a row they come to the same place as the
walks of a skip list.

What `strtod` makes of a text, and a conversion of a number, are given.

Key definitions: `zzlFirstInRange`, `zzlLastInRange`, `zzlFirstInLexRange`, `zzlLastInLexRange`, `Holds`.
Key theorems: `zzlFirstIn_spec`, `zzlLastIn_spec`.
-/
import RedisZk.Zset.Range
import RedisZk.Ziplist.Merge

namespace RedisZk.Zset

open Interval
open Ziplist (WellFormed Entry place ziplistIndex ziplistNext ziplistPrev ziplistGet)

variable {σ : Type}

/-! ### Elements and scores -/

section Values

variable (strtod : Sds → σ) (ofLongLong : ℤ → σ)

/-- The text is copied into 128 bytes, with a zero behind it. -/
def zzlGetScore (zl : Sds) (sptr : ℕ) : Option σ := do
  match ← ziplistGet (zl.drop sptr) with
  | .str s => if s.length < 128 then some (strtod s) else none
  | .int v => some (ofLongLong v)

def ziplistGetObject (zl : Sds) (sptr : ℕ) : Option Sds := (ziplistGet (zl.drop sptr)).map Ziplist.Value.text

/-- The score of the element at `eptr`. -/
def zzlScoreOf (zl : Sds) (eptr : ℕ) : Option σ := do
  -- serverAssert(sptr != NULL)
  let sptr ← ← ziplistNext zl eptr
  zzlGetScore strtod ofLongLong zl sptr

end Values

/-! ### Walks -/

/-- `zzlIsInRange` and `zzlIsInLexRange`: the tests, of what is at the last index and at the first. -/
def zzlIsIn (zl : Sds) (isEmpty : Bool) (last first : ℤ) (gteMin lteMax : ℕ → Option Bool) : Option Bool :=
  if isEmpty then some false
  else do
    match ← ziplistIndex zl last with
    | none => some false
    | some p => do
      if ← gteMin p then do
        -- serverAssert(p != NULL)
        let p ← ← ziplistIndex zl first
        lteMax p
      else some false

/-- The loop from the front. -/
def zzlFirstFrom (zl : Sds) (gteMin lteMax : ℕ → Option Bool) : ℕ → Option ℕ → Option (Option ℕ)
  | _, none => some none
  | 0, some _ => none
  | fuel + 1, some eptr => do
    if ← gteMin eptr then do
      let inside ← lteMax eptr
      some (if inside then some eptr else none)
    else do
      -- serverAssert(sptr != NULL)
      let sptr ← ← ziplistNext zl eptr
      let eptr ← ziplistNext zl sptr
      zzlFirstFrom zl gteMin lteMax fuel eptr

/-- The loop from the back. -/
def zzlLastFrom (zl : Sds) (gteMin lteMax : ℕ → Option Bool) : ℕ → Option ℕ → Option (Option ℕ)
  | _, none => some none
  | 0, some _ => none
  | fuel + 1, some eptr => do
    if ← lteMax eptr then do
      let inside ← gteMin eptr
      some (if inside then some eptr else none)
    else do
      match ← ziplistPrev zl eptr with
      | none => some none
      | some sptr => do
        -- serverAssert((eptr = ziplistPrev(zl,sptr)) != NULL)
        let eptr ← ← ziplistPrev zl sptr
        zzlLastFrom zl gteMin lteMax fuel (some eptr)

def zzlFirstIn (zl : Sds) (isIn : Option Bool) (gteMin lteMax : ℕ → Option Bool) : Option (Option ℕ) := do
  let eptr ← ziplistIndex zl 0
  if ← isIn then zzlFirstFrom zl gteMin lteMax (zl.length + 1) eptr else some none

def zzlLastIn (zl : Sds) (isIn : Option Bool) (gteMin lteMax : ℕ → Option Bool) : Option (Option ℕ) := do
  let eptr ← ziplistIndex zl (-2)
  if ← isIn then zzlLastFrom zl gteMin lteMax (zl.length + 1) eptr else some none

section Score

variable [LinearOrder σ] (strtod : Sds → σ) (ofLongLong : ℤ → σ)

def zzlIsInRange (zl : Sds) (range : ZrangeSpec σ) : Option Bool :=
  zzlIsIn zl (range.bounds).isEmpty (-1) 1 (fun p => (zzlGetScore strtod ofLongLong zl p).map (zslValueGteMin · range))
    fun p => (zzlGetScore strtod ofLongLong zl p).map (zslValueLteMax · range)

def zzlFirstInRange (zl : Sds) (range : ZrangeSpec σ) : Option (Option ℕ) :=
  zzlFirstIn zl (zzlIsInRange strtod ofLongLong zl range)
    (fun eptr => (zzlScoreOf strtod ofLongLong zl eptr).map (zslValueGteMin · range))
    fun eptr => (zzlScoreOf strtod ofLongLong zl eptr).map (zslValueLteMax · range)

def zzlLastInRange (zl : Sds) (range : ZrangeSpec σ) : Option (Option ℕ) :=
  zzlLastIn zl (zzlIsInRange strtod ofLongLong zl range)
    (fun eptr => (zzlScoreOf strtod ofLongLong zl eptr).map (zslValueGteMin · range))
    fun eptr => (zzlScoreOf strtod ofLongLong zl eptr).map (zslValueLteMax · range)

end Score

def zzlLexValueGteMin (zl : Sds) (p : ℕ) (spec : ZlexRangeSpec) : Option Bool :=
  (ziplistGetObject zl p).map (zslLexValueGteMin · spec)

def zzlLexValueLteMax (zl : Sds) (p : ℕ) (spec : ZlexRangeSpec) : Option Bool :=
  (ziplistGetObject zl p).map (zslLexValueLteMax · spec)

def zzlIsInLexRange (zl : Sds) (range : ZlexRangeSpec) : Option Bool :=
  zzlIsIn zl (range.bounds : Bounds ℕ).isEmpty (-2) 0 (zzlLexValueGteMin zl · range) (zzlLexValueLteMax zl · range)

def zzlFirstInLexRange (zl : Sds) (range : ZlexRangeSpec) : Option (Option ℕ) :=
  zzlFirstIn zl (zzlIsInLexRange zl range) (zzlLexValueGteMin zl · range) (zzlLexValueLteMax zl · range)

def zzlLastInLexRange (zl : Sds) (range : ZlexRangeSpec) : Option (Option ℕ) :=
  zzlLastIn zl (zzlIsInLexRange zl range) (zzlLexValueGteMin zl · range) (zzlLexValueLteMax zl · range)

/-! ### Ziplists of pairs -/

/-- The ziplist holds the pairs: in turn, an element and its score are read at its entries. -/
structure Holds (strtod : Sds → σ) (ofLongLong : ℤ → σ) (zl : Sds) (es : List Entry) (rs : List (σ × Sds)) : Prop where
  wellFormed : WellFormed zl es
  length : es.length = 2 * rs.length
  element : ∀ i r, rs[i]? = some r → ziplistGetObject zl (place es (2 * i)) = some r.2
  score : ∀ i r, rs[i]? = some r → zzlGetScore strtod ofLongLong zl (place es (2 * i + 1)) = some r.1

variable {strtod : Sds → σ} {ofLongLong : ℤ → σ} {zl : Sds} {es : List Entry} {rs a b : List (σ × Sds)} {range : Bounds σ}
  {gteMin lteMax : ℕ → Option Bool}

/-- A test at the entry of an element is that of its pair. -/
def TestsAt (es : List Entry) (rs : List (σ × Sds)) (test : ℕ → Option Bool) (P : σ × Sds → Bool) (k : ℕ) : Prop :=
  ∀ i r, rs[i]? = some r → test (place es (2 * i + k)) = some (P r)

theorem Holds.scoreOf (h : Holds strtod ofLongLong zl es rs) {i : ℕ} {r : σ × Sds} (hr : rs[i]? = some r) :
    zzlScoreOf strtod ofLongLong zl (place es (2 * i)) = some r.1 := by
  obtain ⟨hi, -⟩ := List.getElem?_eq_some_iff.mp hr
  have hlen := h.length
  have hnext := Ziplist.ziplistNext_place h.wellFormed (show 2 * i < es.length by omega)
  rw [if_pos (by omega)] at hnext
  simp only [zzlScoreOf, hnext, bind, Option.bind, h.score i r hr]

theorem length_le_zl (h : WellFormed zl es) : es.length ≤ zl.length := by
  obtain ⟨c, -, -, hzl⟩ := h.layout
  have hbytes := Ziplist.length_le_bytes es
  rw [hzl, Ziplist.length_layout, List.length_append]
  omega

theorem getElem?_middle {r : σ × Sds} (hrs : rs = a ++ r :: b) : rs[a.length]? = some r := by
  rw [hrs, List.getElem?_append_right le_rfl, Nat.sub_self]
  rfl

/-- What the last and the first pair tell. -/
theorem zzlIsIn_spec (h : Holds strtod ofLongLong zl es rs) (hr : range.Ordered rs) {k : ℕ} (hk : k < 2)
    (hgte : TestsAt es rs gteMin range.gteMin k) (hlte : TestsAt es rs lteMax range.lteMax k) :
    ∃ b, zzlIsIn zl range.isEmpty (k - 2) k gteMin lteMax = some b ∧ (b = false → ∀ r ∈ rs, range.contains r = false) := by
  unfold zzlIsIn
  have hlen := h.length
  cases hempty : range.isEmpty with
  | true => exact ⟨false, rfl, fun _ => hr.isEmpty hempty⟩
  | false =>
    rw [if_neg Bool.false_ne_true]
    rcases List.eq_nil_or_concat rs with rfl | ⟨a, z, rfl⟩
    · obtain rfl : es = [] := List.length_eq_zero_iff.mp hlen
      rw [Ziplist.ziplistIndex_empty h.wellFormed]
      exact ⟨false, rfl, fun _ => by simp⟩
    · rw [List.concat_eq_append] at hlen hgte hlte hr ⊢
      rw [List.length_append, List.length_singleton] at hlen
      have hlast : ziplistIndex zl ((k : ℤ) - 2) = some (some (place es (2 * a.length + k))) :=
        Ziplist.ziplistIndex_place h.wellFormed (by omega) (.inr (by rw [hlen]; push_cast; omega))
      have hz := hgte a.length z (getElem?_middle rfl)
      simp only [hlast, hz, bind, Option.bind]
      cases hzmin : range.gteMin z with
      | false => exact ⟨false, rfl, fun _ r hin => Bounds.contains_gte (hr.rising.none_of_last hzmin r hin)⟩
      | true =>
        obtain ⟨y, q, hyq⟩ : ∃ y q, a ++ [z] = y :: q := by
          cases a with
          | nil => exact ⟨z, [], rfl⟩
          | cons y a => exact ⟨y, a ++ [z], rfl⟩
        have hfirst : ziplistIndex zl (k : ℤ) = some (some (place es k)) :=
          Ziplist.ziplistIndex_place h.wellFormed (by omega) (.inl rfl)
        have hy := hlte 0 y (by rw [hyq]; rfl)
        rw [Nat.mul_zero, Nat.zero_add] at hy
        rw [if_pos rfl]
        simp only [hfirst, hy]
        refine ⟨_, rfl, fun hfalse r hin => ?_⟩
        have hfall := hr.falling
        rw [hyq] at hfall hin
        exact Bounds.contains_lte (hfall.none_of_first hfalse r hin)

/-- From the front, behind pairs below the min. -/
theorem zzlFirstFrom_spec (h : Holds strtod ofLongLong zl es rs) (hr : range.Ordered rs)
    (hgte : TestsAt es rs gteMin range.gteMin 0) (hlte : TestsAt es rs lteMax range.lteMax 0) (fuel : ℕ)
    (a b : List (σ × Sds)) (hrs : rs = a ++ b) (hfuel : b.length < fuel) (ha : ∀ r ∈ a, range.gteMin r = false) :
    zzlFirstFrom zl gteMin lteMax fuel (if a.length < rs.length then some (place es (2 * a.length)) else none) =
      some ((rs.findIdx? range.contains).map fun i => place es (2 * i)) := by
  induction fuel generalizing a b with
  | zero => omega
  | succ fuel ih =>
    have hlen := h.length
    cases b with
    | nil =>
      rw [List.append_nil] at hrs
      rw [if_neg (by rw [hrs]; omega), hrs, findIdx?_none fun r hin => Bounds.contains_gte (ha r hin)]
      rfl
    | cons r b =>
      have hrlen : a.length < rs.length := by rw [hrs, List.length_append, List.length_cons]; omega
      have hat := getElem?_middle hrs
      have hmin := hgte a.length r hat
      have hmax := hlte a.length r hat
      rw [Nat.add_zero] at hmin hmax
      rw [if_pos hrlen]
      simp only [zzlFirstFrom, hmin, bind, Option.bind]
      cases hrmin : range.gteMin r with
      | true =>
        have hfall := hr.falling
        rw [hrs] at hfall
        have hfirst : (a ++ r :: b).findIdx? range.contains = _ := first_between hfall ha hrmin
        rw [if_pos rfl, hmax, hrs, hfirst]
        cases range.lteMax r with
        | true => rfl
        | false => rfl
      | false =>
        have hnext1 := Ziplist.ziplistNext_place h.wellFormed (show 2 * a.length < es.length by omega)
        have hnext2 := Ziplist.ziplistNext_place h.wellFormed (show 2 * a.length + 1 < es.length by omega)
        rw [if_pos (by omega)] at hnext1
        have hstep := ih (a ++ [r]) b (by rw [hrs, List.append_assoc]; rfl) (by rw [List.length_cons] at hfuel; omega) fun y hy => by
          rcases List.mem_append.mp hy with hy | hy
          · exact ha y hy
          · rw [List.mem_singleton.mp hy]
            exact hrmin
        have hptr : (if (a ++ [r]).length < rs.length then some (place es (2 * (a ++ [r]).length)) else none) =
            if 2 * a.length + 1 + 1 < es.length then some (place es (2 * a.length + 1 + 1)) else none := by
          rw [List.length_append, List.length_singleton]
          by_cases hmore : a.length + 1 < rs.length
          · rw [if_pos hmore, if_pos (by omega), Nat.mul_add]
          · rw [if_neg hmore, if_neg (by omega)]
        rw [hptr] at hstep
        rw [if_neg Bool.false_ne_true]
        simp only [hnext1, hnext2, hstep]

/-- From the back, before pairs that are not up to the max. -/
theorem zzlLastFrom_spec (h : Holds strtod ofLongLong zl es rs) (hr : range.Ordered rs)
    (hgte : TestsAt es rs gteMin range.gteMin 0) (hlte : TestsAt es rs lteMax range.lteMax 0) (fuel : ℕ)
    (a b : List (σ × Sds)) (hrs : rs = a ++ b) (hfuel : a.length < fuel) (hb : ∀ r ∈ b, range.lteMax r = false) :
    zzlLastFrom zl gteMin lteMax fuel (if 0 < a.length then some (place es (2 * (a.length - 1))) else none) =
      some ((lastIdx range.contains rs).map fun i => place es (2 * i)) := by
  induction fuel generalizing a b with
  | zero => omega
  | succ fuel ih =>
    have hlen := h.length
    rcases List.eq_nil_or_concat a with rfl | ⟨a, r, rfl⟩
    · rw [List.nil_append] at hrs
      rw [hrs, lastIdx_none fun r hin => Bounds.contains_lte (hb r hin)]
      rfl
    · rw [List.concat_eq_append] at hrs hfuel ⊢
      rw [List.append_assoc, List.singleton_append] at hrs
      rw [List.length_append, List.length_singleton] at hfuel ⊢
      have hrlen : a.length < rs.length := by rw [hrs, List.length_append, List.length_cons]; omega
      have hat := getElem?_middle hrs
      have hmin := hgte a.length r hat
      have hmax := hlte a.length r hat
      rw [Nat.add_zero] at hmin hmax
      rw [if_pos (Nat.succ_pos _), Nat.add_sub_cancel]
      simp only [zzlLastFrom, hmax, bind, Option.bind]
      cases hrmax : range.lteMax r with
      | true =>
        have hrise := hr.rising
        rw [hrs] at hrise
        have hlast : lastIdx range.contains (a ++ r :: b) = _ := last_between hrise hb hrmax
        rw [if_pos rfl, hmin, hrs, hlast]
        cases range.gteMin r with
        | true => rfl
        | false => rfl
      | false =>
        have hstep := ih a (r :: b) hrs (by omega) fun y hy => by
          rcases List.mem_cons.mp hy with rfl | hy
          · exact hrmax
          · exact hb y hy
        rw [if_neg Bool.false_ne_true]
        by_cases hfirst : a.length = 0
        · rw [hfirst, Nat.mul_zero, Ziplist.ziplistPrev_zero h.wellFormed]
          rw [hfirst, if_neg (Nat.lt_irrefl 0)] at hstep
          cases fuel with
          | zero => exact hstep
          | succ fuel => exact hstep
        · obtain ⟨k, hk⟩ : ∃ k, a.length = k + 1 := ⟨a.length - 1, by omega⟩
          have hprev1 := Ziplist.ziplistPrev_place h.wellFormed (show 2 * k + 1 < es.length by omega)
          have hprev2 := Ziplist.ziplistPrev_place h.wellFormed (show 2 * k < es.length by omega)
          rw [hk, if_pos (Nat.succ_pos k), Nat.add_sub_cancel] at hstep
          rw [hk, show 2 * (k + 1) = 2 * k + 1 + 1 by omega]
          simp only [hprev1, hprev2, hstep]

theorem zzlFirstIn_spec (h : Holds strtod ofLongLong zl es rs) (hr : range.Ordered rs) {isIn : Bool}
    (hnone : isIn = false → ∀ r ∈ rs, range.contains r = false)
    (hgte : TestsAt es rs gteMin range.gteMin 0) (hlte : TestsAt es rs lteMax range.lteMax 0) :
    zzlFirstIn zl (some isIn) gteMin lteMax = some ((rs.findIdx? range.contains).map fun i => place es (2 * i)) := by
  have hlen := h.length
  have hle := length_le_zl h.wellFormed
  have hindex : ziplistIndex zl 0 = some (if 0 < rs.length then some (place es (2 * 0)) else none) := by
    by_cases hpos : 0 < rs.length
    · rw [if_pos hpos]
      exact Ziplist.ziplistIndex_place h.wellFormed (by omega) (.inl rfl)
    · rw [if_neg hpos]
      obtain rfl : es = [] := List.length_eq_zero_iff.mp (by omega)
      exact Ziplist.ziplistIndex_empty h.wellFormed 0
  unfold zzlFirstIn
  simp only [hindex, bind, Option.bind]
  cases isIn with
  | false =>
    rw [findIdx?_none (hnone rfl)]
    rfl
  | true =>
    rw [if_pos rfl]
    exact zzlFirstFrom_spec h hr hgte hlte (zl.length + 1) [] rs rfl (by omega) (by simp)

theorem zzlLastIn_spec (h : Holds strtod ofLongLong zl es rs) (hr : range.Ordered rs) {isIn : Bool}
    (hnone : isIn = false → ∀ r ∈ rs, range.contains r = false)
    (hgte : TestsAt es rs gteMin range.gteMin 0) (hlte : TestsAt es rs lteMax range.lteMax 0) :
    zzlLastIn zl (some isIn) gteMin lteMax = some ((lastIdx range.contains rs).map fun i => place es (2 * i)) := by
  have hlen := h.length
  have hle := length_le_zl h.wellFormed
  have hindex : ziplistIndex zl (-2) = some (if 0 < rs.length then some (place es (2 * (rs.length - 1))) else none) := by
    by_cases hpos : 0 < rs.length
    · rw [if_pos hpos]
      exact Ziplist.ziplistIndex_place h.wellFormed (by omega) (.inr (by rw [hlen]; omega))
    · rw [if_neg hpos]
      obtain rfl : es = [] := List.length_eq_zero_iff.mp (by omega)
      exact Ziplist.ziplistIndex_empty h.wellFormed (-2)
  unfold zzlLastIn
  simp only [hindex, bind, Option.bind]
  cases isIn with
  | false =>
    rw [lastIdx_none (hnone rfl)]
    rfl
  | true =>
    rw [if_pos rfl]
    exact zzlLastFrom_spec h hr hgte hlte (zl.length + 1) rs [] (by simp) (by omega) (by simp)

/-! ### Scores and elements -/

theorem Holds.inScore [LinearOrder σ] (h : Holds strtod ofLongLong zl es rs) (range : ZrangeSpec σ)
    (hr : range.bounds.Ordered rs) :
    zzlFirstInRange strtod ofLongLong zl range =
        some ((rs.findIdx? range.bounds.contains).map fun i => place es (2 * i)) ∧
      zzlLastInRange strtod ofLongLong zl range =
        some ((lastIdx range.bounds.contains rs).map fun i => place es (2 * i)) := by
  have htest : ∀ f : σ → Bool, TestsAt es rs (fun p => (zzlGetScore strtod ofLongLong zl p).map f) (fun r => f r.1) 1 :=
    fun f i r hi => by dsimp only; rw [h.score i r hi]; rfl
  have htest0 : ∀ f : σ → Bool, TestsAt es rs (fun p => (zzlScoreOf strtod ofLongLong zl p).map f) (fun r => f r.1) 0 :=
    fun f i r hi => by dsimp only; rw [Nat.add_zero, h.scoreOf hi]; rfl
  obtain ⟨b, hb, hnone⟩ := zzlIsIn_spec h hr (show 1 < 2 by decide) (htest (zslValueGteMin · range)) (htest (zslValueLteMax · range))
  have hisIn : zzlIsInRange strtod ofLongLong zl range = some b := hb
  unfold zzlFirstInRange zzlLastInRange
  rw [hisIn]
  exact ⟨zzlFirstIn_spec h hr hnone (htest0 _) (htest0 _), zzlLastIn_spec h hr hnone (htest0 _) (htest0 _)⟩

theorem Holds.inLex (h : Holds strtod ofLongLong zl es rs) (range : ZlexRangeSpec) (hr : (range.bounds : Bounds σ).Ordered rs) :
    zzlFirstInLexRange zl range = some ((rs.findIdx? range.bounds.contains).map fun i => place es (2 * i)) ∧
      zzlLastInLexRange zl range = some ((lastIdx range.bounds.contains rs).map fun i => place es (2 * i)) := by
  have htest : ∀ f : Sds → Bool, TestsAt es rs (fun p => (ziplistGetObject zl p).map f) (fun r => f r.2) 0 :=
    fun f i r hi => by dsimp only; rw [Nat.add_zero, h.element i r hi]; rfl
  obtain ⟨b, hb, hnone⟩ := zzlIsIn_spec h hr (show 0 < 2 by decide) (htest (zslLexValueGteMin · range))
    (htest (zslLexValueLteMax · range))
  have hisIn : zzlIsInLexRange zl range = some b := hb
  unfold zzlFirstInLexRange zzlLastInLexRange
  rw [hisIn]
  exact ⟨zzlFirstIn_spec h hr hnone (htest _) (htest _), zzlLastIn_spec h hr hnone (htest _) (htest _)⟩

end RedisZk.Zset
