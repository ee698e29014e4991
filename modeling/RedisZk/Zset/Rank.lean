/-
# Ranks

The walks that add up spans and may end at any level: `zslGetRank` ends at the first
node it comes to with the element, `zslGetElementByRank` where the spans are the
rank. A walk that ends at no level has come to the cut of the row that its condition
makes. On a row in order that has the element once, the rank of a pair is its place,
and the node at a rank is the one at that place.

Key definitions: `zslGetRank`, `zslGetElementByRank`.
Key theorems: `zslDescend_spec`, `zslGetRank_stored`, `zslGetRank_absent`, `zslGetElementByRank_spec`.
-/
import RedisZk.Zset.Ops

namespace RedisZk.Zset

open Towers

variable {σ β : Type} {zsl : Zskiplist σ} {l p q : List (Item σ)} {it : Item σ} {score : σ} {ele : Sds}

/-! ### Walks that may end at any level -/

/-- The loop over the levels, in which `found` says after each whether the function returns, and what. -/
def zslDescend (zsl : Zskiplist σ) (ahead : ZslNode σ → ℕ → Bool) (found : Place → Except ZslAbort (Option β)) :
    ℕ → Place → Except ZslAbort (Option β)
  | 0, _ => .ok none
  | i + 1, x => do
    let x ← zslSeekLevel zsl ahead id i (zsl.length + 1) x
    match ← found x with
    | some r => .ok (some r)
    | none => zslDescend zsl ahead found i x

/-- `x->ele`, which is NULL in the header. -/
def zslEle (zsl : Zskiplist σ) : Ref → Except ZslAbort (Option Sds)
  | .header => .ok none
  | .node a => do
    let n ← zsl.node a
    .ok (some n.ele)

/-- The node does not come after the score and the element. -/
def ZslNode.upTo [LinearOrder σ] (n : ZslNode σ) (score : σ) (ele : Sds) : Bool :=
  decide (n.score < score) || (decide (n.score = score) && sdscmp n.ele ele != .gt)

def zslGetRank [LinearOrder σ] (zsl : Zskiplist σ) (score : σ) (ele : Sds) : Except ZslAbort ℕ := do
  let r ← zslDescend zsl (fun n _ => n.upTo score ele)
    (fun (x, rank) => do
      match ← zslEle zsl x with
      | some e => .ok (if sdscmp e ele = .eq then some rank else none)
      | none => .ok none)
    zsl.level (.header, 0)
  .ok (r.getD 0)

/-- "The rank argument needs to be 1-based." -/
def zslGetElementByRank (zsl : Zskiplist σ) (rank : ℕ) : Except ZslAbort (Option Ref) :=
  zslDescend zsl (fun _ traversed => decide (traversed ≤ rank))
    (fun (x, traversed) => .ok (if traversed = rank then some x else none)) zsl.level (.header, 0)

/-- A walk ends where its answer is found, and if it finds none, at the cut: the node before the end was
ahead, and the one behind the cut is not. -/
theorem zslDescend_spec (h : Linked zsl l) {ahead : ZslNode σ → ℕ → Bool} {A : ℕ → Item σ → Bool} (hs : Sees zsl l ahead id A)
    {found : Place → Except ZslAbort (Option β)} {S : List (Item σ) → Option β}
    (hfound : ∀ p q, l = p ++ q → found (lastRef p, p.length) = .ok (S p)) (i : ℕ) (p q : List (Item σ)) (hi : i ≤ zsl.level)
    (hl : l = p ++ q) (hr : ∀ j < i, Reaches Item.height j p) (hzero : i = 0 → S p = none) :
    ∃ d r, q = d ++ r ∧ zslDescend zsl ahead found i (lastRef p, p.length) = .ok (S (p ++ d)) ∧ (i = 0 → d = []) ∧
      (∀ e it, d = e ++ [it] → A (p ++ d).length it = true) ∧
      (S (p ++ d) = none → 0 < i → ∀ it r', r = it :: r' → A ((p ++ d).length + 1) it = false) := by
  induction i generalizing p q with
  | zero =>
    refine ⟨[], q, rfl, ?_, fun _ => rfl, by simp, fun _ h0 => absurd h0 (Nat.lt_irrefl _)⟩
    rw [List.append_nil, hzero rfl]
    rfl
  | succ i ih =>
    obtain ⟨d1, r1, rfl, heq1, hreach, hstop, hlast1, -⟩ := zslSeekLevel_spec h hs (show i < zsl.level by omega)
      (zsl.length + 1) p q hl (hr i (by omega)) (by rw [h.length, hl, List.length_append]; omega)
    have hl1 : l = (p ++ d1) ++ r1 := by rw [hl, List.append_assoc]
    have hstep : zslDescend zsl ahead found (i + 1) (lastRef p, p.length) =
        match S (p ++ d1) with
        | some r => .ok (some r)
        | none => zslDescend zsl ahead found i (lastRef (p ++ d1), (p ++ d1).length) := by
      rw [zslDescend]
      change (do
        let x ← zslSeekLevel zsl ahead id i (zsl.length + 1) (lastRef p, id p.length)
        _) = _
      rw [heq1]
      change (do
        let r ← found (lastRef (p ++ d1), (p ++ d1).length)
        _) = _
      rw [hfound _ _ hl1]
      cases S (p ++ d1) with
      | none => rfl
      | some r => rfl
    rw [hstep]
    cases hS : S (p ++ d1) with
    | some b => exact ⟨d1, r1, rfl, by rw [hS], by simp, hlast1, fun hnone => by rw [hS] at hnone; cases hnone⟩
    | none =>
      obtain ⟨d2, r, rfl, heq2, hnil, hlast2, hcut⟩ := ih (p ++ d1) r1 (by omega) hl1 (fun j hj => hreach.mono (by omega))
        fun _ => hS
      rw [List.append_assoc] at heq2 hlast2 hcut
      refine ⟨d1 ++ d2, r, (List.append_assoc ..).symm, heq2, by simp, ?_, ?_⟩
      · intro e it he
        rcases List.eq_nil_or_concat d2 with rfl | ⟨d', x, rfl⟩
        · rw [List.append_nil] at he ⊢
          exact hlast1 e it he
        · rw [List.concat_eq_append, ← List.append_assoc] at he
          rw [← (List.cons.inj (List.append_inj' he rfl).2).1]
          exact hlast2 d' x (by simp)
      · intro hnone _ it r' hr'
        by_cases hi0 : i = 0
        · rw [hnil hi0, List.append_nil]
          rw [hnil hi0, hr', hi0] at hstop
          have hheight := (h.heights it (by rw [hl, hr']; simp)).1
          exact hstop [] it r' rfl (by simp) (by omega)
        · exact hcut hnone (by omega) it r' hr'

/-- The whole walk, from the header. -/
theorem zslDescend_header (h : Linked zsl l) {ahead : ZslNode σ → ℕ → Bool} {A : ℕ → Item σ → Bool} (hs : Sees zsl l ahead id A)
    (found : Place → Except ZslAbort (Option β)) {S : List (Item σ) → Option β}
    (hfound : ∀ p q, l = p ++ q → found (lastRef p, p.length) = .ok (S p)) :
    ∃ pre post, l = pre ++ post ∧ zslDescend zsl ahead found zsl.level (.header, 0) = .ok (S pre) ∧
      (∀ e it, pre = e ++ [it] → A pre.length it = true) ∧
      (S pre = none → ∀ it r, post = it :: r → A (pre.length + 1) it = false) := by
  have hlevel := h.level.1
  obtain ⟨pre, post, rfl, heq, -, hlast, hcut⟩ := zslDescend_spec h hs hfound zsl.level [] l le_rfl rfl (fun _ _ => .nil)
    fun h0 => by omega
  exact ⟨pre, post, rfl, heq, hlast, fun hnone => hcut hnone hlevel⟩

/-! ### The node at a rank -/

/-- The node at a rank is the one at that place; the header is at 0, and nothing behind the last. -/
theorem zslGetElementByRank_spec (h : Rep zsl l) (rank : ℕ) :
    zslGetElementByRank zsl rank = .ok (if rank ≤ l.length then some (lastRef (l.take rank)) else none) := by
  have hsees : Sees zsl l (fun _ traversed => decide (traversed ≤ rank)) id fun k _ => decide (k ≤ rank) :=
    ⟨fun a b _ _ _ _ _ _ _ => by rw [Nat.add_assoc]; rfl, fun _ _ => rfl⟩
  obtain ⟨pre, post, rfl, heq, hlast, hcut⟩ := zslDescend_header h.toLinked hsees
    (fun (x, traversed) => .ok (if traversed = rank then some x else none))
    (S := fun p => if p.length = rank then some (lastRef p) else none) fun _ _ _ => rfl
  rw [zslGetElementByRank, heq]
  have hle : pre.length ≤ rank := by
    rcases List.eq_nil_or_concat pre with rfl | ⟨e, it, rfl⟩
    · exact Nat.zero_le _
    · exact of_decide_eq_true (hlast e it (List.concat_eq_append ..))
  by_cases hlen : pre.length = rank
  · rw [if_pos hlen, if_pos (by rw [List.length_append]; omega), ← hlen, List.take_left]
  · have hpost : post = [] := by
      cases post with
      | nil => rfl
      | cons it r =>
        have hbehind := of_decide_eq_false (hcut (if_neg hlen) it r rfl)
        omega
    rw [if_neg hlen, hpost, List.append_nil, if_neg (by omega)]

/-! ### The rank of a pair -/

section Order

variable [LinearOrder σ]

theorem upTo_eq {n : ZslNode σ} : n.upTo score ele = decide (key n.score n.ele ≤ key score ele) := by
  have hle : (sdscmp n.ele ele != .gt) = decide (n.ele ≤ ele) := by
    have hcmp := sdscmp_spec n.ele ele
    cases hm : sdscmp n.ele ele with
    | lt =>
      rw [hm] at hcmp
      exact (decide_eq_true hcmp.le).symm
    | gt =>
      rw [hm] at hcmp
      exact (decide_eq_false (not_le.mpr hcmp)).symm
    | eq =>
      rw [hm] at hcmp
      exact (decide_eq_true hcmp.le).symm
  rw [ZslNode.upTo, hle, Bool.eq_iff_iff, key, key, decide_eq_true_iff, Prod.Lex.toLex_le_toLex]
  simp

/-- The rank that is found at the end of `p`. -/
def rankAt (ele : Sds) (p : List (Item σ)) : Option ℕ :=
  match p.getLast? with
  | some it => if it.ele = ele then some p.length else none
  | none => none

/-- The walk of `zslGetRank` ends at a node with the element, or finds none up to the pair. -/
theorem zslGetRank_cut (h : Rep zsl l) (hs : Sorted l) (score : σ) (ele : Sds) :
    ∃ pre post, l = pre ++ post ∧ zslGetRank zsl score ele = .ok ((rankAt ele pre).getD 0) ∧
      (∀ it ∈ pre, it.key ≤ key score ele) ∧ (rankAt ele pre = none → ∀ it ∈ post, ¬ it.key ≤ key score ele) := by
  have hsees : Sees zsl l (fun n _ => n.upTo score ele) id fun _ it => decide (it.key ≤ key score ele) := by
    refine ⟨fun a b it q n _ _ hele hscore => ?_, fun _ _ => rfl⟩
    rw [upTo_eq, hele, hscore]
    rfl
  obtain ⟨pre, post, rfl, heq, hlast, hcut⟩ := zslDescend_header h.toLinked hsees
    (fun (x, rank) => do
      match ← zslEle zsl x with
      | some e => .ok (if sdscmp e ele = .eq then some rank else none)
      | none => .ok none)
    (S := rankAt ele) (by
      intro p q hl
      rcases List.eq_nil_or_concat p with rfl | ⟨e, it, rfl⟩
      · rfl
      · rw [List.concat_eq_append] at hl ⊢
        obtain ⟨n, hn, hele, -⟩ := h.toLinked.node_of e it q (by rw [hl, List.append_assoc]; rfl)
        simp only [lastRef_concat, zslEle, node_eq hn, bind, Except.bind, rankAt, List.getLast?_concat, hele, sdscmp_eq_eq])
  have hmono : ∀ a ∈ pre ++ post, ∀ b ∈ pre ++ post, a.key < b.key → b.key ≤ key score ele → a.key ≤ key score ele :=
    fun a _ b _ hab hb => hab.le.trans hb
  refine ⟨pre, post, rfl, ?_, ?_, ?_⟩
  · unfold zslGetRank
    simp only [bind, Except.bind] at heq ⊢
    rw [heq]
  · intro it hit
    rcases List.eq_nil_or_concat pre with rfl | ⟨e, y, rfl⟩
    · cases hit
    · rw [List.concat_eq_append] at hit hs hlast
      have hy : y.key ≤ key score ele := of_decide_eq_true (hlast e y rfl)
      rcases List.mem_append.mp hit with hie | hie
      · have hlt := (List.pairwise_append.mp (List.pairwise_append.mp hs).1).2.2 it hie y (by simp)
        exact hlt.le.trans hy
      · rw [List.mem_singleton.mp hie]
        exact hy
  · intro hnone
    exact (hs.cut (A := fun it => it.key ≤ key score ele) hmono (fun e it he => of_decide_eq_true (hlast e it he))
      fun it r hr => of_decide_eq_false (hcut hnone it r hr)).2

/-- No element is there with two scores. -/
def OnceEach (l : List (Item σ)) : Prop := ∀ a ∈ l, ∀ b ∈ l, a.ele = b.ele → a.key = b.key

theorem Sorted.eq_of_key (hs : Sorted (p ++ it :: q)) {a b : List (Item σ)} {y : Item σ} (hl : p ++ it :: q = a ++ y :: b)
    (hkey : y.key = it.key) : a.length = p.length := by
  have hr := hs.rank_eq
  have hr' := (hl ▸ hs : Sorted (a ++ y :: b)).rank_eq
  rw [← hl, pair_inj.mpr hkey, hr] at hr'
  omega

/-- The rank of a pair of the row is its place. -/
theorem zslGetRank_stored (h : Rep zsl l) (hs : Sorted l) (honce : OnceEach l) (hl : l = p ++ it :: q) :
    zslGetRank zsl it.score it.ele = .ok (p.length + 1) := by
  obtain ⟨pre, post, hcutl, heq, hle, hgt⟩ := zslGetRank_cut h hs it.score it.ele
  have hit : it ∈ l := by rw [hl]; simp
  have hkey : key it.score it.ele = it.key := rfl
  rw [hkey] at hle hgt
  rw [heq]
  rcases List.eq_nil_or_concat pre with rfl | ⟨e, y, rfl⟩
  · -- nothing was found before the pair, which is behind the cut
    rw [List.nil_append] at hcutl
    exact absurd le_rfl (hgt rfl it (hcutl ▸ hit))
  · rw [List.concat_eq_append] at hcutl hle hgt ⊢
    have hy : y ∈ l := by rw [hcutl]; simp
    rw [rankAt, List.getLast?_concat] at hgt ⊢
    by_cases hele : y.ele = it.ele
    · have hplace : p ++ it :: q = e ++ y :: post := by rw [← hl, hcutl, List.append_assoc]; rfl
      rw [hl] at hs
      simp only [if_pos hele, Option.getD_some, List.length_append, List.length_singleton]
      rw [hs.eq_of_key hplace (honce y hy it hit hele)]
    · simp only [if_neg hele] at hgt
      have hin : it ∈ e ++ [y] := by
        rw [hcutl] at hit
        rcases List.mem_append.mp hit with hin | hin
        · exact hin
        · exact absurd le_rfl (hgt trivial it hin)
      rcases List.mem_append.mp hin with hin | hin
      · -- what is last before the cut comes behind the pair
        have hlt : it.key < y.key := by
          rw [hcutl] at hs
          exact (List.pairwise_append.mp (List.pairwise_append.mp hs).1).2.2 it hin y (by simp)
        exact absurd (hle y (by simp)) (not_le.mpr hlt)
      · exact absurd (by rw [List.mem_singleton.mp hin]) hele

/-- There is no rank for a pair if the element is not there, or only behind it. -/
theorem zslGetRank_absent (h : Rep zsl l) (hs : Sorted l) (habsent : ∀ it ∈ l, it.ele = ele → score < it.score) :
    zslGetRank zsl score ele = .ok 0 := by
  obtain ⟨pre, post, hcutl, heq, hle, -⟩ := zslGetRank_cut h hs score ele
  rw [heq]
  rcases List.eq_nil_or_concat pre with rfl | ⟨e, y, rfl⟩
  · rfl
  · rw [List.concat_eq_append] at hcutl hle ⊢
    have hne : y.ele ≠ ele := by
      intro hele
      have hlt := habsent y (by rw [hcutl]; simp) hele
      have hkey : y.key ≤ key score ele := hle y (by simp)
      exact absurd hkey (not_le.mpr (key_lt_iff.mpr (.inl hlt)))
    simp only [rankAt, List.getLast?_concat, if_neg hne, Option.getD_none]

end Order

end RedisZk.Zset
