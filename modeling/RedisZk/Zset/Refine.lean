/-
# A skip list is a sorted set

Any sequence of insertions, removals, changes of a score and removals of ranges,
with any levels drawn, leaves a skip list whose level 0 is the sorted set in order,
whose higher levels are the chains of the nodes that have them, and whose spans,
pointers back, tail, length and level are exact. The sequences are those in which
a pair is new when it is inserted or gets its score, ranges of elements are removed
from sets with one score only, and the gaps of the insertions fit in an `unsigned
int`. Without the first the list has a pair twice, without the second it is not
known what is removed, and without the third a span is wrong.

Key definitions: `chain`, `ZslOp`, `runOp`, `Spec`, `ZslRun`.
Key theorems: `Rep.chain_eq`, `skiplist_is_sorted_set`, `skiplist_limits`.
-/
import RedisZk.Lib.Endian
import RedisZk.Zset.Ops

namespace RedisZk.Zset

open Stepwise (Run Steps)
open Towers

variable {σ : Type} {zsl zsl' : Zskiplist σ} {l p q : List (Item σ)} {i : ℕ}

/-! ### The chain of a level -/

/-- The nodes along the forward pointers of level `i`, at most as many as the fuel. -/
def chainFrom (zsl : Zskiplist σ) (i : ℕ) : ℕ → Option ℕ → List (Item σ)
  | fuel + 1, some a =>
    match zsl.nodes a with
    | none => []
    | some n => ⟨a, n.score, n.ele, n.level.length⟩ :: chainFrom zsl i fuel (n.level[i]?.bind ZslLevel.forward)
  | _, _ => []

def chain (zsl : Zskiplist σ) (i : ℕ) : List (Item σ) :=
  chainFrom zsl i zsl.length (zsl.header[i]?.bind ZslLevel.forward)

theorem chainFrom_eq (h : Linked zsl l) (hi : i < zsl.level) (fuel : ℕ) (p q : List (Item σ)) (hl : l = p ++ q)
    (hfuel : q.length ≤ fuel) :
    chainFrom zsl i fuel ((nextTower Item.height i q).map Item.addr) = q.filter fun it => decide (i < it.height) := by
  induction fuel generalizing p q with
  | zero =>
    rw [List.length_eq_zero_iff.mp (Nat.le_zero.mp hfuel)]
    rfl
  | succ fuel ih =>
    cases hnext : nextTower Item.height i q with
    | none =>
      have hlow := nextTower_eq_none.mp hnext
      rw [List.filter_eq_nil_iff.mpr fun y hy => by simpa using hlow y hy]
      rfl
    | some x =>
      obtain ⟨b, c, rfl, hlow, hx, -⟩ := nextTower_eq_some hnext
      have hcut : l = p ++ b ++ x :: c := by rw [hl, List.append_assoc]
      obtain ⟨n, hn, hele, hscore, -, hheight⟩ := h.node_of _ x c hcut
      have hlink := h.link (p ++ b ++ [x]) c i (by rw [hcut]; simp) hi (reaches_concat.mpr hx)
      rw [lastRef_concat] at hlink
      obtain ⟨n', hn', hlevel⟩ := getLevel_eq_ok.mp hlink
      rw [hn] at hn'
      obtain rfl := Option.some.inj hn'
      rw [Option.map_some, chainFrom, hn]
      change _ :: chainFrom zsl i fuel (n.level[i]?.bind ZslLevel.forward) = _
      have hrec : chainFrom zsl i fuel (linkTo i c).forward = _ := ih (p ++ b ++ [x]) c (by rw [hcut]; simp) (by simp at hfuel; omega)
      have hb : b.filter (fun it => decide (i < it.height)) = [] :=
        List.filter_eq_nil_iff.mpr fun y hy => by simpa using hlow y hy
      rw [hlevel, Option.bind_some, hrec, List.filter_append, hb, List.nil_append,
        List.filter_cons_of_pos (by simpa using hx), hscore, hele, hheight]

/-- The chain of a level is the nodes that have it. -/
theorem Rep.chain_eq (h : Rep zsl l) (hi : i < zsl.level) : chain zsl i = l.filter fun it => decide (i < it.height) := by
  have hlink := getLevel_eq_ok.mp (h.link [] l i rfl hi .nil)
  change zsl.header[i]? = _ at hlink
  rw [chain, hlink]
  exact chainFrom_eq h.toLinked hi zsl.length [] l rfl h.length.ge

theorem Rep.chain_zero (h : Rep zsl l) : chain zsl 0 = l := by
  rw [h.chain_eq h.level.1]
  refine List.filter_eq_self.mpr fun it hit => ?_
  have hheight := (h.heights it hit).1
  exact decide_eq_true (by omega)

/-! ### Operations -/

/-- With a new node comes how often the condition of the loop of `zslRandomLevel` holds. -/
inductive ZslOp (σ : Type)
  | insert (score : σ) (ele : Sds) (draws : ℕ)
  | delete (score : σ) (ele : Sds) (keep : Bool)
  | updateScore (curscore : σ) (ele : Sds) (newscore : σ) (draws : ℕ)
  | deleteRangeByScore (range : ZrangeSpec σ)
  | deleteRangeByLex (range : ZlexRangeSpec)
  | deleteRangeByRank (start stop : BitVec 32)

variable [LinearOrder σ]

/-- The list, and the number of nodes the function says it removed. -/
def runOp (zsl : Zskiplist σ) : ZslOp σ → Except ZslAbort (Zskiplist σ × ℕ)
  | .insert score ele draws => do
    let (zsl, _) ← zslInsert zsl score ele (zslRandomLevel draws)
    .ok (zsl, 0)
  | .delete score ele keep => do
    let (zsl, found) ← zslDelete zsl score ele keep
    .ok (zsl, if found then 1 else 0)
  | .updateScore curscore ele newscore draws => do
    let zsl ← zslUpdateScore zsl curscore ele newscore (zslRandomLevel draws)
    .ok (zsl, 0)
  | .deleteRangeByScore range => zslDeleteRangeByScore zsl range
  | .deleteRangeByLex range => zslDeleteRangeByLex zsl range
  | .deleteRangeByRank start stop => zslDeleteRangeByRank zsl start stop

/-- All pairs have one score. -/
def OneScore (m : Finset (σ × Sds)) : Prop := ∀ a ∈ m, ∀ b ∈ m, a.1 = b.1

/-- What an operation does to a sorted set. -/
def Spec (m : Finset (σ × Sds)) (op : ZslOp σ) (m' : Finset (σ × Sds)) (removed : ℕ) : Prop :=
  match op with
  | .insert score ele _ => m' = insert (score, ele) m ∧ removed = 0
  | .delete score ele _ => m' = m.erase (score, ele) ∧ removed = if (score, ele) ∈ m then 1 else 0
  | .updateScore curscore ele newscore _ => m' = insert (newscore, ele) (m.erase (curscore, ele)) ∧ removed = 0
  | .deleteRangeByScore range => m' = m.filter (fun r => inScoreRange range r = false) ∧
      removed = (m.filter fun r => inScoreRange range r = true).card
  | .deleteRangeByLex range => m' ⊆ m ∧ removed + m'.card = m.card ∧
      (OneScore m → m' = m.filter (fun r => inLexRange range r = false) ∧
        removed = (m.filter fun r => inLexRange range r = true).card)
  | .deleteRangeByRank start stop => m' = m.filter (fun r => inRankRange m start stop r = false) ∧
      removed = (m.filter fun r => inRankRange m start stop r = true).card

/-- A pair is new when it is inserted, and there when it gets another score, with which it is new. -/
def Allowed (m : Finset (σ × Sds)) : ZslOp σ → Prop
  | .insert score ele _ => (score, ele) ∉ m
  | .updateScore curscore ele newscore _ => (curscore, ele) ∈ m ∧ ((newscore, ele) ∈ m → newscore = curscore)
  | _ => True

/-- The gaps of the new node, if there is one, fit. -/
def Fits (l : List (Item σ)) : ZslOp σ → Prop
  | .insert score ele draws => GapsFit l score ele (zslRandomLevel draws)
  | .updateScore curscore ele newscore draws =>
    GapsFit (l.filter fun it => decide (it.key ≠ key curscore ele)) newscore ele (zslRandomLevel draws)
  | _ => True

theorem zslRandomLevel_range (draws : ℕ) : 1 ≤ zslRandomLevel draws ∧ zslRandomLevel draws ≤ ZSKIPLIST_MAXLEVEL := by
  unfold zslRandomLevel ZSKIPLIST_MAXLEVEL
  split
  · omega
  · omega

/-- Each operation does what it does to the sorted set. -/
theorem runOp_spec (h : Rep zsl l) (hs : Sorted l) (op : ZslOp σ) (hallowed : Allowed (pairs l) op) (hfits : Fits l op) :
    ∃ zsl' l' removed, runOp zsl op = .ok (zsl', removed) ∧ Rep zsl' l' ∧ Sorted l' ∧ Spec (pairs l) op (pairs l') removed := by
  cases op with
  | insert score ele draws =>
    obtain ⟨zsl', l', hrun, hrep, hsorted, hpairs, -⟩ := zslInsert_spec h hs (zslRandomLevel_range draws) hallowed hfits
    refine ⟨zsl', l', 0, ?_, hrep, hsorted, hpairs, rfl⟩
    simp only [runOp, bind, Except.bind, hrun]
  | delete score ele keep =>
    obtain ⟨zsl', l', hrun, hrep, hsorted, hpairs⟩ := zslDelete_spec h hs score ele keep
    refine ⟨zsl', l', _, ?_, hrep, hsorted, hpairs, rfl⟩
    simp only [runOp, bind, Except.bind, hrun, decide_eq_true_eq]
  | updateScore curscore ele newscore draws =>
    obtain ⟨zsl', l', hrun, hrep, hsorted, hpairs⟩ := zslUpdateScore_spec h hs (zslRandomLevel_range draws) hallowed.1
      hallowed.2 hfits
    refine ⟨zsl', l', 0, ?_, hrep, hsorted, hpairs, rfl⟩
    simp only [runOp, bind, Except.bind, hrun]
  | deleteRangeByScore range =>
    obtain ⟨zsl', l', hrun, hrep, hsorted, hpairs⟩ := zslDeleteRangeByScore_spec h hs range
    exact ⟨zsl', l', _, hrun, hrep, hsorted, hpairs, rfl⟩
  | deleteRangeByLex range =>
    obtain ⟨zsl', l', removed, hrun, hrep, hsorted, hsub, hcard, hone⟩ := zslDeleteRangeByLex_spec h hs range
    exact ⟨zsl', l', removed, hrun, hrep, hsorted, hsub, hcard, fun h1 => ⟨(hone h1).2, (hone h1).1⟩⟩
  | deleteRangeByRank start stop =>
    obtain ⟨zsl', l', hrun, hrep, hsorted, hpairs⟩ := zslDeleteRangeByRank_spec h hs start stop
    exact ⟨zsl', l', _, hrun, hrep, hsorted, hpairs, rfl⟩

/-! ### Runs -/

def nextOp (zsl : Zskiplist σ) (op : ZslOp σ) : Option (Zskiplist σ) :=
  match runOp zsl op with
  | .ok (zsl, _) => some zsl
  | .error _ => none

/-- The lists that operations make of a new one. -/
abbrev ZslRun : Zskiplist σ → Prop :=
  Run (fun zsl => zsl = zslCreate) (Steps nextOp fun zsl op _ => Allowed (pairs (chain zsl 0)) op ∧ Fits (chain zsl 0) op)

theorem ZslRun.rep (h : ZslRun zsl) : Rep zsl (chain zsl 0) ∧ Sorted (chain zsl 0) := by
  refine Run.invariant (I := fun zsl => Rep zsl (chain zsl 0) ∧ Sorted (chain zsl 0)) h ?_ ?_
  · rintro zsl rfl
    rw [Rep.create.chain_zero]
    exact ⟨.create, .nil⟩
  · rintro zsl op zsl' - ⟨hrep, hsorted⟩ ⟨hn, hallowed, hfits⟩
    obtain ⟨z, l', removed, hrun, hrep', hsorted', -⟩ := runOp_spec hrep hsorted op hallowed hfits
    unfold nextOp at hn
    rw [hrun] at hn
    obtain rfl := Option.some.inj hn
    rw [hrep'.chain_zero]
    exact ⟨hrep', hsorted'⟩

/-- **A skip list is a sorted set.** In every list that operations make: level 0 is strictly
increasing by score and bytes; every level is the chain of the nodes of level 0 that
have it; the links and spans, the pointers back, the length, the tail and the level are
those of the row at level 0; and every operation returns, does to the set of the pairs
what it does to a sorted set, and says how many it removed. -/
theorem skiplist_is_sorted_set (h : ZslRun zsl) :
    Sorted (chain zsl 0) ∧ Rep zsl (chain zsl 0) ∧
    (∀ i < zsl.level, chain zsl i = (chain zsl 0).filter fun it => decide (i < it.height)) ∧
    ∀ op, Allowed (pairs (chain zsl 0)) op → Fits (chain zsl 0) op →
      ∃ zsl' removed, runOp zsl op = .ok (zsl', removed) ∧ Spec (pairs (chain zsl 0)) op (pairs (chain zsl' 0)) removed := by
  obtain ⟨hrep, hsorted⟩ := h.rep
  refine ⟨hsorted, hrep, fun i hi => hrep.chain_eq hi, fun op hallowed hfits => ?_⟩
  obtain ⟨zsl', l', removed, hrun, hrep', -, hspec⟩ := runOp_spec hrep hsorted op hallowed hfits
  refine ⟨zsl', removed, hrun, ?_⟩
  rw [hrep'.chain_zero]
  exact hspec

instance (m : Finset (σ × Sds)) : ∀ op, Decidable (Allowed m op)
  | .insert score ele _ => inferInstanceAs (Decidable ((score, ele) ∉ m))
  | .updateScore curscore ele newscore _ =>
    inferInstanceAs (Decidable ((curscore, ele) ∈ m ∧ ((newscore, ele) ∈ m → newscore = curscore)))
  | .delete .. | .deleteRangeByScore _ | .deleteRangeByLex _ | .deleteRangeByRank .. => .isTrue trivial

instance (l : List (Item σ)) (score : σ) (ele : Sds) (level : ℕ) : Decidable (GapsFit l score ele level) :=
  inferInstanceAs (Decidable (∀ i < level, _))

instance (l : List (Item σ)) : ∀ op, Decidable (Fits l op)
  | .insert .. => inferInstanceAs (Decidable (GapsFit ..))
  | .updateScore .. => inferInstanceAs (Decidable (GapsFit ..))
  | .delete .. | .deleteRangeByScore _ | .deleteRangeByLex _ | .deleteRangeByRank .. => .isTrue trivial

/-- Nodes of one, two and three levels, a score that moves its node, and a removal. -/
theorem skiplist_is_sorted_set_sample : ∃ zsl : Zskiplist ℕ, ZslRun zsl ∧ Rep zsl (chain zsl 0) ∧
    (chain zsl 0).map Item.pair = [(2, [98]), (5, [97])] := by
  obtain ⟨zsl, hrun, htest⟩ := Run.replay (fun _ _ _ h => of_decide_eq_true h)
    [.insert 1 [97] 0, .insert 2 [98] 2, .insert 3 [99] 1, .updateScore 1 [97] 5 1, .deleteRangeByRank 2 2]
    (show ZslRun (zslCreate : Zskiplist ℕ) from .start rfl)
    (show Stepwise.replay nextOp
      (fun zsl op _ => decide (Allowed (pairs (chain zsl 0)) op ∧ Fits (chain zsl 0) op))
      (fun zsl => decide ((chain zsl 0).map Item.pair = [(2, [98]), (5, [97])])) zslCreate _ = true by decide)
  exact ⟨zsl, hrun, (skiplist_is_sorted_set hrun).2.1, of_decide_eq_true htest⟩

/-! ### What goes wrong otherwise -/

/-- A pair is new when it is inserted, and there when it gets another score. -/
def PairAllowed (m : Finset (σ × Sds)) : ZslOp σ → Prop
  | .insert score ele _ => (score, ele) ∉ m
  | .updateScore curscore ele _ _ => (curscore, ele) ∈ m
  | _ => True

instance (m : Finset (σ × Sds)) : ∀ op, Decidable (PairAllowed m op)
  | .insert score ele _ => inferInstanceAs (Decidable ((score, ele) ∉ m))
  | .updateScore curscore ele _ _ => inferInstanceAs (Decidable ((curscore, ele) ∈ m))
  | .delete .. | .deleteRangeByScore _ | .deleteRangeByLex _ | .deleteRangeByRank .. => .isTrue trivial

/-- The lists that operations make with nothing said of new scores and gaps. -/
abbrev PairRun : Zskiplist σ → Prop :=
  Run (fun zsl => zsl = zslCreate) (Steps nextOp fun zsl op _ => PairAllowed (pairs (chain zsl 0)) op)

/-- An element is new when it is inserted, "up to the caller to enforce that", and there with its
score when it gets another one. -/
def ElementAllowed (m : Finset (σ × Sds)) : ZslOp σ → Prop
  | .insert _ ele _ => ∀ r ∈ m, r.2 ≠ ele
  | .updateScore curscore ele _ _ => (curscore, ele) ∈ m
  | _ => True

instance (m : Finset (σ × Sds)) : ∀ op, Decidable (ElementAllowed m op)
  | .insert _ ele _ => inferInstanceAs (Decidable (∀ r ∈ m, r.2 ≠ ele))
  | .updateScore curscore ele _ _ => inferInstanceAs (Decidable ((curscore, ele) ∈ m))
  | .delete .. | .deleteRangeByScore _ | .deleteRangeByLex _ | .deleteRangeByRank .. => .isTrue trivial

/-- The lists that operations make with each element there once. -/
abbrev ElementRun : Zskiplist σ → Prop :=
  Run (fun zsl => zsl = zslCreate) (Steps nextOp fun zsl op _ => ElementAllowed (pairs (chain zsl 0)) op)

theorem ElementRun.pairRun (h : ElementRun zsl) : PairRun zsl := by
  refine Run.mono h fun zsl op zsl' hstep => ⟨hstep.1, ?_⟩
  have hallowed := hstep.2
  cases op with
  | insert score ele draws => exact fun hmem => hallowed _ hmem rfl
  | updateScore curscore ele newscore draws => exact hallowed
  | delete | deleteRangeByScore | deleteRangeByLex | deleteRangeByRank => trivial

/-- An insertion behind nodes of one level only. -/
theorem insert_last {zsl : Zskiplist ℕ} {l : List (Item ℕ)} {k : ℕ} (draws : ℕ) (ele : Sds) (hrep : Rep zsl l) (hs : Sorted l)
    (hrow : ∀ it ∈ l, it.height = 1 ∧ it.score < k) :
    ∃ zslg zsl', Linked zslg l ∧ zslg.level = max 1 (zslRandomLevel draws) ∧ zslg.fresh = zsl.fresh ∧
      nextOp zsl (.insert k ele draws) = some zsl' ∧ Inserted zslg zsl' l [] ⟨zsl.fresh, k, ele, zslRandomLevel draws⟩ := by
  have hlt : ∀ it ∈ l, it.key < key k ele := fun it hit => key_lt_iff.mpr (.inl (hrow it hit).2)
  have hlevel : zsl.level = 1 := by
    rcases hrep.tight with h1 | ⟨it, hit, h1⟩
    · exact h1
    · rw [← h1, (hrow it hit).1]
  obtain ⟨pre, post, zslg, zsl', rfl, -, hpost, hlinked, hmax, hfresh, hrun, hins⟩ := zslInsert_inserts hrep hs k ele
    (zslRandomLevel_range draws)
  have hnil : post = [] := by
    cases post with
    | nil => rfl
    | cons y post => exact absurd (hlt y (by simp)) (hpost y List.mem_cons_self)
  rw [hlevel] at hmax
  rw [hnil] at hlinked hins ⊢
  rw [List.append_nil] at hlinked ⊢
  refine ⟨zslg, zsl', hlinked, hmax, hfresh, ?_, hins⟩
  unfold nextOp
  simp only [runOp, bind, Except.bind, hrun]

/-- An element of a length that no other has. -/
def elementOf (k : ℕ) : Sds := List.replicate k 0

theorem elementOf_allowed {zsl : Zskiplist ℕ} {l : List (Item ℕ)} {k : ℕ} (draws : ℕ) (hrep : Rep zsl l)
    (hrow : ∀ it ∈ l, it.score < k ∧ it.ele = elementOf it.score) :
    ElementAllowed (pairs (chain zsl 0)) (.insert k (elementOf k) draws) := by
  rw [hrep.chain_zero]
  intro r hr heq
  obtain ⟨it, hit, rfl⟩ := mem_pairs.mp hr
  obtain ⟨hlt, hele⟩ := hrow it hit
  have hlen := congrArg List.length (hele.symm.trans heq)
  rw [elementOf, elementOf, List.length_replicate, List.length_replicate] at hlen
  omega

theorem gap_of_low {l : List (Item ℕ)} (hrow : ∀ it ∈ l, it.height = 1) : Gap l 0 = 0 ∧ Gap l 1 = l.length := by
  constructor
  · have hb : brim Item.height 0 l = [] := by
      rw [List.eq_nil_iff_forall_not_mem]
      intro y hy
      have h1 := (foot Item.height 0 l).low y hy
      have h2 := hrow y (by rw [← stem_append_brim (h := Item.height) 0 l]; exact List.mem_append_right _ hy)
      omega
    rw [Gap, hb, List.length_nil]
  · rw [Gap, (stem_eq_nil fun y hy => (hrow y hy).le).2]

/-- Any number of nodes of one level. -/
theorem low_row (k : ℕ) : ∃ (zsl : Zskiplist ℕ) (l : List (Item ℕ)), ElementRun zsl ∧ Rep zsl l ∧ Sorted l ∧ l.length = k ∧
    ∀ it ∈ l, it.height = 1 ∧ it.score < k ∧ it.ele = elementOf it.score := by
  induction k with
  | zero => exact ⟨zslCreate, [], .start rfl, .create, .nil, rfl, by simp⟩
  | succ k ih =>
    obtain ⟨zsl, l, hpairs, hrep, hs, hlen, hrow⟩ := ih
    obtain ⟨zslg, zsl', hlinked, hmax, hfresh, hnext, hins⟩ := insert_last 0 (elementOf k) hrep hs
      fun it hit => ⟨(hrow it hit).1, (hrow it hit).2.1⟩
    have hallowed := elementOf_allowed 0 hrep fun it hit => (hrow it hit).2
    have hgap := (gap_of_low fun it hit => (hrow it hit).1).1
    change zslg.level = 1 at hmax
    have hlink' := hins.linked (by rwa [List.append_nil]) hfresh.symm ⟨le_rfl, hmax.ge⟩ (by
      intro i hi
      change i < 1 at hi
      rw [show i = 0 by omega, hgap]
      omega)
    refine ⟨zsl', _, hpairs.step ⟨hnext, hallowed⟩, ⟨hlink', .inl (hins.level.trans hmax)⟩, ?_, ?_, ?_⟩
    · exact Sorted.insert (by rwa [List.append_nil]) (fun it hit => key_lt_iff.mpr (.inl (hrow it hit).2.1)) (by simp)
    · rw [List.length_append, hlen]
      rfl
    · intro it hit
      rcases List.mem_append.mp hit with hit | hit
      · exact ⟨(hrow it hit).1, Nat.lt_succ_of_lt (hrow it hit).2.1, (hrow it hit).2.2⟩
      · rw [List.mem_singleton.mp hit]
        exact ⟨rfl, Nat.lt_succ_self k, rfl⟩

/-- A score changed to that of a pair with the same element leaves the pair there twice; elements
in a range are not removed if the scores differ; and the span of a link over `2^32` nodes is 0. -/
theorem skiplist_limits :
    (∃ zsl : Zskiplist ℕ, PairRun zsl ∧ (chain zsl 0).map Item.pair = [(2, [97]), (2, [97])]) ∧
    (∃ zsl zsl' : Zskiplist ℕ, PairRun zsl ∧ (chain zsl 0).map Item.pair = [(1, [98]), (2, [97])] ∧
      runOp zsl (.deleteRangeByLex ⟨.str [97], .str [97], false, false⟩) = .ok (zsl', 0)) ∧
    ∃ zsl : Zskiplist ℕ, PairRun zsl ∧ zsl.length = 2 ^ 32 ∧ ∃ a, zsl.getLevel .header 1 = .ok ⟨some a, 0⟩ := by
  have hstart : PairRun (zslCreate : Zskiplist ℕ) := .start rfl
  refine ⟨?_, ?_, ?_⟩
  · obtain ⟨zsl, hrun, htest⟩ := Run.replay (fun _ _ _ h => of_decide_eq_true h)
      [.insert 1 [97] 0, .insert 2 [97] 0, .updateScore 1 [97] 2 0] hstart
      (show Stepwise.replay nextOp (fun zsl op _ => decide (PairAllowed (pairs (chain zsl 0)) op))
        (fun zsl => decide ((chain zsl 0).map Item.pair = [(2, [97]), (2, [97])])) zslCreate _ = true by decide)
    exact ⟨zsl, hrun, of_decide_eq_true htest⟩
  · let removed : Zskiplist ℕ → Bool := fun zsl =>
      match runOp zsl (.deleteRangeByLex ⟨.str [97], .str [97], false, false⟩) with
      | .ok (_, 0) => true
      | _ => false
    obtain ⟨zsl, hrun, htest⟩ := Run.replay (fun _ _ _ h => of_decide_eq_true h) [.insert 1 [98] 0, .insert 2 [97] 0] hstart
      (show Stepwise.replay nextOp (fun zsl op _ => decide (PairAllowed (pairs (chain zsl 0)) op))
        (fun zsl => decide ((chain zsl 0).map Item.pair = [(1, [98]), (2, [97])]) && removed zsl) zslCreate _ = true by
        decide)
    obtain ⟨hchain, hremoved⟩ := Bool.and_eq_true_iff.mp htest
    dsimp only [removed] at hremoved
    split at hremoved
    · rename_i zsl' hr
      exact ⟨zsl, zsl', hrun, of_decide_eq_true hchain, hr⟩
    · cases hremoved
  · obtain ⟨zsl, l, hrun, hrep, hs, hlen, hrow⟩ := low_row (2 ^ 32 - 1)
    obtain ⟨zslg, zsl', hlinked, hmax, -, hnext, hins⟩ := insert_last 1 (elementOf _) hrep hs
      fun it hit => ⟨(hrow it hit).1, (hrow it hit).2.1⟩
    have hallowed := elementOf_allowed 1 hrep fun it hit => (hrow it hit).2
    have hlow : ∀ it ∈ l, it.height = 1 := fun it hit => (hrow it hit).1
    change zslg.level = 2 at hmax
    refine ⟨zsl', ElementRun.pairRun (hrun.step ⟨hnext, hallowed⟩), ?_, zsl.fresh, ?_⟩
    · rw [hins.length, hlinked.length, hlen, Nat.sub_add_cancel (by decide)]
    · have hfoot := hins.atFoot 1 (by omega)
      rw [(stem_eq_nil fun y hy => (hlow y hy).le).1, lastRef_nil, if_pos (show 1 < zslRandomLevel 1 by decide),
        (gap_of_low hlow).2, hlen] at hfoot
      exact hfoot

end RedisZk.Zset
