/-
# Ranks and ranges of a sorted set are exact

In every skip list that operations make, with elements that are new when they are
inserted, the rank of a pair is its place in the row at level 0, which is in order, the
node at a rank is the one at that place, and the first and the last node of a range are
those of the row. On a ziplist that holds the pairs of the row, the functions for
ranges come to the same places.

Where an element is there with two scores, where a pair is asked for whose element is
there with a lower score, and where links are longer than an `unsigned int` counts, a
rank is that of another pair or is wrong.

Key definitions: `FitRun`, `RanksExact`, `RangeExact`.
Key theorems: `ranks_and_ranges_exact`, `rank_limits`.
-/
import RedisZk.Zset.Listed
import RedisZk.Zset.Rank
import RedisZk.Zset.Refine

namespace RedisZk.Zset

open Interval (lastIdx)
open Stepwise (Run Steps)
open Towers
open Ziplist (WellFormed Entry place)

variable {σ : Type} {zsl : Zskiplist σ} {l l' : List (Item σ)}

/-! ### Each element once -/

section Once

variable [LinearOrder σ]

/-- The lists that operations make with each element there once, in which the gaps of insertions fit. -/
abbrev FitRun : Zskiplist σ → Prop :=
  Run (fun zsl => zsl = zslCreate)
    (Steps nextOp fun zsl op _ => ElementAllowed (pairs (chain zsl 0)) op ∧ Fits (chain zsl 0) op)

/-- No element has two scores. -/
def ElementsOnce (m : Finset (σ × Sds)) : Prop := ∀ a ∈ m, ∀ b ∈ m, a.2 = b.2 → a = b

theorem ElementsOnce.row (h : ElementsOnce (pairs l)) : OnceEach l := fun a ha b hb hele =>
  pair_inj.mp (h a.pair (mem_pairs.mpr ⟨a, ha, rfl⟩) b.pair (mem_pairs.mpr ⟨b, hb, rfl⟩) hele)

omit [LinearOrder σ] in
theorem ElementsOnce.allowed {m : Finset (σ × Sds)} (h : ElementsOnce m) {op : ZslOp σ} (hop : ElementAllowed m op) :
    Allowed m op := by
  cases op with
  | insert score ele draws => exact fun hmem => hop _ hmem rfl
  | updateScore curscore ele newscore draws =>
    refine ⟨hop, fun hnew => ?_⟩
    exact (Prod.mk.inj (h _ hnew _ hop rfl)).1
  | delete | deleteRangeByScore | deleteRangeByLex | deleteRangeByRank => trivial

/-- An operation does not put a second score to an element. -/
theorem ElementsOnce.step {m m' : Finset (σ × Sds)} (h : ElementsOnce m) {op : ZslOp σ} {removed : ℕ} (hop : ElementAllowed m op)
    (hspec : Spec m op m' removed) : ElementsOnce m' := by
  have hsub : m' ⊆ m → ElementsOnce m' := fun hsub a ha b hb hele => h a (hsub ha) b (hsub hb) hele
  have hadd : ∀ {n : Finset (σ × Sds)} {score : σ} {ele : Sds}, n ⊆ m → (∀ r ∈ n, r.2 ≠ ele) → m' = insert (score, ele) n →
      ElementsOnce m' := by
    rintro n score ele hn hne rfl a ha b hb hele
    rcases Finset.mem_insert.mp ha with rfl | ha
    · rcases Finset.mem_insert.mp hb with rfl | hb
      · rfl
      · exact absurd hele.symm (hne b hb)
    · rcases Finset.mem_insert.mp hb with rfl | hb
      · exact absurd hele (hne a ha)
      · exact h a (hn ha) b (hn hb) hele
  cases op with
  | insert score ele draws => exact hadd (Finset.Subset.refl m) hop hspec.1
  | delete score ele keep => exact hsub (hspec.1 ▸ Finset.erase_subset ..)
  | updateScore curscore ele newscore draws =>
    refine hadd (Finset.erase_subset (curscore, ele) m) ?_ hspec.1
    intro r hr hele
    obtain ⟨hne, hin⟩ := Finset.mem_erase.mp hr
    exact hne (h r hin _ hop hele)
  | deleteRangeByScore range => exact hsub (hspec.1 ▸ Finset.filter_subset ..)
  | deleteRangeByLex range => exact hsub hspec.1
  | deleteRangeByRank start stop => exact hsub (hspec.1 ▸ Finset.filter_subset ..)

theorem FitRun.rep (h : FitRun zsl) : Rep zsl (chain zsl 0) ∧ Sorted (chain zsl 0) ∧ ElementsOnce (pairs (chain zsl 0)) := by
  refine Run.invariant (I := fun zsl => Rep zsl (chain zsl 0) ∧ Sorted (chain zsl 0) ∧ ElementsOnce (pairs (chain zsl 0))) h ?_ ?_
  · rintro zsl rfl
    rw [Rep.create.chain_zero]
    exact ⟨.create, .nil, by simp [ElementsOnce, pairs]⟩
  · rintro zsl op zsl' - ⟨hrep, hsorted, honce⟩ ⟨hn, hop, hfits⟩
    obtain ⟨z, l', removed, hrun, hrep', hsorted', hspec⟩ := runOp_spec hrep hsorted op (honce.allowed hop) hfits
    unfold nextOp at hn
    rw [hrun] at hn
    obtain rfl := Option.some.inj hn
    rw [hrep'.chain_zero]
    exact ⟨hrep', hsorted', honce.step hop hspec⟩

end Once

/-! ### Exactness -/

/-- Ranks are places in the row, and the node at a rank is the one at the place. -/
structure RanksExact [LinearOrder σ] (zsl : Zskiplist σ) (l : List (Item σ)) : Prop where
  stored : ∀ i it, l[i]? = some it → zslGetRank zsl it.score it.ele = .ok (i + 1) ∧
    rank (pairs l) it.pair = i + 1 ∧ zslGetElementByRank zsl (i + 1) = .ok (some (.node it.addr))
  absent : ∀ score ele, (∀ it ∈ l, it.ele = ele → score < it.score) → zslGetRank zsl score ele = .ok 0
  beyond : ∀ rank, l.length < rank → zslGetElementByRank zsl rank = .ok none
  header : zslGetElementByRank zsl 0 = .ok (some .header)

/-- The first and the last pair of the row that are in a range: their nodes in the skip list, and their
places in every ziplist that holds the pairs. -/
structure RangeExact (l : List (Item σ)) (inRange : σ × Sds → Bool) (zslFirst zslLast : Except ZslAbort (Option ℕ))
    (zzlFirst zzlLast : (Sds → σ) → (ℤ → σ) → Sds → Option (Option ℕ)) : Prop where
  first : zslFirst = .ok (((l.map Item.pair).findIdx? inRange).bind fun i => l[i]?.map Item.addr)
  last : zslLast = .ok ((lastIdx inRange (l.map Item.pair)).bind fun i => l[i]?.map Item.addr)
  listed : ∀ strtod ofLongLong zl es, Holds strtod ofLongLong zl es (l.map Item.pair) →
    zzlFirst strtod ofLongLong zl = some (((l.map Item.pair).findIdx? inRange).map fun i => place es (2 * i)) ∧
    zzlLast strtod ofLongLong zl = some ((lastIdx inRange (l.map Item.pair)).map fun i => place es (2 * i))

section Order

variable [LinearOrder σ]

theorem Rep.ranksExact (h : Rep zsl l) (hs : Sorted l) (honce : OnceEach l) : RanksExact zsl l where
  stored := by
    intro i it hit
    obtain ⟨hi, hget⟩ := List.getElem?_eq_some_iff.mp hit
    have hsplit : l = l.take i ++ it :: l.drop (i + 1) := by
      rw [← hget, ← List.drop_eq_getElem_cons hi, List.take_append_drop]
    have hlen : (l.take i).length = i := by rw [List.length_take]; omega
    have hrank := zslGetRank_stored h hs honce hsplit
    have hset := (hsplit ▸ hs : Sorted (l.take i ++ it :: l.drop (i + 1))).rank_eq
    have htake : l.take (i + 1) = l.take i ++ [it] := by rw [List.take_add_one, hit]; rfl
    rw [hlen] at hrank hset
    rw [← hsplit] at hset
    refine ⟨hrank, hset, ?_⟩
    rw [zslGetElementByRank_spec h, if_pos (by omega), htake, lastRef_concat]
  absent := fun _ _ habsent => zslGetRank_absent h hs habsent
  beyond := fun rank hlt => by rw [zslGetElementByRank_spec h, if_neg (by omega)]
  header := by
    rw [zslGetElementByRank_spec h, if_pos (Nat.zero_le _), List.take_zero]
    rfl

theorem Rep.scoreExact (h : Rep zsl l) (hs : Sorted l) (range : ZrangeSpec σ) :
    RangeExact l (inScoreRange range) (zslFirstInRange zsl range) (zslLastInRange zsl range)
      (fun strtod ofLongLong zl => zzlFirstInRange strtod ofLongLong zl range)
      fun strtod ofLongLong zl => zzlLastInRange strtod ofLongLong zl range where
  first := zslFirstIn_spec h.toLinked (hs.scoreOrdered range)
  last := zslLastIn_spec h.toLinked (hs.scoreOrdered range)
  listed := fun _ _ _ _ hholds => hholds.inScore range (hs.scoreOrdered range)

theorem Rep.lexExact (h : Rep zsl l) (hs : Sorted l) (hone : OneScore (pairs l)) (range : ZlexRangeSpec) :
    RangeExact l (inLexRange range) (zslFirstInLexRange zsl range) (zslLastInLexRange zsl range)
      (fun _ _ zl => zzlFirstInLexRange zl range) fun _ _ zl => zzlLastInLexRange zl range := by
  have hscores : ∀ a ∈ l, ∀ b ∈ l, a.score = b.score := fun a ha b hb =>
    hone a.pair (mem_pairs.mpr ⟨a, ha, rfl⟩) b.pair (mem_pairs.mpr ⟨b, hb, rfl⟩)
  have hordered := hs.lexOrdered hscores range
  exact ⟨zslFirstIn_spec h.toLinked hordered, zslLastIn_spec h.toLinked hordered,
    fun _ _ _ _ hholds => hholds.inLex range hordered⟩

/-- **Ranks and ranges are exact.** The row of a skip list is in order; the rank of a pair in it is its
place, and 0 is that of a pair whose element is not there, or with a higher score only; the node at
a rank from 1 to the length is the one at the place, and there is none beyond; and the first and the last
element of every range of scores, and if there is one score of every range of elements, are those of
the row, in the skip list and in every ziplist with the same pairs. -/
theorem ranks_and_ranges_exact (h : FitRun zsl) :
    Sorted (chain zsl 0) ∧ RanksExact zsl (chain zsl 0) ∧
    (∀ range : ZrangeSpec σ, RangeExact (chain zsl 0) (inScoreRange range) (zslFirstInRange zsl range) (zslLastInRange zsl range)
      (fun strtod ofLongLong zl => zzlFirstInRange strtod ofLongLong zl range)
      fun strtod ofLongLong zl => zzlLastInRange strtod ofLongLong zl range) ∧
    (OneScore (pairs (chain zsl 0)) → ∀ range : ZlexRangeSpec,
      RangeExact (chain zsl 0) (inLexRange range) (zslFirstInLexRange zsl range) (zslLastInLexRange zsl range)
        (fun _ _ zl => zzlFirstInLexRange zl range) fun _ _ zl => zzlLastInLexRange zl range) := by
  obtain ⟨hrep, hsorted, honce⟩ := h.rep
  exact ⟨hsorted, hrep.ranksExact hsorted honce.row, hrep.scoreExact hsorted, hrep.lexExact hsorted⟩

end Order

/-! ### A sample -/

/-- The ziplist of two pairs: a string and a number each. -/
def twoPairs : Sds := [21, 0, 0, 0, 18, 0, 0, 0, 4, 0, 0, 1, 98, 3, 243, 2, 1, 97, 3, 246, 255]

def twoEntries : List Entry := [⟨false, 0, [1, 98]⟩, ⟨false, 3, [243]⟩, ⟨false, 2, [1, 97]⟩, ⟨false, 3, [246]⟩]

theorem twoPairs_holds : Holds (fun _ => 0) Int.toNat twoPairs twoEntries [(2, [98]), (5, [97])] where
  wellFormed := by
    refine ⟨?_, ⟨rfl, rfl, rfl, rfl, trivial⟩, by decide, 4, .inl rfl, by decide, by decide⟩
    intro e he
    simp only [twoEntries, List.mem_cons, List.not_mem_nil, or_false] at he
    rcases he with rfl | rfl | rfl | rfl
    · exact ⟨by decide, fun _ => by decide, _, _, _, rfl, rfl⟩
    · exact ⟨by decide, fun _ => by decide, _, _, _, rfl, rfl⟩
    · exact ⟨by decide, fun _ => by decide, _, _, _, rfl, rfl⟩
    · exact ⟨by decide, fun _ => by decide, _, _, _, rfl, rfl⟩
  length := rfl
  element := by
    intro i r hr
    match i with
    | 0 => obtain rfl := Option.some.inj hr; decide
    | 1 => obtain rfl := Option.some.inj hr; decide
    | i + 2 => cases hr
  score := by
    intro i r hr
    match i with
    | 0 => obtain rfl := Option.some.inj hr; decide
    | 1 => obtain rfl := Option.some.inj hr; decide
    | i + 2 => cases hr

/-- A skip list that operations make and the ziplist of its pairs: the last pair up to score 4. -/
theorem ranks_and_ranges_exact_sample : ∃ zsl : Zskiplist ℕ, FitRun zsl ∧
    (chain zsl 0).map Item.pair = [(2, [98]), (5, [97])] ∧ RanksExact zsl (chain zsl 0) ∧
    zzlLastInRange (fun _ => 0) Int.toNat twoPairs ⟨1, 4, false, true⟩ = some (some (place twoEntries 0)) := by
  obtain ⟨zsl, hrun, htest⟩ := Run.replay (fun _ _ _ h => of_decide_eq_true h)
    [.insert 1 [97] 0, .insert 2 [98] 2, .insert 3 [99] 1, .updateScore 1 [97] 5 1, .deleteRangeByRank 2 2]
    (show FitRun (zslCreate : Zskiplist ℕ) from .start rfl)
    (show Stepwise.replay nextOp
      (fun zsl op _ => decide (ElementAllowed (pairs (chain zsl 0)) op ∧ Fits (chain zsl 0) op))
      (fun zsl => decide ((chain zsl 0).map Item.pair = [(2, [98]), (5, [97])])) zslCreate _ = true by decide)
  have hpairs := of_decide_eq_true htest
  obtain ⟨-, hranks, hscores, -⟩ := ranks_and_ranges_exact hrun
  refine ⟨zsl, hrun, hpairs, hranks, ?_⟩
  have hlast := ((hscores ⟨1, 4, false, true⟩).listed _ _ _ _ (hpairs ▸ twoPairs_holds)).2
  rw [hpairs] at hlast
  exact hlast

/-! ### What goes wrong otherwise -/

/-- The last of `2^32` nodes is found at level 1, behind a link that spans 0. -/
theorem long_link_rank : ∃ zsl : Zskiplist ℕ, ElementRun zsl ∧ zsl.length = 2 ^ 32 ∧
    ∃ a n, zsl.getLevel .header 1 = .ok ⟨some a, 0⟩ ∧ zsl.nodes a = some n ∧ zslGetRank zsl n.score n.ele = .ok 0 := by
  obtain ⟨zsl, l, hrun, hrep, hs, hlen, hrow⟩ := low_row (2 ^ 32 - 1)
  obtain ⟨zslg, zsl', hlinked, hmax, -, hnext, hins⟩ := insert_last 1 (elementOf _) hrep hs
    fun it hit => ⟨(hrow it hit).1, (hrow it hit).2.1⟩
  have hallowed := elementOf_allowed 1 hrep fun it hit => (hrow it hit).2
  have hlow : ∀ it ∈ l, it.height = 1 := fun it hit => (hrow it hit).1
  change zslg.level = 2 at hmax
  have hheader : zsl'.getLevel .header 1 = .ok ⟨some zsl.fresh, 0⟩ := by
    have hfoot := hins.atFoot 1 (by omega)
    rw [(stem_eq_nil fun y hy => (hlow y hy).le).1, lastRef_nil, if_pos (show 1 < zslRandomLevel 1 by decide),
      (gap_of_low hlow).2, hlen] at hfoot
    exact hfoot
  have hself : ∃ s, zsl'.getLevel (.node zsl.fresh) 1 = .ok ⟨none, s⟩ := ⟨_, hins.self 1 (show 1 < zslRandomLevel 1 by decide)⟩
  obtain ⟨s, hself⟩ := hself
  obtain ⟨n, hn, hshell⟩ := Option.map_eq_some_iff.mp (hins.node l _ [] rfl)
  have hn' : zsl'.nodes zsl.fresh = some n := hn
  refine ⟨zsl', hrun.step ⟨hnext, hallowed⟩, ?_, zsl.fresh, n, hheader, hn', ?_⟩
  · rw [hins.length, hlinked.length, hlen, Nat.sub_add_cancel (by decide)]
  · have hup : n.upTo n.score n.ele = true := by rw [upTo_eq]; exact decide_eq_true le_rfl
    obtain ⟨fuel, hfuel⟩ : ∃ fuel, zsl'.length = fuel + 1 := ⟨zsl.length, by rw [hins.length, hlinked.length, hrep.length]⟩
    have hwalk : zslSeekLevel zsl' (fun m _ => m.upTo n.score n.ele) id 1 (zsl'.length + 1) (.header, 0) =
        .ok (.node zsl.fresh, 0) := by
      rw [hfuel, zslSeekLevel, hheader]
      change (do
        let m ← zsl'.node zsl.fresh
        _) = _
      rw [node_eq hn']
      change (if n.upTo n.score n.ele then _ else _) = _
      rw [if_pos hup, zslSeekLevel, hself]
      rfl
    unfold zslGetRank
    rw [hins.level, hmax, zslDescend, hwalk]
    simp only [zslEle, node_eq hn', bind, Except.bind, sdscmp_eq_eq.mpr rfl, if_pos]
    rfl

/-- The rank of a pair that is not there is that of its element with a lower score, and the header is
at rank 0; with two scores of an element the rank of the higher is that of the lower; and a pair
behind a link over `2^32` nodes has rank 0. -/
theorem rank_limits :
    (∃ zsl : Zskiplist ℕ, ElementRun zsl ∧ (chain zsl 0).map Item.pair = [(1, [97])] ∧ zslGetRank zsl 2 [97] = .ok 1 ∧
      zslGetElementByRank zsl 0 = .ok (some .header)) ∧
    (∃ zsl : Zskiplist ℕ, PairRun zsl ∧ (chain zsl 0).map Item.pair = [(1, [97]), (2, [97])] ∧
      zslGetRank zsl 2 [97] = .ok 1) ∧
    ∃ zsl : Zskiplist ℕ, ElementRun zsl ∧ zsl.length = 2 ^ 32 ∧
      ∃ a n, zsl.getLevel .header 1 = .ok ⟨some a, 0⟩ ∧ zsl.nodes a = some n ∧ zslGetRank zsl n.score n.ele = .ok 0 := by
  let rankIs : Zskiplist ℕ → Bool := fun zsl =>
    match zslGetRank zsl 2 [97] with
    | .ok 1 => true
    | _ => false
  have hrank : ∀ zsl, rankIs zsl = true → zslGetRank zsl 2 [97] = .ok 1 := by
    intro zsl h
    dsimp only [rankIs] at h
    split at h
    · assumption
    · cases h
  refine ⟨?_, ?_, long_link_rank⟩
  · let first : Zskiplist ℕ → Bool := fun zsl =>
      match zslGetElementByRank zsl 0 with
      | .ok (some .header) => true
      | .ok (some (.node _)) | .ok none | .error _ => false
    obtain ⟨zsl, hrun, htest⟩ := Run.replay (fun _ _ _ h => of_decide_eq_true h) [.insert 1 [97] 0]
      (show ElementRun (zslCreate : Zskiplist ℕ) from .start rfl)
      (show Stepwise.replay nextOp (fun zsl op _ => decide (ElementAllowed (pairs (chain zsl 0)) op))
        (fun zsl => decide ((chain zsl 0).map Item.pair = [(1, [97])]) && rankIs zsl && first zsl) zslCreate _ = true by
        decide)
    obtain ⟨htest, hfirst⟩ := Bool.and_eq_true_iff.mp htest
    obtain ⟨hchain, hr⟩ := Bool.and_eq_true_iff.mp htest
    refine ⟨zsl, hrun, of_decide_eq_true hchain, hrank zsl hr, ?_⟩
    dsimp only [first] at hfirst
    split at hfirst
    · assumption
    · cases hfirst
    · cases hfirst
    · cases hfirst
  · obtain ⟨zsl, hrun, htest⟩ := Run.replay (fun _ _ _ h => of_decide_eq_true h) [.insert 1 [97] 1, .insert 2 [97] 0]
      (show PairRun (zslCreate : Zskiplist ℕ) from .start rfl)
      (show Stepwise.replay nextOp (fun zsl op _ => decide (PairAllowed (pairs (chain zsl 0)) op))
        (fun zsl => decide ((chain zsl 0).map Item.pair = [(1, [97]), (2, [97])]) && rankIs zsl) zslCreate _ = true by
        decide)
    obtain ⟨hchain, hr⟩ := Bool.and_eq_true_iff.mp htest
    exact ⟨zsl, hrun, of_decide_eq_true hchain, hrank zsl hr⟩

end RedisZk.Zset
