/-
# What the functions of a skip list do to the sorted set

Each function of t_zset.c, on a skip list that is a row in order, leaves a skip
list that is a row in order, and the set of the pairs in the row changes as the
function says.

Key definitions: `pairs`, `rank`, `GapsFit`.
Key theorems: `zslInsert_spec`, `zslDelete_spec`, `zslUpdateScore_spec`, `zslDeleteRangeByScore_spec`,
`zslDeleteRangeByLex_spec`, `zslDeleteRangeByRank_spec`.
-/
import Mathlib
import RedisZk.Zset.Remove
import RedisZk.Zset.Order

namespace RedisZk.Zset

open Towers

variable {σ : Type} {zsl zsl' : Zskiplist σ} {l p q pre post del rest : List (Item σ)} {it x : Item σ}
  {score : σ} {ele : Sds} {level : ℕ}

/-! ### The set of a row -/

def Item.pair (it : Item σ) : σ × Sds := (it.score, it.ele)

theorem pair_eq_iff {s : σ} {e : Sds} : it.pair = (s, e) ↔ it.key = key s e := by
  rw [Item.key, key_inj, Item.pair, Prod.mk.injEq]

theorem pair_inj {a b : Item σ} : a.pair = b.pair ↔ a.key = b.key := by
  rw [show b.pair = (b.score, b.ele) from rfl, pair_eq_iff, Item.key, Item.key]

theorem takeWhile_cut {A : Item σ → Prop} [DecidablePred A] (hpre : ∀ it ∈ pre, A it) (hpost : ∀ it ∈ post, ¬ A it) :
    (pre ++ post).takeWhile (fun it => decide (A it)) = pre := by
  rw [List.takeWhile_append_of_pos fun it hit => decide_eq_true (hpre it hit)]
  cases post with
  | nil => simp
  | cons y post => rw [List.takeWhile_cons_of_neg (by simpa using hpost y List.mem_cons_self), List.append_nil]

variable [LinearOrder σ]

/-- The sorted set a row is. -/
def pairs (l : List (Item σ)) : Finset (σ × Sds) := (l.map Item.pair).toFinset

/-- The 1-based rank of a pair. -/
def rank (m : Finset (σ × Sds)) (p : σ × Sds) : ℕ := (m.filter fun q => key q.1 q.2 ≤ key p.1 p.2).card

theorem mem_pairs {r : σ × Sds} : r ∈ pairs l ↔ ∃ it ∈ l, it.pair = r := by
  simp [pairs]

theorem Sorted.nodup (h : Sorted l) : (l.map Item.pair).Nodup := by
  refine List.pairwise_map.mpr (List.Pairwise.imp ?_ h)
  intro a b hlt heq
  exact hlt.ne (pair_inj.mp heq)

theorem Sorted.card (h : Sorted l) : (pairs l).card = l.length := by
  rw [pairs, List.toFinset_card_of_nodup h.nodup, List.length_map]

theorem pairs_append : pairs (p ++ q) = pairs p ∪ pairs q := by
  rw [pairs, List.map_append, List.toFinset_append, pairs, pairs]

/-- The rank of a node is its place in the row. -/
theorem Sorted.rank_eq (h : Sorted (p ++ it :: q)) : rank (pairs (p ++ it :: q)) it.pair = p.length + 1 := by
  obtain ⟨h1, h2, h3⟩ := List.pairwise_append.mp h
  have hset : (pairs (p ++ it :: q)).filter (fun r => key r.1 r.2 ≤ key it.pair.1 it.pair.2) = pairs (p ++ [it]) := by
    ext r
    rw [Finset.mem_filter, mem_pairs, mem_pairs]
    constructor
    · rintro ⟨⟨y, hy, rfl⟩, hle⟩
      have hle' : y.key ≤ it.key := hle
      rcases List.mem_append.mp hy with hy | hy
      · exact ⟨y, List.mem_append_left _ hy, rfl⟩
      · rcases List.mem_cons.mp hy with rfl | hy
        · exact ⟨y, by simp, rfl⟩
        · exact absurd hle' (not_le.mpr ((List.pairwise_cons.mp h2).1 y hy))
    · rintro ⟨y, hy, rfl⟩
      rcases List.mem_append.mp hy with hy | hy
      · exact ⟨⟨y, List.mem_append_left _ hy, rfl⟩, (h3 y hy it List.mem_cons_self).le⟩
      · rw [List.mem_singleton.mp hy]
        exact ⟨⟨it, by simp, rfl⟩, le_rfl⟩
  have hsorted : Sorted (p ++ [it]) := by
    refine List.Pairwise.sublist ?_ h
    exact List.Sublist.append (List.Sublist.refl _) (by simp)
  rw [rank, hset, hsorted.card, List.length_append, List.length_singleton]

/-- The pairs of the nodes taken out are those a condition holds of. -/
theorem pairs_removed (h : Sorted (pre ++ (del ++ rest))) {P : σ × Sds → Bool} (hdel : ∀ it ∈ del, P it.pair = true)
    (hkeep : ∀ it ∈ pre ++ rest, P it.pair = false) :
    pairs (pre ++ rest) = (pairs (pre ++ (del ++ rest))).filter (fun r => P r = false) ∧
      del.length = ((pairs (pre ++ (del ++ rest))).filter fun r => P r = true).card := by
  have hall : ∀ y, y ∈ pre ++ (del ++ rest) ↔ y ∈ del ∨ y ∈ pre ++ rest := by
    intro y
    simp only [List.mem_append]
    tauto
  constructor
  · ext r
    rw [Finset.mem_filter, mem_pairs, mem_pairs]
    constructor
    · rintro ⟨y, hy, rfl⟩
      exact ⟨⟨y, (hall y).mpr (.inr hy), rfl⟩, hkeep y hy⟩
    · rintro ⟨⟨y, hy, rfl⟩, hP⟩
      rcases (hall y).mp hy with hd | hk
      · rw [hdel y hd] at hP
        cases hP
      · exact ⟨y, hk, rfl⟩
  · have hset : (pairs (pre ++ (del ++ rest))).filter (fun r => P r = true) = pairs del := by
      ext r
      rw [Finset.mem_filter, mem_pairs, mem_pairs]
      constructor
      · rintro ⟨⟨y, hy, rfl⟩, hP⟩
        rcases (hall y).mp hy with hd | hk
        · exact ⟨y, hd, rfl⟩
        · rw [hkeep y hk] at hP
          cases hP
      · rintro ⟨y, hy, rfl⟩
        exact ⟨⟨y, (hall y).mpr (.inl hy), rfl⟩, hdel y hy⟩
    have hsorted : Sorted del := by
      refine List.Pairwise.sublist ?_ h
      exact (List.sublist_append_left del rest).trans (List.sublist_append_right ..)
    rw [hset, hsorted.card]

/-! ### The walk to a pair -/

theorem sees_before {wrap : ℕ → ℕ} (hwrap : ∀ a b, wrap (wrap a + b) = wrap (a + b)) (score : σ) (ele : Sds) :
    Sees zsl l (fun n _ => n.before score ele) wrap fun _ it => decide (it.key < key score ele) where
  ahead := by
    intro a b it q n _ _ hele hscore
    rw [before_eq, hele, hscore]
    rfl
  wrap := hwrap

/-- The cut at a pair. -/
theorem seek_before (h : Rep zsl l) (hs : Sorted l) {w : ℕ → ℕ} (hw : ∀ a b, w (w a + b) = w (a + b)) (h0 : w 0 = 0)
    (score : σ) (ele : Sds) :
    ∃ pre post update, l = pre ++ post ∧ zslSeek zsl (fun n _ => n.before score ele) w = .ok update ∧
      update.length = zsl.level ∧ Feet zsl.level w pre update ∧ (∀ it ∈ pre, it.key < key score ele) ∧
      ∀ it ∈ post, ¬ it.key < key score ele := by
  obtain ⟨pre, post, update, rfl, hseek, hlen, hfeet, hhead, hlast⟩ := zslSeek_spec h.toLinked
    (sees_before hw score ele) h0
  obtain ⟨hpre, hpost⟩ := hs.cut (A := fun it => it.key < key score ele) (fun a _ b _ hab hb => hab.trans hb)
    (fun e it he => of_decide_eq_true (hlast e it he)) fun it r hr => of_decide_eq_false (hhead it r hr)
  exact ⟨pre, post, update, rfl, hseek, hlen, hfeet, hpre, hpost⟩

/-- The node at the cut, if it is that of the pair. -/
theorem zslMatch_spec (h : Linked zsl (pre ++ post)) (score : σ) (ele : Sds) :
    ∃ r, zslMatch zsl score ele (post.head?.map Item.addr) = .ok r ∧
      match r with
      | none => ∀ it ∈ post.head?, it.key ≠ key score ele
      | some (a, n) => ∃ it post', post = it :: post' ∧ it.addr = a ∧ it.key = key score ele ∧ zsl.nodes a = some n ∧
          n.ele = it.ele ∧ n.score = it.score ∧ n.backward = pre.getLast?.map Item.addr := by
  cases post with
  | nil => exact ⟨none, rfl, by simp⟩
  | cons it post =>
    obtain ⟨n, hn, hele, hscore, hback, -⟩ := h.node_of pre it post rfl
    have hstep : zslMatch zsl score ele ((it :: post).head?.map Item.addr) =
        .ok (if score = n.score ∧ sdscmp n.ele ele = .eq then some (it.addr, n) else none) := by
      change zslMatch zsl score ele (some it.addr) = _
      unfold zslMatch
      simp only [bind, Except.bind, node_eq hn]
    refine ⟨_, hstep, ?_⟩
    by_cases hmatch : score = n.score ∧ sdscmp n.ele ele = .eq
    · rw [if_pos hmatch]
      refine ⟨it, post, rfl, rfl, ?_, hn, hele, hscore, hback⟩
      rw [Item.key, key_inj, ← hscore, ← hele]
      exact ⟨hmatch.1.symm, sdscmp_eq_eq.mp hmatch.2⟩
    · rw [if_neg hmatch]
      intro it' hit' hkey
      rw [← Option.some.inj hit', Item.key, key_inj, ← hscore, ← hele] at hkey
      exact hmatch ⟨hkey.1.symm, sdscmp_eq_eq.mpr hkey.2⟩

/-- A pair of the row that is not before the cut is at it. -/
theorem Sorted.head_of_mem (h : Sorted (pre ++ post)) (hpre : ∀ it ∈ pre, it.key < key score ele)
    (hpost : ∀ it ∈ post, ¬ it.key < key score ele) (hit : it ∈ pre ++ post) (hkey : it.key = key score ele) :
    post.head? = some it := by
  rcases List.mem_append.mp hit with hin | hin
  · exact absurd hkey (hpre it hin).ne
  · cases post with
    | nil => cases hin
    | cons y post =>
      rcases List.mem_cons.mp hin with rfl | hin
      · rfl
      · have hlt := (List.pairwise_cons.mp (List.pairwise_append.mp h).2.1).1 it hin
        rw [hkey] at hlt
        exact absurd hlt (hpost y List.mem_cons_self)

/-! ### Insertion -/

/-- The gaps of an insertion fit: at no level of the new node there are `2^32 - 1` nodes or more
from the node before it with this level to its place. -/
def GapsFit (l : List (Item σ)) (score : σ) (ele : Sds) (level : ℕ) : Prop :=
  ∀ i < level, Gap (l.takeWhile fun it => decide (it.key < key score ele)) i + 1 < 2 ^ 32

/-- An insertion puts a node into the cut at the pair. -/
theorem zslInsert_inserts (h : Rep zsl l) (hs : Sorted l) (score : σ) (ele : Sds)
    (hlevel : 1 ≤ level ∧ level ≤ ZSKIPLIST_MAXLEVEL) :
    ∃ pre post zslg zsl', l = pre ++ post ∧ (∀ it ∈ pre, it.key < key score ele) ∧ (∀ it ∈ post, ¬ it.key < key score ele) ∧
      Linked zslg l ∧ zslg.level = max zsl.level level ∧ zslg.fresh = zsl.fresh ∧
      zslInsert zsl score ele level = .ok (zsl', zsl.fresh) ∧
      Inserted zslg zsl' pre post ⟨zsl.fresh, score, ele, level⟩ := by
  obtain ⟨pre, post, update, rfl, hseek, hlen, hfeet, hpre, hpost⟩ := seek_before h hs
    (w := (· % 2 ^ 32)) (fun a b => Nat.mod_add_mod ..) rfl score ele
  obtain ⟨zslg, update', hgrow, hlinked, hmax, hfresh, hfeet'⟩ := zslGrow_spec h.toLinked rfl rfl hlen hfeet hlevel.2
  obtain ⟨z1, z2, z3, hz1, hz2, hz3, hins⟩ := zslInsert_links hlinked hfeet' (show 1 ≤ level ∧ level ≤ zslg.level by omega)
    score ele
  rw [hfresh] at hz1 hz3 hins
  refine ⟨pre, post, zslg, _, rfl, hpre, hpost, hlinked, hmax, hfresh, ?_, hins⟩
  unfold zslInsert
  simp only [bind, Except.bind, hseek, hgrow, hfresh, hz1, hz2, hz3]

/-- `zslInsert`, of a pair that is not in the set. -/
theorem zslInsert_spec (h : Rep zsl l) (hs : Sorted l) (hlevel : 1 ≤ level ∧ level ≤ ZSKIPLIST_MAXLEVEL)
    (hnew : (score, ele) ∉ pairs l) (hgaps : GapsFit l score ele level) :
    ∃ zsl' l', zslInsert zsl score ele level = .ok (zsl', zsl.fresh) ∧ Rep zsl' l' ∧ Sorted l' ∧
      pairs l' = insert (score, ele) (pairs l) ∧ ∀ it ∈ l', it ∈ l ∨ it.addr = zsl.fresh := by
  obtain ⟨pre, post, zslg, zsl', rfl, hpre, hpost, hlinked, hmax, hfresh, hrun, hins⟩ := zslInsert_inserts h hs score ele hlevel
  have hheight : 1 ≤ level ∧ level ≤ zslg.level := by omega
  rw [GapsFit, takeWhile_cut hpre hpost] at hgaps
  have hlink' := hins.linked hlinked hfresh.symm hheight hgaps
  refine ⟨zsl', _, hrun, ⟨hlink', ?_⟩, ?_, ?_, ?_⟩
  · rw [hins.level, hmax]
    by_cases hle : zsl.level ≤ level
    · exact .inr ⟨⟨zsl.fresh, score, ele, level⟩, by simp, (max_eq_right hle).symm⟩
    · rw [max_eq_left (by omega)]
      rcases h.tight with h1 | ⟨it, hit, heq⟩
      · exact .inl h1
      · refine .inr ⟨it, ?_, heq⟩
        rcases List.mem_append.mp hit with hit | hit
        · exact List.mem_append_left _ hit
        · exact List.mem_append_right _ (List.mem_cons_of_mem _ hit)
  · refine hs.insert hpre fun it hit => ?_
    refine lt_of_le_of_ne (not_lt.mp (hpost it hit)) fun heq => hnew ?_
    exact mem_pairs.mpr ⟨it, List.mem_append_right _ hit, pair_eq_iff.mpr heq.symm⟩
  · ext r
    rw [Finset.mem_insert, mem_pairs, mem_pairs]
    simp only [List.mem_append, List.mem_cons]
    constructor
    · rintro ⟨y, hy | rfl | hy, rfl⟩
      · exact .inr ⟨y, .inl hy, rfl⟩
      · exact .inl rfl
      · exact .inr ⟨y, .inr hy, rfl⟩
    · rintro (rfl | ⟨y, hy | hy, rfl⟩)
      · exact ⟨_, .inr (.inl rfl), rfl⟩
      · exact ⟨y, .inl hy, rfl⟩
      · exact ⟨y, .inr (.inr hy), rfl⟩
  · intro it hit
    rcases List.mem_append.mp hit with hit | hit
    · exact .inl (List.mem_append_left _ hit)
    · rcases List.mem_cons.mp hit with rfl | hit
      · exact .inr rfl
      · exact .inl (List.mem_append_right _ hit)

/-! ### Removal of a pair -/

theorem pairs_erase (h : Sorted (pre ++ it :: post)) : pairs (pre ++ post) = (pairs (pre ++ it :: post)).erase it.pair := by
  have hperm : ((pre ++ it :: post).map Item.pair).Perm (it.pair :: (pre ++ post).map Item.pair) :=
    List.perm_middle.map Item.pair
  have hnot := (List.nodup_cons.mp (hperm.nodup_iff.mp h.nodup)).1
  rw [pairs, pairs, List.toFinset_eq_of_perm _ _ hperm, List.toFinset_cons, Finset.erase_insert]
  rwa [List.mem_toFinset]

/-- `zslDelete` -/
theorem zslDelete_spec (h : Rep zsl l) (hs : Sorted l) (score : σ) (ele : Sds) (keep : Bool) :
    ∃ zsl' l', zslDelete zsl score ele keep = .ok (zsl', decide ((score, ele) ∈ pairs l)) ∧ Rep zsl' l' ∧ Sorted l' ∧
      pairs l' = (pairs l).erase (score, ele) := by
  obtain ⟨pre, post, update, rfl, hseek, -, hfeet, hpre, hpost⟩ := seek_before h hs (w := id) (fun _ _ => rfl) rfl score ele
  have hnext := zslNext_spec h.toLinked hfeet
  obtain ⟨r, hr, hmatch⟩ := zslMatch_spec h.toLinked score ele
  cases r with
  | none =>
    have hnot : (score, ele) ∉ pairs (pre ++ post) := by
      intro hmem
      obtain ⟨it, hit, hpair⟩ := mem_pairs.mp hmem
      have hkey := pair_eq_iff.mp hpair
      exact hmatch it (hs.head_of_mem hpre hpost hit hkey) hkey
    refine ⟨zsl, pre ++ post, ?_, h, hs, (Finset.erase_eq_of_notMem hnot).symm⟩
    unfold zslDelete
    simp only [bind, Except.bind, hseek, hnext, hr, decide_eq_false hnot]
  | some an =>
    obtain ⟨a, n⟩ := an
    obtain ⟨it, post', rfl, rfl, hkey, -⟩ := hmatch
    obtain ⟨z, hz, hrep, -, -⟩ := zslDeleteNode_spec h.toLinked hfeet
    have hpair := pair_eq_iff.mpr hkey
    have hmem : (score, ele) ∈ pairs (pre ++ it :: post') := mem_pairs.mpr ⟨it, by simp, hpair⟩
    have hsorted : Sorted (pre ++ post') := Sorted.remove (m := [it]) (by simpa using hs)
    refine ⟨if keep then z else zslFreeNode z it.addr, pre ++ post', ?_, ?_, hsorted, ?_⟩
    · unfold zslDelete
      simp only [bind, Except.bind, hseek, hnext, hr, hz, decide_eq_true hmem]
    · cases keep with
      | true => exact hrep
      | false => exact hrep.free h.toLinked.addr_ne
    · rw [← hpair]
      exact pairs_erase hs

/-! ### A new score -/

/-- `zslUpdateScore`, of a pair in the set to one that is not, unless it is the same. -/
theorem zslUpdateScore_spec (h : Rep zsl l) (hs : Sorted l) {curscore newscore : σ}
    (hlevel : 1 ≤ level ∧ level ≤ ZSKIPLIST_MAXLEVEL) (hmem : (curscore, ele) ∈ pairs l)
    (hnew : (newscore, ele) ∈ pairs l → newscore = curscore)
    (hgaps : GapsFit (l.filter fun it => decide (it.key ≠ key curscore ele)) newscore ele level) :
    ∃ zsl' l', zslUpdateScore zsl curscore ele newscore level = .ok zsl' ∧ Rep zsl' l' ∧ Sorted l' ∧
      pairs l' = insert (newscore, ele) ((pairs l).erase (curscore, ele)) := by
  obtain ⟨pre, post, update, rfl, hseek, -, hfeet, hpre, hpost⟩ := seek_before h hs (w := id) (fun _ _ => rfl) rfl
    curscore ele
  obtain ⟨it, hit, hpair⟩ := mem_pairs.mp hmem
  have hkey := pair_eq_iff.mp hpair
  have hhead := hs.head_of_mem hpre hpost hit hkey
  have hnext := zslNext_spec h.toLinked hfeet
  obtain ⟨r, hr, hmatch⟩ := zslMatch_spec h.toLinked curscore ele
  cases r with
  | none => exact absurd hkey (hmatch it hhead)
  | some an =>
    obtain ⟨a, n⟩ := an
    obtain ⟨it', post', rfl, rfl, -, hn, hele, -, hback⟩ := hmatch
    obtain rfl : it' = it := Option.some.inj hhead
    obtain ⟨hscore, hit'ele⟩ := key_inj.mp hkey
    have hheight := (h.heights it' hit).1
    have hlink := h.link (pre ++ [it']) post' 0 (by simp) h.level.1 (reaches_concat.mpr (by omega))
    rw [lastRef_concat] at hlink
    have hfwd : (linkTo 0 post').forward = post'.head?.map Item.addr := by
      rw [linkTo, nextTower_zero fun y hy => (h.heights y (by simp [hy])).1]
    have hafter := zslScoreIs_spec h.toLinked (fun s => decide (s < newscore)) pre.getLast?
      fun y hy => List.mem_append_left _ (List.mem_of_mem_getLast? hy)
    have hbefore := zslScoreIs_spec h.toLinked (fun s => decide (s > newscore)) post'.head?
      fun y hy => by simp [List.mem_of_mem_head? hy]
    have hsorted : Sorted (pre ++ post') := Sorted.remove (m := [it']) (by simpa using hs)
    have hrest : pairs (pre ++ post') = (pairs (pre ++ it' :: post')).erase (curscore, ele) := by
      rw [← hpair]
      exact pairs_erase hs
    by_cases hplace : pre.getLast?.all (fun y => decide (y.score < newscore)) = true ∧
        post'.head?.all (fun y => decide (y.score > newscore)) = true
    · -- the node stays where it is
      have hsorted' : Sorted (pre ++ { it' with score := newscore } :: post') := by
        obtain ⟨h1, h2⟩ := hsorted.cut (A := fun y => y.score < newscore)
          (fun y _ z _ hyz hz => by
            rcases key_lt_iff.mp hyz with hlt | ⟨heq, -⟩
            · exact hlt.trans hz
            · exact heq ▸ hz)
          (fun e y he => by
            have hall := hplace.1
            rw [he, List.getLast?_concat] at hall
            exact of_decide_eq_true hall)
          (fun y r hr hlt => by
            have hall := hplace.2
            rw [hr] at hall
            exact absurd hlt (not_lt.mpr (le_of_lt (of_decide_eq_true hall))))
        refine hsorted.insert (fun y hy => key_lt_iff.mpr (.inl (h1 y hy))) fun y hy => ?_
        refine key_lt_iff.mpr (.inl ?_)
        cases post' with
        | nil => cases hy
        | cons z post' =>
          have hz : newscore < z.score := of_decide_eq_true (p := z.score > newscore) hplace.2
          rcases List.mem_cons.mp hy with rfl | hy
          · exact hz
          · have hlt := (List.pairwise_cons.mp (List.pairwise_append.mp hsorted).2.1).1 y hy
            rcases key_lt_iff.mp hlt with hlt | ⟨heq, -⟩
            · exact hz.trans hlt
            · exact hz.trans_eq heq
      refine ⟨_, _, ?_, h.rescore hn newscore, hsorted', ?_⟩
      · unfold zslUpdateScore
        simp only [bind, Except.bind, hseek, hnext, hr, hlink, hfwd, hback, hafter, hbefore]
        rw [if_pos hplace]
      · rw [← hrest]
        ext r
        rw [Finset.mem_insert, mem_pairs, mem_pairs]
        simp only [List.mem_append, List.mem_cons]
        constructor
        · rintro ⟨y, hy | rfl | hy, rfl⟩
          · exact .inr ⟨y, .inl hy, rfl⟩
          · exact .inl (by rw [Item.pair, hit'ele])
          · exact .inr ⟨y, .inr hy, rfl⟩
        · rintro (rfl | ⟨y, hy | hy, rfl⟩)
          · exact ⟨_, .inr (.inl rfl), by rw [Item.pair, hit'ele]⟩
          · exact ⟨y, .inl hy, rfl⟩
          · exact ⟨y, .inr (.inr hy), rfl⟩
    · -- the node is removed, and another one is inserted
      obtain ⟨z, hz, hrep, -, hfresh⟩ := zslDeleteNode_spec h.toLinked hfeet
      have hfilter : (pre ++ it' :: post').filter (fun y => decide (y.key ≠ key curscore ele)) = pre ++ post' := by
        have hne : ∀ y ∈ pre ++ post', y.key ≠ key curscore ele := by
          intro y hy heq
          have hin : y.pair ∈ pairs (pre ++ post') := mem_pairs.mpr ⟨y, hy, rfl⟩
          rw [hrest, Finset.mem_erase] at hin
          exact hin.1 (pair_eq_iff.mpr heq)
        rw [List.filter_append, List.filter_cons_of_neg (by simp [hkey]),
          List.filter_eq_self.mpr fun y hy => decide_eq_true (hne y (List.mem_append_left _ hy)),
          List.filter_eq_self.mpr fun y hy => decide_eq_true (hne y (List.mem_append_right _ hy))]
      rw [hfilter] at hgaps
      have hnot : (newscore, ele) ∉ pairs (pre ++ post') := by
        rw [hrest, Finset.mem_erase]
        rintro ⟨hne, hin⟩
        exact hne (by rw [hnew hin])
      obtain ⟨z', l', hrun, hrep', hsorted', hpairs, haddr⟩ := zslInsert_spec hrep hsorted hlevel hnot hgaps
      have hne : ∀ y ∈ l', y.addr ≠ it'.addr := by
        intro y hy
        rcases haddr y hy with hin | hin
        · exact h.toLinked.addr_ne y hin
        · rw [hin, hfresh]
          exact (h.fresh it' hit).ne'
      refine ⟨_, l', ?_, hrep'.free hne, hsorted', by rw [hpairs, hrest]⟩
      unfold zslUpdateScore
      simp only [bind, Except.bind, hseek, hnext, hr, hlink, hfwd, hback, hafter, hbefore]
      rw [if_neg hplace]
      simp only [hz, hele, hit'ele, hrun]

/-! ### Ranges -/

/-- Where the range is between two conditions that are passed down in the order, the pairs in it
are removed. -/
theorem removed_between (h : Sorted (pre ++ (del ++ rest))) {A C : Item σ → Bool} {P : σ × Sds → Bool}
    (hP : ∀ it, P it.pair = (!A it && C it))
    (hA : ∀ a ∈ pre ++ (del ++ rest), ∀ b ∈ pre ++ (del ++ rest), a.key < b.key → A b = true → A a = true)
    (hC : ∀ a ∈ pre ++ (del ++ rest), ∀ b ∈ pre ++ (del ++ rest), a.key < b.key → C b = true → C a = true)
    (hlast : ∀ e it, pre = e ++ [it] → A it = true) (hhead : ∀ it r, del ++ rest = it :: r → A it = false)
    (hdel : ∀ e it f, del = e ++ it :: f → C it = true) (hrest : ∀ it f, rest = it :: f → C it = false) :
    pairs (pre ++ rest) = (pairs (pre ++ (del ++ rest))).filter (fun r => P r = false) ∧
      del.length = ((pairs (pre ++ (del ++ rest))).filter fun r => P r = true).card := by
  obtain ⟨hpre, hpost⟩ := h.cut (A := fun it => A it = true) hA hlast fun it r hr => by simp [hhead it r hr]
  have hbehind : Sorted (del ++ rest) := (List.pairwise_append.mp h).2.1
  obtain ⟨-, hout⟩ := hbehind.cut (A := fun it => C it = true)
    (fun a ha b hb => hC a (List.mem_append_right _ ha) b (List.mem_append_right _ hb))
    (fun e it he => hdel e it [] he) fun it f hf => by simp [hrest it f hf]
  refine pairs_removed h (fun it hit => ?_) fun it hit => ?_
  · obtain ⟨e, f, he⟩ := List.append_of_mem hit
    have hno : A it = false := by simpa using hpost it (List.mem_append_left _ hit)
    rw [hP, hno, hdel e it f he]
    rfl
  · rw [hP]
    rcases List.mem_append.mp hit with hin | hin
    · rw [hpre it hin]
      rfl
    · have hno : C it = false := by simpa using hout it hin
      rw [hno, Bool.and_false]

/-- The score of a pair is in a range. -/
def inScoreRange (range : ZrangeSpec σ) (r : σ × Sds) : Bool := zslValueGteMin r.1 range && zslValueLteMax r.1 range

theorem zslDeleteRangeByScore_spec (h : Rep zsl l) (hs : Sorted l) (range : ZrangeSpec σ) :
    ∃ zsl' l', zslDeleteRangeByScore zsl range =
        .ok (zsl', ((pairs l).filter fun r => inScoreRange range r = true).card) ∧ Rep zsl' l' ∧ Sorted l' ∧
      pairs l' = (pairs l).filter fun r => inScoreRange range r = false := by
  obtain ⟨pre, del, rest, update, x, zsl', rfl, hseek, -, hnext, hrun, hrep, hlast, hhead, hdel, hrest⟩ := range_removes h
    (sees_of (f := fun n => if range.minex then decide (n.score ≤ range.min) else decide (n.score < range.min))
      (A := fun it => !zslValueGteMin it.score range) (fun n it _ hscore => by
        unfold zslValueGteMin
        cases hex : range.minex with
        | true => simp [hscore, ← not_lt, decide_not]
        | false => simp [hscore, ← not_le, decide_not]))
    (c := fun _ n _ => if range.maxex then decide (n.score < range.max) else decide (n.score ≤ range.max))
    (C := fun _ _ it => zslValueLteMax it.score range) (fun _ n it _ _ hscore => by rw [hscore, zslValueLteMax])
  have hle : ∀ {a b : Item σ}, a.key < b.key → a.score ≤ b.score := by
    intro a b hab
    rcases key_lt_iff.mp hab with hlt | ⟨heq, -⟩
    · exact hlt.le
    · exact heq.le
  have hmin : ∀ a b : Item σ, a.key < b.key → (!zslValueGteMin b.score range) = true → (!zslValueGteMin a.score range) = true := by
    intro a b hab hb
    unfold zslValueGteMin at hb ⊢
    cases hex : range.minex with
    | true =>
      rw [hex] at hb
      have hb' : b.score ≤ range.min := by simpa using hb
      simpa using (hle hab).trans hb'
    | false =>
      rw [hex] at hb
      have hb' : b.score < range.min := by simpa using hb
      simpa using (hle hab).trans_lt hb'
  have hmax : ∀ a b : Item σ, a.key < b.key → zslValueLteMax b.score range = true → zslValueLteMax a.score range = true := by
    intro a b hab hb
    unfold zslValueLteMax at hb ⊢
    cases hex : range.maxex with
    | true =>
      rw [hex] at hb
      exact decide_eq_true ((hle hab).trans_lt (of_decide_eq_true hb))
    | false =>
      rw [hex] at hb
      exact decide_eq_true ((hle hab).trans (of_decide_eq_true hb))
  obtain ⟨hset, hcard⟩ := removed_between (P := inScoreRange range) hs
    (fun it => by rw [inScoreRange, Bool.not_not, Item.pair]) (fun a _ b _ => hmin a b) (fun a _ b _ => hmax a b) hlast hhead
    hdel hrest
  refine ⟨zsl', pre ++ rest, ?_, hrep, Sorted.remove (m := del) (by rwa [List.append_assoc]), hset⟩
  unfold zslDeleteRangeByScore
  simp only [bind, Except.bind, hseek, hnext, hrun, hcard]

/-- The element of a pair is in a range. -/
def inLexRange (range : ZlexRangeSpec) (r : σ × Sds) : Bool := zslLexValueGteMin r.2 range && zslLexValueLteMax r.2 range

/-- A string before one that is below a bound is below it, and before one that is up to it, up to it. -/
theorem sdscmplex_mono {a b : Sds} (hab : a < b) (bound : LexBound) :
    (sdscmplex b bound = .lt → sdscmplex a bound = .lt) ∧ (sdscmplex b bound ≠ .gt → sdscmplex a bound ≠ .gt) := by
  cases bound with
  | minstring => exact ⟨nofun, fun h => absurd rfl h⟩
  | maxstring => exact ⟨fun _ => rfl, fun _ => nofun⟩
  | str c =>
    have hlt : sdscmp b c ≠ .gt → sdscmp a c = .lt := by
      intro hb
      have hspec := sdscmp_spec b c
      rw [sdscmp_eq_lt]
      cases hm : sdscmp b c with
      | lt =>
        rw [hm] at hspec
        exact hab.trans hspec
      | eq =>
        rw [hm] at hspec
        exact hspec ▸ hab
      | gt => exact absurd hm hb
    refine ⟨fun hb => hlt ?_, fun hb => ?_⟩
    · change sdscmp b c = .lt at hb
      rw [hb]
      nofun
    · change sdscmp a c ≠ .gt
      rw [hlt hb]
      nofun

/-- `zslDeleteRangeByLex` removes some nodes, and those in the range if all scores are the same. -/
theorem zslDeleteRangeByLex_spec (h : Rep zsl l) (hs : Sorted l) (range : ZlexRangeSpec) :
    ∃ zsl' l' removed, zslDeleteRangeByLex zsl range = .ok (zsl', removed) ∧ Rep zsl' l' ∧ Sorted l' ∧
      pairs l' ⊆ pairs l ∧ removed + (pairs l').card = (pairs l).card ∧
      ((∀ a ∈ pairs l, ∀ b ∈ pairs l, a.1 = b.1) →
        removed = ((pairs l).filter fun r => inLexRange range r = true).card ∧
        pairs l' = (pairs l).filter fun r => inLexRange range r = false) := by
  obtain ⟨pre, del, rest, update, x, zsl', rfl, hseek, -, hnext, hrun, hrep, hlast, hhead, hdel, hrest⟩ := range_removes h
    (sees_of (A := fun it => !zslLexValueGteMin it.ele range) (f := fun n => !zslLexValueGteMin n.ele range)
      (fun n it hele _ => by rw [hele]))
    (c := fun _ n _ => zslLexValueLteMax n.ele range) (C := fun _ _ it => zslLexValueLteMax it.ele range)
    (fun _ n it _ hele _ => by rw [hele])
  have hsorted : Sorted (pre ++ rest) := Sorted.remove (m := del) (by rwa [List.append_assoc])
  refine ⟨zsl', pre ++ rest, del.length, ?_, hrep, hsorted, ?_, ?_, fun hsame => ?_⟩
  · unfold zslDeleteRangeByLex
    simp only [bind, Except.bind, hseek, hnext, hrun]
  · rw [pairs_append, pairs_append, pairs_append]
    exact Finset.union_subset_union_right Finset.subset_union_right
  · rw [hsorted.card, hs.card]
    simp only [List.length_append]
    omega
  · have hlt : ∀ a ∈ pre ++ (del ++ rest), ∀ b ∈ pre ++ (del ++ rest), a.key < b.key → a.ele < b.ele := by
      intro a ha b hb hab
      rcases key_lt_iff.mp hab with hlt | ⟨-, hlt⟩
      · exact absurd (hsame _ (mem_pairs.mpr ⟨a, ha, rfl⟩) _ (mem_pairs.mpr ⟨b, hb, rfl⟩)) hlt.ne
      · exact hlt
    have hmin : ∀ a ∈ pre ++ (del ++ rest), ∀ b ∈ pre ++ (del ++ rest), a.key < b.key →
        (!zslLexValueGteMin b.ele range) = true → (!zslLexValueGteMin a.ele range) = true := by
      intro a ha b hb hab hgte
      obtain ⟨h1, h2⟩ := sdscmplex_mono (hlt a ha b hb hab) range.min
      unfold zslLexValueGteMin at hgte ⊢
      cases hex : range.minex with
      | true =>
        rw [hex] at hgte
        simp only [if_true, Bool.not_eq_true', beq_eq_false_iff_ne] at hgte ⊢
        exact h2 hgte
      | false =>
        rw [hex] at hgte
        simp only [Bool.false_eq_true, if_false, Bool.not_eq_true', bne_eq_false_iff_eq] at hgte ⊢
        exact h1 hgte
    have hmax : ∀ a ∈ pre ++ (del ++ rest), ∀ b ∈ pre ++ (del ++ rest), a.key < b.key →
        zslLexValueLteMax b.ele range = true → zslLexValueLteMax a.ele range = true := by
      intro a ha b hb hab hlte
      obtain ⟨h1, h2⟩ := sdscmplex_mono (hlt a ha b hb hab) range.max
      unfold zslLexValueLteMax at hlte ⊢
      cases hex : range.maxex with
      | true =>
        rw [hex] at hlte
        simp only [if_true, beq_iff_eq] at hlte ⊢
        exact h1 hlte
      | false =>
        rw [hex] at hlte
        simp only [Bool.false_eq_true, if_false, bne_iff_ne, ne_eq] at hlte ⊢
        exact h2 hlte
    obtain ⟨hset, hcard⟩ := removed_between (P := inLexRange range) hs (fun it => by rw [inLexRange, Bool.not_not, Item.pair])
      hmin hmax hlast hhead hdel hrest
    exact ⟨hcard, hset⟩

/-- The rank of a pair is in a range. -/
def inRankRange (m : Finset (σ × Sds)) (start stop : BitVec 32) (r : σ × Sds) : Bool :=
  decide (start.toNat ≤ rank m r) && decide (rank m r ≤ stop.toNat)

theorem zslDeleteRangeByRank_spec (h : Rep zsl l) (hs : Sorted l) (start stop : BitVec 32) :
    ∃ zsl' l', zslDeleteRangeByRank zsl start stop =
        .ok (zsl', ((pairs l).filter fun r => inRankRange (pairs l) start stop r = true).card) ∧ Rep zsl' l' ∧ Sorted l' ∧
      pairs l' = (pairs l).filter fun r => inRankRange (pairs l) start stop r = false := by
  have hsees : Sees zsl l (fun _ traversed => decide (traversed < start.toNat)) id
      fun place _ => decide (place < start.toNat) := ⟨fun _ _ _ _ _ _ _ _ _ => rfl, fun _ _ => rfl⟩
  obtain ⟨pre, del, rest, update, x, zsl', rfl, hseek, hup, hnext, hrun, hrep, hlast, hhead, hdel, hrest⟩ := range_removes h
    hsees (c := fun traversed _ removed => decide (traversed + 1 + removed ≤ stop.toNat))
    (C := fun traversed removed _ => decide (traversed + 1 + removed ≤ stop.toNat)) (fun _ _ _ _ _ _ => rfl)
  have hin : ∀ it ∈ del, inRankRange (pairs (pre ++ (del ++ rest))) start stop it.pair = true := by
    intro it hit
    obtain ⟨e, f, rfl⟩ := List.append_of_mem hit
    have hl : pre ++ (e ++ it :: f ++ rest) = pre ++ e ++ it :: (f ++ rest) := by simp
    have hrank := Sorted.rank_eq (hl ▸ hs)
    have hyes := of_decide_eq_true (hdel e it f rfl)
    have hstart : start.toNat ≤ pre.length + 1 := by
      obtain ⟨y, r, hy⟩ := List.exists_cons_of_ne_nil (show e ++ it :: f ++ rest ≠ [] by simp)
      have hno := of_decide_eq_false (hhead y r hy)
      omega
    rw [inRankRange, hl, hrank, List.length_append, decide_eq_true (by omega), decide_eq_true (by omega)]
    rfl
  have hout : ∀ it ∈ pre ++ rest, inRankRange (pairs (pre ++ (del ++ rest))) start stop it.pair = false := by
    intro it hit
    rcases List.mem_append.mp hit with hit | hit
    · obtain ⟨e, f, rfl⟩ := List.append_of_mem hit
      have hl : e ++ it :: f ++ (del ++ rest) = e ++ it :: (f ++ (del ++ rest)) := by simp
      have hrank := Sorted.rank_eq (hl ▸ hs)
      obtain ⟨f', y, hy⟩ := (List.eq_nil_or_concat (e ++ it :: f)).resolve_left (by simp)
      have hyes := of_decide_eq_true (hlast f' y (by rw [hy, List.concat_eq_append]))
      rw [List.length_append, List.length_cons] at hyes
      rw [inRankRange, hl, hrank, decide_eq_false (by omega)]
      rfl
    · obtain ⟨e, f, rfl⟩ := List.append_of_mem hit
      have hl : pre ++ (del ++ (e ++ it :: f)) = pre ++ del ++ e ++ it :: f := by simp
      have hrank := Sorted.rank_eq (hl ▸ hs)
      obtain ⟨y, r, hy⟩ := List.exists_cons_of_ne_nil (show e ++ it :: f ≠ [] by simp)
      have hno := of_decide_eq_false (hrest y r hy)
      have hafter : ¬ rank (pairs (pre ++ del ++ e ++ it :: f)) it.pair ≤ stop.toNat := by
        rw [hrank, List.length_append, List.length_append]
        omega
      rw [inRankRange, hl, decide_eq_false hafter, Bool.and_false]
  obtain ⟨hset, hcard⟩ := pairs_removed hs hin hout
  refine ⟨zsl', pre ++ rest, ?_, hrep, Sorted.remove (m := del) (by rwa [List.append_assoc]), hset⟩
  unfold zslDeleteRangeByRank
  simp only [bind, Except.bind, hseek, hup, hnext]
  rw [← hcard]
  exact hrun

end RedisZk.Zset
