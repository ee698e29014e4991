/-
# Removal from a skip list

A node leaves the cut it is behind: whichever levels it has, at every level the
foot of the cut has afterwards the link over what is left. The levels that no node
has any more are dropped, and `update` still has the feet of the cut, so that the
next node can be removed as well. A node that only gets another score stays where it
is, with its links.

Key theorems: `zslDropLevels_spec`, `zslDeleteNode_spec`, `zslRemoveWhile_spec`, `Rep.rescore`.
-/
import RedisZk.Zset.Insert

namespace RedisZk.Zset

open Towers

variable {σ : Type} {zsl zsl' : Zskiplist σ} {l p q pre post : List (Item σ)} {it x : Item σ} {i level : ℕ}
  {update : List Place} {wrap : ℕ → ℕ}

/-! ### One node -/

theorem unlinkLoop_spec (h : Linked zsl (pre ++ x :: post)) (hfeet : Feet zsl.level wrap pre update) :
    ∃ z, (List.range' 0 zsl.level).foldlM (zslUnlinkLevel update x.addr) zsl = .ok z ∧ Frame zsl z ∧
      ∀ y j, z.getLevel y j = if j < zsl.level ∧ y = lastRef (stem Item.height j pre) then
        .ok ⟨(nextTower Item.height j post).map Item.addr, Gap pre j + span Item.height j post⟩
        else zsl.getLevel y j := by
  let new : Ref → ℕ → Except ZslAbort ZslLevel := fun y j =>
    if y = lastRef (stem Item.height j pre) then
      .ok ⟨(nextTower Item.height j post).map Item.addr, Gap pre j + span Item.height j post⟩
    else zsl.getLevel y j
  have hxpost : ∀ it ∈ post, it.addr ≠ x.addr := by
    intro it hit heq
    have hnd := h.nodup
    simp only [List.map_append, List.map_cons, List.nodup_append, List.nodup_cons] at hnd
    exact hnd.2.1.1 (heq ▸ List.mem_map_of_mem hit)
  obtain ⟨z, hz, hframe, hlevels⟩ := levels_loop zsl new (zslUnlinkLevel update x.addr) 0 zsl.level (by
    intro z i _ hi _ hsame
    have hi' : i < zsl.level := by omega
    have hlow := (Towers.foot Item.height i pre).low
    have hfoot := hsame (lastRef (stem Item.height i pre))
    rw [h.link _ _ i (stem_cut ..) hi' (Towers.foot Item.height i pre).reaches] at hfoot
    have hnew : ∀ l0, zslUnlinkLevel update x.addr z i = z.setLevel (lastRef (stem Item.height i pre)) i l0 →
        l0 = ⟨(nextTower Item.height i post).map Item.addr, Gap pre i + span Item.height i post⟩ →
        ∃ z', zslUnlinkLevel update x.addr z i = .ok z' ∧ Frame z z' ∧
          ∀ y j, z'.getLevel y j = if j = i then new y j else z.getLevel y j := by
      rintro l0 hunlink rfl
      obtain ⟨z1, hz1, hframe1, hget1⟩ := setLevel_spec hfoot
        ⟨(nextTower Item.height i post).map Item.addr, Gap pre i + span Item.height i post⟩
      refine ⟨z1, hunlink.trans hz1, hframe1, fun y j => ?_⟩
      rw [hget1]
      by_cases hj : j = i
      · rw [if_pos hj, hj]
        change _ = if y = lastRef (stem Item.height i pre) then _ else _
        by_cases hy : y = lastRef (stem Item.height i pre)
        · rw [if_pos ⟨hy, rfl⟩, if_pos hy]
        · rw [if_neg (fun hc => hy hc.1), if_neg hy, hsame]
      · rw [if_neg hj, if_neg (fun hc => hj hc.2)]
    have hstart : zslUnlinkLevel update x.addr z i =
        if (linkTo i (brim Item.height i pre ++ x :: post)).forward = some x.addr then do
          let lx ← z.getLevel (.node x.addr) i
          z.setLevel (lastRef (stem Item.height i pre)) i
            ⟨lx.forward, usub ((linkTo i (brim Item.height i pre ++ x :: post)).span + lx.span) 1⟩
        else z.setLevel (lastRef (stem Item.height i pre)) i
          { linkTo i (brim Item.height i pre ++ x :: post) with
            span := usub (linkTo i (brim Item.height i pre ++ x :: post)).span 1 } := by
      unfold zslUnlinkLevel
      rw [updateAt_eq (hfeet i hi')]
      simp only [bind, Except.bind, hfoot]
    by_cases hx : i < x.height
    · -- the link is to the node, and goes on from it
      have hself : z.getLevel (.node x.addr) i = .ok (linkTo i post) := by
        rw [hsame, ← lastRef_concat (p := pre)]
        exact h.link _ _ i (by simp) hi' (reaches_concat.mpr hx)
      refine hnew ⟨(nextTower Item.height i post).map Item.addr, usub ((brim Item.height i pre).length + 1 + span Item.height i post) 1⟩ ?_ ?_
      · rw [hstart, linkTo, nextTower_over hlow hx, span_over hlow hx]
        dsimp only [Option.map_some]
        rw [if_pos rfl, hself]
        rfl
      · rw [usub, if_pos (by omega), Gap, ZslLevel.mk.injEq]
        exact ⟨rfl, by omega⟩
    · -- the link goes over the node
      have hne : (nextTower Item.height i post).map Item.addr ≠ some x.addr := by
        intro heq
        obtain ⟨it, hit, hia⟩ := Option.map_eq_some_iff.mp heq
        exact hxpost it (List.mem_of_find?_eq_some hit) hia
      refine hnew ⟨(nextTower Item.height i post).map Item.addr, usub ((brim Item.height i pre).length + span Item.height i post + 1) 1⟩ ?_ ?_
      · rw [hstart, linkTo, nextTower_past hlow (by omega), span_past hlow (by omega), nextTower_append_low hlow,
          span_append_low hlow]
        dsimp only
        rw [if_neg hne]
      · rw [usub, if_pos (by omega), Gap, Nat.add_sub_cancel])
  refine ⟨z, hz, hframe, fun y j => ?_⟩
  rw [hlevels]
  by_cases hj : j < zsl.level
  · rw [if_pos (by omega)]
    change (if y = lastRef (stem Item.height j pre) then _ else _) = _
    by_cases hy : y = lastRef (stem Item.height j pre)
    · rw [if_pos hy, if_pos ⟨hj, hy⟩]
    · rw [if_neg hy, if_neg (fun hc => hy hc.2)]
  · rw [if_neg (by omega), if_neg (fun hc => hj hc.1)]

/-- What a removal did, before the levels are dropped: `zsl'` is `zsl` without the node `x`. -/
structure Removed (zsl zsl' : Zskiplist σ) (pre post : List (Item σ)) (x : Item σ) : Prop where
  fresh : zsl'.fresh = zsl.fresh
  header : zsl'.header.length = zsl.header.length
  level : zsl'.level = zsl.level
  length : zsl'.length + 1 = zsl.length
  tail : zsl'.tail = (pre ++ post).getLast?.map Item.addr
  node : ∀ p it q, pre ++ post = p ++ it :: q →
    (zsl'.nodes it.addr).map ZslNode.shell = some (it.ele, it.score, p.getLast?.map Item.addr, it.height)
  levels : ∀ y j, zsl'.getLevel y j = if j < zsl.level ∧ y = lastRef (stem Item.height j pre) then
    .ok ⟨(nextTower Item.height j post).map Item.addr, Gap pre j + span Item.height j post⟩ else zsl.getLevel y j

theorem Removed.linked (hr : Removed zsl zsl' pre post x) (h : Linked zsl (pre ++ x :: post)) :
    Linked zsl' (pre ++ post) where
  nodup := by
    have hnd := h.nodup
    have hperm : ((pre ++ x :: post).map Item.addr).Perm (x.addr :: (pre ++ post).map Item.addr) :=
      List.perm_middle.map Item.addr
    exact (List.nodup_cons.mp (hperm.nodup_iff.mp hnd)).2
  fresh it hit := by
    rw [hr.fresh]
    refine h.fresh it ?_
    rcases List.mem_append.mp hit with hit | hit
    · exact List.mem_append_left _ hit
    · exact List.mem_append_right _ (List.mem_cons_of_mem _ hit)
  node := hr.node
  header := hr.header.trans h.header
  link p q i hpq hlt hreach := by
    rw [hr.level] at hlt
    rw [hr.levels]
    -- a place before the cut, which is the foot or sees a higher tower before the cut
    have hbefore : ∀ d, pre = p ++ d → q = d ++ post → (if i < zsl.level ∧ lastRef p = lastRef (stem Item.height i pre) then
        .ok ⟨(nextTower Item.height i post).map Item.addr, Gap pre i + span Item.height i post⟩
        else zsl.getLevel (lastRef p) i) = .ok (linkTo i q) := by
      rintro d rfl rfl
      have hl : p ++ d ++ x :: post = p ++ (d ++ x :: post) := List.append_assoc ..
      rcases (foot Item.height i (p ++ d)).split rfl hreach with ⟨hp, hd⟩ | hhigh
      · have hlow : ∀ y ∈ d, y.height ≤ i := hd ▸ (foot Item.height i (p ++ d)).low
        rw [if_pos ⟨hlt, congrArg lastRef hp⟩, linkTo, nextTower_append_low hlow, span_append_low hlow, Gap, ← hd]
      · rw [if_neg (fun hc => ?_), h.link p _ i hl hlt hreach, linkTo, linkTo, nextTower_append_high hhigh,
          span_append_high hhigh, nextTower_append_high hhigh, span_append_high hhigh]
        have hp := h.lastRef_inj hl (stem_cut ..) hc.2
        obtain ⟨y, hy, hiy⟩ := hhigh
        have hd : d = brim Item.height i (p ++ d) := by
          have hcut := stem_append_brim (h := Item.height) i (p ++ d)
          rw [← hp] at hcut
          exact (List.append_cancel_left hcut).symm
        have hlow := (foot Item.height i (p ++ d)).low y (hd ▸ hy)
        omega
    rcases List.append_eq_append_iff.mp hpq with ⟨e, rfl, hq⟩ | ⟨d, hp, hq⟩
    · rcases List.eq_nil_or_concat e with rfl | ⟨e', z, rfl⟩
      · rw [List.append_nil] at hbefore hreach ⊢
        exact hbefore [] (by simp) (by simpa using hq.symm)
      · -- a place after the node
        have hl : pre ++ x :: post = pre ++ x :: e'.concat z ++ q := by simp [hq]
        have href : lastRef (pre ++ x :: e'.concat z) = lastRef (pre ++ e'.concat z) := by
          rw [List.concat_eq_append, ← List.cons_append, ← List.append_assoc, ← List.append_assoc, lastRef_concat, lastRef_concat]
        have hreach' : Reaches Item.height i (pre ++ x :: e'.concat z) := by
          rw [List.concat_eq_append, ← List.append_assoc] at hreach
          rw [List.concat_eq_append, ← List.cons_append, ← List.append_assoc]
          exact reaches_concat.mpr (reaches_concat.mp hreach)
        rw [if_neg (fun hc => ?_), ← href, h.link _ _ i hl hlt hreach']
        have hp := h.lastRef_inj hl (stem_cut ..) (href.trans hc.2)
        have hlen := congrArg List.length hp
        have hgaplen := stem_length_add_gap pre i
        rw [List.length_append, List.length_cons] at hlen
        omega
    · exact hbefore d hp hq
  above i hle hlt := by
    rw [hr.level] at hle
    obtain ⟨s, hs⟩ := h.above i hle hlt
    exact ⟨s, by rw [hr.levels, if_neg (by omega), hs]⟩
  heights it hit := by
    rw [hr.level]
    refine h.heights it ?_
    rcases List.mem_append.mp hit with hit | hit
    · exact List.mem_append_left _ hit
    · exact List.mem_append_right _ (List.mem_cons_of_mem _ hit)
  level := by
    rw [hr.level]
    exact h.level
  tail := hr.tail
  length := by
    have hlen := h.length
    have hlen' := hr.length
    simp only [List.length_append, List.length_cons] at hlen ⊢
    omega

/-- The levels no node has are dropped. -/
theorem zslDropLevels_spec (zsl : Zskiplist σ) (L : ℕ) (h : Linked { zsl with level := L } l) :
    ∃ L', zslDropLevels zsl L = .ok L' ∧ L' ≤ L ∧ Rep { zsl with level := L' } l := by
  induction L using zslDropLevels.induct with
  | case1 n ih =>
    have hget : ∀ k y j, ({ zsl with level := k } : Zskiplist σ).getLevel y j = zsl.getLevel y j :=
      fun k y j => getLevel_congr rfl rfl
    have htop := h.link [] l (n + 1) rfl (Nat.lt_succ_self _) .nil
    rw [hget, lastRef_nil] at htop
    unfold zslDropLevels
    rw [htop]
    change ∃ L', (if (nextTower Item.height (n + 1) l).map Item.addr = none then _ else _) = _ ∧ _
    cases hnext : nextTower Item.height (n + 1) l with
    | none =>
      have hall := nextTower_eq_none.mp hnext
      rw [Option.map_none, if_pos rfl]
      obtain ⟨L', hL', hle, hrep⟩ := ih (by
        refine ⟨h.nodup, h.fresh, h.node, h.header, fun p q i hpq hi hreach => ?_, fun i hle hlt => ?_, fun it hit => ?_,
          ?_, h.tail, h.length⟩
        · rw [hget]
          have hlink := h.link p q i hpq (Nat.lt_succ_of_lt hi) hreach
          rwa [hget] at hlink
        · rw [hget]
          by_cases hi : i = n + 1
          · rw [hi, htop, linkTo, hnext]
            exact ⟨_, rfl⟩
          · obtain ⟨s, hs⟩ := h.above i (show n + 2 ≤ i by change n + 1 ≤ i at hle; omega) hlt
            rw [hget] at hs
            exact ⟨s, hs⟩
        · exact ⟨(h.heights it hit).1, hall it hit⟩
        · have hmax := h.level.2
          change n + 2 ≤ _ at hmax
          change 1 ≤ n + 1 ∧ n + 1 ≤ _
          omega)
      exact ⟨L', hL', by omega, hrep⟩
    | some it =>
      rw [Option.map_some, if_neg (Option.some_ne_none _)]
      obtain ⟨b, c, hl, -, hi, -⟩ := nextTower_eq_some hnext
      have hin : it ∈ l := by rw [hl]; simp
      have hheight := (h.heights it hin).2
      change it.height ≤ n + 2 at hheight
      refine ⟨n + 2, rfl, le_rfl, h, .inr ⟨it, hin, ?_⟩⟩
      change it.height = n + 2
      omega
  | case2 L hL =>
    have h1 := h.level.1
    change 1 ≤ L at h1
    have hL1 : L = 1 := by
      rcases L with _ | _ | n
      · omega
      · rfl
      · exact absurd rfl (hL n)
    rw [hL1] at h ⊢
    exact ⟨1, rfl, le_rfl, h, .inl rfl⟩

theorem zslDropLevels_congr {zsl1 : Zskiplist σ} (hget : ∀ j, zsl1.getLevel .header j = zsl.getLevel .header j) (L : ℕ) :
    zslDropLevels zsl1 L = zslDropLevels zsl L := by
  induction L using zslDropLevels.induct with
  | case1 n ih =>
    unfold zslDropLevels
    rw [hget, ih]
  | case2 L hL =>
    match L, hL with
    | 0, _ => rfl
    | 1, _ => rfl
    | n + 2, hL => exact absurd rfl (hL n)

/-- The pointer back of the next node, or the tail, when the node `x` is skipped. -/
theorem unlinkBackward_spec {z : Zskiplist σ} (h : Linked zsl (pre ++ x :: post)) (hframe : Frame zsl z)
    (hfwd : z.getLevel (.node x.addr) 0 = .ok (linkTo 0 post)) :
    ∃ z', zslUnlinkBackward x.addr z = .ok z' ∧ SameRest z z' ∧
      (∀ y j, z'.getLevel y j = z.getLevel y j) ∧ z'.tail = (pre ++ post).getLast?.map Item.addr ∧
      ∀ p it q, pre ++ post = p ++ it :: q →
        (z'.nodes it.addr).map ZslNode.shell = some (it.ele, it.score, p.getLast?.map Item.addr, it.height) := by
  have hnd := h.nodup
  obtain ⟨nx, hnx, -, -, hback, -⟩ := h.node_of pre x post rfl
  obtain ⟨n, hn, hnback⟩ : ∃ n, z.nodes x.addr = some n ∧ n.backward = pre.getLast?.map Item.addr := by
    have hshell := hframe.nodes x.addr
    rw [hnx] at hshell
    obtain ⟨n, hn, heq⟩ := Option.map_eq_some_iff.mp hshell
    obtain ⟨-, -, h3, -⟩ := by simpa [ZslNode.shell] using heq
    exact ⟨n, hn, h3.trans hback⟩
  have hhead : (linkTo 0 post).forward = post.head?.map Item.addr := by
    rw [linkTo, nextTower_zero fun it hit => (h.heights it (by simp [hit])).1]
  unfold zslUnlinkBackward
  simp only [bind, Except.bind, node_eq hn, hfwd, hhead, hnback]
  -- the nodes before `x`, and those after the next one, are as they were
  have hbefore : ∀ p it d, pre = p ++ it :: d → (zsl.nodes it.addr).map ZslNode.shell =
      some (it.ele, it.score, p.getLast?.map Item.addr, it.height) := by
    rintro p it d rfl
    exact h.node p it (d ++ x :: post) (by simp)
  cases post with
  | nil =>
    refine ⟨_, rfl, ⟨rfl, rfl, rfl, rfl⟩, fun y j => getLevel_congr rfl rfl, ?_, fun p it q hpq => ?_⟩
    · rw [List.append_nil]
    · rw [List.append_nil] at hpq
      exact (hframe.nodes it.addr).trans (hbefore p it q hpq)
  | cons y post =>
    obtain ⟨n, hn, hele, hscore, -, hheight⟩ := h.node_of (pre ++ [x]) y post (by simp)
    have hshell := hframe.nodes y.addr
    rw [hn] at hshell
    obtain ⟨n1, hn1, heq⟩ := Option.map_eq_some_iff.mp hshell
    obtain ⟨h1, h2, -, h4⟩ := by simpa [ZslNode.shell] using heq
    obtain ⟨z1, hz1, rfl, hget1⟩ := setBackward_spec hn1 (pre.getLast?.map Item.addr)
    refine ⟨_, hz1, ⟨rfl, rfl, rfl, rfl⟩, hget1, ?_, fun p it q hpq => ?_⟩
    · change z.tail = _
      obtain ⟨e, w, he⟩ := (List.eq_nil_or_concat (y :: post)).resolve_left (by simp)
      rw [hframe.tail, h.tail, he, List.concat_eq_append, ← List.cons_append, ← List.append_assoc, ← List.append_assoc,
        List.getLast?_concat, List.getLast?_concat]
    · have hne : ∀ it', it' ∈ pre ∨ it' ∈ post → it'.addr ≠ y.addr := by
        intro it' hit' hc
        simp only [List.map_append, List.map_cons, List.nodup_append, List.nodup_cons, List.mem_cons] at hnd
        rcases hit' with hit' | hit'
        · exact hnd.2.2 it'.addr (List.mem_map_of_mem hit') y.addr (.inr (.inl rfl)) hc
        · exact hnd.2.1.2.1 (hc ▸ List.mem_map_of_mem hit')
      rcases split_around hpq with ⟨d, hd, hq⟩ | ⟨e, rfl, rfl⟩
      · cases d with
        | nil =>
          obtain ⟨rfl, -⟩ := List.cons.inj hq
          rw [setNode_self, Option.map_some, ZslNode.shell, hd, List.append_nil, h1, h2, h4, hele, hscore, hheight]
        | cons w d =>
          obtain ⟨rfl, rfl⟩ := List.cons.inj hq
          rw [setNode_ne (hne it (.inl (by rw [hd]; simp)))]
          exact (hframe.nodes it.addr).trans (hbefore p it d hd)
      · rw [setNode_ne (hne it (.inr (by simp))), hframe.nodes, h.node (pre ++ x :: y :: e) it q (by simp)]
        obtain ⟨e', w, he⟩ := (List.eq_nil_or_concat (y :: e)).resolve_left (by simp)
        rw [he, List.concat_eq_append, ← List.cons_append, ← List.append_assoc, ← List.append_assoc, List.getLast?_concat,
          List.getLast?_concat]

/-- `zslDeleteNode`, of the node behind the cut that `update` has the feet of. -/
theorem zslDeleteNode_spec (h : Linked zsl (pre ++ x :: post)) (hfeet : Feet zsl.level wrap pre update) :
    ∃ zsl', zslDeleteNode zsl x.addr update = .ok zsl' ∧ Rep zsl' (pre ++ post) ∧ Feet zsl'.level wrap pre update ∧
      zsl'.fresh = zsl.fresh := by
  obtain ⟨z, hz, hframe, hget⟩ := unlinkLoop_spec h hfeet
  have hfwd : z.getLevel (.node x.addr) 0 = .ok (linkTo 0 post) := by
    have hl : pre ++ x :: post = pre ++ [x] ++ post := by simp
    have hheight := (h.heights x (by simp)).1
    have hlink := h.link _ _ 0 hl h.level.1 (reaches_concat.mpr (by omega))
    rw [lastRef_concat] at hlink
    rw [hget, if_neg (fun hc => ?_), hlink]
    have hp := h.lastRef_inj hl (stem_cut Item.height 0 pre (x :: post)) (by rw [lastRef_concat]; exact hc.2)
    have hlen := congrArg List.length hp
    have hgaplen := stem_length_add_gap pre 0
    rw [List.length_append, List.length_singleton] at hlen
    omega
  obtain ⟨z1, hz1, hrest, hget1, htail, hnode⟩ := unlinkBackward_spec h hframe hfwd
  let z2 : Zskiplist σ := { z1 with length := usub z1.length 1 }
  have hget2 : ∀ y j, z2.getLevel y j = z.getLevel y j := fun y j => (getLevel_congr rfl rfl).trans (hget1 y j)
  have hremoved : Removed zsl z2 pre post x := by
    refine ⟨hrest.fresh.trans hframe.fresh, hrest.header.trans hframe.header, hrest.level.trans hframe.level, ?_, htail, hnode,
      fun y j => (hget2 y j).trans (hget y j)⟩
    have hlen : z1.length = zsl.length := hrest.length.trans hframe.length
    have hpos := h.length
    simp only [List.length_append, List.length_cons] at hpos
    change usub z1.length 1 + 1 = zsl.length
    rw [usub, if_pos (by omega)]
    omega
  obtain ⟨L, hL, hle, hrep⟩ := zslDropLevels_spec z2 z2.level (hremoved.linked h)
  have hL1 : zslDropLevels z1 z1.level = .ok L := by
    rw [← hL]
    exact zslDropLevels_congr (fun j => (hget1 _ j).trans (hget2 _ j).symm) _
  refine ⟨{ z2 with level := L }, ?_, hrep, fun i hi => hfeet i ?_, hremoved.fresh⟩
  · unfold zslDeleteNode
    simp only [bind, Except.bind, hz, hz1, hL1]
    rfl
  · change i < L at hi
    have hz2 : z2.level = zsl.level := hremoved.level
    omega

/-- The memory of a node that is not in the row is freed. -/
theorem Rep.free {a : ℕ} (h : Rep zsl l) (ha : ∀ it ∈ l, it.addr ≠ a) : Rep (zslFreeNode zsl a) l := by
  have hget : ∀ p q i, l = p ++ q → (zslFreeNode zsl a).getLevel (lastRef p) i = zsl.getLevel (lastRef p) i := by
    intro p q i hpq
    rcases List.eq_nil_or_concat p with rfl | ⟨p', y, rfl⟩
    · rfl
    · rw [List.concat_eq_append, lastRef_concat]
      have hy : y.addr ≠ a := ha y (by rw [hpq]; simp)
      unfold Zskiplist.getLevel Zskiplist.levels Zskiplist.node zslFreeNode
      simp only [if_neg hy]
  refine ⟨⟨h.nodup, h.fresh, fun p it q hpq => ?_, h.header, fun p q i hpq hi hreach => ?_, h.above, h.heights, h.level, h.tail,
    h.length⟩, h.tight⟩
  · rw [← h.node p it q hpq]
    exact congrArg (Option.map ZslNode.shell) (if_neg (ha it (by rw [hpq]; simp)))
  · rw [hget p q i hpq]
    exact h.link p q i hpq hi hreach

/-! ### Nodes in a row -/

/-- The node behind the cut. -/
theorem zslNext_spec (h : Linked zsl (pre ++ post)) (hfeet : Feet zsl.level wrap pre update) :
    zslNext zsl update = .ok (post.head?.map Item.addr) := by
  have hreach : Reaches Item.height 0 pre := by
    intro y hy
    have hheight := (h.heights y (List.mem_append_left _ (List.mem_of_mem_getLast? hy))).1
    omega
  unfold zslNext
  rw [updateAt_eq (h.feet_zero hfeet)]
  simp only [bind, Except.bind, h.link pre post 0 rfl h.level.1 hreach]
  rw [linkTo, nextTower_zero fun it hit => (h.heights it (List.mem_append_right _ hit)).1]

theorem Linked.addr_ne (h : Linked zsl (pre ++ x :: post)) : ∀ it ∈ pre ++ post, it.addr ≠ x.addr := by
  intro it hit heq
  have hperm : ((pre ++ x :: post).map Item.addr).Perm (x.addr :: (pre ++ post).map Item.addr) :=
    List.perm_middle.map Item.addr
  exact (List.nodup_cons.mp (hperm.nodup_iff.mp h.nodup)).1 (heq ▸ List.mem_map_of_mem hit)

/-- Nodes behind the cut are removed as long as the condition holds, which is of the node and of
the number removed before it. -/
theorem zslRemoveWhile_spec {cond : ZslNode σ → ℕ → Bool} {C : ℕ → Item σ → Bool}
    (hC : ∀ n (it : Item σ) k, n.ele = it.ele → n.score = it.score → cond n k = C k it) (fuel : ℕ) (zsl : Zskiplist σ)
    (post : List (Item σ)) (removed : ℕ) (h : Rep zsl (pre ++ post)) (hfeet : Feet zsl.level wrap pre update)
    (hfuel : post.length < fuel) :
    ∃ del rest zsl', post = del ++ rest ∧
      zslRemoveWhile cond update fuel (post.head?.map Item.addr) zsl removed = .ok (zsl', removed + del.length) ∧
      Rep zsl' (pre ++ rest) ∧ (∀ e it f, del = e ++ it :: f → C (removed + e.length) it = true) ∧
      ∀ it f, rest = it :: f → C (removed + del.length) it = false := by
  induction fuel generalizing zsl post removed with
  | zero => omega
  | succ fuel ih =>
    cases post with
    | nil => exact ⟨[], [], zsl, rfl, rfl, h, by simp, by simp⟩
    | cons it post =>
      obtain ⟨n, hn, hele, hscore, -, -⟩ := h.node_of pre it post rfl
      have hcond := hC n it removed hele hscore
      have hstep : zslRemoveWhile cond update (fuel + 1) ((it :: post).head?.map Item.addr) zsl removed =
          if cond n removed then do
            let l ← zsl.getLevel (.node it.addr) 0
            let zsl ← zslDeleteNode zsl it.addr update
            zslRemoveWhile cond update fuel l.forward (zslFreeNode zsl it.addr) (removed + 1)
          else .ok (zsl, removed) := by
        change zslRemoveWhile cond update (fuel + 1) (some it.addr) zsl removed = _
        rw [zslRemoveWhile]
        simp only [bind, Except.bind, node_eq hn]
      rw [hstep, hcond]
      by_cases hit : C removed it = true
      · rw [if_pos hit]
        have hheights : ∀ y ∈ pre ++ it :: post, 1 ≤ y.height := fun y hy => (h.heights y hy).1
        have hlink := h.link (pre ++ [it]) post 0 (by simp) h.level.1
          (reaches_concat.mpr (by have := hheights it (by simp); omega))
        rw [lastRef_concat] at hlink
        have hhead : (linkTo 0 post).forward = post.head?.map Item.addr := by
          rw [linkTo, nextTower_zero fun y hy => hheights y (by simp [hy])]
        obtain ⟨z, hz, hrep, hfeet', -⟩ := zslDeleteNode_spec h.toLinked hfeet
        obtain ⟨del, rest, zsl', hpost, hrun, hrep', hdel, hrest⟩ := ih (zslFreeNode z it.addr) post (removed + 1)
          (hrep.free h.toLinked.addr_ne) hfeet' (by simp at hfuel; omega)
        refine ⟨it :: del, rest, zsl', by rw [hpost, List.cons_append], ?_, hrep', ?_, ?_⟩
        · simp only [bind, Except.bind, hlink, hz, hhead]
          rw [hrun, List.length_cons]
          congr 2
          omega
        · intro e it' f he
          cases e with
          | nil =>
            obtain ⟨rfl, -⟩ := List.cons.inj he
            exact hit
          | cons y e =>
            obtain ⟨-, he'⟩ := List.cons.inj he
            have hc := hdel e it' f he'
            rwa [List.length_cons, show removed + (e.length + 1) = removed + 1 + e.length by omega]
        · intro it' f hf
          have hc := hrest it' f hf
          rwa [List.length_cons, show removed + (del.length + 1) = removed + 1 + del.length by omega]
      · rw [if_neg hit]
        refine ⟨[], it :: post, zsl, rfl, rfl, h, by simp, ?_⟩
        intro it' f hf
        obtain ⟨rfl, -⟩ := List.cons.inj hf
        simpa using hit

/-- A range function: the walk cuts the row, and the nodes behind the cut are removed while they are
in the range. -/
theorem range_removes (h : Rep zsl l) {ahead : ZslNode σ → ℕ → Bool} {A : ℕ → Item σ → Bool} (hsees : Sees zsl l ahead id A)
    {c : ℕ → ZslNode σ → ℕ → Bool} {C : ℕ → ℕ → Item σ → Bool}
    (hC : ∀ t n (it : Item σ) k, n.ele = it.ele → n.score = it.score → c t n k = C t k it) :
    ∃ pre del rest update x zsl', l = pre ++ (del ++ rest) ∧ zslSeek zsl ahead id = .ok update ∧
      updateAt update 0 = .ok (lastRef pre, pre.length) ∧ zslNext zsl update = .ok x ∧
      zslRemoveWhile (c pre.length) update (zsl.length + 1) x zsl 0 = .ok (zsl', del.length) ∧ Rep zsl' (pre ++ rest) ∧
      (∀ e it, pre = e ++ [it] → A pre.length it = true) ∧
      (∀ it r, del ++ rest = it :: r → A (pre.length + 1) it = false) ∧
      (∀ e it f, del = e ++ it :: f → C pre.length e.length it = true) ∧
      ∀ it f, rest = it :: f → C pre.length del.length it = false := by
  obtain ⟨pre, post, update, rfl, hseek, -, hfeet, hhead, hlast⟩ := zslSeek_spec h.toLinked hsees rfl
  obtain ⟨del, rest, zsl', rfl, hrun, hrep, hdel, hrest⟩ := zslRemoveWhile_spec (hC pre.length) (zsl.length + 1) zsl post 0 h
    hfeet (by rw [h.length, List.length_append]; omega)
  rw [Nat.zero_add] at hrun hrest
  refine ⟨pre, del, rest, update, _, zsl', rfl, hseek, updateAt_eq (h.toLinked.feet_zero hfeet), zslNext_spec h.toLinked hfeet,
    hrun, hrep, hlast, hhead, fun e it f he => ?_, hrest⟩
  have hc := hdel e it f he
  rwa [Nat.zero_add] at hc

theorem sees_of {A : Item σ → Bool} {f : ZslNode σ → Bool}
    (hA : ∀ n (it : Item σ), n.ele = it.ele → n.score = it.score → f n = A it) :
    Sees zsl l (fun n _ => f n) id fun _ it => A it where
  ahead := fun _ _ it _ n _ _ hele hscore => hA n it hele hscore
  wrap := fun _ _ => rfl

/-! ### A new score -/

/-- What the links depend on. -/
def Item.tower (it : Item σ) : ℕ × ℕ := (it.addr, it.height)

theorem linkTo_congr {i : ℕ} {l' : List (Item σ)} (h : l'.map Item.tower = l.map Item.tower) : linkTo i l' = linkTo i l := by
  induction l generalizing l' with
  | nil => rw [List.map_eq_nil_iff.mp h]
  | cons y l ih =>
    obtain ⟨y', l1, rfl, hy, hl⟩ := List.map_eq_cons_iff.mp h
    obtain ⟨haddr, hheight⟩ := Prod.mk.inj hy
    have hrec := ih hl
    rw [linkTo, linkTo, ZslLevel.mk.injEq] at hrec
    by_cases hi : i < y.height
    · rw [linkTo, linkTo, nextTower_cons_high _ hi, nextTower_cons_high _ (hheight ▸ hi), span_cons_high _ hi,
        span_cons_high _ (hheight ▸ hi), Option.map_some, Option.map_some, haddr]
    · have hi' : ¬ i < y'.height := hheight ▸ hi
      rw [linkTo, linkTo, nextTower, List.find?_cons_of_neg (by simpa using hi'), nextTower,
        List.find?_cons_of_neg (by simpa using hi), span, span, if_neg hi, if_neg hi']
      exact congrArg₂ ZslLevel.mk hrec.1 (congrArg (· + 1) hrec.2)

theorem getLast?_tower {l' : List (Item σ)} (h : l'.map Item.tower = l.map Item.tower) :
    l'.getLast?.map Item.tower = l.getLast?.map Item.tower := by
  rw [← List.getLast?_map, ← List.getLast?_map, h]

theorem lastRef_congr {l' : List (Item σ)} (h : l'.map Item.tower = l.map Item.tower) : lastRef l' = lastRef l := by
  have hlast := getLast?_tower h
  unfold lastRef
  cases h1 : l.getLast? with
  | none =>
    rw [h1] at hlast
    rw [Option.map_eq_none_iff.mp hlast]
  | some y =>
    rw [h1] at hlast
    obtain ⟨y', hy', heq⟩ := Option.map_eq_some_iff.mp hlast
    rw [hy']
    exact congrArg Ref.node (Prod.mk.inj heq).1

/-- A node gets another score. -/
theorem Rep.rescore (h : Rep zsl (pre ++ it :: post)) {n : ZslNode σ} (hn : zsl.nodes it.addr = some n) (score : σ) :
    Rep (zsl.setNode it.addr { n with score := score }) (pre ++ { it with score := score } :: post) := by
  have htower : (pre ++ { it with score := score } :: post).map Item.tower = (pre ++ it :: post).map Item.tower := by
    simp [Item.tower]
  have hget : ∀ y j, (zsl.setNode it.addr { n with score := score }).getLevel y j = zsl.getLevel y j := by
    intro y j
    rw [getLevel_setNode]
    split
    · rename_i hy
      rw [hy]
      exact (getLevel_node hn).symm
    · rfl
  have hmem : ∀ y ∈ pre ++ { it with score := score } :: post, ∃ y' ∈ pre ++ it :: post, y'.tower = y.tower := by
    intro y hy
    rw [← List.mem_map, ← htower]
    exact List.mem_map_of_mem hy
  have haddr : (pre ++ { it with score := score } :: post).map Item.addr = (pre ++ it :: post).map Item.addr := by simp
  obtain ⟨n', hn', hele, -, hback, hlen⟩ := h.node_of pre it post rfl
  rw [hn] at hn'
  obtain rfl := Option.some.inj hn'
  refine ⟨⟨haddr ▸ h.nodup, fun y hy => ?_, fun p y q hpq => ?_, h.header, fun p q i hpq hi hreach => ?_, fun i hle hlt => ?_,
    fun y hy => ?_, h.level, ?_, ?_⟩, ?_⟩
  · obtain ⟨y', hy', heq⟩ := hmem y hy
    rw [← (Prod.mk.inj heq).1]
    exact h.fresh y' hy'
  · rcases split_around hpq with ⟨d, hd, hq⟩ | ⟨e, rfl, rfl⟩
    · cases d with
      | nil =>
        obtain ⟨rfl, -⟩ := List.cons.inj hq
        rw [setNode_self, Option.map_some, ZslNode.shell, hele, hback, hlen, hd, List.append_nil]
      | cons w d =>
        obtain ⟨rfl, rfl⟩ := List.cons.inj hq
        rw [setNode_ne (h.toLinked.addr_ne y (by rw [hd]; simp))]
        exact h.node p y (d ++ it :: post) (by rw [hd]; simp)
    · rw [setNode_ne (h.toLinked.addr_ne y (by simp)), h.node (pre ++ it :: e) y q (by simp)]
      have htowers : (pre ++ it :: e).map Item.tower = (pre ++ { it with score := score } :: e).map Item.tower := by
        simp [Item.tower]
      have hlast := congrArg (Option.map Prod.fst) (getLast?_tower htowers.symm)
      rw [Option.map_map, Option.map_map] at hlast
      exact congrArg (fun b => some (y.ele, y.score, b, y.height)) hlast.symm
  · rw [hpq, List.map_append, eq_comm, List.map_eq_append_iff] at htower
    obtain ⟨p0, q0, hl0, hp0, hq0⟩ := htower
    have hreach' : Reaches Item.height i p0 := by
      intro y hy
      have hlast := getLast?_tower hp0
      rw [Option.mem_def.mp hy, Option.map_some, eq_comm] at hlast
      obtain ⟨y', hy', heq⟩ := Option.map_eq_some_iff.mp hlast
      rw [← (Prod.mk.inj heq).2]
      exact hreach y' hy'
    rw [hget, ← lastRef_congr hp0, h.link p0 q0 i hl0 hi hreach', linkTo_congr hq0]
  · obtain ⟨s, hs⟩ := h.above i hle hlt
    exact ⟨s, (hget _ _).trans hs⟩
  · obtain ⟨y', hy', heq⟩ := hmem y hy
    rw [← (Prod.mk.inj heq).2]
    exact h.heights y' hy'
  · have hlast := congrArg (Option.map Prod.fst) (getLast?_tower htower)
    rw [Option.map_map, Option.map_map] at hlast
    exact h.tail.trans hlast.symm
  · change zsl.length = _
    rw [h.length]
    simp
  · rcases h.tight with h1 | ⟨y, hy, heq⟩
    · exact .inl h1
    · have hin : y.tower ∈ (pre ++ { it with score := score } :: post).map Item.tower := by
        rw [htower]
        exact List.mem_map_of_mem hy
      obtain ⟨y', hy', heq'⟩ := List.mem_map.mp hin
      exact .inr ⟨y', hy', (Prod.mk.inj heq').2.trans heq⟩

/-- The score of a node that may not be there. -/
theorem zslScoreIs_spec (h : Linked zsl l) (cond : σ → Bool) (r : Option (Item σ)) (hr : ∀ y ∈ r, y ∈ l) :
    zslScoreIs zsl cond (r.map Item.addr) = .ok (r.all fun y => cond y.score) := by
  cases r with
  | none => rfl
  | some y =>
    obtain ⟨p, q, rfl⟩ := List.append_of_mem (hr y rfl)
    obtain ⟨n, hn, -, hscore, -, -⟩ := h.node_of p y q rfl
    change zslScoreIs zsl cond (some y.addr) = _
    unfold zslScoreIs
    simp only [bind, Except.bind, node_eq hn, hscore, Option.all_some]

end RedisZk.Zset
