/-
# Insertion into a skip list

A new node goes into the cut the walk found. At the levels it has, it takes over
what is left of the link from the foot of the cut, and the foot links to it; at
the others the span of the link from the foot grows by one. The spans come out
right as long as the number of towers between the foot and the cut, which the code
has as the difference of two ranks, and one more, fit in an `unsigned int`.

Key definitions: `Gap`.
Key theorems: `zslGrow_spec`, `zslInsert_links`, `zslInsert_spec`.
-/
import RedisZk.Zset.Writes

namespace RedisZk.Zset

open Towers

variable {σ : Type} {zsl zsl' : Zskiplist σ} {l p q pre post : List (Item σ)} {it x : Item σ} {i level : ℕ}
  {update : List Place}

/-- The number of towers from the foot of a cut to the cut. -/
def Gap (pre : List (Item σ)) (i : ℕ) : ℕ := (brim Item.height i pre).length

theorem updateAt_eq {x : Place} (h : update[i]? = some x) : updateAt update i = .ok x := by
  unfold updateAt
  rw [h]

/-- Levels that no node has are added to the header. -/
theorem zslGrow_spec (h : Linked zsl l) (hl : l = pre ++ post) {wrap : ℕ → ℕ} (hw : wrap 0 = 0)
    (hlen : update.length = zsl.level) (hfeet : Feet zsl.level wrap pre update) (hmax : level ≤ ZSKIPLIST_MAXLEVEL) :
    ∃ zsl' update', zslGrow zsl update level = .ok (zsl', update') ∧ Linked zsl' l ∧ zsl'.level = max zsl.level level ∧
      zsl'.fresh = zsl.fresh ∧ Feet zsl'.level wrap pre update' := by
  unfold zslGrow
  split
  · rename_i hgt
    let new : Ref → ℕ → Except ZslAbort ZslLevel := fun y i =>
      if y = .header then .ok ⟨none, zsl.length⟩ else zsl.getLevel y i
    obtain ⟨z, hz, hframe, hlevels⟩ := levels_loop zsl new (fun z i => do
        let l ← z.getLevel .header i
        z.setLevel .header i { l with span := z.length }) zsl.level (level - zsl.level) (by
      intro z i hi hlt hframe hsame
      obtain ⟨s, hs⟩ := h.above i hi (by omega)
      rw [← hsame] at hs
      obtain ⟨z', hz', hframe', hnew⟩ := setLevel_spec hs ⟨none, z.length⟩
      refine ⟨z', ?_, hframe', fun y j => ?_⟩
      · rw [hs]
        exact hz'
      · rw [hnew]
        by_cases hj : j = i
        · rw [if_pos hj, hj]
          by_cases hy : y = .header
          · rw [if_pos ⟨hy, rfl⟩, hframe.length]
            exact (if_pos hy).symm
          · rw [if_neg (fun hc => hy hc.1), hsame]
            exact (if_neg hy).symm
        · rw [if_neg hj, if_neg (fun hc => hj hc.2)])
    refine ⟨{ z with level := level }, update ++ List.replicate (level - zsl.level) (.header, 0), ?_, ?_, ?_, ?_, ?_⟩
    · rw [hz]
      rfl
    · have hget : ∀ y j, ({ z with level := level } : Zskiplist σ).getLevel y j = z.getLevel y j :=
        fun y j => getLevel_congr rfl rfl
      refine ⟨h.nodup, ?_, ?_, ?_, ?_, ?_, ?_, ?_, ?_, ?_⟩
      · rw [show ({ z with level := level } : Zskiplist σ).fresh = zsl.fresh from hframe.fresh]
        exact h.fresh
      · intro p it q hpq
        rw [show ({ z with level := level } : Zskiplist σ).nodes = z.nodes from rfl, hframe.nodes]
        exact h.node p it q hpq
      · exact hframe.header.trans h.header
      · intro p q i hpq hi hreach
        rw [hget, hlevels]
        by_cases hold : i < zsl.level
        · rw [if_neg (by omega)]
          exact h.link p q i hpq hold hreach
        · -- no node reaches a new level
          have hall : ∀ y ∈ l, y.height ≤ i := fun y hy => (h.heights y hy).2.trans (by omega)
          have hp : p = [] := by
            rcases List.eq_nil_or_concat p with hp | ⟨p', y, rfl⟩
            · exact hp
            · have hy := hreach y (by simp)
              have hy' := hall y (by rw [hpq]; simp)
              omega
          change i < level at hi
          rw [if_pos (by omega), hp, lastRef_nil]
          rw [hp, List.nil_append] at hpq
          have hspan := span_append_low (h := Item.height) (c := []) hall
          rw [List.append_nil, span_nil, Nat.add_zero] at hspan
          change Except.ok (⟨none, zsl.length⟩ : ZslLevel) = .ok (linkTo i q)
          rw [linkTo, ← hpq, nextTower_eq_none.mpr hall, hspan, h.length]
          rfl
      · intro i hi hlt
        change level ≤ i at hi
        obtain ⟨s, hs⟩ := h.above i (by omega) hlt
        refine ⟨s, ?_⟩
        rw [hget, hlevels, if_neg (by omega)]
        exact hs
      · intro it hit
        have hh := h.heights it hit
        refine ⟨hh.1, ?_⟩
        change it.height ≤ level
        omega
      · change 1 ≤ level ∧ level ≤ ZSKIPLIST_MAXLEVEL
        omega
      · exact hframe.tail.trans h.tail
      · exact hframe.length.trans h.length
    · change level = max zsl.level level
      omega
    · exact hframe.fresh
    · intro i hi
      change i < level at hi
      by_cases hold : i < zsl.level
      · rw [List.getElem?_append_left (by omega)]
        exact hfeet i hold
      · have hall : ∀ y ∈ pre, y.height ≤ i := fun y hy => (h.heights y (by rw [hl]; simp [hy])).2.trans (by omega)
        rw [List.getElem?_append_right (by omega), List.getElem?_replicate_of_lt (by omega), (stem_eq_nil hall).1,
          List.length_nil, hw]
        rfl
  · rename_i hle
    exact ⟨zsl, update, rfl, h, by omega, rfl, hfeet⟩

/-! ### The new node -/

theorem rankSub_mod {n m : ℕ} (h : m ≤ n) : rankSub (n % 2 ^ 32) (m % 2 ^ 32) = (n - m) % 2 ^ 32 := by
  unfold rankSub
  omega

theorem stem_length_add_gap (pre : List (Item σ)) (i : ℕ) : (stem Item.height i pre).length + Gap pre i = pre.length := by
  rw [Gap, ← List.length_append, stem_append_brim]

/-- The node of a place of the row is not the new one. -/
theorem Linked.lastRef_ne_fresh (h : Linked zsl l) (hl : l = p ++ q) : lastRef p ≠ .node zsl.fresh := by
  rcases List.eq_nil_or_concat p with rfl | ⟨p', y, rfl⟩
  · simp
  · rw [List.concat_eq_append, lastRef_concat]
    intro heq
    have hlt := h.fresh y (by rw [hl]; simp)
    rw [Ref.node.inj heq] at hlt
    omega

/-- What an insertion did: `zsl'` is `zsl` with the new node `x` in the cut. -/
structure Inserted (zsl zsl' : Zskiplist σ) (pre post : List (Item σ)) (x : Item σ) : Prop where
  fresh : zsl'.fresh = zsl.fresh + 1
  header : zsl'.header.length = zsl.header.length
  level : zsl'.level = zsl.level
  length : zsl'.length = zsl.length + 1
  tail : zsl'.tail = (pre ++ x :: post).getLast?.map Item.addr
  node : ∀ p it q, pre ++ x :: post = p ++ it :: q →
    (zsl'.nodes it.addr).map ZslNode.shell = some (it.ele, it.score, p.getLast?.map Item.addr, it.height)
  self : ∀ i < x.height, zsl'.getLevel (.node x.addr) i = .ok
    ⟨(nextTower Item.height i post).map Item.addr, usub (Gap pre i + span Item.height i post) (Gap pre i % 2 ^ 32)⟩
  atFoot : ∀ i < zsl.level, zsl'.getLevel (lastRef (stem Item.height i pre)) i = .ok
    (if i < x.height then ⟨some x.addr, (Gap pre i % 2 ^ 32 + 1) % 2 ^ 32⟩
      else ⟨(nextTower Item.height i post).map Item.addr, Gap pre i + span Item.height i post + 1⟩)
  others : ∀ y i, y ≠ .node x.addr → (i < zsl.level → y ≠ lastRef (stem Item.height i pre)) →
    zsl'.getLevel y i = zsl.getLevel y i

/-- If the gaps fit, the skip list is the row with the new node. -/
theorem Inserted.linked (hi : Inserted zsl zsl' pre post x) (h : Linked zsl (pre ++ post)) (haddr : x.addr = zsl.fresh)
    (hheight : 1 ≤ x.height ∧ x.height ≤ zsl.level) (hgap : ∀ i < x.height, Gap pre i + 1 < 2 ^ 32) :
    Linked zsl' (pre ++ x :: post) where
  nodup := by
    have hnd := h.nodup
    have hx : x.addr ∉ (pre ++ post).map Item.addr := by
      intro hmem
      obtain ⟨y, hy, hyx⟩ := List.mem_map.mp hmem
      have hlt := h.fresh y hy
      omega
    have hperm : ((pre ++ x :: post).map Item.addr).Perm (x.addr :: (pre ++ post).map Item.addr) :=
      List.perm_middle.map Item.addr
    exact hperm.nodup_iff.mpr (List.nodup_cons.mpr ⟨hx, hnd⟩)
  fresh it hit := by
    rw [hi.fresh]
    rcases List.mem_append.mp hit with hit | hit
    · have := h.fresh it (List.mem_append_left _ hit)
      omega
    · rcases List.mem_cons.mp hit with rfl | hit
      · omega
      · have := h.fresh it (List.mem_append_right _ hit)
        omega
  node := hi.node
  header := hi.header.trans h.header
  link p q i hpq hlt hreach := by
    rw [hi.level] at hlt
    rcases split_around hpq with ⟨d, rfl, rfl⟩ | ⟨e, rfl, rfl⟩
    · have hl : p ++ d ++ post = p ++ (d ++ post) := List.append_assoc ..
      rcases (foot Item.height i (p ++ d)).split rfl hreach with ⟨hp, hd⟩ | hhigh
      · -- the place is the foot
        have hlow : ∀ y ∈ d, y.height ≤ i := hd ▸ (foot Item.height i (p ++ d)).low
        have hlen : Gap (p ++ d) i = d.length := by rw [Gap, ← hd]
        have hfoot := hi.atFoot i hlt
        rw [← hp, hlen] at hfoot
        rw [hfoot, linkTo]
        by_cases hx : i < x.height
        · have hg := hgap i hx
          rw [hlen] at hg
          rw [if_pos hx, nextTower_over hlow hx, span_over hlow hx, Nat.mod_eq_of_lt (show d.length < 2 ^ 32 by omega),
            Nat.mod_eq_of_lt hg]
          rfl
        · rw [if_neg hx, nextTower_past hlow (by omega), span_past hlow (by omega), nextTower_append_low hlow,
            span_append_low hlow]
      · rw [hi.others _ _ (haddr ▸ h.lastRef_ne_fresh hl) fun _ heq => ?_]
        · rw [h.link p (d ++ post) i hl hlt hreach, linkTo, linkTo, nextTower_append_high hhigh, span_append_high hhigh,
            nextTower_append_high hhigh, span_append_high hhigh]
        · have hp := h.lastRef_inj hl (stem_cut ..) heq
          obtain ⟨y, hy, hiy⟩ := hhigh
          have hd : d = brim Item.height i (p ++ d) := by
            have hcut := stem_append_brim (h := Item.height) i (p ++ d)
            rw [← hp] at hcut
            exact (List.append_cancel_left hcut).symm
          have hlow := (foot Item.height i (p ++ d)).low y (hd ▸ hy)
          omega
    · rcases List.eq_nil_or_concat e with rfl | ⟨e', z, rfl⟩
      · -- the place is the new node
        have hx : i < x.height := reaches_concat.mp hreach
        have hg := hgap i hx
        rw [lastRef_concat, hi.self i hx, linkTo, List.nil_append, Nat.mod_eq_of_lt (show Gap pre i < 2 ^ 32 by omega), usub,
          if_pos (by omega), Nat.add_sub_cancel_left]
      · have hl : pre ++ (e'.concat z ++ q) = pre ++ e'.concat z ++ q := (List.append_assoc ..).symm
        have href : lastRef (pre ++ x :: e'.concat z) = lastRef (pre ++ e'.concat z) := by
          rw [List.concat_eq_append, ← List.cons_append, ← List.append_assoc, ← List.append_assoc, lastRef_concat, lastRef_concat]
        have hreach' : Reaches Item.height i (pre ++ e'.concat z) := by
          rw [List.concat_eq_append, ← List.cons_append, ← List.append_assoc] at hreach
          rw [List.concat_eq_append, ← List.append_assoc]
          exact reaches_concat.mpr (reaches_concat.mp hreach)
        rw [href, hi.others _ _ (haddr ▸ h.lastRef_ne_fresh hl) fun _ heq => ?_]
        · exact h.link _ _ i hl hlt hreach'
        · have hp := h.lastRef_inj hl (stem_cut ..) heq
          have hlen := congrArg List.length hp
          have hgaplen := stem_length_add_gap pre i
          rw [List.length_append, List.length_concat] at hlen
          omega
  above i hle hlt := by
    rw [hi.level] at hle
    obtain ⟨s, hs⟩ := h.above i hle hlt
    exact ⟨s, by rw [hi.others _ _ (by simp) (by omega), hs]⟩
  heights it hit := by
    rw [hi.level]
    rcases List.mem_append.mp hit with hit | hit
    · exact h.heights it (List.mem_append_left _ hit)
    · rcases List.mem_cons.mp hit with rfl | hit
      · exact hheight
      · exact h.heights it (List.mem_append_right _ hit)
  level := by
    rw [hi.level]
    exact h.level
  tail := hi.tail
  length := by
    rw [hi.length, h.length]
    simp only [List.length_append, List.length_cons]
    omega

/-! ### The loops of an insertion -/

theorem createNode_getLevel (zsl : Zskiplist σ) (level : ℕ) (score : σ) (ele : Sds) (y : Ref) (j : ℕ) :
    (zslCreateNode zsl level score ele).getLevel y j =
      if y = .node zsl.fresh then if j < level then .ok {} else .error .noLevel else zsl.getLevel y j := by
  have hget := getLevel_setNode zsl zsl.fresh
    { ele := ele, score := score, backward := none, level := List.replicate level {} } y j
  refine Eq.trans (getLevel_congr rfl rfl) (hget.trans ?_)
  dsimp only
  by_cases hlt : j < level
  · rw [List.getElem?_replicate_of_lt hlt, if_pos hlt]
  · rw [List.getElem?_eq_none (by rw [List.length_replicate]; omega), if_neg hlt]

/-- What level `i` of the foot of the cut is before the insertion. -/
theorem Linked.atFoot (h : Linked zsl (pre ++ post)) (hi : i < zsl.level) :
    zsl.getLevel (lastRef (stem Item.height i pre)) i = .ok
      ⟨(nextTower Item.height i post).map Item.addr, Gap pre i + span Item.height i post⟩ := by
  have hfoot := Towers.foot Item.height i pre
  rw [h.link _ _ i (stem_cut ..) hi hfoot.reaches, linkTo, nextTower_append_low hfoot.low, span_append_low hfoot.low, Gap]

theorem Linked.feet_zero (h : Linked zsl (pre ++ post)) {wrap : ℕ → ℕ} (hfeet : Feet zsl.level wrap pre update) :
    update[0]? = some (lastRef pre, wrap pre.length) :=
  hfeet.zero h.level.1 fun it hit => (h.heights it (List.mem_append_left _ hit)).1

theorem linkLoop_spec (h : Linked zsl (pre ++ post)) (hfeet : Feet zsl.level (· % 2 ^ 32) pre update)
    (hlevel : level ≤ zsl.level) (score : σ) (ele : Sds) :
    ∃ z, (List.range' 0 level).foldlM (zslLinkLevel update zsl.fresh) (zslCreateNode zsl level score ele) = .ok z ∧
      Frame (zslCreateNode zsl level score ele) z ∧
      ∀ y j, z.getLevel y j = if j < level then
        if y = .node zsl.fresh then .ok
          ⟨(nextTower Item.height j post).map Item.addr, usub (Gap pre j + span Item.height j post) (Gap pre j % 2 ^ 32)⟩
        else if y = lastRef (stem Item.height j pre) then .ok ⟨some zsl.fresh, (Gap pre j % 2 ^ 32 + 1) % 2 ^ 32⟩
        else zsl.getLevel y j
        else (zslCreateNode zsl level score ele).getLevel y j := by
  let new : Ref → ℕ → Except ZslAbort ZslLevel := fun y j =>
    if y = .node zsl.fresh then .ok
      ⟨(nextTower Item.height j post).map Item.addr, usub (Gap pre j + span Item.height j post) (Gap pre j % 2 ^ 32)⟩
    else if y = lastRef (stem Item.height j pre) then .ok ⟨some zsl.fresh, (Gap pre j % 2 ^ 32 + 1) % 2 ^ 32⟩
    else zsl.getLevel y j
  obtain ⟨z, hz, hframe, hlevels⟩ := levels_loop (zslCreateNode zsl level score ele) new
    (zslLinkLevel update zsl.fresh) 0 level (by
    intro z i _ hi _ hsame
    have hne := h.lastRef_ne_fresh (stem_cut Item.height i pre post)
    have hrank : rankSub (pre.length % 2 ^ 32) ((stem Item.height i pre).length % 2 ^ 32) = Gap pre i % 2 ^ 32 := by
      have hlen := stem_length_add_gap pre i
      rw [rankSub_mod (by omega), show pre.length - (stem Item.height i pre).length = Gap pre i by omega]
    have hfoot := hsame (lastRef (stem Item.height i pre))
    rw [createNode_getLevel, if_neg hne, h.atFoot (by omega)] at hfoot
    have hself := hsame (.node zsl.fresh)
    rw [createNode_getLevel, if_pos rfl, if_pos (by omega)] at hself
    obtain ⟨z1, hz1, hframe1, hget1⟩ := setLevel_spec hself
      ⟨(nextTower Item.height i post).map Item.addr, usub (Gap pre i + span Item.height i post) (Gap pre i % 2 ^ 32)⟩
    have hfoot1 := hget1 (lastRef (stem Item.height i pre)) i
    rw [if_neg (fun hc => hne hc.1), hfoot] at hfoot1
    obtain ⟨z2, hz2, hframe2, hget2⟩ := setLevel_spec hfoot1 ⟨some zsl.fresh, (Gap pre i % 2 ^ 32 + 1) % 2 ^ 32⟩
    refine ⟨z2, ?_, hframe1.trans hframe2, fun y j => ?_⟩
    · unfold zslLinkLevel
      rw [updateAt_eq (hfeet i (by omega)), updateAt_eq (h.feet_zero hfeet)]
      change (do
        let l ← z.getLevel (lastRef (stem Item.height i pre)) i
        _) = _
      rw [hfoot]
      change (do
        let z ← z.setLevel (.node zsl.fresh) i ⟨_, usub _ (rankSub (pre.length % 2 ^ 32) _)⟩
        _) = _
      rw [hrank, hz1]
      exact hz2
    · rw [hget2, hget1]
      by_cases hj : j = i
      · rw [if_pos hj, hj]
        change _ = if y = .node zsl.fresh then _ else _
        by_cases hy : y = .node zsl.fresh
        · rw [if_neg (fun hc => hne (hc.1.symm.trans hy)), if_pos ⟨hy, rfl⟩, if_pos hy]
        · rw [if_neg hy]
          by_cases hfoot : y = lastRef (stem Item.height i pre)
          · rw [if_pos ⟨hfoot, rfl⟩, if_pos hfoot]
          · rw [if_neg (fun hc => hfoot hc.1), if_neg (fun hc => hy hc.1), if_neg hfoot, hsame, createNode_getLevel, if_neg hy]
      · rw [if_neg hj, if_neg (fun hc => hj hc.2), if_neg (fun hc => hj hc.2)])
  refine ⟨z, hz, hframe, fun y j => ?_⟩
  rw [hlevels]
  by_cases hj : j < level
  · rw [if_pos (by omega), if_pos hj]
  · rw [if_neg (by omega), if_neg hj]

theorem stretchLoop_spec (zslc : Zskiplist σ) (h : Linked zsl (pre ++ post)) {wrap : ℕ → ℕ} (hfeet : Feet zsl.level wrap pre update)
    (hlevel : level ≤ zsl.level)
    (hsame : ∀ i, level ≤ i → i < zsl.level → zslc.getLevel (lastRef (stem Item.height i pre)) i =
      zsl.getLevel (lastRef (stem Item.height i pre)) i) :
    ∃ z, (List.range' level (zsl.level - level)).foldlM (zslStretchLevel update) zslc = .ok z ∧ Frame zslc z ∧
      ∀ y j, z.getLevel y j = if level ≤ j ∧ j < zsl.level then
        if y = lastRef (stem Item.height j pre) then .ok
          ⟨(nextTower Item.height j post).map Item.addr, Gap pre j + span Item.height j post + 1⟩
        else zslc.getLevel y j
        else zslc.getLevel y j := by
  let new : Ref → ℕ → Except ZslAbort ZslLevel := fun y j =>
    if y = lastRef (stem Item.height j pre) then .ok
      ⟨(nextTower Item.height j post).map Item.addr, Gap pre j + span Item.height j post + 1⟩
    else zslc.getLevel y j
  obtain ⟨z, hz, hframe, hlevels⟩ := levels_loop zslc new (zslStretchLevel update) level
    (zsl.level - level) (by
    intro z i hle hlt _ hz
    have hfoot := hz (lastRef (stem Item.height i pre))
    rw [hsame i hle (by omega), h.atFoot (by omega)] at hfoot
    obtain ⟨z1, hz1, hframe1, hget1⟩ := setLevel_spec hfoot
      ⟨(nextTower Item.height i post).map Item.addr, Gap pre i + span Item.height i post + 1⟩
    refine ⟨z1, ?_, hframe1, fun y j => ?_⟩
    · unfold zslStretchLevel
      rw [updateAt_eq (hfeet i (by omega))]
      change (do
        let l ← z.getLevel (lastRef (stem Item.height i pre)) i
        _) = _
      rw [hfoot]
      exact hz1
    · rw [hget1]
      by_cases hj : j = i
      · rw [if_pos hj, hj]
        change _ = if y = lastRef (stem Item.height i pre) then _ else _
        by_cases hy : y = lastRef (stem Item.height i pre)
        · rw [if_pos ⟨hy, rfl⟩, if_pos hy]
        · rw [if_neg (fun hc => hy hc.1), if_neg hy, hz]
      · rw [if_neg hj, if_neg (fun hc => hj hc.2)])
  refine ⟨z, hz, hframe, fun y j => ?_⟩
  rw [hlevels]
  by_cases hj : level ≤ j ∧ j < zsl.level
  · rw [if_pos (by omega), if_pos hj]
  · rw [if_neg (by omega), if_neg hj]

/-! ### The pointers back -/

theorem orNull_lastRef (p : List (Item σ)) : (lastRef p).orNull = p.getLast?.map Item.addr := by
  unfold lastRef
  cases p.getLast? with
  | none => rfl
  | some it => rfl

/-- The next tower at level 0 is the next node. -/
theorem nextTower_zero (hheights : ∀ it ∈ l, 1 ≤ it.height) : nextTower Item.height 0 l = l.head? := by
  cases l with
  | nil => rfl
  | cons y l => exact nextTower_cons_high _ (hheights y List.mem_cons_self)

/-- What is the same when only nodes are written. -/
structure SameRest (zsl zsl' : Zskiplist σ) : Prop where
  header : zsl'.header.length = zsl.header.length
  fresh : zsl'.fresh = zsl.fresh
  length : zsl'.length = zsl.length
  level : zsl'.level = zsl.level

theorem linkBackward_spec {z : Zskiplist σ} {a s r : ℕ} {nx : ZslNode σ} (h : Linked zsl (pre ++ post))
    (hup : update[0]? = some (lastRef pre, r)) (hne : ∀ it ∈ post, it.addr ≠ a) (hx : z.nodes a = some nx)
    (hnodes : ∀ b, b ≠ a → (z.nodes b).map ZslNode.shell = (zsl.nodes b).map ZslNode.shell)
    (hfwd : z.getLevel (.node a) 0 = .ok ⟨post.head?.map Item.addr, s⟩) :
    ∃ z', zslLinkBackward update a z = .ok z' ∧ SameRest z z' ∧ (∀ y j, z'.getLevel y j = z.getLevel y j) ∧
      z'.tail = (if post = [] then some a else z.tail) ∧
      (z'.nodes a).map ZslNode.shell = some (nx.ele, nx.score, pre.getLast?.map Item.addr, nx.level.length) ∧
      (∀ it ∈ post.head?, (z'.nodes it.addr).map ZslNode.shell = some (it.ele, it.score, some a, it.height)) ∧
      ∀ b, b ≠ a → (∀ it ∈ post.head?, it.addr ≠ b) → (z'.nodes b).map ZslNode.shell = (zsl.nodes b).map ZslNode.shell := by
  obtain ⟨z1, hz1, rfl, hget1⟩ := setBackward_spec hx (pre.getLast?.map Item.addr)
  unfold zslLinkBackward
  rw [updateAt_eq hup]
  simp only [bind, Except.bind, orNull_lastRef, hz1, hget1, hfwd]
  cases post with
  | nil =>
    refine ⟨_, rfl, ⟨rfl, rfl, rfl, rfl⟩, fun y j => (getLevel_congr rfl rfl).trans (hget1 y j), rfl, ?_, by simp, fun b hb _ => ?_⟩
    · change ((z.setNode a _).nodes a).map _ = _
      rw [setNode_self]
      rfl
    · change ((z.setNode a _).nodes b).map _ = _
      rw [setNode_ne hb]
      exact hnodes b hb
  | cons it post =>
    obtain ⟨n, hn, hele, hscore, -, hheight⟩ := h.node_of pre it post rfl
    have hita : it.addr ≠ a := hne it List.mem_cons_self
    have hn1 : ∃ n1, (z.setNode a { nx with backward := pre.getLast?.map Item.addr }).nodes it.addr = some n1 ∧
        n1.ele = it.ele ∧ n1.score = it.score ∧ n1.level.length = it.height := by
      have hshell := hnodes it.addr hita
      rw [hn] at hshell
      obtain ⟨n1, hn1, heq⟩ := Option.map_eq_some_iff.mp hshell
      obtain ⟨h1, h2, -, h4⟩ := by simpa [ZslNode.shell] using heq
      exact ⟨n1, (setNode_ne hita _).trans hn1, h1.trans hele, h2.trans hscore, h4.trans hheight⟩
    obtain ⟨n1, hn1, hele1, hscore1, hheight1⟩ := hn1
    obtain ⟨z2, hz2, rfl, hget2⟩ := setBackward_spec hn1 (some a)
    refine ⟨_, hz2, ⟨rfl, rfl, rfl, rfl⟩, fun y j => (hget2 y j).trans (hget1 y j), rfl, ?_, ?_, fun b hb hhead => ?_⟩
    · rw [setNode_ne hita.symm, setNode_self]
      rfl
    · intro it' hit'
      rw [← Option.some.inj hit', setNode_self, Option.map_some, ZslNode.shell, ← hele1, ← hscore1, ← hheight1]
    · rw [setNode_ne fun hc => hhead it rfl hc.symm, setNode_ne hb]
      exact hnodes b hb

/-- An insertion into the cut that `update` has the feet of. -/
theorem zslInsert_links (h : Linked zsl (pre ++ post)) (hfeet : Feet zsl.level (· % 2 ^ 32) pre update)
    (hlevel : 1 ≤ level ∧ level ≤ zsl.level) (score : σ) (ele : Sds) :
    ∃ z1 z2 z3, (List.range' 0 level).foldlM (zslLinkLevel update zsl.fresh) (zslCreateNode zsl level score ele) = .ok z1 ∧
      (List.range' level (z1.level - level)).foldlM (zslStretchLevel update) z1 = .ok z2 ∧
      zslLinkBackward update zsl.fresh z2 = .ok z3 ∧
      Inserted zsl { z3 with length := z3.length + 1 } pre post ⟨zsl.fresh, score, ele, level⟩ := by
  obtain ⟨z1, hz1, hframe1, hget1⟩ := linkLoop_spec h hfeet hlevel.2 score ele
  have hlevel1 : z1.level = zsl.level := hframe1.level
  obtain ⟨z2, hz2, hframe2, hget2⟩ := stretchLoop_spec z1 h hfeet hlevel.2 (by
    intro i hle hlt
    rw [hget1, if_neg (by omega), createNode_getLevel, if_neg (h.lastRef_ne_fresh (stem_cut ..))])
  have hframe := hframe1.trans hframe2
  have hne : ∀ it ∈ pre ++ post, it.addr ≠ zsl.fresh := fun it hit => (h.fresh it hit).ne
  have hpost : ∀ it ∈ post, 1 ≤ it.height := fun it hit => (h.heights it (List.mem_append_right _ hit)).1
  -- the memory before the pointers back are set
  obtain ⟨nx, hnx, hshellx⟩ : ∃ nx, z2.nodes zsl.fresh = some nx ∧ nx.shell = (ele, score, none, level) := by
    have hshell := hframe.nodes zsl.fresh
    have hc : (zslCreateNode zsl level score ele).nodes zsl.fresh =
        some { ele := ele, score := score, backward := none, level := List.replicate level {} } := if_pos rfl
    rw [hc] at hshell
    obtain ⟨nx, hnx, heq⟩ := Option.map_eq_some_iff.mp hshell
    refine ⟨nx, hnx, heq.trans ?_⟩
    rw [ZslNode.shell, List.length_replicate]
  have hnodes : ∀ b, b ≠ zsl.fresh → (z2.nodes b).map ZslNode.shell = (zsl.nodes b).map ZslNode.shell := by
    intro b hb
    have hc : (zslCreateNode zsl level score ele).nodes b = zsl.nodes b := if_neg hb
    rw [hframe.nodes, hc]
  have hself : ∀ i < level, z2.getLevel (.node zsl.fresh) i = .ok
      ⟨(nextTower Item.height i post).map Item.addr, usub (Gap pre i + span Item.height i post) (Gap pre i % 2 ^ 32)⟩ := by
    intro i hi
    rw [hget2, if_neg (by omega), hget1, if_pos hi, if_pos rfl]
  have hfwd := hself 0 hlevel.1
  rw [nextTower_zero hpost] at hfwd
  obtain ⟨z3, hz3, hrest, hget3, htail, hx, hhead, hothers⟩ := linkBackward_spec h (h.feet_zero hfeet)
    (fun it hit => hne it (List.mem_append_right _ hit)) hnx hnodes hfwd
  have hget : ∀ y j, ({ z3 with length := z3.length + 1 } : Zskiplist σ).getLevel y j = z2.getLevel y j :=
    fun y j => (getLevel_congr rfl rfl).trans (hget3 y j)
  refine ⟨z1, z2, z3, hz1, hlevel1 ▸ hz2, hz3, ?_, ?_, ?_, ?_, ?_, ?_, ?_, ?_, ?_⟩
  · exact hrest.fresh.trans hframe.fresh
  · exact hrest.header.trans hframe.header
  · exact hrest.level.trans hframe.level
  · exact congrArg (· + 1) (hrest.length.trans hframe.length)
  · change z3.tail = _
    rw [htail]
    split
    · rename_i hnil
      rw [hnil, List.getLast?_concat]
      rfl
    · rename_i hnil
      obtain ⟨post', y, rfl⟩ := (List.eq_nil_or_concat post).resolve_left hnil
      rw [show z2.tail = zsl.tail from hframe.tail, h.tail, List.concat_eq_append, ← List.cons_append, ← List.append_assoc,
        ← List.append_assoc, List.getLast?_concat, List.getLast?_concat]
  · intro p it q hpq
    change (z3.nodes it.addr).map ZslNode.shell = _
    have hnd := h.nodup
    rcases split_around hpq with ⟨d, rfl, hd⟩ | ⟨e, rfl, rfl⟩
    · cases d with
      | nil =>
        obtain ⟨rfl, -⟩ := List.cons.inj hd
        obtain ⟨h1, h2, -, h4⟩ := by simpa [ZslNode.shell] using hshellx
        rw [hx, h1, h2, h4, List.append_nil]
      | cons y d =>
        obtain ⟨rfl, rfl⟩ := List.cons.inj hd
        have hin : it ∈ p ++ it :: d := by simp
        rw [hothers _ (hne it (List.mem_append_left _ hin)) fun it' hit' heq => ?_]
        · exact h.node p it (d ++ post) (by simp)
        · cases post with
          | nil => cases hit'
          | cons z post =>
            rw [← Option.some.inj hit'] at heq
            simp [List.nodup_append, heq] at hnd
    · cases e with
      | nil =>
        rw [hhead it rfl, List.getLast?_concat]
        rfl
      | cons z e =>
        rw [hothers _ (hne it (by simp)) fun it' hit' heq => ?_]
        · rw [h.node (pre ++ z :: e) it q (by simp)]
          obtain ⟨e', y, he⟩ := (List.eq_nil_or_concat (z :: e)).resolve_left (by simp)
          rw [he, List.concat_eq_append, ← List.cons_append, ← List.append_assoc, ← List.append_assoc, List.getLast?_concat,
            List.getLast?_concat]
        · rw [← Option.some.inj hit'] at heq
          simp [List.nodup_append, heq] at hnd
  · intro i hi
    rw [hget]
    exact hself i hi
  · intro i hi
    have hnf := h.lastRef_ne_fresh (stem_cut Item.height i pre post)
    rw [hget, hget2]
    by_cases hlt : i < level
    · rw [if_neg (by omega), hget1, if_pos hlt, if_neg hnf, if_pos rfl, if_pos hlt]
    · rw [if_pos (by omega), if_pos rfl, if_neg hlt]
  · intro y i hy hfoot
    have hold : (zslCreateNode zsl level score ele).getLevel y i = zsl.getLevel y i := by
      rw [createNode_getLevel, if_neg hy]
    rw [hget, hget2]
    by_cases hi : i < zsl.level
    · have hyf := hfoot hi
      rw [if_neg hyf, ite_self, hget1, if_neg hy, if_neg hyf, hold, ite_self]
    · rw [if_neg (by omega), hget1, if_neg (by omega), hold]

end RedisZk.Zset
