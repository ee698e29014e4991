/-
# Writes to the levels and pointers of a skip list

A write to one level of one node changes that and nothing else (`Frame`), and so a
loop over the levels, each turn of which writes at its own level, is described
level by level.

Key definitions: `Frame`.
Key theorems: `setLevel_spec`, `setBackward_spec`, `levels_loop`.
-/
import RedisZk.Zset.Shape

namespace RedisZk.Zset

open Towers

variable {σ : Type} {zsl zsl' zsl'' : Zskiplist σ} {i : ℕ} {x : Ref} {l : ZslLevel}

/-- Nothing changed but what is at the levels. -/
structure Frame (zsl zsl' : Zskiplist σ) : Prop where
  nodes : ∀ a, (zsl'.nodes a).map ZslNode.shell = (zsl.nodes a).map ZslNode.shell
  header : zsl'.header.length = zsl.header.length
  fresh : zsl'.fresh = zsl.fresh
  tail : zsl'.tail = zsl.tail
  length : zsl'.length = zsl.length
  level : zsl'.level = zsl.level

theorem Frame.refl : Frame zsl zsl := ⟨fun _ => rfl, rfl, rfl, rfl, rfl, rfl⟩

theorem Frame.trans (h : Frame zsl zsl') (h' : Frame zsl' zsl'') : Frame zsl zsl'' where
  nodes a := (h'.nodes a).trans (h.nodes a)
  header := h'.header.trans h.header
  fresh := h'.fresh.trans h.fresh
  tail := h'.tail.trans h.tail
  length := h'.length.trans h.length
  level := h'.level.trans h.level

/-- A level that can be read is there. -/
theorem getLevel_eq_ok : zsl.getLevel x i = .ok l ↔
    match x with
    | .header => zsl.header[i]? = some l
    | .node a => ∃ n, zsl.nodes a = some n ∧ n.level[i]? = some l := by
  cases x with
  | header =>
    rw [getLevel_header]
    cases zsl.header[i]? with
    | none => simp
    | some l' => simp
  | node a =>
    cases hn : zsl.nodes a with
    | none =>
      have hnode : zsl.node a = .error .wildPointer := by
        unfold Zskiplist.node
        rw [hn]
      have herr : zsl.getLevel (.node a) i = .error .wildPointer := by
        change (do
          let ls ← (zsl.node a).map ZslNode.level
          _) = _
        rw [hnode]
        rfl
      rw [herr]
      simp [hn]
    | some n =>
      rw [getLevel_node hn]
      cases hl : n.level[i]? with
      | none => simp [hn, hl]
      | some l' => simp [hn, hl]

theorem getLevel_congr {zsl1 : Zskiplist σ} (hheader : zsl1.header = zsl.header) (hnodes : zsl1.nodes = zsl.nodes) :
    zsl1.getLevel x i = zsl.getLevel x i := by
  unfold Zskiplist.getLevel Zskiplist.levels Zskiplist.node
  rw [hheader, hnodes]

@[simp] theorem setNode_self (zsl : Zskiplist σ) (a : ℕ) (n : ZslNode σ) : (zsl.setNode a n).nodes a = some n := if_pos rfl

theorem setNode_ne {a b : ℕ} (hb : b ≠ a) (n : ZslNode σ) : (zsl.setNode a n).nodes b = zsl.nodes b := if_neg hb

theorem getLevel_setNode (zsl : Zskiplist σ) (a : ℕ) (n : ZslNode σ) (y : Ref) (j : ℕ) : (zsl.setNode a n).getLevel y j =
    if y = .node a then
      match n.level[j]? with
      | none => .error .noLevel
      | some l => .ok l
    else zsl.getLevel y j := by
  split
  · rename_i hy
    rw [hy]
    exact getLevel_node (setNode_self ..)
  · rename_i hy
    cases y with
    | header => rfl
    | node b =>
      have hba : b ≠ a := fun hab => hy (by rw [hab])
      unfold Zskiplist.getLevel Zskiplist.levels Zskiplist.node Zskiplist.setNode
      simp only [if_neg hba]

theorem setLevel_spec {l0 : ZslLevel} (h : zsl.getLevel x i = .ok l0) (l : ZslLevel) :
    ∃ zsl', zsl.setLevel x i l = .ok zsl' ∧ Frame zsl zsl' ∧
      ∀ y j, zsl'.getLevel y j = if y = x ∧ j = i then .ok l else zsl.getLevel y j := by
  unfold Zskiplist.setLevel
  rw [h]
  have hl := getLevel_eq_ok.mp h
  cases x with
  | header =>
    refine ⟨_, rfl, ⟨fun _ => rfl, List.length_set, rfl, rfl, rfl, rfl⟩, fun y j => ?_⟩
    cases y with
    | header =>
      rw [getLevel_header, getLevel_header, List.getElem?_set]
      obtain ⟨hlt, -⟩ := List.getElem?_eq_some_iff.mp hl
      by_cases hij : i = j
      · rw [if_pos hij, if_pos hlt, if_pos ⟨rfl, hij.symm⟩]
      · rw [if_neg hij, if_neg (fun hc => hij hc.2.symm)]
    | node a =>
      rw [if_neg (fun hc => nomatch hc.1)]
      rfl
  | node a =>
    obtain ⟨n, hn, hnl⟩ := hl
    obtain ⟨hlt, -⟩ := List.getElem?_eq_some_iff.mp hnl
    refine ⟨zsl.setNode a { n with level := n.level.set i l }, ?_, ⟨fun b => ?_, rfl, rfl, rfl, rfl, rfl⟩, fun y j => ?_⟩
    · change (do
        let n ← zsl.node a
        _) = _
      rw [node_eq hn]
      rfl
    · unfold Zskiplist.setNode
      dsimp only
      split
      · rename_i hb
        rw [hb, hn]
        simp [ZslNode.shell]
      · rfl
    · rw [getLevel_setNode]
      split
      · rename_i hy
        rw [hy, List.getElem?_set]
        by_cases hij : i = j
        · rw [if_pos hij, if_pos hlt, if_pos ⟨rfl, hij.symm⟩]
        · rw [if_neg hij, if_neg (fun hc => hij hc.2.symm)]
          exact (getLevel_node hn).symm
      · rename_i hy
        rw [if_neg (fun hc => hy hc.1)]

/-- The pointer back of one node changes. -/
theorem setBackward_spec {a : ℕ} {n : ZslNode σ} (hn : zsl.nodes a = some n) (b : Option ℕ) :
    ∃ zsl', zsl.setBackward a b = .ok zsl' ∧ zsl' = zsl.setNode a { n with backward := b } ∧
      ∀ y j, zsl'.getLevel y j = zsl.getLevel y j := by
  refine ⟨zsl.setNode a { n with backward := b }, ?_, rfl, fun y j => ?_⟩
  · unfold Zskiplist.setBackward
    rw [node_eq hn]
    rfl
  · rw [getLevel_setNode]
    split
    · rename_i hy
      rw [hy]
      exact (getLevel_node hn).symm
    · rfl

/-- A loop over the levels, each turn of which writes at its own level what it finds there at
the start. -/
theorem levels_loop (zsl : Zskiplist σ) (new : Ref → ℕ → Except ZslAbort ZslLevel)
    (f : Zskiplist σ → ℕ → Except ZslAbort (Zskiplist σ)) (s n : ℕ) (hstep : ∀ z i, s ≤ i → i < s + n → Frame zsl z → (∀ y, z.getLevel y i = zsl.getLevel y i) →
      ∃ z', f z i = .ok z' ∧ Frame z z' ∧ ∀ y j, z'.getLevel y j = if j = i then new y j else z.getLevel y j) :
    ∃ zsl', (List.range' s n).foldlM f zsl = .ok zsl' ∧ Frame zsl zsl' ∧
      ∀ y j, zsl'.getLevel y j = if s ≤ j ∧ j < s + n then new y j else zsl.getLevel y j := by
  induction n with
  | zero =>
    refine ⟨zsl, rfl, .refl, fun y j => ?_⟩
    rw [if_neg (by omega)]
  | succ n ih =>
    obtain ⟨z, hz, hframe, hlevels⟩ := ih fun z i hi hlt => hstep z i hi (by omega)
    obtain ⟨z', hz', hframe', hlevels'⟩ := hstep z (s + n) (by omega) (by omega) hframe fun y => by
      rw [hlevels, if_neg (by omega)]
    refine ⟨z', ?_, hframe.trans hframe', fun y j => ?_⟩
    · rw [List.range'_1_concat, List.foldlM_append, hz]
      change List.foldlM f z [s + n] = _
      rw [List.foldlM_cons, hz']
      rfl
    · rw [hlevels']
      by_cases hj : j = s + n
      · rw [if_pos hj, if_pos (by omega)]
      · rw [if_neg hj, hlevels]
        by_cases hin : s ≤ j ∧ j < s + n
        · rw [if_pos hin, if_pos (by omega)]
        · rw [if_neg hin, if_neg (by omega)]

end RedisZk.Zset
