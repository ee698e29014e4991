/-
# The shape of a skip list, and the walk through it

A skip list in memory represents a row of towers (`Rep`): at every level, what a
node links to and the span of the link are those of the row of what comes after
it; the pointers back, the tail, the length and the level are those of the row.
The walk down the levels ends at a cut of the row, and `update` has the feet of
the cut, whatever the condition was: the node before the cut was ahead, the node
after it is not.

Key definitions: `Item`, `Linked`, `Rep`, `Feet`.
Key theorems: `zslSeek_spec`.
-/
import RedisZk.Zset.Skiplist
import RedisZk.Lib.Towers
import RedisZk.Lib.Run

namespace RedisZk.Zset

open Stepwise (Within)
open Towers

variable {σ : Type} {zsl zsl' : Zskiplist σ} {i : ℕ}

/-- A node of the list: its address, what it holds and the number of its levels. -/
structure Item (σ : Type) where
  addr : ℕ
  score : σ
  ele : Sds
  height : ℕ

variable {l p q pre post : List (Item σ)} {it : Item σ}

/-- The last node of the row so far, or the header. -/
def lastRef (p : List (Item σ)) : Ref :=
  match p.getLast? with
  | none => .header
  | some it => .node it.addr

@[simp] theorem lastRef_nil : lastRef ([] : List (Item σ)) = .header := rfl

@[simp] theorem lastRef_concat : lastRef (p ++ [it]) = .node it.addr := by
  simp [lastRef]

/-- What is at level `i` of a node, if `q` comes after it. -/
def linkTo (i : ℕ) (q : List (Item σ)) : ZslLevel :=
  ⟨(nextTower Item.height i q).map Item.addr, span Item.height i q⟩

/-- What a node holds, and how many levels it has. -/
def ZslNode.shell (n : ZslNode σ) : Sds × σ × Option ℕ × ℕ := (n.ele, n.score, n.backward, n.level.length)

/-- The skip list in memory is the row `l`, but may have levels that no node has. -/
structure Linked (zsl : Zskiplist σ) (l : List (Item σ)) : Prop where
  nodup : (l.map Item.addr).Nodup
  fresh : ∀ it ∈ l, it.addr < zsl.fresh
  node : ∀ p it q, l = p ++ it :: q →
    (zsl.nodes it.addr).map ZslNode.shell = some (it.ele, it.score, p.getLast?.map Item.addr, it.height)
  header : zsl.header.length = ZSKIPLIST_MAXLEVEL
  link : ∀ p q i, l = p ++ q → i < zsl.level → Reaches Item.height i p → zsl.getLevel (lastRef p) i = .ok (linkTo i q)
  above : ∀ i, zsl.level ≤ i → i < ZSKIPLIST_MAXLEVEL → ∃ s, zsl.getLevel .header i = .ok ⟨none, s⟩
  heights : ∀ it ∈ l, 1 ≤ it.height ∧ it.height ≤ zsl.level
  level : 1 ≤ zsl.level ∧ zsl.level ≤ ZSKIPLIST_MAXLEVEL
  tail : zsl.tail = l.getLast?.map Item.addr
  length : zsl.length = l.length

/-- The skip list in memory is the row `l`. -/
structure Rep (zsl : Zskiplist σ) (l : List (Item σ)) : Prop extends Linked zsl l where
  tight : zsl.level = 1 ∨ ∃ it ∈ l, it.height = zsl.level

theorem getLevel_header : zsl.getLevel .header i =
    match zsl.header[i]? with
    | none => .error .noLevel
    | some l => .ok l := rfl

theorem node_eq {a : ℕ} {n : ZslNode σ} (h : zsl.nodes a = some n) : zsl.node a = .ok n := by
  unfold Zskiplist.node
  rw [h]

theorem getLevel_node {a : ℕ} {n : ZslNode σ} (h : zsl.nodes a = some n) : zsl.getLevel (.node a) i =
    match n.level[i]? with
    | none => .error .noLevel
    | some l => .ok l := by
  change (do
    let ls ← (zsl.node a).map ZslNode.level
    _) = _
  rw [node_eq h]
  rfl

theorem Rep.create : Rep (zslCreate : Zskiplist σ) [] where
  nodup := .nil
  fresh := by simp
  node := by simp
  header := List.length_replicate
  link := by
    intro p q i hpq hi _
    obtain ⟨rfl, rfl⟩ := List.append_eq_nil_iff.mp hpq.symm
    have h0 : i = 0 := by
      change i < 1 at hi
      omega
    rw [h0]
    rfl
  above := by
    intro i _ hi
    refine ⟨0, ?_⟩
    rw [getLevel_header]
    change (match (List.replicate ZSKIPLIST_MAXLEVEL ({} : ZslLevel))[i]? with
      | none => _
      | some l => _) = _
    rw [List.getElem?_replicate_of_lt hi]
  heights := by simp
  level := ⟨le_rfl, Nat.one_le_two_pow (n := 6)⟩
  tight := .inl rfl
  tail := rfl
  length := rfl

theorem Linked.node_of (h : Linked zsl l) (p : List (Item σ)) (it : Item σ) (q : List (Item σ)) (hl : l = p ++ it :: q) : ∃ n, zsl.nodes it.addr = some n ∧
    n.ele = it.ele ∧ n.score = it.score ∧ n.backward = p.getLast?.map Item.addr ∧ n.level.length = it.height := by
  obtain ⟨n, hn, hshell⟩ := Option.map_eq_some_iff.mp (h.node p it q hl)
  obtain ⟨h1, h2, h3, h4⟩ := by simpa [ZslNode.shell] using hshell
  exact ⟨n, hn, h1, h2, h3, h4⟩

/-- A place of the row tells what is before it. -/
theorem Linked.lastRef_inj (h : Linked zsl l) {p' q' : List (Item σ)} (hp : l = p ++ q) (hp' : l = p' ++ q')
    (heq : lastRef p = lastRef p') : p = p' := by
  have key : ∀ {p q e q' : List (Item σ)}, l = p ++ q → q = e ++ q' → lastRef p = lastRef (p ++ e) → e = [] := by
    intro p q e q' hl hq heq
    rcases List.eq_nil_or_concat e with rfl | ⟨e', z, rfl⟩
    · rfl
    · rw [List.concat_eq_append, ← List.append_assoc, lastRef_concat] at heq
      rcases List.eq_nil_or_concat p with rfl | ⟨p', w, rfl⟩
      · cases heq
      · rw [List.concat_eq_append, lastRef_concat] at heq
        have hnd := h.nodup
        rw [hl, hq] at hnd
        have haddr : w.addr = z.addr := by simpa using heq
        simp [List.nodup_append, haddr] at hnd
  rw [hp] at hp'
  rcases List.append_eq_append_iff.mp hp' with ⟨e, rfl, hq⟩ | ⟨e, rfl, hq⟩
  · rw [key hp hq heq, List.append_nil]
  · rw [key (by rw [hp, hq, List.append_assoc]) hq heq.symm, List.append_nil]

/-! ### The walk -/

/-- The condition of the walk, of a node of the row and its rank. -/
structure Sees (zsl : Zskiplist σ) (l : List (Item σ)) (ahead : ZslNode σ → ℕ → Bool) (wrap : ℕ → ℕ)
    (A : ℕ → Item σ → Bool) : Prop where
  ahead : ∀ a b it q n, l = a ++ (b ++ it :: q) → zsl.nodes it.addr = some n → n.ele = it.ele → n.score = it.score →
    ahead n (wrap a.length + (b.length + 1)) = A (a.length + b.length + 1) it
  wrap : ∀ a b, wrap (wrap a + b) = wrap (a + b)

/-- The first tower higher than `k` after `p` is not ahead. -/
def Stops (A : ℕ → Item σ → Bool) (k : ℕ) (p q : List (Item σ)) : Prop :=
  ∀ b it r, q = b ++ it :: r → (∀ y ∈ b, y.height ≤ k) → k < it.height → A (p.length + b.length + 1) it = false

variable {A : ℕ → Item σ → Bool}

theorem Stops.append {k : ℕ} {d r : List (Item σ)} (h : Stops A k p (d ++ r))
    (hd : ∀ y ∈ d, y.height ≤ k) : Stops A k (p ++ d) r := by
  intro b it r' hr hb hk
  have hstop := h (d ++ b) it r' (by rw [hr, List.append_assoc]) (fun y hy => ?_) hk
  · rw [List.length_append] at hstop ⊢
    rwa [← Nat.add_assoc] at hstop
  · rcases List.mem_append.mp hy with hy | hy
    · exact hd y hy
    · exact hb y hy

variable {wrap : ℕ → ℕ}

/-- At one level: forward to `p ++ d`, whose last node was ahead, and after which the next one is not. -/
theorem zslSeekLevel_spec (h : Linked zsl l) {ahead : ZslNode σ → ℕ → Bool}
    (hs : Sees zsl l ahead wrap A) (hi : i < zsl.level) (fuel : ℕ) (p q : List (Item σ)) (hl : l = p ++ q)
    (hr : Reaches Item.height i p) (hfuel : q.length < fuel) :
    ∃ d r, q = d ++ r ∧ zslSeekLevel zsl ahead wrap i fuel (lastRef p, wrap p.length) =
        .ok (lastRef (p ++ d), wrap (p ++ d).length) ∧
      Reaches Item.height i (p ++ d) ∧ Stops A i (p ++ d) r ∧
      (∀ e it, d = e ++ [it] → A (p ++ d).length it = true) ∧
      ∀ k, i ≤ k → Stops A k p q → ∀ y ∈ d, y.height ≤ k := by
  induction fuel generalizing p q with
  | zero => omega
  | succ fuel ih =>
    have hlink := h.link p q i hl hi hr
    unfold zslSeekLevel
    rw [hlink]
    cases hnext : nextTower Item.height i q with
    | none =>
      refine ⟨[], q, rfl, ?_, ?_, ?_, ?_, ?_⟩
      · simp only [linkTo, hnext, List.append_nil]
        rfl
      · rwa [List.append_nil]
      · intro b it r hq _ hk
        have hlow := nextTower_eq_none.mp hnext it (by simp [hq])
        omega
      · simp
      · simp
    | some it =>
      obtain ⟨b, c, rfl, hlow, hit, hspan⟩ := nextTower_eq_some hnext
      obtain ⟨n, hnode, hele, hscore, -, -⟩ := h.node_of (p ++ b) it c (by rw [hl, List.append_assoc])
      have hA := hs.ahead p b it c n hl hnode hele hscore
      have hstep : zslSeekLevel zsl ahead wrap i (fuel + 1) (lastRef p, wrap p.length) =
          if ahead n (wrap p.length + (b.length + 1)) then
            zslSeekLevel zsl ahead wrap i fuel (.node it.addr, wrap (wrap p.length + (b.length + 1)))
          else .ok (lastRef p, wrap p.length) := by
        rw [zslSeekLevel, hlink]
        simp only [linkTo, hnext, hspan, Option.map_some]
        change (do
          let n ← zsl.node it.addr
          _) = _
        rw [node_eq hnode]
        rfl
      rw [zslSeekLevel, hlink] at hstep
      rw [hstep, hA]
      by_cases hahead : A (p.length + b.length + 1) it = true
      · rw [if_pos hahead]
        have hlen : (p ++ (b ++ [it])).length = p.length + b.length + 1 := by
          simp only [List.length_append, List.length_singleton]
          omega
        obtain ⟨d, r, hdr, heq, hreach, hstop, hlast, hkeep⟩ := ih (p ++ (b ++ [it])) c (by rw [hl]; simp)
          (by rw [← List.append_assoc]; exact reaches_concat.mpr hit) (by simp at hfuel; omega)
        have hplace : (lastRef (p ++ (b ++ [it])), wrap (p ++ (b ++ [it])).length) =
            (Ref.node it.addr, wrap (wrap p.length + (b.length + 1))) := by
          rw [← List.append_assoc, lastRef_concat, List.append_assoc, hlen, hs.wrap, Nat.add_assoc]
        rw [hplace] at heq
        have hassoc : p ++ (b ++ [it]) ++ d = p ++ (b ++ it :: d) := by simp
        rw [hassoc] at heq hreach hstop hlast
        refine ⟨b ++ it :: d, r, by rw [hdr]; simp, heq, hreach, hstop, ?_, ?_⟩
        · intro e it' he
          rcases List.eq_nil_or_concat d with rfl | ⟨d', x, rfl⟩
          · have hlast' := (List.append_inj' he rfl).2
            rw [← (List.cons.inj hlast').1, show (p ++ (b ++ [it])).length = _ from hlen]
            exact hahead
          · have hconcat : b ++ it :: d'.concat x = (b ++ it :: d') ++ [x] := by simp
            rw [hconcat] at he
            have hx := (List.cons.inj (List.append_inj' he rfl).2).1
            rw [← hx]
            exact hlast d' x (by simp)
        · intro k hk hst
          have hitk : it.height ≤ k := by
            by_contra hgt
            have hno := hst b it c rfl (fun y hy => (hlow y hy).trans hk) (by omega)
            rw [hno] at hahead
            cases hahead
          have hb : ∀ y ∈ b ++ [it], y.height ≤ k := by
            intro y hy
            rcases List.mem_append.mp hy with hy | hy
            · exact (hlow y hy).trans hk
            · rw [List.mem_singleton.mp hy]
              exact hitk
          have hst' : Stops A k (p ++ (b ++ [it])) c := Stops.append (by simpa using hst) hb
          intro y hy
          rcases List.mem_append.mp hy with hy | hy
          · exact hb y (List.mem_append_left _ hy)
          · rcases List.mem_cons.mp hy with rfl | hy
            · exact hitk
            · exact hkeep k hk hst' y hy
      · rw [if_neg hahead]
        refine ⟨[], b ++ it :: c, rfl, by simp, by rwa [List.append_nil], ?_, by simp, by simp⟩
        intro b' it' r' heq hb' hk
        rw [List.append_nil]
        have hfirst : nextTower Item.height i (b' ++ it' :: r') = some it' := nextTower_over hb' hk
        have hspan' : span Item.height i (b' ++ it' :: r') = b'.length + 1 := span_over hb' hk
        rw [← heq] at hfirst hspan'
        rw [hfirst] at hnext
        rw [hspan] at hspan'
        rw [Option.some.inj hnext, show b'.length = b.length by omega]
        simpa using hahead

/-- `update` has the feet of a cut, at the levels below `level`. -/
def Feet (level : ℕ) (wrap : ℕ → ℕ) (pre : List (Item σ)) (update : List Place) : Prop :=
  ∀ i < level, update[i]? = some (lastRef (stem Item.height i pre), wrap (stem Item.height i pre).length)

theorem zslSeekFrom_spec (h : Linked zsl l) {ahead : ZslNode σ → ℕ → Bool}
    (hs : Sees zsl l ahead wrap A) (i : ℕ) (p q : List (Item σ)) (hi : i ≤ zsl.level) (hl : l = p ++ q)
    (hr : ∀ j < i, Reaches Item.height j p) :
    ∃ d r update, q = d ++ r ∧ zslSeekFrom zsl ahead wrap i (lastRef p, wrap p.length) = .ok update ∧
      update.length = i ∧ Feet i wrap (p ++ d) update ∧ (i = 0 → d = []) ∧
      (0 < i → ∀ it r', r = it :: r' → A ((p ++ d).length + 1) it = false) ∧
      (∀ e it, d = e ++ [it] → A (p ++ d).length it = true) ∧
      ∀ k, i ≤ k → Stops A k p q → ∀ y ∈ d, y.height ≤ k := by
  induction i generalizing p q with
  | zero => exact ⟨[], q, [], rfl, rfl, rfl, nofun, fun _ => rfl, nofun, by simp, by simp⟩
  | succ i ih =>
    obtain ⟨d1, r1, rfl, heq1, hreach, hstop, hlast1, hkeep1⟩ := zslSeekLevel_spec h hs (show i < zsl.level by omega)
      (zsl.length + 1) p q hl (hr i (by omega)) (by rw [h.length, hl, List.length_append]; omega)
    obtain ⟨d2, r, update, rfl, heq2, hlen, hfeet, hzero, hhead, hlast2, hkeep2⟩ := ih (p ++ d1) r1 (by omega)
      (by rw [hl, List.append_assoc]) (fun j hj => hreach.mono (by omega))
    have hlow := hkeep2 i le_rfl hstop
    rw [List.append_assoc] at hfeet hhead hlast2
    refine ⟨d1 ++ d2, r, update ++ [(lastRef (p ++ d1), wrap (p ++ d1).length)], (List.append_assoc ..).symm, ?_, ?_, ?_,
      by simp, ?_, ?_, ?_⟩
    · unfold zslSeekFrom
      rw [heq1]
      change (do
        let update ← zslSeekFrom zsl ahead wrap i (lastRef (p ++ d1), wrap (p ++ d1).length)
        _) = _
      rw [heq2]
      rfl
    · rw [List.length_append, hlen, List.length_singleton]
    · intro j hj
      by_cases hji : j < i
      · rw [List.getElem?_append_left (by omega)]
        exact hfeet j hji
      · have hji' : j = i := by omega
        obtain ⟨hstem, -⟩ := Foot.eq_stem (p := p ++ (d1 ++ d2)) ⟨by rw [List.append_assoc], hreach, hlow⟩
        rw [hji', ← hstem, List.getElem?_append_right (by omega), hlen, Nat.sub_self]
        rfl
    · intro _ it r' hr'
      by_cases hi0 : i = 0
      · rw [hzero hi0, List.append_nil]
        rw [hzero hi0, hr', hi0] at hstop
        have hheight := (h.heights it (by rw [hl, hr']; simp)).1
        exact hstop [] it r' rfl (by simp) (by omega)
      · exact hhead (by omega) it r' hr'
    · intro e it he
      rcases List.eq_nil_or_concat d2 with rfl | ⟨d', x, rfl⟩
      · rw [List.append_nil] at he ⊢
        exact hlast1 e it he
      · rw [List.concat_eq_append, ← List.append_assoc] at he
        rw [← (List.cons.inj (List.append_inj' he rfl).2).1]
        exact hlast2 d' x (by simp)
    · intro k hk hst y hy
      have hd1 := hkeep1 k (by omega) hst
      rcases List.mem_append.mp hy with hy | hy
      · exact hd1 y hy
      · exact hkeep2 k (by omega) (hst.append hd1) y hy

/-- The walk ends at a cut of the row: the node before it was ahead, the one after it is not. -/
theorem zslSeek_spec (h : Linked zsl l) {ahead : ZslNode σ → ℕ → Bool}
    (hs : Sees zsl l ahead wrap A) (hw : wrap 0 = 0) :
    ∃ pre post update, l = pre ++ post ∧ zslSeek zsl ahead wrap = .ok update ∧ update.length = zsl.level ∧
      Feet zsl.level wrap pre update ∧ (∀ it r, post = it :: r → A (pre.length + 1) it = false) ∧
      ∀ e it, pre = e ++ [it] → A pre.length it = true := by
  obtain ⟨d, r, update, rfl, heq, hlen, hfeet, -, hhead, hlast, -⟩ := zslSeekFrom_spec h hs zsl.level [] l le_rfl rfl
    (fun _ _ => .nil)
  refine ⟨d, r, update, rfl, ?_, hlen, hfeet, hhead h.level.1, hlast⟩
  rw [List.length_nil, hw] at heq
  exact heq

/-- The foot at level 0 is the whole of the row before the cut. -/
theorem Feet.zero {level : ℕ} {update : List Place} (h : Feet level wrap pre update) (h0 : 0 < level)
    (hheights : ∀ it ∈ pre, 1 ≤ it.height) : update[0]? = some (lastRef pre, wrap pre.length) := by
  rw [h 0 h0]
  have hb : brim Item.height 0 pre = [] := by
    rw [List.eq_nil_iff_forall_not_mem]
    intro y hy
    have h1 := (foot Item.height 0 pre).low y hy
    have h2 := hheights y (by rw [← stem_append_brim (h := Item.height) 0 pre]; exact List.mem_append_right _ hy)
    omega
  have hstem := stem_append_brim (h := Item.height) 0 pre
  rw [hb, List.append_nil] at hstem
  rw [hstem]

end RedisZk.Zset
