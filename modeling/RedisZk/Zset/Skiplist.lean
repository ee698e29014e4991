/-
# Skip lists with spans

The skip list of t_zset.c: nodes in memory, each with the score, the element, the
pointer back and one pair of a forward pointer and a span for each of its levels.
The header has 64 levels and no element. A pointer to a node is its address, NULL
is `none`; where the code holds the header or a node, that is a `Ref`. Reading a
node that is not there, or a level a node does not have, fails.

An `unsigned long` is a natural, as no list fills 64 bits of memory, except that a
subtraction below 0 wraps; an `unsigned int` wraps at `2^32`. The walk down the
levels, the same in every function but for its condition, is `zslSeek`, and the
removal of the nodes of a range is `zslRemoveWhile`.

Key definitions: `Zskiplist`, `zslInsert`, `zslDeleteNode`, `zslDelete`, `zslUpdateScore`, `zslDeleteRangeByScore`,
`zslDeleteRangeByLex`, `zslDeleteRangeByRank`.
-/
import Mathlib

namespace RedisZk.Zset

def ZSKIPLIST_MAXLEVEL : ℕ := 64

/-! ### Strings -/

abbrev Sds := List (Fin 256)

/-- `memcmp` over the length of the shorter string. -/
def memcmp : Sds → Sds → Ordering
  | a :: s1, b :: s2 => if a < b then .lt else if b < a then .gt else memcmp s1 s2
  | _, _ => .eq

def sdscmp (s1 s2 : Sds) : Ordering :=
  match memcmp s1 s2 with
  | .eq => if s1.length > s2.length then .gt else if s1.length < s2.length then .lt else .eq
  | cmp => cmp

/-! ### Nodes -/

structure ZslLevel where
  forward : Option ℕ := none
  span : ℕ := 0
deriving DecidableEq, Repr

structure ZslNode (σ : Type) where
  ele : Sds
  score : σ
  backward : Option ℕ
  level : List ZslLevel

/-- The skip list, and the memory its nodes are in; `fresh` is where `zmalloc` puts the next one. -/
structure Zskiplist (σ : Type) where
  header : List ZslLevel := List.replicate ZSKIPLIST_MAXLEVEL {}
  nodes : ℕ → Option (ZslNode σ) := fun _ => none
  fresh : ℕ := 0
  tail : Option ℕ := none
  length : ℕ := 0
  level : ℕ := 1

/-- The header or a node. -/
inductive Ref
  | header
  | node (a : ℕ)
deriving DecidableEq, Repr

/-- The ways a function goes wrong. -/
inductive ZslAbort
  /-- There is no node at the address. -/
  | wildPointer
  /-- The node, or `update`, does not have the level. -/
  | noLevel
  /-- The forward pointers of a level do not end. -/
  | endless
  /-- `serverAssert` of `zslUpdateScore`. -/
  | assert
deriving DecidableEq, Repr

variable {σ : Type}

/-- Subtraction in an `unsigned long`. -/
def usub (a b : ℕ) : ℕ := if b ≤ a then a - b else 2 ^ 64 - (b - a)

namespace Zskiplist

/-- The node at an address. -/
def node (zsl : Zskiplist σ) (a : ℕ) : Except ZslAbort (ZslNode σ) :=
  match zsl.nodes a with
  | none => .error .wildPointer
  | some n => .ok n

def levels (zsl : Zskiplist σ) : Ref → Except ZslAbort (List ZslLevel)
  | .header => .ok zsl.header
  | .node a => (zsl.node a).map ZslNode.level

/-- `x->level[i]` -/
def getLevel (zsl : Zskiplist σ) (x : Ref) (i : ℕ) : Except ZslAbort ZslLevel := do
  let ls ← zsl.levels x
  match ls[i]? with
  | none => .error .noLevel
  | some l => .ok l

def setNode (zsl : Zskiplist σ) (a : ℕ) (n : ZslNode σ) : Zskiplist σ :=
  { zsl with nodes := fun b => if b = a then some n else zsl.nodes b }

/-- Writes `x->level[i]`. -/
def setLevel (zsl : Zskiplist σ) (x : Ref) (i : ℕ) (l : ZslLevel) : Except ZslAbort (Zskiplist σ) := do
  let _ ← zsl.getLevel x i
  match x with
  | .header => .ok { zsl with header := zsl.header.set i l }
  | .node a => do
    let n ← zsl.node a
    .ok (zsl.setNode a { n with level := n.level.set i l })

/-- Writes `x->backward`. -/
def setBackward (zsl : Zskiplist σ) (a : ℕ) (b : Option ℕ) : Except ZslAbort (Zskiplist σ) := do
  let n ← zsl.node a
  .ok (zsl.setNode a { n with backward := b })

end Zskiplist

/-- `zslCreateNode`: the node, whose levels the caller sets. -/
def zslCreateNode (zsl : Zskiplist σ) (level : ℕ) (score : σ) (ele : Sds) : Zskiplist σ :=
  { zsl.setNode zsl.fresh { ele := ele, score := score, backward := none, level := List.replicate level {} } with
    fresh := zsl.fresh + 1 }

def zslCreate : Zskiplist σ := {}

def zslFreeNode (zsl : Zskiplist σ) (a : ℕ) : Zskiplist σ :=
  { zsl with nodes := fun b => if b = a then none else zsl.nodes b }

/-- `zslRandomLevel`, when the condition of its loop holds `k` times. -/
def zslRandomLevel (k : ℕ) : ℕ := if 1 + k < ZSKIPLIST_MAXLEVEL then 1 + k else ZSKIPLIST_MAXLEVEL

/-! ### The walk down the levels -/

/-- What a walk is at: a node, and the spans it crossed. -/
abbrev Place := Ref × ℕ

/-- The `while` loop at level `i`: forward as long as `ahead` holds of the next node and of
the spans crossed up to it. -/
def zslSeekLevel (zsl : Zskiplist σ) (ahead : ZslNode σ → ℕ → Bool) (wrap : ℕ → ℕ) (i : ℕ) :
    ℕ → Place → Except ZslAbort Place
  | 0, _ => .error .endless
  | fuel + 1, (x, traversed) => do
    let l ← zsl.getLevel x i
    match l.forward with
    | none => .ok (x, traversed)
    | some a =>
      let n ← zsl.node a
      if ahead n (traversed + l.span) then
        zslSeekLevel zsl ahead wrap i fuel (.node a, wrap (traversed + l.span))
      else .ok (x, traversed)

/-- `for (i = zsl->level-1; i >= 0; i--)`: the arrays `update` and `rank`. -/
def zslSeekFrom (zsl : Zskiplist σ) (ahead : ZslNode σ → ℕ → Bool) (wrap : ℕ → ℕ) :
    ℕ → Place → Except ZslAbort (List Place)
  | 0, _ => .ok []
  | i + 1, x => do
    let x ← zslSeekLevel zsl ahead wrap i (zsl.length + 1) x
    let update ← zslSeekFrom zsl ahead wrap i x
    .ok (update ++ [x])

def zslSeek (zsl : Zskiplist σ) (ahead : ZslNode σ → ℕ → Bool) (wrap : ℕ → ℕ) : Except ZslAbort (List Place) :=
  zslSeekFrom zsl ahead wrap zsl.level (.header, 0)

/-- `update[i]` and `rank[i]` -/
def updateAt (update : List Place) (i : ℕ) : Except ZslAbort Place :=
  match update[i]? with
  | none => .error .noLevel
  | some x => .ok x

section Order

variable [LinearOrder σ]

/-- The node comes before the score and the element. -/
def ZslNode.before (n : ZslNode σ) (score : σ) (ele : Sds) : Bool :=
  decide (n.score < score) || (decide (n.score = score) && sdscmp n.ele ele == .lt)

/-! ### Insertion -/

/-- `rank[0] - rank[i]`, of `unsigned int`s. -/
def rankSub (rank0 rank : ℕ) : ℕ := (rank0 + 2 ^ 32 - rank) % 2 ^ 32

/-- The levels up to a higher one than there were. -/
def zslGrow (zsl : Zskiplist σ) (update : List Place) (level : ℕ) : Except ZslAbort (Zskiplist σ × List Place) :=
  if level > zsl.level then do
    let zsl' ← (List.range' zsl.level (level - zsl.level)).foldlM (fun z i => do
      let l ← z.getLevel .header i
      z.setLevel .header i { l with span := z.length }) zsl
    .ok ({ zsl' with level := level }, update ++ List.replicate (level - zsl.level) (.header, 0))
  else .ok (zsl, update)

/-- The new node `x` goes between `update[i]` and the next node at level `i`. -/
def zslLinkLevel (update : List Place) (x : ℕ) (zsl : Zskiplist σ) (i : ℕ) : Except ZslAbort (Zskiplist σ) := do
  let (u, rank) ← updateAt update i
  let (_, rank0) ← updateAt update 0
  let l ← zsl.getLevel u i
  let zsl ← zsl.setLevel (.node x) i { forward := l.forward, span := usub l.span (rankSub rank0 rank) }
  zsl.setLevel u i { forward := some x, span := (rankSub rank0 rank + 1) % 2 ^ 32 }

/-- "increment span for untouched levels" -/
def zslStretchLevel (update : List Place) (zsl : Zskiplist σ) (i : ℕ) : Except ZslAbort (Zskiplist σ) := do
  let (u, _) ← updateAt update i
  let l ← zsl.getLevel u i
  zsl.setLevel u i { l with span := l.span + 1 }

/-- `(x == zsl->header) ? NULL : x` -/
def Ref.orNull : Ref → Option ℕ
  | .header => none
  | .node a => some a

/-- The pointers back, and the tail. -/
def zslLinkBackward (update : List Place) (x : ℕ) (zsl : Zskiplist σ) : Except ZslAbort (Zskiplist σ) := do
  let (u, _) ← updateAt update 0
  let zsl ← zsl.setBackward x u.orNull
  let l ← zsl.getLevel (.node x) 0
  match l.forward with
  | some a => zsl.setBackward a (some x)
  | none => .ok { zsl with tail := some x }

/-- `zslInsert`, when `zslRandomLevel` gives `level`: the list, and the new node. -/
def zslInsert (zsl : Zskiplist σ) (score : σ) (ele : Sds) (level : ℕ) : Except ZslAbort (Zskiplist σ × ℕ) := do
  let update ← zslSeek zsl (fun n _ => n.before score ele) (· % 2 ^ 32)
  let (zsl, update) ← zslGrow zsl update level
  let x := zsl.fresh
  let zsl := zslCreateNode zsl level score ele
  let zsl ← (List.range' 0 level).foldlM (zslLinkLevel update x) zsl
  let zsl ← (List.range' level (zsl.level - level)).foldlM (zslStretchLevel update) zsl
  let zsl ← zslLinkBackward update x zsl
  .ok ({ zsl with length := zsl.length + 1 }, x)

/-! ### Removal -/

/-- Node `x` leaves level `i`. `span += x->level[i].span - 1` may wrap twice, and then is right. -/
def zslUnlinkLevel (update : List Place) (x : ℕ) (zsl : Zskiplist σ) (i : ℕ) : Except ZslAbort (Zskiplist σ) := do
  let (u, _) ← updateAt update i
  let l ← zsl.getLevel u i
  if l.forward = some x then
    let lx ← zsl.getLevel (.node x) i
    zsl.setLevel u i { forward := lx.forward, span := usub (l.span + lx.span) 1 }
  else zsl.setLevel u i { l with span := usub l.span 1 }

/-- `while(zsl->level > 1 && zsl->header->level[zsl->level-1].forward == NULL) zsl->level--;` -/
def zslDropLevels (zsl : Zskiplist σ) : ℕ → Except ZslAbort ℕ
  | level + 2 => do
    let l ← zsl.getLevel .header (level + 1)
    if l.forward = none then zslDropLevels zsl (level + 1) else .ok (level + 2)
  | level => .ok level

/-- The pointer back of the next node, or the tail, goes to what was before `x`. -/
def zslUnlinkBackward (x : ℕ) (zsl : Zskiplist σ) : Except ZslAbort (Zskiplist σ) := do
  let n ← zsl.node x
  let l ← zsl.getLevel (.node x) 0
  match l.forward with
  | some a => zsl.setBackward a n.backward
  | none => .ok { zsl with tail := n.backward }

def zslDeleteNode (zsl : Zskiplist σ) (x : ℕ) (update : List Place) : Except ZslAbort (Zskiplist σ) := do
  let zsl ← (List.range' 0 zsl.level).foldlM (zslUnlinkLevel update x) zsl
  let zsl ← zslUnlinkBackward x zsl
  let level ← zslDropLevels zsl zsl.level
  .ok { zsl with level := level, length := usub zsl.length 1 }

/-- The node after `update[0]`: `x = x->level[0].forward;` -/
def zslNext (zsl : Zskiplist σ) (update : List Place) : Except ZslAbort (Option ℕ) := do
  let (u, _) ← updateAt update 0
  let l ← zsl.getLevel u 0
  .ok l.forward

/-- The node is `x`, if it is that of the score and the element. -/
def zslMatch (zsl : Zskiplist σ) (score : σ) (ele : Sds) : Option ℕ → Except ZslAbort (Option (ℕ × ZslNode σ))
  | none => .ok none
  | some a => do
    let n ← zsl.node a
    .ok (if score = n.score ∧ sdscmp n.ele ele = .eq then some (a, n) else none)

/-- `zslDelete`: the list, and whether the node was found. It is not freed if the caller keeps it. -/
def zslDelete (zsl : Zskiplist σ) (score : σ) (ele : Sds) (keep : Bool) : Except ZslAbort (Zskiplist σ × Bool) := do
  let update ← zslSeek zsl (fun n _ => n.before score ele) id
  let x ← zslNext zsl update
  match ← zslMatch zsl score ele x with
  | none => .ok (zsl, false)
  | some (a, _) =>
    let zsl ← zslDeleteNode zsl a update
    .ok (if keep then zsl else zslFreeNode zsl a, true)

/-- `(p == NULL || cond(p->score))` -/
def zslScoreIs (zsl : Zskiplist σ) (cond : σ → Bool) : Option ℕ → Except ZslAbort Bool
  | none => .ok true
  | some a => do
    let n ← zsl.node a
    .ok (cond n.score)

/-- `zslUpdateScore`; `level` is what `zslRandomLevel` gives if the node is not reused. -/
def zslUpdateScore (zsl : Zskiplist σ) (curscore : σ) (ele : Sds) (newscore : σ) (level : ℕ) :
    Except ZslAbort (Zskiplist σ) := do
  let update ← zslSeek zsl (fun n _ => n.before curscore ele) id
  let x ← zslNext zsl update
  match ← zslMatch zsl curscore ele x with
  | none => .error .assert
  | some (a, n) =>
    let l ← zsl.getLevel (.node a) 0
    let after ← zslScoreIs zsl (fun s => decide (s < newscore)) n.backward
    let before ← zslScoreIs zsl (fun s => decide (s > newscore)) l.forward
    if after = true ∧ before = true then .ok (zsl.setNode a { n with score := newscore })
    else
      let zsl ← zslDeleteNode zsl a update
      let (zsl, _) ← zslInsert zsl newscore n.ele level
      .ok (zslFreeNode zsl a)

/-! ### Ranges -/

structure ZrangeSpec (σ : Type) where
  min : σ
  max : σ
  minex : Bool
  maxex : Bool

def zslValueGteMin (value : σ) (spec : ZrangeSpec σ) : Bool :=
  if spec.minex then decide (value > spec.min) else decide (value ≥ spec.min)

def zslValueLteMax (value : σ) (spec : ZrangeSpec σ) : Bool :=
  if spec.maxex then decide (value < spec.max) else decide (value ≤ spec.max)

/-- A bound of a lexicographic range: `shared.minstring`, `shared.maxstring` or a string. -/
inductive LexBound
  | minstring
  | maxstring
  | str (s : Sds)

structure ZlexRangeSpec where
  min : LexBound
  max : LexBound
  minex : Bool
  maxex : Bool

/-- `sdscmplex`, of the element of a node and a bound. -/
def sdscmplex (a : Sds) : LexBound → Ordering
  | .minstring => .gt
  | .maxstring => .lt
  | .str b => sdscmp a b

def zslLexValueGteMin (value : Sds) (spec : ZlexRangeSpec) : Bool :=
  if spec.minex then sdscmplex value spec.min == .gt else sdscmplex value spec.min != .lt

def zslLexValueLteMax (value : Sds) (spec : ZlexRangeSpec) : Bool :=
  if spec.maxex then sdscmplex value spec.max == .lt else sdscmplex value spec.max != .gt

/-- "Delete nodes while in range", which `cond` says of a node and the number removed before it. -/
def zslRemoveWhile (cond : ZslNode σ → ℕ → Bool) (update : List Place) :
    ℕ → Option ℕ → Zskiplist σ → ℕ → Except ZslAbort (Zskiplist σ × ℕ)
  | _, none, zsl, removed => .ok (zsl, removed)
  | 0, some _, _, _ => .error .endless
  | fuel + 1, some a, zsl, removed => do
    let n ← zsl.node a
    if cond n removed then
      let l ← zsl.getLevel (.node a) 0
      let zsl ← zslDeleteNode zsl a update
      zslRemoveWhile cond update fuel l.forward (zslFreeNode zsl a) (removed + 1)
    else .ok (zsl, removed)

/-- The list, and the number removed. -/
def zslDeleteRangeByScore (zsl : Zskiplist σ) (range : ZrangeSpec σ) : Except ZslAbort (Zskiplist σ × ℕ) := do
  let update ← zslSeek zsl (fun n _ => if range.minex then decide (n.score ≤ range.min) else decide (n.score < range.min)) id
  let x ← zslNext zsl update
  zslRemoveWhile (fun n _ => if range.maxex then decide (n.score < range.max) else decide (n.score ≤ range.max)) update
    (zsl.length + 1) x zsl 0

def zslDeleteRangeByLex (zsl : Zskiplist σ) (range : ZlexRangeSpec) : Except ZslAbort (Zskiplist σ × ℕ) := do
  let update ← zslSeek zsl (fun n _ => !zslLexValueGteMin n.ele range) id
  let x ← zslNext zsl update
  zslRemoveWhile (fun n _ => zslLexValueLteMax n.ele range) update (zsl.length + 1) x zsl 0

/-- `start` and `end` are 1-based. -/
def zslDeleteRangeByRank (zsl : Zskiplist σ) (start stop : BitVec 32) : Except ZslAbort (Zskiplist σ × ℕ) := do
  let update ← zslSeek zsl (fun _ traversed => decide (traversed < start.toNat)) id
  let (_, traversed) ← updateAt update 0
  let x ← zslNext zsl update
  zslRemoveWhile (fun _ removed => decide (traversed + 1 + removed ≤ stop.toNat)) update (zsl.length + 1) x zsl 0

end Order

end RedisZk.Zset
