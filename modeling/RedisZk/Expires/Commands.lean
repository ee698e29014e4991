/-
# Times are carried and removed

What composes the functions on the two tables: lookups that delete an expired key, setKey, RENAME,
RENAMENX, MOVE, SWAPDB, the expire cycle and flushes. Any sequence of them does to the
keys, values and times what the same operations do to one map, and none of the assertions
fails. A time of -1 is the mark of no time, and RENAME and MOVE do not carry it.

Key definitions: `lookupKeyWrite`, `setKey`, `renameGenericCommand`, `moveCommand`, `step`, `after`.
Key theorems: `step_spec`, `run_spec`, `expires_follow_keys`.
-/
import RedisZk.Expires.Tables

namespace RedisZk.Expires

open Streams (Sds)

variable {σ : Type}

/-! ### The functions -/

structure Config where
  cluster_enabled : Bool
  loading : Bool
  /-- Whether there is a `masterhost`. -/
  slave : Bool
  mstime : ℤ
  lazyfree_lazy_expire : Bool
  lazyfree_lazy_server_del : Bool

def keyIsExpired (config : Config) (s : Server σ) (j : ℕ) (key : Sds) : Except Stop Bool :=
  (getExpire s j key).map fun when => !decide (when < 0) && !config.loading && decide (when < config.mstime)

def expireIfNeeded (config : Config) (s : Server σ) (j : ℕ) (key : Sds) : Except Stop (Server σ) :=
  (keyIsExpired config s j key).bind fun expired =>
    if expired && !config.slave then (dbDelete config.lazyfree_lazy_expire s j key).map Prod.fst else .ok s

def lookupKey (s : Server σ) (j : ℕ) (key : Sds) : Except Stop (Option σ) :=
  (dictFind s.live (s.db j).dict key).map fun de => de.map Prod.snd

def lookupKeyWrite (config : Config) (s : Server σ) (j : ℕ) (key : Sds) : Except Stop (Server σ × Option σ) :=
  (expireIfNeeded config s j key).bind fun s => (lookupKey s j key).map fun o => (s, o)

def setKey (config : Config) (s : Server σ) (j : ℕ) (key : Sds) (val : σ) : Except Stop (Server σ) :=
  (lookupKeyWrite config s j key).bind fun (s, o) =>
    (if o.isNone then dbAdd s j key val else dbOverwrite s j key val).bind fun s => (removeExpire s j key).map Prod.fst

inductive Reply
  | ok | czero | cone | nokeyerr | sameobjecterr | outofrangeerr
  | err (text : String)
deriving DecidableEq

/-- The new key, its time if there is one, and then the old key is deleted. -/
def renameTo (config : Config) (s : Server σ) (j j' : ℕ) (src dst : Sds) (o : σ) (expire : ℤ) : Except Stop (Server σ) :=
  (dbAdd s j' dst o).bind fun s =>
    (if expire ≠ -1 then setExpire s j' dst expire else .ok s).bind fun s =>
      (dbDelete config.lazyfree_lazy_server_del s j src).map Prod.fst

def renameGenericCommand (config : Config) (s : Server σ) (j : ℕ) (src dst : Sds) (nx : Bool) : Except Stop (Server σ × Reply) :=
  (lookupKeyWrite config s j src).bind fun (s, o) =>
    match o with
    | none => .ok (s, .nokeyerr)
    | some o =>
      if src = dst then .ok (s, if nx then .czero else .ok)
      else
        (getExpire s j src).bind fun expire =>
          (lookupKeyWrite config s j dst).bind fun (s, o') =>
            if o'.isSome && nx then .ok (s, .czero)
            else
              (if o'.isSome then (dbDelete config.lazyfree_lazy_server_del s j dst).map Prod.fst else .ok s).bind fun s =>
                (renameTo config s j j src dst o expire).map fun s => (s, if nx then .cone else .ok)

/-- The number of the other database, if it is one. -/
def selectDb (s : Server σ) (id : ℤ) : Option ℕ := if id < 0 ∨ id ≥ s.dbnum then none else some id.toNat

def moveCommand (config : Config) (s : Server σ) (j : ℕ) (key : Sds) (dbid : ℤ) : Except Stop (Server σ × Reply) :=
  if config.cluster_enabled then .ok (s, .err "MOVE is not allowed in cluster mode")
  else
    match selectDb s dbid with
    | none => .ok (s, .outofrangeerr)
    | some dst =>
      if j = dst then .ok (s, .sameobjecterr)
      else
        (lookupKeyWrite config s j key).bind fun (s, o) =>
          match o with
          | none => .ok (s, .czero)
          | some o =>
            (getExpire s j key).bind fun expire =>
              (lookupKeyWrite config s dst key).bind fun (s, o') =>
                if o'.isSome then .ok (s, .czero) else (renameTo config s j dst key key o expire).map fun s => (s, .cone)

def swapdbCommand (config : Config) (s : Server σ) (id1 id2 : ℤ) : Server σ × Reply :=
  if config.cluster_enabled then (s, .err "SWAPDB is not allowed in cluster mode")
  else
    match dbSwapDatabases s id1 id2 with
    | (s, false) => (s, .err "DB index is out of range")
    | (s, true) => (s, .ok)

/-- The entry of `expires` with the key is tried. -/
def activeExpireCycleTryExpire (config : Config) (s : Server σ) (j : ℕ) (key : Sds) (now : ℤ) : Except Stop (Server σ) :=
  (dictFind s.live (s.db j).expires key).bind fun de =>
    match de with
    | none => .ok s
    | some (str, t) =>
      if now > t then (dbDelete config.lazyfree_lazy_expire s j str.text).map Prod.fst else .ok s

/-! ### Sequences of operations -/

/-- The operations. `dbAdd` is called for a key that is not there, and `dbOverwrite`, `setExpire` and
`removeExpire` for one that is there, as their callers have looked up; otherwise nothing is called. -/
inductive Step (σ : Type)
  | dbAdd (j : ℕ) (key : Sds) (val : σ)
  /-- Also a write in place. -/
  | dbOverwrite (j : ℕ) (key : Sds) (val : σ)
  | setKey (j : ℕ) (key : Sds) (val : σ)
  | setExpire (j : ℕ) (key : Sds) (when : ℤ)
  | removeExpire (j : ℕ) (key : Sds)
  /-- A deletion by a command, by the eviction or of a slot. -/
  | dbDelete (lazy : Bool) (j : ℕ) (key : Sds)
  /-- Any lookup of a command that writes. -/
  | lookup (j : ℕ) (key : Sds)
  | rename (j : ℕ) (src dst : Sds) (nx : Bool)
  | move (j : ℕ) (key : Sds) (dbid : ℤ)
  | swapdb (id1 id2 : ℤ)
  | tryExpire (j : ℕ) (key : Sds) (now : ℤ)
  | emptyDb (dbnum : ℤ)

def isThere (s : Server σ) (j : ℕ) (key : Sds) : Bool := (Keyed.find keyText (s.db j).dict key).isSome

def step (config : Config) (s : Server σ) : Step σ → Except Stop (Server σ)
  | .dbAdd j key val => if isThere s j key then .ok s else dbAdd s j key val
  | .dbOverwrite j key val => if isThere s j key then dbOverwrite s j key val else .ok s
  | .setKey j key val => setKey config s j key val
  | .setExpire j key when => if isThere s j key then setExpire s j key when else .ok s
  | .removeExpire j key => if isThere s j key then (removeExpire s j key).map Prod.fst else .ok s
  | .dbDelete lazy j key => (dbDelete lazy s j key).map Prod.fst
  | .lookup j key => (lookupKeyWrite config s j key).map Prod.fst
  | .rename j src dst nx => (renameGenericCommand config s j src dst nx).map Prod.fst
  | .move j key dbid => (moveCommand config s j key dbid).map Prod.fst
  | .swapdb id1 id2 => .ok (swapdbCommand config s id1 id2).1
  | .tryExpire j key now => activeExpireCycleTryExpire config s j key now
  | .emptyDb dbnum => .ok (emptyDb s dbnum).1

/-- The configuration, the clock and the role may change with every operation. -/
def run : Server σ → List (Config × Step σ) → Except Stop (Server σ)
  | s, [] => .ok s
  | s, (config, c) :: steps => (step config s c).bind fun s => run s steps

/-! ### What the operations are for -/

def isExpired (config : Config) (x : Option (σ × Option ℤ)) : Bool :=
  let when := (x.bind Prod.snd).getD (-1)
  !decide (when < 0) && !config.loading && decide (when < config.mstime)

/-- A master deletes what has expired. -/
def looked (config : Config) (m : Keyspace σ) (j : ℕ) (key : Sds) : Keyspace σ :=
  if isExpired config (m j key) && !config.slave then put m j key none else m

/-- The time that RENAME and MOVE carry: the one that `getExpire` tells from none. -/
def carried (t : Option ℤ) : Option ℤ := t.filter fun when => decide (when ≠ -1)

def moved (m : Keyspace σ) (j j' : ℕ) (src dst : Sds) : Keyspace σ :=
  put (put m j' dst ((m j src).map fun x => (x.1, carried x.2))) j src none

def renamed (config : Config) (m : Keyspace σ) (j : ℕ) (src dst : Sds) (nx : Bool) : Keyspace σ :=
  let m1 := looked config m j src
  if (m1 j src).isNone ∨ src = dst then m1
  else
    let m2 := looked config m1 j dst
    if (m2 j dst).isSome ∧ nx = true then m2 else moved m2 j j src dst

def movedTo (config : Config) (dbnum : ℕ) (m : Keyspace σ) (j : ℕ) (key : Sds) (dbid : ℤ) : Keyspace σ :=
  if config.cluster_enabled = true ∨ dbid < 0 ∨ dbid ≥ dbnum ∨ j = dbid.toNat then m
  else
    let m1 := looked config m j key
    if (m1 j key).isNone then m1
    else
      let m2 := looked config m1 dbid.toNat key
      if (m2 dbid.toNat key).isSome then m2 else moved m2 j dbid.toNat key key

/-- The map after an operation. -/
def after (config : Config) (dbnum : ℕ) (m : Keyspace σ) : Step σ → Keyspace σ
  | .dbAdd j key val => if (m j key).isSome then m else put m j key (some (val, none))
  | .dbOverwrite j key val => put m j key ((m j key).map fun x => (val, x.2))
  | .setKey j key val => put m j key (some (val, none))
  | .setExpire j key when => put m j key ((m j key).map fun x => (x.1, some when))
  | .removeExpire j key => put m j key ((m j key).map fun x => (x.1, none))
  | .dbDelete _ j key => put m j key none
  | .lookup j key => looked config m j key
  | .rename j src dst nx => renamed config m j src dst nx
  | .move j key dbid => movedTo config dbnum m j key dbid
  | .swapdb id1 id2 =>
    if config.cluster_enabled = true ∨ id1 < 0 ∨ id1 ≥ dbnum ∨ id2 < 0 ∨ id2 ≥ dbnum then m
    else fun j => m (Equiv.swap id1.toNat id2.toNat j)
  | .tryExpire j key now =>
    match (m j key).bind Prod.snd with
    | some t => if t < now then put m j key none else m
    | none => m
  | .emptyDb dbnum' =>
    if dbnum' < -1 ∨ dbnum' ≥ dbnum then m
    else fun j => if dbnum' = -1 ∧ j < dbnum ∨ dbnum' ≠ -1 ∧ j = dbnum'.toNat then fun _ => none else m j

/-! ### Lookups -/

variable {β : Type} {s : Server σ} {j : ℕ} {key : Sds} {config : Config} {m : Keyspace σ} {x : Option (σ × Option ℤ)}

@[simp] theorem put_self (m : Keyspace σ) (j : ℕ) (key : Sds) (x : Option (σ × Option ℤ)) : put m j key x j key = x := by
  rw [put, Function.update_self, Function.update_self]

theorem put_ne (m : Keyspace σ) (x : Option (σ × Option ℤ)) {j' : ℕ} {key' : Sds} (h : j' ≠ j ∨ key' ≠ key) :
    put m j key x j' key' = m j' key' := by
  by_cases hj : j' = j
  · subst hj
    rw [put, Function.update_self, Function.update_of_ne (h.resolve_left (not_not.mpr rfl))]
  · rw [put, Function.update_of_ne hj]

theorem put_put (m : Keyspace σ) (j : ℕ) (key : Sds) (x y : Option (σ × Option ℤ)) : put (put m j key x) j key y = put m j key y := by
  rw [put, put, Function.update_self, Function.update_idem, Function.update_idem, put]

theorem put_same (h : m j key = x) : put m j key x = m := by
  rw [put, ← h, Function.update_eq_self, Function.update_eq_self]

theorem isThere_eq : isThere s j key = (view s j key).isSome := by
  rw [isThere, view, entryOf, Option.isSome_map]

theorem lookupKey_spec (h : Follows s) (j : ℕ) (key : Sds) : lookupKey s j key = .ok ((view s j key).map Prod.fst) := by
  rw [lookupKey, find_dict h, view, entryOf, Option.map_map]
  rfl

theorem keyIsExpired_spec (config : Config) (h : Follows s) (j : ℕ) (key : Sds) :
    keyIsExpired config s j key = .ok (isExpired config (view s j key)) := by
  rw [keyIsExpired, getExpire_spec h]
  rfl

/-- **A lookup deletes what has expired, on a master**, and finds the value that is left. -/
theorem lookupKeyWrite_spec (config : Config) (h : Follows s) (j : ℕ) (key : Sds) :
    ∃ s', lookupKeyWrite config s j key = .ok (s', (view s' j key).map Prod.fst) ∧ Follows s' ∧ s'.dbnum = s.dbnum ∧
      view s' = looked config (view s) j key := by
  rw [lookupKeyWrite, expireIfNeeded, keyIsExpired_spec config h]
  dsimp only [Except.bind]
  unfold looked
  by_cases hexpired : (isExpired config (view s j key) && !config.slave) = true
  · obtain ⟨s', deleted, hdelete, h', hdbnum, hview⟩ := dbDelete_spec config.lazyfree_lazy_expire h j key
    refine ⟨s', ?_, h', hdbnum, ?_⟩
    · rw [if_pos hexpired, hdelete]
      dsimp only [Except.map]
      rw [lookupKey_spec h']
    · rw [if_pos hexpired]
      exact hview
  · refine ⟨s, ?_, h, rfl, ?_⟩
    · rw [if_neg hexpired]
      dsimp only
      rw [lookupKey_spec h]
      rfl
    · rw [if_neg hexpired]

theorem looked_ne (config : Config) (m : Keyspace σ) {j' : ℕ} {key' : Sds} (h : j' ≠ j ∨ key' ≠ key) :
    looked config m j key j' key' = m j' key' := by
  unfold looked
  split
  · exact put_ne m none h
  · rfl

/-! ### Commands -/

/-- **A key that is set has no time.** -/
theorem setKey_spec (config : Config) (h : Follows s) (j : ℕ) (key : Sds) (val : σ) :
    ∃ s', setKey config s j key val = .ok s' ∧ Follows s' ∧ s'.dbnum = s.dbnum ∧ view s' = put (view s) j key (some (val, none)) := by
  obtain ⟨s1, hlookup, h1, hdbnum1, hview1⟩ := lookupKeyWrite_spec config h j key
  have hput : ∀ x, put (view s1) j key x = put (view s) j key x := by
    intro x
    rw [hview1, looked]
    split
    · rw [put_put]
    · rfl
  obtain ⟨s2, t, hwrite, h2, hdbnum2, hview2⟩ : ∃ s2 t,
      (if ((view s1 j key).map Prod.fst).isNone then dbAdd s1 j key val else dbOverwrite s1 j key val) = .ok s2 ∧ Follows s2 ∧
        s2.dbnum = s1.dbnum ∧ view s2 = put (view s1) j key (some (val, t)) := by
    cases hv : view s1 j key with
    | none =>
      obtain ⟨s2, hadd, h2, hdbnum2, hview2⟩ := dbAdd_spec h1 hv val
      exact ⟨s2, none, hadd, h2, hdbnum2, hview2⟩
    | some x =>
      obtain ⟨s2, hover, h2, hdbnum2, hview2⟩ := dbOverwrite_spec h1 (by rw [hv]; exact Option.some_ne_none x) val
      exact ⟨s2, _, hover, h2, hdbnum2, hview2⟩
  have hthere : view s2 j key = some (val, t) := by rw [hview2, put_self]
  obtain ⟨s3, removed, hremove, h3, hdbnum3, hview3⟩ := removeExpire_spec h2 hthere
  refine ⟨s3, ?_, h3, hdbnum3.trans (hdbnum2.trans hdbnum1), ?_⟩
  · rw [setKey, hlookup]
    dsimp only [Except.bind]
    rw [hwrite]
    dsimp only
    rw [hremove]
    rfl
  · rw [hview3, hview2, put_put, hput]

/-- A key that is moved has its value and the time that is carried. -/
theorem renameTo_spec (config : Config) (h : Follows s) {j' : ℕ} {src dst : Sds} {o : σ} {t : Option ℤ}
    (hsrc : view s j src = some (o, t)) (hdst : view s j' dst = none) :
    ∃ s', renameTo config s j j' src dst o (t.getD (-1)) = .ok s' ∧ Follows s' ∧ s'.dbnum = s.dbnum ∧
      view s' = moved (view s) j j' src dst := by
  obtain ⟨s1, hadd, h1, hdbnum1, hview1⟩ := dbAdd_spec h hdst o
  have hthere : view s1 j' dst = some (o, none) := by rw [hview1, put_self]
  obtain ⟨s2, hset, h2, hdbnum2, hview2⟩ : ∃ s2, (if t.getD (-1) ≠ -1 then setExpire s1 j' dst (t.getD (-1)) else .ok s1) = .ok s2 ∧
      Follows s2 ∧ s2.dbnum = s1.dbnum ∧ view s2 = put (view s) j' dst (some (o, carried t)) := by
    by_cases hwhen : t.getD (-1) = -1
    · have hnone : carried t = none := by
        cases t with
        | none => rfl
        | some when =>
          obtain rfl : when = -1 := hwhen
          rfl
      refine ⟨s1, if_neg (not_not.mpr hwhen), h1, rfl, ?_⟩
      rw [hview1, hnone]
    · obtain ⟨s2, hset, h2, hdbnum2, hview2⟩ := setExpire_spec h1 hthere (t.getD (-1))
      have hsome : carried t = some (t.getD (-1)) := by
        cases t with
        | none => exact absurd rfl hwhen
        | some when => exact Option.filter_eq_some_iff.mpr ⟨rfl, decide_eq_true hwhen⟩
      refine ⟨s2, ?_, h2, hdbnum2, ?_⟩
      · rw [if_pos hwhen]
        exact hset
      · rw [hview2, hview1, put_put, hsome]
  obtain ⟨s3, deleted, hdelete, h3, hdbnum3, hview3⟩ := dbDelete_spec config.lazyfree_lazy_server_del h2 j src
  refine ⟨s3, ?_, h3, hdbnum3.trans (hdbnum2.trans hdbnum1), ?_⟩
  · rw [renameTo, hadd]
    dsimp only [Except.bind]
    rw [hset]
    dsimp only
    rw [hdelete]
    rfl
  · rw [hview3, hview2, moved, hsrc, Option.map_some]

theorem getExpire_some (h : Follows s) {o : σ} {t : Option ℤ} (hview : view s j key = some (o, t)) : getExpire s j key = .ok (t.getD (-1)) := by
  rw [getExpire_spec h, hview]
  rfl

/-- **RENAME carries the time.** The new key loses what it had. -/
theorem renameGenericCommand_spec (config : Config) (h : Follows s) (j : ℕ) (src dst : Sds) (nx : Bool) :
    ∃ s' reply, renameGenericCommand config s j src dst nx = .ok (s', reply) ∧ Follows s' ∧ s'.dbnum = s.dbnum ∧
      view s' = renamed config (view s) j src dst nx := by
  obtain ⟨s1, hlookup1, h1, hdbnum1, hview1⟩ := lookupKeyWrite_spec config h j src
  rw [renameGenericCommand, hlookup1]
  dsimp only [Except.bind]
  unfold renamed
  dsimp only
  rw [← hview1]
  cases hsrc : view s1 j src with
  | none => exact ⟨s1, _, rfl, h1, hdbnum1, (if_pos (Or.inl rfl)).symm⟩
  | some x =>
    obtain ⟨o, t⟩ := x
    rw [Option.map_some]
    dsimp only
    by_cases hsame : src = dst
    · rw [if_pos hsame, if_pos (Or.inr hsame)]
      exact ⟨s1, _, rfl, h1, hdbnum1, rfl⟩
    · obtain ⟨s2, hlookup2, h2, hdbnum2, hview2⟩ := lookupKeyWrite_spec config h1 j dst
      have hsrc2 : view s2 j src = some (o, t) := by rw [hview2, looked_ne config _ (Or.inr hsame), hsrc]
      rw [if_neg hsame, if_neg (not_or.mpr ⟨by simp, hsame⟩), getExpire_some h1 hsrc]
      dsimp only
      rw [hlookup2, ← hview2]
      dsimp only
      cases hdst : view s2 j dst with
      | none =>
        obtain ⟨s3, hrename, h3, hdbnum3, hview3⟩ := renameTo_spec config h2 hsrc2 hdst
        rw [Option.map_none, Option.isSome_none, Option.isSome_none, Bool.false_and, if_neg Bool.false_ne_true, if_neg Bool.false_ne_true,
          if_neg fun hand : false = true ∧ nx = true => Bool.false_ne_true hand.1]
        dsimp only
        rw [hrename]
        exact ⟨s3, _, rfl, h3, hdbnum3.trans (hdbnum2.trans hdbnum1), hview3⟩
      | some y =>
        rw [Option.map_some, Option.isSome_some, Option.isSome_some, Bool.true_and]
        by_cases hnx : nx = true
        · rw [if_pos hnx, if_pos ⟨rfl, hnx⟩]
          exact ⟨s2, _, rfl, h2, hdbnum2.trans hdbnum1, rfl⟩
        · obtain ⟨s3, deleted, hdelete, h3, hdbnum3, hview3⟩ := dbDelete_spec config.lazyfree_lazy_server_del h2 j dst
          have hsrc3 : view s3 j src = some (o, t) := by rw [hview3, put_ne _ _ (Or.inr hsame), hsrc2]
          have hdst3 : view s3 j dst = none := by rw [hview3, put_self]
          obtain ⟨s4, hrename, h4, hdbnum4, hview4⟩ := renameTo_spec config h3 hsrc3 hdst3
          rw [if_neg hnx, if_pos rfl, hdelete, if_neg fun hand : true = true ∧ nx = true => hnx hand.2]
          dsimp only [Except.map]
          rw [hrename]
          refine ⟨s4, _, rfl, h4, hdbnum4.trans (hdbnum3.trans (hdbnum2.trans hdbnum1)), ?_⟩
          rw [hview4, moved, hsrc3, moved, hsrc2, hview3, put_put]

/-- **MOVE carries the time** to the other database. -/
theorem moveCommand_spec (config : Config) (h : Follows s) (j : ℕ) (key : Sds) (dbid : ℤ) :
    ∃ s' reply, moveCommand config s j key dbid = .ok (s', reply) ∧ Follows s' ∧ s'.dbnum = s.dbnum ∧
      view s' = movedTo config s.dbnum (view s) j key dbid := by
  unfold moveCommand movedTo
  by_cases hcluster : config.cluster_enabled = true
  · rw [if_pos hcluster, if_pos (Or.inl hcluster)]
    exact ⟨s, _, rfl, h, rfl, rfl⟩
  · rw [if_neg hcluster, selectDb]
    by_cases hrange : dbid < 0 ∨ dbid ≥ s.dbnum
    · rw [if_pos hrange, if_pos (Or.inr (hrange.elim Or.inl fun hge => Or.inr (Or.inl hge)))]
      exact ⟨s, _, rfl, h, rfl, rfl⟩
    · rw [if_neg hrange]
      dsimp only
      obtain ⟨hlow, hhigh⟩ := not_or.mp hrange
      by_cases hsame : j = dbid.toNat
      · rw [if_pos hsame, if_pos (Or.inr (Or.inr (Or.inr hsame)))]
        exact ⟨s, _, rfl, h, rfl, rfl⟩
      · obtain ⟨s1, hlookup1, h1, hdbnum1, hview1⟩ := lookupKeyWrite_spec config h j key
        rw [if_neg hsame, if_neg (not_or.mpr ⟨hcluster, not_or.mpr ⟨hlow, not_or.mpr ⟨hhigh, hsame⟩⟩⟩), hlookup1]
        dsimp only [Except.bind]
        rw [← hview1]
        cases hsrc : view s1 j key with
        | none => exact ⟨s1, _, rfl, h1, hdbnum1, (if_pos rfl).symm⟩
        | some x =>
          obtain ⟨o, t⟩ := x
          obtain ⟨s2, hlookup2, h2, hdbnum2, hview2⟩ := lookupKeyWrite_spec config h1 dbid.toNat key
          have hsrc2 : view s2 j key = some (o, t) := by rw [hview2, looked_ne config _ (Or.inl hsame), hsrc]
          rw [Option.map_some]
          dsimp only
          rw [getExpire_some h1 hsrc, if_neg (by simp)]
          dsimp only
          rw [hlookup2, ← hview2]
          dsimp only
          rw [Option.isSome_map]
          by_cases hdst : (view s2 dbid.toNat key).isSome = true
          · rw [if_pos hdst, if_pos hdst]
            exact ⟨s2, _, rfl, h2, hdbnum2.trans hdbnum1, rfl⟩
          · obtain ⟨s3, hrename, h3, hdbnum3, hview3⟩ := renameTo_spec config h2 hsrc2 (Option.not_isSome_iff_eq_none.mp hdst)
            rw [if_neg hdst, if_neg hdst, hrename]
            exact ⟨s3, _, rfl, h3, hdbnum3.trans (hdbnum2.trans hdbnum1), hview3⟩

theorem swapdbCommand_spec (config : Config) (h : Follows s) (id1 id2 : ℤ) :
    Follows (swapdbCommand config s id1 id2).1 ∧ (swapdbCommand config s id1 id2).1.dbnum = s.dbnum ∧
      view (swapdbCommand config s id1 id2).1 = after config s.dbnum (view s) (.swapdb id1 id2) := by
  unfold swapdbCommand dbSwapDatabases
  rw [after]
  by_cases hcluster : config.cluster_enabled = true
  · rw [if_pos hcluster, if_pos (Or.inl hcluster)]
    exact ⟨h, rfl, rfl⟩
  · rw [if_neg hcluster]
    by_cases hrange : id1 < 0 ∨ id1 ≥ s.dbnum ∨ id2 < 0 ∨ id2 ≥ s.dbnum
    · rw [if_pos hrange, if_pos (Or.inr hrange)]
      exact ⟨h, rfl, rfl⟩
    · rw [if_neg hrange, if_neg (not_or.mpr ⟨hcluster, hrange⟩)]
      by_cases hsame : id1 = id2
      · rw [if_pos hsame]
        refine ⟨h, rfl, ?_⟩
        funext j
        rw [hsame, Equiv.swap_self]
        rfl
      · rw [if_neg hsame]
        exact ⟨follows_permuted h _, rfl, rfl⟩

/-- The time that has passed is that of the key. -/
theorem tryExpire_spec (config : Config) (h : Follows s) (j : ℕ) (key : Sds) (now : ℤ) :
    ∃ s', activeExpireCycleTryExpire config s j key now = .ok s' ∧ Follows s' ∧ s'.dbnum = s.dbnum ∧
      view s' = after config s.dbnum (view s) (.tryExpire j key now) := by
  unfold activeExpireCycleTryExpire after
  dsimp only
  rw [find_expires h, time_view h, timeOf]
  dsimp only [Except.bind]
  cases hfind : Keyed.find keyText (s.db j).expires key with
  | none => exact ⟨s, rfl, h, rfl, rfl⟩
  | some de =>
    obtain ⟨-, hkey⟩ := Keyed.of_find hfind
    obtain ⟨str, t⟩ := de
    have htext : str.text = key := hkey
    rw [Option.map_some]
    dsimp only
    by_cases hlt : t < now
    · obtain ⟨s', deleted, hdelete, h', hdbnum, hview⟩ := dbDelete_spec config.lazyfree_lazy_expire h j key
      rw [if_pos hlt, if_pos hlt, htext, hdelete]
      exact ⟨s', rfl, h', hdbnum, hview⟩
    · rw [if_neg hlt, if_neg hlt]
      exact ⟨s, rfl, h, rfl, rfl⟩

theorem emptyDb_spec (config : Config) (h : Follows s) (dbnum : ℤ) :
    Follows (emptyDb s dbnum).1 ∧ (emptyDb s dbnum).1.dbnum = s.dbnum ∧
      view (emptyDb s dbnum).1 = after config s.dbnum (view s) (.emptyDb dbnum) := by
  unfold emptyDb
  rw [after]
  by_cases hrange : dbnum < -1 ∨ dbnum ≥ s.dbnum
  · rw [if_pos hrange, if_pos hrange]
    exact ⟨h, rfl, rfl⟩
  · rw [if_neg hrange, if_neg hrange]
    obtain ⟨h', hview⟩ := emptyTables_spec h (if dbnum = -1 then List.range s.dbnum else [dbnum.toNat])
    refine ⟨h', rfl, ?_⟩
    rw [hview]
    funext j
    have hmem : j ∈ (if dbnum = -1 then List.range s.dbnum else [dbnum.toNat]) ↔
        dbnum = -1 ∧ j < s.dbnum ∨ dbnum ≠ -1 ∧ j = dbnum.toNat := by
      by_cases hall : dbnum = -1
      · rw [if_pos hall, List.mem_range]
        exact ⟨fun hj => Or.inl ⟨hall, hj⟩, fun hor => hor.elim And.right fun hand => absurd hall hand.1⟩
      · rw [if_neg hall, List.mem_singleton]
        exact ⟨fun hj => Or.inr ⟨hall, hj⟩, fun hor => hor.elim (fun hand => absurd hand.1 hall) And.right⟩
    by_cases hj : j ∈ (if dbnum = -1 then List.range s.dbnum else [dbnum.toNat])
    · rw [if_pos hj, if_pos (hmem.mp hj)]
    · rw [if_neg hj, if_neg fun hor => hj (hmem.mpr hor)]

/-! ### Any sequence -/

theorem map_fst {s1 : Server σ} {r : Except Stop (Server σ × β)} {b : β} (h : r = .ok (s1, b)) : r.map Prod.fst = .ok s1 := by
  rw [h]
  rfl

/-- **An operation fails in none of its assertions**, leaves the times with their keys, and does what
it is for. -/
theorem step_spec (config : Config) (h : Follows s) (c : Step σ) :
    ∃ s', step config s c = .ok s' ∧ Follows s' ∧ s'.dbnum = s.dbnum ∧ view s' = after config s.dbnum (view s) c := by
  cases c with
  | dbAdd j key val =>
    rw [step, isThere_eq, after]
    cases hv : view s j key with
    | none => exact dbAdd_spec h hv val
    | some x => exact ⟨s, rfl, h, rfl, rfl⟩
  | dbOverwrite j key val =>
    rw [step, isThere_eq, after]
    cases hv : view s j key with
    | none => exact ⟨s, rfl, h, rfl, (put_same hv).symm⟩
    | some x =>
      obtain ⟨s', hover, h', hdbnum, hview⟩ := dbOverwrite_spec h (by rw [hv]; exact Option.some_ne_none x) val
      rw [hv] at hview
      exact ⟨s', hover, h', hdbnum, hview⟩
  | setKey j key val => exact setKey_spec config h j key val
  | setExpire j key when =>
    rw [step, isThere_eq, after]
    cases hv : view s j key with
    | none => exact ⟨s, rfl, h, rfl, (put_same hv).symm⟩
    | some x => exact setExpire_spec h hv when
  | removeExpire j key =>
    rw [step, isThere_eq, after]
    cases hv : view s j key with
    | none => exact ⟨s, rfl, h, rfl, (put_same hv).symm⟩
    | some x =>
      obtain ⟨s', removed, hremove, h', hdbnum, hview⟩ := removeExpire_spec h hv
      exact ⟨s', map_fst hremove, h', hdbnum, hview⟩
  | dbDelete lazy j key =>
    obtain ⟨s', deleted, hdelete, h', hdbnum, hview⟩ := dbDelete_spec lazy h j key
    exact ⟨s', map_fst hdelete, h', hdbnum, hview⟩
  | lookup j key =>
    obtain ⟨s', hlookup, h', hdbnum, hview⟩ := lookupKeyWrite_spec config h j key
    exact ⟨s', map_fst hlookup, h', hdbnum, hview⟩
  | rename j src dst nx =>
    obtain ⟨s', reply, hrename, h', hdbnum, hview⟩ := renameGenericCommand_spec config h j src dst nx
    exact ⟨s', map_fst hrename, h', hdbnum, hview⟩
  | move j key dbid =>
    obtain ⟨s', reply, hmove, h', hdbnum, hview⟩ := moveCommand_spec config h j key dbid
    exact ⟨s', map_fst hmove, h', hdbnum, hview⟩
  | swapdb id1 id2 => exact ⟨_, rfl, swapdbCommand_spec config h id1 id2⟩
  | tryExpire j key now => exact tryExpire_spec config h j key now
  | emptyDb dbnum => exact ⟨_, rfl, emptyDb_spec config h dbnum⟩

def afterAll (dbnum : ℕ) (m : Keyspace σ) (steps : List (Config × Step σ)) : Keyspace σ :=
  steps.foldl (fun m c => after c.1 dbnum m c.2) m

theorem run_spec : ∀ (steps : List (Config × Step σ)) {s : Server σ}, Follows s →
    ∃ s', run s steps = .ok s' ∧ Follows s' ∧ s'.dbnum = s.dbnum ∧ view s' = afterAll s.dbnum (view s) steps
  | [], s, h => ⟨s, rfl, h, rfl, rfl⟩
  | (config, c) :: steps, s, h => by
    obtain ⟨s1, hstep, h1, hdbnum1, hview1⟩ := step_spec config h c
    obtain ⟨s2, hrun, h2, hdbnum2, hview2⟩ := run_spec steps h1
    refine ⟨s2, ?_, h2, hdbnum2.trans hdbnum1, ?_⟩
    · rw [run, hstep]
      exact hrun
    · rw [hview2, hview1, hdbnum1]
      rfl

/-- **Expires follow their keys.** From any state in which they do, and through any operations, no
assertion fails and no freed string is read; afterwards every time refers to the string of its key, and
`getExpire` may be asked for any key. -/
theorem expires_follow_keys (h : Follows s) (steps : List (Config × Step σ)) :
    ∃ s', run s steps = .ok s' ∧ Follows s' ∧ view s' = afterAll s.dbnum (view s) steps ∧
      (∀ j, ∀ e ∈ (s'.db j).expires, ∃ v, (e.1, v) ∈ (s'.db j).dict) ∧
      ∀ j key, getExpire s' j key = .ok (((view s' j key).bind Prod.snd).getD (-1)) := by
  obtain ⟨s', hrun, h', -, hview⟩ := run_spec steps h
  refine ⟨s', hrun, h', hview, fun j e he => ?_, getExpire_spec h'⟩
  obtain ⟨⟨str, v⟩, hde, rfl⟩ := List.mem_map.mp (h'.follows he)
  exact ⟨v, hde⟩

/-- A server as it starts. -/
def started : Server ℕ := ⟨16, fun _ => ⟨[], []⟩, fun _ => false, 0⟩

theorem follows_started : Follows started where
  live := fun hk => nomatch hk
  old := fun _ => rfl
  apart := fun hk => nomatch hk
  nodup := fun _ => List.nodup_nil
  nodup_expires := fun _ => List.nodup_nil
  follows := fun he => nomatch he

def master : Config := ⟨false, false, false, 1000, false, false⟩

/-- A key with a time is renamed and moved. -/
theorem expires_follow_keys_move :
    ∃ s', run started [(master, .setKey 0 [97] 7), (master, .setExpire 0 [97] 5000), (master, .rename 0 [97] [98] false),
        (master, .move 0 [98] 1)] = .ok s' ∧ Follows s' ∧
      view s' = afterAll started.dbnum (view started) [(master, .setKey 0 [97] 7), (master, .setExpire 0 [97] 5000),
        (master, .rename 0 [97] [98] false), (master, .move 0 [98] 1)] ∧
      (∀ j, ∀ e ∈ (s'.db j).expires, ∃ v, (e.1, v) ∈ (s'.db j).dict) ∧
      ∀ j key, getExpire s' j key = .ok (((view s' j key).bind Prod.snd).getD (-1)) :=
  expires_follow_keys follows_started _

/-- A time of -1 is not carried. -/
theorem rename_drops_minus_one :
    ∃ s s', run started [(master, .setKey 0 [97] 7), (master, .setExpire 0 [97] (-1))] = .ok s ∧ view s 0 [97] = some (7, some (-1)) ∧
      step master s (.rename 0 [97] [98] false) = .ok s' ∧ view s' 0 [98] = some (7, none) := by
  obtain ⟨s, hrun, h, hdbnum, hview⟩ := run_spec [(master, .setKey 0 [97] 7), (master, .setExpire 0 [97] (-1))] follows_started
  obtain ⟨s', hstep, -, -, hview'⟩ := step_spec master h (.rename 0 [97] [98] false)
  refine ⟨s, s', hrun, ?_, hstep, ?_⟩
  · rw [hview]
    decide
  · rw [hview', hview, hdbnum]
    decide

end RedisZk.Expires
