/-
# A write that fails leaves no trace

Whatever a command does before it fails, an error leaves every key as it was, and no hash, set, sorted set or
list under a key is empty. The one exception is HINCRBYFLOAT with an infinite increment on a key that is not
there: the hash is created before the sum is tested, and it stays, empty.

Key definitions: `Full`, `Good`, `Fair`, `visible`, `Slips`.
Key theorems: `onKey_spec`, `fair_command`, `step_good`, `slips_leave_empty`, `failing_writes_leave_no_trace`.
-/
import RedisZk.Expires.Times
import RedisZk.Lib.Run
import RedisZk.Writes.Commands

namespace RedisZk.Writes

open Streams (Sds)
open Networking (sds)
open Util (string2ll)
open Migrate (strcasecmp)
open Hashes (Hash Object KeyHolds)
open Expires (Server Keyspace Follows view put looked isExpired lookupKeyWrite)
open Stepwise (Run)
open Strings (sdsnewlen checkStringLength toLongLong)

variable {D L : Type}

/-! ### Values that are not empty -/

/-- The elements of a hash, a set, a sorted set or a list are none. -/
def Value.isEmpty : Value D → Bool
  | .hash o => decide (Hashes.hashTypeLength o = 0)
  | .set l => decide (l = [])
  | .zset l => l.isEmpty
  | .list l => decide (l = [])
  | _ => false

/-- The value is well formed, and not empty. -/
def Full : Value D → Prop
  | .hash o => ∃ m, KeyHolds (some (.hash o)) m
  | .set l => l ≠ []
  | .zset l => l ≠ []
  | .list l => l ≠ []
  | _ => True

theorem Full.not_empty {v : Value D} (h : Full v) : v.isEmpty = false := by
  cases v with
  | hash o =>
    obtain ⟨m, hholds, hne⟩ := h
    exact decide_eq_false fun hzero => hne ((Hashes.length_eq_zero hholds).mp hzero)
  | set l => exact decide_eq_false h
  | zset l =>
    cases l with
    | nil => exact absurd rfl h
    | cons e l => rfl
  | list l => exact decide_eq_false h
  | string s => rfl
  | other => rfl

def AllFull (m : Keyspace (Value D)) : Prop := ∀ j key v t, m j key = some (v, t) → Full v

/-- The two tables of each database fit, and all values are full. -/
def Good (s : Server (Value D)) : Prop := Follows s ∧ AllFull (view s)

variable {m : Keyspace (Value D)}

theorem allFull_put (h : AllFull m) {j : ℕ} {key : Sds} {x : Option (Value D × Option ℤ)} (hx : ∀ v t, x = some (v, t) → Full v) :
    AllFull (put m j key x) := by
  intro j' key' v t hput
  by_cases hkey : j' = j ∧ key' = key
  · obtain ⟨rfl, rfl⟩ := hkey
    rw [Expires.put_self] at hput
    exact hx v t hput
  · rw [Expires.put_ne m x (not_and_or.mp hkey)] at hput
    exact h j' key' v t hput

theorem allFull_looked (h : AllFull m) (config : Expires.Config) (j : ℕ) (key : Sds) : AllFull (looked config m j key) := by
  unfold looked
  split
  · exact allFull_put h nofun
  · exact h

/-! ### Work on a key -/

/-- An error leaves the value as it is, and what is left otherwise is full. -/
structure Fair (f : Work D) (o : Option (Value D)) : Prop where
  failed : ∀ {reply res}, f o = some (reply, res) → reply.isErr = true → ∀ v, res = some v → o = some v
  full : ∀ {reply res}, f o = some (reply, res) → reply.isErr = false → ∀ v, res = some v → Full v

variable {f : Work D} {reply : Reply D} {s s' : Server (Value D)}

/-- **Fair work keeps the invariant**, and where it fails only an expired key is gone. -/
theorem onKey_spec {config : Expires.Config} (h : Good s) {j : ℕ} {key : Sds}
    (hf : ∀ o, (∀ v, o = some v → Full v) → o = (looked config (view s) j key j key).map Prod.fst → Fair f o)
    (hrun : onKey config s j key f = .ok (s', reply)) :
    Good s' ∧ (reply.isErr = true → view s' = looked config (view s) j key) := by
  obtain ⟨hfollows, hfull⟩ := h
  obtain ⟨s1, hlookup, h1, -, hview1⟩ := Expires.lookupKeyWrite_spec config hfollows j key
  have hfull1 : AllFull (view s1) := by
    rw [hview1]
    exact allFull_looked hfull config j key
  rw [onKey, hlookup] at hrun
  dsimp only [Except.mapError, Except.bind] at hrun
  have hfair : Fair f ((view s1 j key).map Prod.fst) := by
    refine hf _ (fun v hv => ?_) (by rw [hview1])
    obtain ⟨⟨v', t⟩, hvt, rfl⟩ := Option.map_eq_some_iff.mp hv
    exact hfull1 j key v' t hvt
  cases hwork : f ((view s1 j key).map Prod.fst) with
  | none =>
    rw [hwork] at hrun
    cases hrun
  | some r =>
    obtain ⟨reply1, res⟩ := r
    rw [hwork] at hrun
    cases res with
    | none =>
      cases hrun
      exact ⟨⟨h1, hfull1⟩, fun _ => hview1⟩
    | some v =>
      -- what is written comes with the time that the key had
      obtain ⟨s2, t, hwrite, h2, hview2, htime⟩ : ∃ s2 t, (if ((view s1 j key).map Prod.fst).isNone then Expires.dbAdd s1 j key v
          else Expires.dbOverwrite s1 j key v) = .ok s2 ∧ Follows s2 ∧ view s2 = put (view s1) j key (some (v, t)) ∧
            t = (view s1 j key).bind Prod.snd := by
        cases hv : view s1 j key with
        | none =>
          obtain ⟨s2, hadd, h2, -, hview2⟩ := Expires.dbAdd_spec h1 hv v
          exact ⟨s2, none, hadd, h2, hview2, rfl⟩
        | some x =>
          obtain ⟨s2, hover, h2, -, hview2⟩ := Expires.dbOverwrite_spec h1 (by rw [hv]; exact Option.some_ne_none x) v
          exact ⟨s2, _, hover, h2, hview2, by rw [hv]⟩
      dsimp only at hrun
      rw [hwrite] at hrun
      cases hrun
      have hleft : reply.isErr = true → view s' = view s1 := by
        intro herr
        obtain ⟨⟨v', t'⟩, hvt, hv'⟩ := Option.map_eq_some_iff.mp (hfair.failed hwork herr v rfl)
        obtain rfl : v' = v := hv'
        rw [hview2]
        refine Expires.put_same ?_
        rw [htime, hvt]
        rfl
      refine ⟨⟨h2, ?_⟩, fun herr => (hleft herr).trans hview1⟩
      cases herr : reply.isErr with
      | true =>
        rw [hleft herr]
        exact hfull1
      | false =>
        rw [hview2]
        refine allFull_put hfull1 fun v' t' hvt => ?_
        cases hvt
        exact hfair.full hwork herr v rfl

/-! ### Hashes -/

theorem isErr_hashReply (r : Hashes.Reply) : (hashReply r : Reply D).isErr = true ↔ ∃ text, r = .err text := by
  cases r with
  | err text => exact ⟨fun _ => ⟨text, rfl⟩, fun _ => rfl⟩
  | int n => exact ⟨nofun, nofun⟩
  | bulk s => exact ⟨nofun, nofun⟩
  | null => exact ⟨nofun, nofun⟩
  | pairs n l => exact ⟨nofun, nofun⟩

variable {o : Option (Value D)}

/-- What a key has is another type's, or has a map. -/
theorem object_good (h : ∀ v, o = some v → Full v) : o.map toObject = some .other ∨ ∃ m, KeyHolds (o.map toObject) m := by
  cases o with
  | none => exact Or.inr ⟨_, rfl⟩
  | some v =>
    cases v with
    | hash x => exact Or.inr (h _ rfl)
    | string s => exact Or.inl rfl
    | set l => exact Or.inl rfl
    | zset l => exact Or.inl rfl
    | list l => exact Or.inl rfl
    | other => exact Or.inl rfl

theorem toObject_hash {v : Value D} {h : Hash} (hv : toObject v = .hash h) : v = .hash h := by
  cases v with
  | hash x =>
    cases hv
    rfl
  | string s => cases hv
  | set l => cases hv
  | zset l => cases hv
  | list l => cases hv
  | other => cases hv

/-- A command on a hash is fair if its errors leave the object, and its hashes have fields. -/
theorem fair_hashWork {f : Option Object → Option (Hashes.Reply × Option Object)}
    (hfailed : ∀ text object, f (o.map toObject) = some (.err text, object) → object = o.map toObject)
    (hfull : ∀ reply h, f (o.map toObject) = some (reply, some (.hash h)) → (∀ text, reply ≠ .err text) → ∃ m, KeyHolds (some (.hash h)) m) :
    Fair (hashWork f) o := by
  have hparts : ∀ {reply : Reply D} {res}, hashWork f o = some (reply, res) → ∃ r object, f (o.map toObject) = some (r, object) ∧ hashReply r = reply ∧
      ∀ v, res = some v → ∃ h, object = some (.hash h) ∧ v = .hash h := by
    intro reply res hwork
    obtain ⟨⟨r, object⟩, hf, hr⟩ := Option.map_eq_some_iff.mp hwork
    cases hr
    refine ⟨r, object, hf, rfl, fun v hv => ?_⟩
    cases object with
    | none => cases hv
    | some x =>
      cases x with
      | hash h =>
        cases hv
        exact ⟨h, rfl, rfl⟩
      | other => cases hv
  constructor
  · intro reply res hwork herr v hv
    obtain ⟨r, object, hf, rfl, hres⟩ := hparts hwork
    obtain ⟨text, rfl⟩ := (isErr_hashReply r).mp herr
    obtain ⟨h, hobject, rfl⟩ := hres v hv
    rw [hfailed text object hf] at hobject
    obtain ⟨v, hov, hh⟩ := Option.map_eq_some_iff.mp hobject
    rw [hov, toObject_hash hh]
  · intro reply res hwork herr v hv
    obtain ⟨r, object, hf, rfl, hres⟩ := hparts hwork
    obtain ⟨h, rfl, rfl⟩ := hres v hv
    refine hfull r h hf fun text hr => ?_
    rw [(isErr_hashReply r).mpr ⟨text, hr⟩] at herr
    cases herr

/-- A hash for an object with a map, and the object itself unless there was none. -/
theorem lookup_cases {object : Option Object} (hgood : object = some .other ∨ ∃ m, KeyHolds object m) :
    Hashes.hashTypeLookupWriteOrCreate object = none ∨ ∃ h m, Hashes.hashTypeLookupWriteOrCreate object = some h ∧ KeyHolds object m ∧
      (object = none ∧ h = Hashes.createHashObject ∨ object = some (.hash h)) := by
  rcases hgood with rfl | ⟨m, hm⟩
  · exact Or.inl rfl
  · cases object with
    | none => exact Or.inr ⟨_, m, rfl, hm, Or.inl ⟨rfl, rfl⟩⟩
    | some x =>
      cases x with
      | hash h => exact Or.inr ⟨h, m, rfl, hm, Or.inr rfl⟩
      | other => exact absurd hm id

theorem fair_hset (env : Env) {argv : List Sds} (hlen : 4 ≤ argv.length) (hf : hsetCommand env argv = .ok f)
    (ho : ∀ v, o = some v → Full v) : Fair f o := by
  rw [hsetCommand] at hf
  split at hf
  · cases hf
  · rename_i hodd
    cases hf
    obtain ⟨field, value, more, hargs⟩ : ∃ field value more, argv.drop 2 = field :: value :: more := by
      match argv, hlen with
      | _ :: _ :: field :: value :: more, _ => exact ⟨field, value, more, rfl⟩
    have hmore : ¬(field :: value :: more).length % 2 = 1 := by
      have hdrop : (argv.drop 2).length = argv.length - 2 := List.length_drop
      rw [hargs] at hdrop
      omega
    have hfair : Fair (hashWork fun object => Hashes.hsetCommand env.hash object (argv.drop 2)) o := by
      rw [hargs]
      refine fair_hashWork (fun text object hrun => ?_) fun reply h hrun _ => ?_
      · rw [Hashes.hsetCommand, if_neg hmore] at hrun
        rcases lookup_cases (object_good ho) with hnone | ⟨h, m, hlookup, hm, -⟩
        · rw [hnone] at hrun
          cases hrun
          rfl
        · obtain ⟨h', hlookup', hholds⟩ := Hashes.lookup_spec hm
          obtain ⟨h1, htry, h1holds⟩ := Hashes.hashTypeTryConversion_spec env.hash hholds (field :: value :: more)
          obtain ⟨h2, hloop, -⟩ := Hashes.hsetLoop_spec env.hash (field :: value :: more) h1holds
          rw [hlookup'] at hrun
          dsimp only at hrun
          rw [htry, some_bind, hloop] at hrun
          cases hrun
      · rcases object_good ho with hother | ⟨m, hm⟩
        · rw [hother, Hashes.hsetCommand, if_neg hmore] at hrun
          cases hrun
        · obtain ⟨reply', key', hrun', hkey', -⟩ := @Hashes.hsetCommand_spec env.hash _ _ hm field value more
          rw [hrun] at hrun'
          cases hrun'
          exact ⟨_, hkey'⟩
    have hreply : ∀ {reply res}, ((hashWork (fun object => Hashes.hsetCommand env.hash object (argv.drop 2)) o).map fun r =>
        (if (r.1.isErr || (arg argv 0).getD 1 0 = 115 || (arg argv 0).getD 1 0 = 83) = true then r.1 else .ok, r.2)) = some (reply, res) →
          ∃ reply1 : Reply D, hashWork (fun object => Hashes.hsetCommand env.hash object (argv.drop 2)) o = some (reply1, res) ∧
            reply1.isErr = reply.isErr := by
      intro reply res hrun
      obtain ⟨⟨reply1, res1⟩, hwork, hr⟩ := Option.map_eq_some_iff.mp hrun
      cases hr
      refine ⟨reply1, hwork, ?_⟩
      split
      · rfl
      · rename_i hno
        rw [Bool.or_eq_true, Bool.or_eq_true, not_or, not_or] at hno
        exact (Bool.eq_false_iff.mpr hno.1.1).trans rfl
    constructor
    · intro reply res hrun herr
      obtain ⟨reply1, hwork, hsame⟩ := hreply hrun
      exact hfair.failed hwork (hsame.trans herr)
    · intro reply res hrun herr
      obtain ⟨reply1, hwork, hsame⟩ := hreply hrun
      exact hfair.full hwork (hsame.trans herr)

theorem fair_hsetnx (config : Hashes.Config) (field value : Sds) (ho : ∀ v, o = some v → Full v) :
    Fair (hashWork fun object => Hashes.hsetnxCommand config object field value) o := by
  refine fair_hashWork (fun text object hrun => ?_) fun reply h hrun _ => ?_
  · rcases lookup_cases (object_good ho) with hnone | ⟨h, m, -, hm, -⟩
    · rw [Hashes.hsetnxCommand, hnone] at hrun
      cases hrun
      rfl
    · obtain ⟨reply', key', hrun', -, hanswer⟩ := @Hashes.hsetnxCommand_spec config _ _ hm field value
      rw [hrun] at hrun'
      cases hrun'
      cases hanswer
  · rcases object_good ho with hother | ⟨m, hm⟩
    · rw [hother, Hashes.hsetnxCommand] at hrun
      cases hrun
    · obtain ⟨reply', key', hrun', hkey', -⟩ := @Hashes.hsetnxCommand_spec config _ _ hm field value
      rw [hrun] at hrun'
      cases hrun'
      exact ⟨_, hkey'⟩

theorem fair_hincrby (config : Hashes.Config) (field : Sds) {operand : Sds} {incr : ℤ} (hincr : string2ll operand = some incr)
    (ho : ∀ v, o = some v → Full v) : Fair (hashWork fun object => Hashes.hincrbyCommand config object field operand) o := by
  obtain ⟨reply', object', hrun', hcases⟩ := Counters.hincrby_cases config (object_good ho) field hincr
  refine fair_hashWork (fun text object hrun => ?_) fun reply h hrun hne => ?_
  · rw [hrun'] at hrun
    cases hrun
    rcases hcases with ⟨m, h, old, -, -, -, hreply, -⟩ | ⟨-, -, hsame, -⟩
    · cases hreply
    · exact hsame
  · rw [hrun'] at hrun
    cases hrun
    rcases hcases with ⟨m, h', old, -, -, -, -, hobject, hkey⟩ | ⟨-, -, -, text, hreply⟩
    · cases hobject
      exact ⟨_, hkey⟩
    · exact absurd hreply (hne text)

/-- The sum of no value and the increment is not finite. -/
def Infinite (fl : Floats D L) (incr : L) : Prop :=
  (fl.isnanL (fl.addL (fl.ofLongLong 0) incr) || fl.isinfL (fl.addL (fl.ofLongLong 0) incr)) = true

theorem fair_hincrbyfloat (fl : Floats D L) (config : Hashes.Config) (field : Sds) {incr : L} (ho : ∀ v, o = some v → Full v)
    (hfinite : ¬(o = none ∧ Infinite fl incr)) : Fair (hashWork (incrementFloat fl config field incr)) o := by
  refine fair_hashWork (fun text object hrun => ?_) fun reply h hrun hne => ?_
  · rw [incrementFloat] at hrun
    rcases lookup_cases (object_good ho) with hnone | ⟨h, m, hlookup, hm, hobject⟩
    · rw [hnone] at hrun
      cases hrun
      rfl
    · rw [hlookup] at hrun
      dsimp only at hrun
      rcases hobject with ⟨hnone, rfl⟩ | hsome
      · have hempty : hashFloat fl (Hashes.hashTypeGetValue Hashes.createHashObject field) = some (fl.ofLongLong 0) := rfl
        have honone : o = none := Option.map_eq_none_iff.mp hnone
        rw [hempty] at hrun
        dsimp only at hrun
        have hfin : ¬(fl.isnanL (fl.addL (fl.ofLongLong 0) incr) || fl.isinfL (fl.addL (fl.ofLongLong 0) incr)) = true :=
          fun hinf => hfinite ⟨honone, hinf⟩
        rw [if_neg hfin] at hrun
        obtain ⟨r, -, hr⟩ := Option.map_eq_some_iff.mp hrun
        cases hr
      · rw [hsome]
        split at hrun
        · cases hrun
          rfl
        · split at hrun
          · cases hrun
            rfl
          · obtain ⟨r, -, hr⟩ := Option.map_eq_some_iff.mp hrun
            cases hr
  · rw [incrementFloat] at hrun
    rcases lookup_cases (object_good ho) with hnone | ⟨h', m, hlookup, hm, -⟩
    · rw [hnone] at hrun
      exact absurd (Prod.mk.inj (Option.some.inj hrun)).1.symm (hne _)
    · obtain ⟨h1, hlookup1, hholds⟩ := Hashes.lookup_spec hm
      rw [hlookup1] at hrun
      dsimp only at hrun
      split at hrun
      · cases hrun
        exact absurd rfl (hne _)
      · split at hrun
        · cases hrun
          exact absurd rfl (hne _)
        · rename_i value _ _
          obtain ⟨h2, hset, h2holds⟩ := Hashes.hashTypeSet_spec config hholds field (fl.ld2string (fl.addL value incr))
          rw [hset] at hrun
          cases hrun
          exact ⟨_, h2holds, Hashes.update_ne_empty m field _⟩

/-! ### Sets -/

theorem mem_saddLoop {x : Sds} : ∀ {eles members : List Sds}, x ∈ members ∨ x ∈ eles → x ∈ (saddLoop members eles).1
  | [], members, h => h.resolve_right List.not_mem_nil
  | ele :: eles, members, h => by
    rw [saddLoop]
    split
    · rename_i hin
      refine mem_saddLoop (h.elim Or.inl fun h => ?_)
      rcases List.mem_cons.mp h with rfl | h
      · exact Or.inl hin
      · exact Or.inr h
    · refine mem_saddLoop (h.elim (fun h => Or.inl (List.mem_append_left _ h)) fun h => ?_)
      rcases List.mem_cons.mp h with rfl | h
      · exact Or.inl (List.mem_append_right _ (List.mem_singleton.mpr rfl))
      · exact Or.inr h

/-- Work that leaves nothing where it fails, and something full otherwise. -/
theorem Fair.of_outcome
    (h : ∀ reply res, f o = some (reply, res) → res = none ∨ reply.isErr = false ∧ ∀ v, res = some v → Full v) : Fair f o := by
  constructor
  · intro reply res hrun herr v hv
    rcases h reply res hrun with rfl | ⟨hno, -⟩
    · cases hv
    · rw [herr] at hno
      cases hno
  · intro reply res hrun _ v hv
    rcases h reply res hrun with rfl | ⟨-, hfull⟩
    · cases hv
    · exact hfull v hv

/-- The one value that is left is full. -/
theorem outcome_full {v : Value D} (hreply : reply.isErr = false) (hv : Full v) :
    some v = none ∨ reply.isErr = false ∧ ∀ v', some v = some v' → Full v' := by
  refine Or.inr ⟨hreply, fun v' hv' => ?_⟩
  cases hv'
  exact hv

theorem fair_sadd {argv : List Sds} (hlen : 3 ≤ argv.length) (hf : saddCommand argv = .ok f) (o : Option (Value D)) : Fair f o := by
  cases hf
  obtain ⟨ele, eles, hargs⟩ : ∃ ele eles, argv.drop 2 = ele :: eles := by
    match argv, hlen with
    | _ :: _ :: ele :: eles, _ => exact ⟨ele, eles, rfl⟩
  have hne : ∀ members : List Sds, (saddLoop members (argv.drop 2)).1 ≠ [] := by
    intro members
    have hmem : ele ∈ (saddLoop members (argv.drop 2)).1 := mem_saddLoop (Or.inr (by rw [hargs]; exact List.mem_cons_self))
    exact List.ne_nil_of_mem hmem
  refine Fair.of_outcome fun reply res hrun => ?_
  split at hrun
  · cases hrun
    exact outcome_full rfl (hne _)
  · cases hrun
    exact outcome_full rfl (hne _)
  · cases hrun
    exact Or.inl rfl

/-! ### Sorted sets -/

theorem wholeNumber_number {F : Type} {p : Parsed F} {isnan : F → Bool} {s : Sds} {x : F} (h : wholeNumber p isnan s = some x) : isnan x = false := by
  unfold wholeNumber at h
  split at h
  · cases h
  · rename_i hno
    cases h
    exact Bool.eq_false_iff.mpr fun hnan => hno (Or.inr (Or.inr (Or.inr (Or.inr hnan))))

/-- The scores are numbers, one for each two arguments. -/
theorem zaddScores_spec (fl : Floats D L) : ∀ {args : List Sds} {pairs : List (D × Sds)}, zaddScores fl args = some pairs →
    (∀ p ∈ pairs, fl.isnan p.1 = false) ∧ pairs.length = args.length / 2
  | [], pairs, h => by
    cases h
    exact ⟨nofun, rfl⟩
  | [x], pairs, h => by
    cases h
    exact ⟨nofun, (Nat.div_eq_of_lt Nat.one_lt_two).symm⟩
  | x :: ele :: args, pairs, h => by
    rw [zaddScores] at h
    obtain ⟨score, hscore, hrest⟩ := Option.bind_eq_some_iff.mp h
    obtain ⟨pairs1, hpairs, rfl⟩ := Option.map_eq_some_iff.mp hrest
    obtain ⟨hnum, hlen⟩ := zaddScores_spec fl hpairs
    constructor
    · intro p hp
      rcases List.mem_cons.mp hp with rfl | hp
      · exact wholeNumber_number hscore
      · exact hnum p hp
    · rw [List.length_cons, hlen, List.length_cons, List.length_cons]
      omega

/-- Without INCR a number is always added. -/
theorem zsetAdd_defined (fl : Floats D L) (flags : ZaddFlags) (scores : List (Sds × D)) {score : D} (ele : Sds) (hnum : fl.isnan score = false)
    (h : flags.incr = false ∨ scores = []) : ∃ r, zsetAdd fl flags scores score ele = some r := by
  rw [zsetAdd, hnum, if_neg Bool.false_ne_true]
  rcases h with hincr | rfl
  · split
    · rw [hincr]
      split
      · exact ⟨_, rfl⟩
      · simp only [Bool.false_and, Bool.false_eq_true, if_false]
        split
        · exact ⟨_, rfl⟩
        · exact ⟨_, rfl⟩
    · split
      · exact ⟨_, rfl⟩
      · exact ⟨_, rfl⟩
  · rw [List.lookup]
    dsimp only
    split
    · exact ⟨_, rfl⟩
    · exact ⟨_, rfl⟩

variable {flags : ZaddFlags}

theorem zsetAdd_ne_nil (fl : Floats D L) {scores : List (Sds × D)} {score : D} {ele : Sds} {r : ZaddResult D}
    (h : zsetAdd fl flags scores score ele = some r) (hne : scores ≠ [] ∨ flags.xx = false) : r.scores ≠ [] := by
  unfold zsetAdd at h
  split at h
  · cases h
  · split at h
    · rename_i curscore hlookup
      have hscores : scores ≠ [] := fun hnil => by
        rw [hnil] at hlookup
        cases hlookup
      split at h
      · cases h
        exact hscores
      · dsimp only at h
        by_cases hnan : (flags.incr && fl.isnan (if flags.incr = true then fl.add score curscore else score)) = true
        · rw [if_pos hnan] at h
          cases h
        · rw [if_neg hnan] at h
          by_cases heq : fl.eq (if flags.incr = true then fl.add score curscore else score) curscore = true
          · rw [if_pos heq] at h
            cases h
            exact hscores
          · rw [if_neg heq] at h
            cases h
            exact fun hnil => hscores (List.map_eq_nil_iff.mp hnil)
    · split at h
      · rename_i hxx
        cases h
        exact hne.resolve_right fun hno => Bool.false_ne_true (hno.symm.trans hxx)
      · cases h
        exact List.append_ne_nil_of_right_ne_nil _ (List.cons_ne_nil _ _)

theorem zaddLoop_ne_nil (fl : Floats D L) : ∀ {pairs : List (D × Sds)} {z : ZaddState D}, z.scores ≠ [] →
    (zaddLoop fl flags pairs z).scores ≠ []
  | [], z, h => h
  | (score, ele) :: pairs, z, h => by
    rw [zaddLoop]
    split
    · exact h
    · rename_i r hadd
      have hr : r.scores ≠ [] := zsetAdd_ne_nil fl hadd (Or.inl h)
      exact zaddLoop_ne_nil fl hr

/-- A sum that is no number comes with a single pair, before anything is added. -/
theorem zaddLoop_nan (fl : Floats D L) : ∀ {pairs : List (D × Sds)} {z : ZaddState D}, z.nan = false →
    (∀ p ∈ pairs, fl.isnan p.1 = false) → (flags.incr = true → pairs.length ≤ 1) → (zaddLoop fl flags pairs z).nan = true →
      (zaddLoop fl flags pairs z).scores = z.scores ∧ z.scores ≠ []
  | [], z, hz, hnum, hincr, hnan => absurd (hz.symm.trans hnan) Bool.false_ne_true
  | (score, ele) :: pairs, z, hz, hnum, hincr, hnan => by
    have hscore : fl.isnan score = false := hnum _ List.mem_cons_self
    rw [zaddLoop] at hnan ⊢
    cases hadd : zsetAdd fl flags z.scores score ele with
    | none =>
      refine ⟨rfl, fun hnil => ?_⟩
      obtain ⟨r, hr⟩ := zsetAdd_defined fl flags _ ele hscore (Or.inr hnil)
      rw [hadd] at hr
      cases hr
    | some r =>
      rw [hadd] at hnan
      dsimp only at hnan
      cases hflag : flags.incr with
      | true =>
        have hnil : pairs = [] := List.length_eq_zero_iff.mp (Nat.le_zero.mp (Nat.le_of_succ_le_succ (hincr hflag)))
        rw [hnil, zaddLoop] at hnan
        cases hnan
      | false =>
        -- all the other scores are numbers, so the loop ends without an error
        have hno : ∀ {pairs : List (D × Sds)} {z : ZaddState D}, z.nan = false → (∀ p ∈ pairs, fl.isnan p.1 = false) →
            (zaddLoop fl flags pairs z).nan = false := by
          intro pairs
          induction pairs with
          | nil => exact fun hz _ => hz
          | cons p pairs ih =>
            intro z hz hnum
            obtain ⟨r, hr⟩ := zsetAdd_defined fl flags z.scores p.2 (hnum p List.mem_cons_self) (Or.inl hflag)
            rw [zaddLoop, hr]
            exact ih rfl fun p hp => hnum p (List.mem_cons_of_mem _ hp)
        rw [hno rfl fun p hp => hnum p (List.mem_cons_of_mem _ hp)] at hnan
        cases hnan

theorem isErr_zaddReply (flags : ZaddFlags) (z : ZaddState D) : (zaddReply flags z).isErr = false := by
  unfold zaddReply
  split
  · split
    · rfl
    · rfl
    · rfl
  · rfl

/-- The loop on a sorted set that is not empty, or on a new one without XX. -/
theorem zaddOn_outcome (fl : Floats D L) {pairs : List (D × Sds)} {scores : List (Sds × D)}
    (hnum : ∀ p ∈ pairs, fl.isnan p.1 = false) (hincr : flags.incr = true → pairs.length ≤ 1) (hpairs : pairs ≠ [])
    (hne : scores ≠ [] ∨ flags.xx = false) {res} (h : zaddOn fl flags pairs scores = (reply, res)) :
    (reply.isErr = true → res = some (.zset scores) ∧ scores ≠ []) ∧ ∀ v, res = some v → Full v := by
  cases h
  constructor
  · intro herr
    split at herr
    · rename_i hnan
      obtain ⟨hscores, hsome⟩ := zaddLoop_nan fl rfl hnum hincr hnan
      exact ⟨by rw [hscores], hsome⟩
    · rw [isErr_zaddReply] at herr
      cases herr
  · intro v hv
    cases hv
    obtain ⟨⟨score, ele⟩, pairs, rfl⟩ := List.exists_cons_of_ne_nil hpairs
    rw [Full, zaddLoop]
    split
    · rename_i hadd
      refine fun hnil => ?_
      obtain ⟨r, hr⟩ := zsetAdd_defined fl flags _ ele (hnum _ List.mem_cons_self) (Or.inr hnil)
      rw [hadd] at hr
      cases hr
    · rename_i r hadd
      exact zaddLoop_ne_nil fl (zsetAdd_ne_nil fl hadd hne)

theorem fair_zadd (fl : Floats D L) (argv : List Sds) (flags : ZaddFlags) (hf : zaddGenericCommand fl argv flags = .ok f)
    (ho : ∀ v, o = some v → Full v) : Fair f o := by
  unfold zaddGenericCommand at hf
  generalize zaddOptions (argv.drop 2) flags = options at hf
  obtain ⟨flags, args⟩ := options
  dsimp only at hf
  split at hf
  · cases hf
  · rename_i hargs
    split at hf
    · cases hf
    · split at hf
      · cases hf
      · rename_i hsingle
        split at hf
        · cases hf
        · rename_i pairs hscores
          cases hf
          obtain ⟨hnum, hlen⟩ := zaddScores_spec fl hscores
          have hincr : flags.incr = true → pairs.length ≤ 1 := by
            intro hincr
            rw [hlen]
            rw [hincr, Bool.true_and, decide_eq_true_eq] at hsingle
            exact Nat.le_of_not_lt hsingle
          have hpairs : pairs ≠ [] := by
            intro hnil
            rw [hnil, List.length_nil] at hlen
            rw [not_or] at hargs
            have hpos : 0 < args.length := List.length_pos_of_ne_nil hargs.2
            omega
          constructor
          · intro reply res hrun herr v hv
            split at hrun
            · split at hrun
              · cases hrun
                cases hv
              · rename_i hxx
                obtain ⟨hsame, -⟩ := zaddOn_outcome fl hnum hincr hpairs (Or.inr (Bool.eq_false_iff.mpr hxx)) (Option.some.inj hrun)
                exact absurd rfl (hsame herr).2
            · rename_i scores
              obtain ⟨hsame, -⟩ := zaddOn_outcome fl hnum hincr hpairs (Or.inl (ho _ rfl)) (Option.some.inj hrun)
              rw [(hsame herr).1] at hv
              exact hv
            · cases hrun
              cases hv
          · intro reply res hrun _
            split at hrun
            · split at hrun
              · cases hrun
                exact nofun
              · rename_i hxx
                exact (zaddOn_outcome fl hnum hincr hpairs (Or.inr (Bool.eq_false_iff.mpr hxx)) (Option.some.inj hrun)).2
            · exact (zaddOn_outcome fl hnum hincr hpairs (Or.inl (ho _ rfl)) (Option.some.inj hrun)).2
            · cases hrun
              exact nofun

/-! ### Strings and lists -/

theorem fair_append (argv : List Sds) (hf : appendCommand argv = .ok f) (o : Option (Value D)) : Fair f o := by
  cases hf
  refine Fair.of_outcome fun reply res hrun => ?_
  split at hrun
  · cases hrun
    exact outcome_full rfl trivial
  · split at hrun
    · cases hrun
      exact Or.inl rfl
    · cases hrun
      exact outcome_full rfl trivial
  · cases hrun
    exact Or.inl rfl

theorem writeRange_string {offset size : ℕ} {value s : Sds} {res} (h : writeRange offset size value s = some (reply, res)) :
    reply.isErr = false ∧ ∀ v, res = some v → Full v := by
  obtain ⟨t, -, ht⟩ := Option.map_eq_some_iff.mp h
  cases ht
  refine ⟨rfl, fun v hv => ?_⟩
  cases hv
  trivial

theorem fair_setrange (argv : List Sds) (hf : setrangeCommand argv = .ok f) (o : Option (Value D)) : Fair f o := by
  rw [setrangeCommand] at hf
  dsimp only at hf
  split at hf
  · cases hf
  · split at hf
    · cases hf
    · cases hf
      refine Fair.of_outcome fun reply res hrun => ?_
      split at hrun
      · split at hrun
        · cases hrun
          exact Or.inl rfl
        · split at hrun
          · cases hrun
            exact Or.inl rfl
          · obtain ⟨s, -, hwrite⟩ := Option.bind_eq_some_iff.mp hrun
            exact Or.inr (writeRange_string hwrite)
      · split at hrun
        · cases hrun
          exact Or.inl rfl
        · split at hrun
          · cases hrun
            exact Or.inl rfl
          · exact Or.inr (writeRange_string hrun)
      · cases hrun
        exact Or.inl rfl

theorem insertAt_ne_nil {after : Bool} {pivot value : Sds} : ∀ {l l' : List Sds}, insertAt after pivot value l = some l' → l' ≠ []
  | [], l', h => by cases h
  | x :: l, l', h => by
    rw [insertAt] at h
    split at h
    · cases h
      split
      · exact List.cons_ne_nil _ _
      · exact List.cons_ne_nil _ _
    · obtain ⟨l1, -, rfl⟩ := Option.map_eq_some_iff.mp h
      exact List.cons_ne_nil _ _

theorem fair_linsert (argv : List Sds) (hf : linsertCommand argv = .ok f) (o : Option (Value D)) : Fair f o := by
  rw [linsertCommand] at hf
  split at hf
  · cases hf
  · cases hf
    refine Fair.of_outcome fun reply res hrun => ?_
    split at hrun
    · cases hrun
      exact Or.inl rfl
    · split at hrun
      · cases hrun
        exact Or.inl rfl
      · rename_i hinsert
        cases hrun
        exact outcome_full rfl (insertAt_ne_nil hinsert)
    · cases hrun
      exact Or.inl rfl

theorem fair_lset (argv : List Sds) (hf : lsetCommand argv = .ok f) (ho : ∀ v, o = some v → Full v) :
    Fair f o := by
  cases hf
  refine Fair.of_outcome fun reply res hrun => ?_
  split at hrun
  · cases hrun
    exact Or.inl rfl
  · rename_i l
    split at hrun
    · cases hrun
      exact Or.inl rfl
    · split at hrun
      · cases hrun
        exact Or.inl rfl
      · cases hrun
        have hne : l ≠ [] := ho _ rfl
        exact outcome_full rfl fun hnil => hne ((List.set_eq_nil_iff _ _).mp hnil)
  · cases hrun
    exact Or.inl rfl

/-! ### Calls -/

structure Call where
  env : Env
  j : ℕ
  name : Name
  argv : List Sds

def Call.key (c : Call) : Sds := arg c.argv 1

def Call.run (fl : Floats D L) (c : Call) (s : Server (Value D)) : Except Failure (Server (Value D) × Reply D) :=
  execute fl c.env s c.j c.name c.argv

/-- Zero and a number make no NaN, and what is infinite only with an infinite number. -/
def ZeroAdds (fl : Floats D L) : Prop :=
  ∀ x, fl.isnanL x = false → fl.isnanL (fl.addL (fl.ofLongLong 0) x) = false ∧ fl.isinfL (fl.addL (fl.ofLongLong 0) x) = fl.isinfL x

/-- HINCRBYFLOAT with an infinite increment on a key that is not there. -/
def Slips (fl : Floats D L) (c : Call) (s : Server (Value D)) : Prop :=
  c.name = .hincrbyfloat ∧ c.argv.length = 4 ∧ looked c.env.config (view s) c.j c.key c.j c.key = none ∧
    ∃ incr, getLongDoubleFromObject fl (arg c.argv 3) = some incr ∧ fl.isinfL incr = true

variable {fl : Floats D L}

theorem infinite_iff (hzero : ZeroAdds fl) {s : Sds} {incr : L} (h : getLongDoubleFromObject fl s = some incr) :
    Infinite fl incr ↔ fl.isinfL incr = true := by
  obtain ⟨hnan, hinf⟩ := hzero incr (wholeNumber_number h)
  rw [Infinite, hnan, hinf, Bool.false_or]

/-- The number of arguments that gets through. -/
def Name.accepts (name : Name) (argc : ℕ) : Prop := ¬((name.arity > 0 ∧ name.arity ≠ argc) ∨ (argc : ℤ) < -name.arity)

theorem fair_command (hzero : ZeroAdds fl) (env : Env) {name : Name} {argv : List Sds} (hargc : name.accepts argv.length)
    (hf : command fl env argv name = .ok f) (ho : ∀ v, o = some v → Full v)
    (hslip : ¬(name = .hincrbyfloat ∧ argv.length = 4 ∧ o = none ∧
      ∃ incr, getLongDoubleFromObject fl (arg argv 3) = some incr ∧ fl.isinfL incr = true)) : Fair f o := by
  rw [Name.accepts, not_or] at hargc
  obtain ⟨hexact, hleast⟩ := hargc
  cases name with
  | hset =>
    have hlen : 4 ≤ argv.length := by
      have hmin : ¬(argv.length : ℤ) < 4 := hleast
      omega
    exact fair_hset env hlen hf ho
  | hsetnx =>
    cases hf
    exact fair_hsetnx _ _ _ ho
  | hincrby =>
    rw [command, hincrbyCommand] at hf
    split at hf
    · cases hf
    · rename_i hincr
      cases hf
      exact fair_hincrby _ _ hincr ho
  | hincrbyfloat =>
    rw [command, hincrbyfloatCommand] at hf
    split at hf
    · cases hf
    · rename_i incr hincr
      cases hf
      refine fair_hincrbyfloat fl _ _ ho fun hinf => ?_
      have hlen : argv.length = 4 := by
        have hexact4 : ¬((4 : ℤ) > 0 ∧ (4 : ℤ) ≠ argv.length) := hexact
        omega
      exact hslip ⟨rfl, hlen, hinf.1, incr, hincr, (infinite_iff hzero hincr).mp hinf.2⟩
  | sadd =>
    have hlen : 3 ≤ argv.length := by
      have hmin : ¬(argv.length : ℤ) < 3 := hleast
      omega
    exact fair_sadd hlen hf o
  | zadd => exact fair_zadd fl argv _ hf ho
  | zincrby => exact fair_zadd fl argv _ hf ho
  | setrange => exact fair_setrange argv hf o
  | append => exact fair_append argv hf o
  | linsert => exact fair_linsert argv hf o
  | lset => exact fair_lset argv hf ho

/-- **A call that does not slip keeps the invariant**, and where it fails only an expired key is gone. -/
theorem step_good (hzero : ZeroAdds fl) (h : Good s) {c : Call} (hslip : ¬Slips fl c s)
    (hrun : c.run fl s = .ok (s', reply)) :
    Good s' ∧ (reply.isErr = true → view s' = view s ∨ view s' = looked c.env.config (view s) c.j c.key) := by
  rw [Call.run, execute] at hrun
  split at hrun
  · cases hrun
    exact ⟨h, fun _ => Or.inl rfl⟩
  · rename_i hargc
    split at hrun
    · cases hrun
      exact ⟨h, fun _ => Or.inl rfl⟩
    · rename_i f hf
      have hfair : ∀ o, (∀ v, o = some v → Full v) → o = (looked c.env.config (view s) c.j c.key c.j c.key).map Prod.fst → Fair f o := by
        intro o ho hlooked
        refine fair_command hzero c.env hargc hf ho fun hbad => hslip ?_
        obtain ⟨hname, hlen, hnone, hincr⟩ := hbad
        rw [hlooked] at hnone
        exact ⟨hname, hlen, Option.map_eq_none_iff.mp hnone, hincr⟩
      obtain ⟨h', hleft⟩ := onKey_spec h hfair hrun
      exact ⟨h', fun herr => Or.inr (hleft herr)⟩

/-- **The exception leaves an empty hash**, and replies an error. -/
theorem slips_leave_empty (hzero : ZeroAdds fl) {s : Server (Value D)} (h : Good s) {c : Call} (hslip : Slips fl c s) :
    ∃ s' reply, c.run fl s = .ok (s', reply) ∧ reply.isErr = true ∧
      view s' = put (looked c.env.config (view s) c.j c.key) c.j c.key (some (.hash Hashes.createHashObject, none)) := by
  obtain ⟨hname, hlen, hnone, incr, hincr, hinf⟩ := hslip
  obtain ⟨s1, hlookup, h1, -, hview1⟩ := Expires.lookupKeyWrite_spec c.env.config h.1 c.j c.key
  have hnone1 : view s1 c.j c.key = none := by rw [hview1, hnone]
  obtain ⟨s2, hadd, -, -, hview2⟩ := Expires.dbAdd_spec h1 hnone1 (.hash Hashes.createHashObject)
  have hwork : hashWork (incrementFloat fl c.env.hash (arg c.argv 2) incr) (none : Option (Value D)) =
      some (hashReply (.err "increment would produce NaN or Infinity"), some (.hash Hashes.createHashObject)) := by
    have hempty : hashFloat fl (Hashes.hashTypeGetValue Hashes.createHashObject (arg c.argv 2)) = some (fl.ofLongLong 0) := rfl
    have hlookup0 : Hashes.hashTypeLookupWriteOrCreate (none : Option Object) = some Hashes.createHashObject := rfl
    have hinfinite : (fl.isnanL (fl.addL (fl.ofLongLong 0) incr) || fl.isinfL (fl.addL (fl.ofLongLong 0) incr)) = true :=
      (infinite_iff hzero hincr).mpr hinf
    rw [hashWork, Option.map_none, incrementFloat, hlookup0]
    dsimp only
    rw [hempty]
    dsimp only
    rw [if_pos hinfinite]
    rfl
  refine ⟨s2, hashReply (.err "increment would produce NaN or Infinity"), ?_, (isErr_hashReply _).mpr ⟨_, rfl⟩, by rw [hview2, hview1]⟩
  have hargc : ¬((Name.hincrbyfloat.arity > 0 ∧ Name.hincrbyfloat.arity ≠ c.argv.length) ∨ (c.argv.length : ℤ) < -Name.hincrbyfloat.arity) := by
    rw [hlen]
    decide
  rw [Call.run, execute, hname, if_neg hargc, command, hincrbyfloatCommand, hincr]
  dsimp only
  rw [onKey, show arg c.argv 1 = c.key from rfl, hlookup, hnone1]
  dsimp only [Except.mapError, Except.bind, Option.map]
  rw [hwork]
  dsimp only [Option.isNone]
  rw [if_pos rfl, hadd]
  rfl

/-! ### What a client sees -/

/-- A key that has expired is not there, on a master. -/
def visible (config : Expires.Config) (m : Keyspace (Value D)) : Keyspace (Value D) := fun j key =>
  if isExpired config (m j key) && !config.slave then none else m j key

theorem visible_looked (config : Expires.Config) (m : Keyspace (Value D)) (j : ℕ) (key : Sds) : visible config (looked config m j key) = visible config m := by
  funext j' key'
  by_cases hkey : j' ≠ j ∨ key' ≠ key
  · rw [visible, Expires.looked_ne config m hkey, visible]
  · rw [not_or, not_not, not_not] at hkey
    obtain ⟨rfl, rfl⟩ := hkey
    unfold looked visible
    split
    · rw [Expires.put_self]
      split
      · rfl
      · rfl
    · rename_i hlive
      rfl

theorem visible_of_looked {config : Expires.Config} {j : ℕ} {key : Sds} (h : looked config m j key j key = none) :
    visible config m j key = none := by
  rw [visible]
  split
  · rfl
  · rename_i hlive
    rwa [looked, if_neg hlive] at h

/-- No hash, set, sorted set or list under a key is empty. -/
def NoneEmpty (m : Keyspace (Value D)) : Prop := ∀ j key v t, m j key = some (v, t) → v.isEmpty = false

theorem AllFull.none_empty (h : AllFull m) : NoneEmpty m := fun j key v t hv => (h j key v t hv).not_empty

/-- The keyspace is exactly as before, save for the key of the call if that had expired. -/
structure Traceless (c : Call) (s s' : Server (Value D)) : Prop where
  visible : visible c.env.config (view s') = visible c.env.config (view s)
  exact : isExpired c.env.config (view s c.j c.key) = false → view s' = view s

theorem traceless_of_left {c : Call} (h : view s' = view s ∨ view s' = looked c.env.config (view s) c.j c.key) :
    Traceless c s s' := by
  rcases h with hsame | hlooked
  · exact ⟨by rw [hsame], fun _ => hsame⟩
  · exact ⟨by rw [hlooked, visible_looked], fun hlive => by rw [hlooked, Expires.looked_live hlive]⟩

theorem not_traceless {c : Call} (hslip : Slips fl c s)
    (hview : view s' = put (looked c.env.config (view s) c.j c.key) c.j c.key (some (.hash Hashes.createHashObject, none))) : ¬Traceless c s s' := by
  intro hsame
  have hkey : visible c.env.config (view s') c.j c.key = some (.hash Hashes.createHashObject, none) := by
    rw [visible, hview, Expires.put_self]
    rfl
  rw [hsame.visible, visible_of_looked hslip.2.2.1] at hkey
  cases hkey

/-- **A write that fails leaves no trace**, in any run, unless it is HINCRBYFLOAT with an infinite increment on a key that is not there. -/
theorem failing_writes_leave_no_trace {fl : Floats D L} (hzero : ZeroAdds fl) {s : Server (Value D)}
    (h : Run Good (fun s (c : Call) s' => ¬Slips fl c s ∧ ∃ reply, c.run fl s = .ok (s', reply)) s) :
    NoneEmpty (view s) ∧ ∀ (c : Call) (s' : Server (Value D)) (reply : Reply D), c.run fl s = .ok (s', reply) →
      (NoneEmpty (view s') ↔ ¬Slips fl c s) ∧ (reply.isErr = true → (Traceless c s s' ↔ ¬Slips fl c s)) := by
  have hgood : Good s := h.invariant (fun _ h => h) fun s c s' _ hs ⟨hslip, reply, hrun⟩ => (step_good hzero hs hslip hrun).1
  refine ⟨hgood.2.none_empty, fun c s' reply hrun => ?_⟩
  by_cases hslip : Slips fl c s
  · obtain ⟨s1, reply1, hrun1, -, hview⟩ := slips_leave_empty hzero hgood hslip
    rw [hrun] at hrun1
    cases hrun1
    constructor
    · refine iff_of_false (fun hnone => ?_) (not_not.mpr hslip)
      have hempty : (Value.hash Hashes.createHashObject : Value D).isEmpty = false := by
        refine hnone c.j c.key _ none ?_
        rw [hview, Expires.put_self]
      cases hempty
    · exact fun _ => iff_of_false (not_traceless hslip hview) (not_not.mpr hslip)
  · obtain ⟨hgood', hleft⟩ := step_good hzero hgood hslip hrun
    exact ⟨iff_of_true hgood'.2.none_empty hslip, fun herr => iff_of_true (traceless_of_left (hleft herr)) hslip⟩

/-- Integers, and an infinite number. -/
def integers : Floats ℤ (Option ℤ) where
  strtod s := match string2ll s with
    | some n => ⟨n, s.length, false, false⟩
    | none => ⟨0, 0, false, true⟩
  isnan _ := false
  add := (· + ·)
  eq a b := decide (a = b)
  strtold s := if s = sds "inf" then ⟨none, 3, false, false⟩
    else match string2ll s with
      | some n => ⟨some n, s.length, false, false⟩
      | none => ⟨some 0, 0, false, true⟩
  isnanL _ := false
  isinfL := Option.isNone
  addL a b := a.bind fun a => b.map fun b => a + b
  ofLongLong := some
  ld2string a := (a.map Streams.ll2string).getD (sds "inf")

theorem zeroAdds_integers : ZeroAdds integers := by
  intro x _
  refine ⟨rfl, ?_⟩
  cases x with
  | none => rfl
  | some n => rfl

/-- A server as it starts. -/
def empty : Server (Value ℤ) := ⟨16, fun _ => ⟨[], []⟩, fun _ => false, 0⟩

theorem good_empty : Good empty := by
  refine ⟨⟨fun hk => (nomatch hk), fun _ => rfl, fun hk => (nomatch hk), fun _ => List.nodup_nil, fun _ => List.nodup_nil, fun he => (nomatch he)⟩, ?_⟩
  intro j key v t hv
  cases hv

def env : Env := ⟨Expires.master, ⟨512, 64⟩⟩

def firstCall : Call := ⟨env, 0, .sadd, [sds "sadd", [107], [97]]⟩

/-- A server after SADD of a member to a new key. -/
theorem failing_writes_leave_no_trace_sadd :
    ∃ s', firstCall.run integers empty = .ok (s', .int 1) ∧ NoneEmpty (view s') ∧
      ∀ (c : Call) (s'' : Server (Value ℤ)) (reply : Reply ℤ), c.run integers s' = .ok (s'', reply) →
        (NoneEmpty (view s'') ↔ ¬Slips integers c s') ∧ (reply.isErr = true → (Traceless c s' s'' ↔ ¬Slips integers c s')) := by
  have hslip : ¬Slips integers firstCall empty := by
    intro hslip
    cases hslip.1
  exact ⟨_, rfl, failing_writes_leave_no_trace zeroAdds_integers (.step (e := firstCall) (.start good_empty) ⟨hslip, .int 1, rfl⟩)⟩

/-- The reply is an error, and the key holds an empty hash. -/
theorem hincrbyfloat_infinite :
    ∃ s' reply, Call.run integers ⟨env, 0, .hincrbyfloat, [sds "hincrbyfloat", [107], [102], sds "inf"]⟩ empty = .ok (s', reply) ∧
      reply.isErr = true ∧ view empty 0 [107] = none ∧ view s' 0 [107] = some (.hash Hashes.createHashObject, none) ∧
      ¬NoneEmpty (view s') ∧ ¬Traceless ⟨env, 0, .hincrbyfloat, [sds "hincrbyfloat", [107], [102], sds "inf"]⟩ empty s' := by
  have hslip : Slips integers ⟨env, 0, .hincrbyfloat, [sds "hincrbyfloat", [107], [102], sds "inf"]⟩ empty :=
    ⟨rfl, rfl, rfl, none, by decide, rfl⟩
  obtain ⟨s', reply, hrun, herr, hview⟩ := slips_leave_empty zeroAdds_integers good_empty hslip
  have hkey : view s' 0 [107] = some (.hash Hashes.createHashObject, none) := by
    rw [hview]
    exact Expires.put_self _ _ _ _
  refine ⟨s', reply, hrun, herr, rfl, hkey, fun hnone => ?_, not_traceless hslip hview⟩
  cases hnone 0 [107] _ _ hkey

end RedisZk.Writes
