/-
# The objects of a keyspace

Every key refers to an object, and small integers are objects that many keys may refer to.
An object is freed with its last reference. What is here is the part of it that commands on
counters use: strings as text or as an integer, hashes, and a type parameter for the rest.

Key definitions: `Keyspace`, `Keyspace.Valid`, `createStringObjectFromLongLongForValue`, `dbAdd`,
`dbOverwrite`, `lookupKeyWrite`.
Key theorems: `dbAdd_spec`, `dbOverwrite_spec`, `setPtr_spec`, `expireIfNeeded_spec`.
-/
import RedisZk.Lib.Counted
import RedisZk.Hashes.Commands

namespace RedisZk.Counters

open Streams (Sds ll2string IsInt64)
open Hashes (Hash KeyHolds)

def OBJ_SHARED_INTEGERS : ℕ := 10000

def OBJ_SHARED_REFCOUNT : ℕ := 2 ^ 31 - 1

/-- `shared.integers`, and the addresses that were given out. -/
inductive Addr
  | sharedInteger (i : ℕ)
  | obj (n : ℕ)
  deriving DecidableEq

/-- The types and encodings of an object. -/
inductive Val (σ : Type)
  /-- `OBJ_ENCODING_RAW` and `OBJ_ENCODING_EMBSTR`. -/
  | sds (s : Sds)
  /-- `OBJ_ENCODING_INT`. -/
  | int (v : ℤ)
  | hash (o : Hash)
  | other (x : σ)

abbrev Robj (σ : Type) := Counted (Val σ)

/-- The number of a database, and a key of it. -/
abbrev Key := ℕ × Sds

/-- All databases, and the next address to be given out. -/
structure Keyspace (σ : Type) where
  store : Store Addr Key (Val σ)
  expires : Key → Option ℤ
  next : ℕ

/-- What the server keeps of all objects: the counts are right, the shared integers have their
values, hashes are not empty and not under two keys. -/
structure Keyspace.Valid {σ : Type} (ks : Keyspace σ) : Prop where
  sound : ks.store.Sound OBJ_SHARED_REFCOUNT
  shared : ∀ i < OBJ_SHARED_INTEGERS, ks.store.heap (.sharedInteger i) = some ⟨.int i, OBJ_SHARED_REFCOUNT⟩
  fresh : ∀ n, ks.next ≤ n → ks.store.heap (.obj n) = none
  longs : ∀ {a o v}, ks.store.heap a = some o → o.val = .int v → IsInt64 v
  hashes : ∀ {a o h}, ks.store.heap a = some o → o.val = .hash h → ∃ m, KeyHolds (some (.hash h)) m
  alone : ∀ {a o h k k'}, ks.store.heap a = some o → o.val = .hash h → ks.store.dict k = some a → ks.store.dict k' = some a → k' = k
  expires_in : ∀ {k}, (ks.expires k).isSome = true → (ks.store.dict k).isSome = true

variable {σ : Type}

/-- A keyspace without keys. -/
def emptyKeyspace : Keyspace σ where
  store :=
    { heap := fun a => match a with
        | .sharedInteger i => if i < OBJ_SHARED_INTEGERS then some ⟨.int i, OBJ_SHARED_REFCOUNT⟩ else none
        | .obj _ => none
      dict := fun _ => none }
  expires := fun _ => none
  next := 0

/-! ### Functions on objects -/

/-- What decides on a lookup and on a new integer. -/
structure Server where
  maxmemory : ℕ
  /-- The flag of the same name in `maxmemory_policy`. -/
  maxmemoryFlagNoSharedIntegers : Bool
  loading : Bool
  /-- Whether there is a `masterhost`. -/
  slave : Bool
  mstime : ℤ

def decrRefCount (ks : Keyspace σ) (a : Addr) : Keyspace σ := { ks with store := ks.store.release OBJ_SHARED_REFCOUNT a }

def createObject (ks : Keyspace σ) (val : Val σ) : Keyspace σ × Addr :=
  ({ ks with store := ks.store.alloc (.obj ks.next) val, next := ks.next + 1 }, .obj ks.next)

/-- The count of a shared integer stays as it is. -/
def createStringObjectFromLongLongWithOptions (server : Server) (ks : Keyspace σ) (value : ℤ) (valueobj : Bool) : Keyspace σ × Addr :=
  let valueobj := if server.maxmemory = 0 || !server.maxmemoryFlagNoSharedIntegers then false else valueobj
  if 0 ≤ value ∧ value < OBJ_SHARED_INTEGERS ∧ valueobj = false then (ks, .sharedInteger value.toNat)
  else if Util.LLONG_MIN ≤ value ∧ value ≤ Util.LLONG_MAX then createObject ks (.int value)
  else createObject ks (.sds (ll2string value))

def createStringObjectFromLongLongForValue (server : Server) (ks : Keyspace σ) (value : ℤ) : Keyspace σ × Addr :=
  createStringObjectFromLongLongWithOptions server ks value true

def lookupKey (ks : Keyspace σ) (key : Key) : Option (Addr × Robj σ) := do
  let a ← ks.store.dict key
  let o ← ks.store.heap a
  some (a, o)

/-- None for the assertion that there is no such key. -/
def dbAdd (ks : Keyspace σ) (key : Key) (val : Addr) : Option (Keyspace σ) :=
  if (ks.store.dict key).isSome then none else some { ks with store := ks.store.point key (some val) }

/-- None for the assertion that there is such a key. -/
def dbOverwrite (ks : Keyspace σ) (key : Key) (val : Addr) : Option (Keyspace σ) :=
  match ks.store.dict key with
  | none => none
  | some old => some (decrRefCount { ks with store := ks.store.point key (some val) } old)

def dbDelete (ks : Keyspace σ) (key : Key) : Keyspace σ :=
  match ks.store.dict key with
  | none => ks
  | some old => decrRefCount { ks with store := ks.store.point key none, expires := Function.update ks.expires key none } old

def keyIsExpired (server : Server) (ks : Keyspace σ) (key : Key) : Bool :=
  match ks.expires key with
  | none => false
  | some when => !decide (when < 0) && !server.loading && decide (when < server.mstime)

def expireIfNeeded (server : Server) (ks : Keyspace σ) (key : Key) : Keyspace σ :=
  if keyIsExpired server ks key && !server.slave then dbDelete ks key else ks

/-- The value of an object that is written in place. -/
def setPtr (ks : Keyspace σ) (a : Addr) (val : Val σ) : Keyspace σ := { ks with store := ks.store.assign a val }

/-! ### What they do -/

variable {ks : Keyspace σ} {key : Key} {a : Addr} {o : Robj σ} {server : Server}

theorem fixed_ne_one : OBJ_SHARED_REFCOUNT ≠ 1 := by decide

theorem valid_empty : (emptyKeyspace : Keyspace σ).Valid where
  sound := ⟨fun h => (nomatch h), fun _ _ ks hks => by
    have hempty : ks = ∅ := Finset.eq_empty_of_forall_notMem fun k hk => (nomatch hks k hk)
    rw [hempty, Finset.card_empty]
    exact Nat.zero_le _⟩
  shared := fun i hi => if_pos hi
  fresh := fun _ _ => rfl
  longs := by
    intro a o v ha hv
    cases a with
    | obj n => cases ha
    | sharedInteger i =>
      dsimp only [emptyKeyspace] at ha
      split at ha
      · rename_i hi
        cases ha
        cases hv
        unfold OBJ_SHARED_INTEGERS at hi
        exact ⟨by omega, by omega⟩
      · cases ha
  hashes := by
    intro a o h ha hv
    cases a with
    | obj n => cases ha
    | sharedInteger i =>
      dsimp only [emptyKeyspace] at ha
      split at ha
      · cases ha
        cases hv
      · cases ha
  alone := fun _ _ h => nomatch h
  expires_in := fun h => nomatch h

/-- The other keys are as they were. -/
structure Others (ks ks' : Keyspace σ) (key : Key) : Prop where
  value : ∀ key', key' ≠ key → ks'.store.value key' = ks.store.value key'
  expires : ∀ key', key' ≠ key → ks'.expires key' = ks.expires key'

theorem Others.refl (ks : Keyspace σ) (key : Key) : Others ks ks key := ⟨fun _ _ => rfl, fun _ _ => rfl⟩

theorem Others.trans {ks1 ks2 : Keyspace σ} (h : Others ks ks1 key) (h' : Others ks1 ks2 key) : Others ks ks2 key :=
  ⟨fun k hk => (h'.value k hk).trans (h.value k hk), fun k hk => (h'.expires k hk).trans (h.expires k hk)⟩

/-- A release of a spare reference changes nothing that a key has. -/
theorem decrRefCount_spec (h : ks.Valid) (hspare : ks.store.Spare OBJ_SHARED_REFCOUNT a) :
    (decrRefCount ks a).Valid ∧ ∀ k, (decrRefCount ks a).store.value k = ks.store.value k := by
  refine ⟨?_, fun k => Store.value_release h.sound fixed_ne_one hspare⟩
  constructor
  · exact Store.sound_release h.sound fixed_ne_one hspare
  · exact fun i hi => Store.heap_release_fixed fixed_ne_one (h.shared i hi) rfl
  · intro n hn
    cases hb : (decrRefCount ks a).store.heap (.obj n) with
    | none => rfl
    | some o =>
      obtain ⟨o', ho', -⟩ := Store.heap_release _ hb
      rw [h.fresh n hn] at ho'
      cases ho'
  · intro b o v hb hv
    obtain ⟨o', ho', hval⟩ := Store.heap_release _ hb
    exact h.longs ho' (hval.trans hv)
  · intro b o hash hb hv
    obtain ⟨o', ho', hval⟩ := Store.heap_release _ hb
    exact h.hashes ho' (hval.trans hv)
  · intro b o hash k k' hb hv hk hk'
    obtain ⟨o', ho', hval⟩ := Store.heap_release _ hb
    rw [decrRefCount, Store.dict_release] at hk hk'
    exact h.alone ho' (hval.trans hv) hk hk'
  · intro k hk
    rw [decrRefCount, Store.dict_release]
    exact h.expires_in hk

/-- What a key may be made to refer to: an object that is ready, and a hash only if it is no other key's. -/
def MayHold (ks : Keyspace σ) (val : Addr) (v : Val σ) : Prop :=
  ks.store.Ready OBJ_SHARED_REFCOUNT val ∧ (∃ o, ks.store.heap val = some o ∧ o.val = v) ∧
    ∀ hash, v = .hash hash → ∀ k, ks.store.dict k ≠ some val

variable {v : Val σ}

theorem valid_point (h : ks.Valid) (key : Key) (hval : MayHold ks a v) : Keyspace.Valid { ks with store := ks.store.point key (some a) } := by
  obtain ⟨hready, ⟨o, ho, hv⟩, hhash⟩ := hval
  constructor
  · refine Store.sound_point h.sound fun b hb => ?_
    cases hb
    exact hready
  · exact h.shared
  · exact h.fresh
  · exact h.longs
  · exact h.hashes
  · intro b o' hash k k' hb hv' hk hk'
    by_cases hba : b = a
    · subst hba
      obtain rfl : o = o' := Option.some.inj (ho.symm.trans hb)
      have hnone := hhash hash (hv.symm.trans hv')
      have honly : ∀ {x}, (ks.store.point key (some b)).dict x = some b → x = key := by
        intro x hx
        by_contra hne
        rw [Store.dict_point_ne _ _ hne] at hx
        exact hnone x hx
      rw [honly hk, honly hk']
    · have hne : some a ≠ some b := fun heq => hba (Option.some.inj heq).symm
      exact h.alone hb hv' (Store.dict_of_point hne hk).2 (Store.dict_of_point hne hk').2
  · intro k hk
    by_cases hkey : k = key
    · subst hkey
      rw [show (ks.store.point k (some a)).dict k = some a from Store.dict_point_self _ _ _]
      rfl
    · rw [show (ks.store.point key (some a)).dict k = ks.store.dict k from Store.dict_point_ne _ _ hkey]
      exact h.expires_in hk

theorem value_point_self (hval : MayHold ks a v) : (ks.store.point key (some a)).value key = some v := by
  obtain ⟨-, ⟨o, ho, rfl⟩, -⟩ := hval
  exact Store.value_of (Store.dict_point_self _ _ _) ho

/-- **A new key has the value**, and no other key changes. -/
theorem dbAdd_spec (h : ks.Valid) (hkey : ks.store.dict key = none) (hval : MayHold ks a v) :
    ∃ ks', dbAdd ks key a = some ks' ∧ ks'.Valid ∧ ks'.store.dict key = some a ∧ ks'.store.value key = some v ∧
      Others ks ks' key ∧ ks'.expires = ks.expires := by
  refine ⟨{ ks with store := ks.store.point key (some a) }, ?_, valid_point h key hval, Store.dict_point_self _ _ _, value_point_self hval,
    ⟨fun k hk => Store.value_point_ne _ _ hk, fun _ _ => rfl⟩, rfl⟩
  rw [dbAdd, hkey]
  rfl

/-- **The key has the new value and its time**, and no other key changes, although the old object
may be freed. -/
theorem dbOverwrite_spec {old : Addr} (h : ks.Valid) (hkey : ks.store.dict key = some old) (hval : MayHold ks a v) :
    ∃ ks', dbOverwrite ks key a = some ks' ∧ ks'.Valid ∧ ks'.store.dict key = some a ∧ ks'.store.value key = some v ∧
      Others ks ks' key ∧ ks'.expires = ks.expires := by
  have hspare : (ks.store.point key (some a)).Spare OBJ_SHARED_REFCOUNT old := by
    by_cases hold : old = a
    · subst hold
      obtain ⟨⟨o, ho, hcount⟩, -⟩ := hval
      rcases hcount with hcount | ⟨-, hnone⟩
      · exact Store.spare_of_fixed (s := ks.store.point key (some old)) ho hcount
      · exact absurd hkey (hnone key)
    · exact Store.spare_point h.sound hkey fun heq => hold (Option.some.inj heq).symm
  obtain ⟨hvalid, hvalue⟩ := decrRefCount_spec (valid_point h key hval) hspare
  refine ⟨_, ?_, hvalid, ?_, (hvalue key).trans (value_point_self hval), ⟨fun k hk => ?_, fun _ _ => rfl⟩, rfl⟩
  · rw [dbOverwrite, hkey]
  · rw [decrRefCount, Store.dict_release]
    exact Store.dict_point_self _ _ _
  · exact (hvalue k).trans (Store.value_point_ne _ _ hk)

theorem dbDelete_spec (h : ks.Valid) (key : Key) :
    (dbDelete ks key).Valid ∧ (dbDelete ks key).store.dict key = none ∧ (dbDelete ks key).expires key = none ∧
      Others ks (dbDelete ks key) key := by
  unfold dbDelete
  split
  · rename_i hkey
    refine ⟨h, hkey, ?_, Others.refl ks key⟩
    cases hexp : ks.expires key with
    | none => rfl
    | some t =>
      have hin := h.expires_in (k := key) (by rw [hexp]; rfl)
      rw [hkey] at hin
      cases hin
  · rename_i old hkey
    have hnone : ∀ b : Addr, (none : Option Addr) ≠ some b := fun _ => nofun
    have hvalid : Keyspace.Valid { ks with store := ks.store.point key none, expires := Function.update ks.expires key none } := by
      constructor
      · exact Store.sound_point h.sound fun _ hb => nomatch hb
      · exact h.shared
      · exact h.fresh
      · exact h.longs
      · exact h.hashes
      · exact fun hb hv hk hk' => h.alone hb hv (Store.dict_of_point (hnone _) hk).2 (Store.dict_of_point (hnone _) hk').2
      · intro k hk
        by_cases hne : k = key
        · subst hne
          dsimp only at hk
          rw [Function.update_self] at hk
          cases hk
        · dsimp only at hk
          rw [Function.update_of_ne hne] at hk
          rw [show (ks.store.point key none).dict k = ks.store.dict k from Store.dict_point_ne _ _ hne]
          exact h.expires_in hk
    obtain ⟨hvalid', hvalue⟩ := decrRefCount_spec hvalid (Store.spare_point h.sound hkey (hnone old))
    refine ⟨hvalid', ?_, Function.update_self _ _ _, ⟨fun k hk => ?_, fun k hk => Function.update_of_ne hk _ _⟩⟩
    · rw [decrRefCount, Store.dict_release]
      exact Store.dict_point_self _ _ _
    · exact (hvalue k).trans (Store.value_point_ne _ _ hk)

/-- A key that has expired on a master is gone. -/
theorem expireIfNeeded_spec (server : Server) (h : ks.Valid) (key : Key) :
    (expireIfNeeded server ks key).Valid ∧ Others ks (expireIfNeeded server ks key) key ∧
      (expireIfNeeded server ks key = ks ∨
        (expireIfNeeded server ks key).store.dict key = none ∧ (expireIfNeeded server ks key).expires key = none) := by
  unfold expireIfNeeded
  split
  · obtain ⟨hvalid, hdict, hexpires, hothers⟩ := dbDelete_spec h key
    exact ⟨hvalid, hothers, Or.inr ⟨hdict, hexpires⟩⟩
  · exact ⟨h, Others.refl ks key, Or.inl rfl⟩

/-! ### New objects, and objects written in place -/

/-- What an object may be, apart from its keys. -/
def Proper (v : Val σ) : Prop := (∀ n, v = .int n → IsInt64 n) ∧ ∀ hash, v = .hash hash → ∃ m, KeyHolds (some (.hash hash)) m

/-- The object is new, so it may be given to a key. -/
theorem createObject_spec (h : ks.Valid) (hv : Proper v) :
    (createObject ks v).1.Valid ∧ MayHold (createObject ks v).1 (createObject ks v).2 v ∧
      (∀ k, (createObject ks v).1.store.value k = ks.store.value k) ∧ (createObject ks v).1.store.dict = ks.store.dict ∧
      (createObject ks v).1.expires = ks.expires := by
  have hfree := h.fresh ks.next (le_refl _)
  have hold : ∀ {b o}, b ≠ .obj ks.next → (createObject ks v).1.store.heap b = some o → ks.store.heap b = some o := by
    intro b o hne hb
    rw [createObject, Store.heap_alloc_ne _ _ hne] at hb
    exact hb
  have hnew : ∀ {o}, (createObject ks v).1.store.heap (.obj ks.next) = some o → o.val = v := by
    intro o ho
    rw [createObject, Store.heap_alloc_self] at ho
    cases ho
    rfl
  have hnone := Store.dict_ne_of_free h.sound hfree
  refine ⟨?_, ⟨Store.ready_alloc h.sound hfree v, ⟨_, Store.heap_alloc_self _ _ _, rfl⟩, fun _ _ => hnone⟩,
    Store.value_alloc h.sound hfree v, rfl, rfl⟩
  constructor
  · exact Store.sound_alloc h.sound hfree v
  · intro i hi
    have hne : Addr.sharedInteger i ≠ .obj ks.next := nofun
    exact (Store.heap_alloc_ne ks.store v hne).trans (h.shared i hi)
  · intro n hn
    have hne : n ≠ ks.next := by
      rintro rfl
      exact absurd hn (Nat.not_succ_le_self _)
    have haddr : Addr.obj n ≠ .obj ks.next := fun heq => hne (Addr.obj.inj heq)
    exact (Store.heap_alloc_ne ks.store v haddr).trans (h.fresh n (Nat.le_of_succ_le hn))
  · intro b o n hb hn
    by_cases hba : b = .obj ks.next
    · subst hba
      exact hv.1 n ((hnew hb).symm.trans hn)
    · exact h.longs (hold hba hb) hn
  · intro b o hash hb hn
    by_cases hba : b = .obj ks.next
    · subst hba
      exact hv.2 hash ((hnew hb).symm.trans hn)
    · exact h.hashes (hold hba hb) hn
  · intro b o hash k k' hb hn hk hk'
    by_cases hba : b = .obj ks.next
    · subst hba
      exact absurd hk (hnone k)
    · exact h.alone (hold hba hb) hn hk hk'
  · exact h.expires_in

/-- The object for an integer may be given to a key, shared or not. -/
theorem createStringObject_spec (server : Server) (h : ks.Valid) {n : ℤ} (hn : IsInt64 n) (valueobj : Bool) :
    ∃ ks1 a, createStringObjectFromLongLongWithOptions server ks n valueobj = (ks1, a) ∧ ks1.Valid ∧ MayHold ks1 a (.int n) ∧
      (∀ k, ks1.store.value k = ks.store.value k) ∧ ks1.store.dict = ks.store.dict ∧ ks1.expires = ks.expires := by
  unfold createStringObjectFromLongLongWithOptions
  dsimp only
  generalize (if server.maxmemory = 0 || !server.maxmemoryFlagNoSharedIntegers then false else valueobj) = valueobj
  by_cases hshared : 0 ≤ n ∧ n < OBJ_SHARED_INTEGERS ∧ valueobj = false
  · rw [if_pos hshared]
    have hobj := h.shared n.toNat (by omega)
    rw [Int.toNat_of_nonneg hshared.1] at hobj
    exact ⟨ks, _, rfl, h, ⟨⟨_, hobj, Or.inl rfl⟩, ⟨_, hobj, rfl⟩, nofun⟩, fun _ => rfl, rfl, rfl⟩
  · have hlong : Util.LLONG_MIN ≤ n ∧ n ≤ Util.LLONG_MAX := by
      obtain ⟨h1, h2⟩ := hn
      unfold Util.LLONG_MIN Util.LLONG_MAX
      omega
    have hproper : Proper (.int n : Val σ) := by
      refine ⟨fun m hm => ?_, nofun⟩
      cases hm
      exact hn
    obtain ⟨hvalid, hhold, hvalue, hdict, hexpires⟩ := createObject_spec h hproper
    rw [if_neg hshared, if_pos hlong]
    exact ⟨_, _, rfl, hvalid, hhold, hvalue, hdict, hexpires⟩

/-- **An object that is one key's is written without a change of any other key.** -/
theorem setPtr_spec (h : ks.Valid) (hv : Proper v) (hkey : ks.store.dict key = some a) (ha : ks.store.heap a = some o)
    (hsole : ∀ k, ks.store.dict k = some a → k = key) (hshared : ∀ i < OBJ_SHARED_INTEGERS, a ≠ .sharedInteger i) :
    (setPtr ks a v).Valid ∧ (setPtr ks a v).store.heap a = some { o with val := v } ∧ (setPtr ks a v).store.value key = some v ∧
      Others ks (setPtr ks a v) key ∧ (setPtr ks a v).expires = ks.expires := by
  have hself : (setPtr ks a v).store.heap a = some { o with val := v } := Store.heap_assign_self ha v
  have hold : ∀ {b}, b ≠ a → (setPtr ks a v).store.heap b = ks.store.heap b := fun hba => Store.heap_assign_ne ks.store v hba
  refine ⟨?_, hself, Store.value_assign_self hkey ha v,
    ⟨fun k hk => Store.value_assign_ne v fun hdict => hk (hsole k hdict), fun _ _ => rfl⟩, rfl⟩
  constructor
  · exact Store.sound_assign h.sound ha v
  · intro i hi
    rw [hold (hshared i hi).symm]
    exact h.shared i hi
  · intro n hn
    have hfree := h.fresh n hn
    have hne : Addr.obj n ≠ a := by
      rintro rfl
      rw [ha] at hfree
      cases hfree
    rw [hold hne]
    exact hfree
  · intro b o' n hb hn
    by_cases hba : b = a
    · subst hba
      rw [hself] at hb
      cases hb
      exact hv.1 n hn
    · rw [hold hba] at hb
      exact h.longs hb hn
  · intro b o' hash hb hn
    by_cases hba : b = a
    · subst hba
      rw [hself] at hb
      cases hb
      exact hv.2 hash hn
    · rw [hold hba] at hb
      exact h.hashes hb hn
  · intro b o' hash k k' hb hn hk hk'
    by_cases hba : b = a
    · subst hba
      rw [hsole k hk, hsole k' hk']
    · rw [hold hba] at hb
      exact h.alone hb hn hk hk'
  · exact h.expires_in

end RedisZk.Counters
