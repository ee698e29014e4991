/-
# The index of keys by slot

In cluster mode db.c keeps, beside the keys of database 0, a radix tree of them behind the
two bytes of their slots, and a count for every slot. Whatever adds or removes a key updates
both. They agree with the keys after every sequence of operations, so a scan from the two
bytes of a slot finds its keys. The radix tree is a sorted map, a dict the list of its pairs.

Key definitions: `slotToKeyUpdateKey`, `dbAdd`, `dbSyncDelete`, `emptyDb`, `getKeysInSlot`, `delKeysInSlot`, `Exact`.
Key theorems: `Indexes.add`, `Indexes.del`, `getKeysInSlot_spec`, `delKeysInSlot_spec`, `slot_index_exact`.
-/
import Mathlib
import RedisZk.Lib.Prefixes
import RedisZk.Lib.SortedMap
import RedisZk.Cluster.Routing

namespace RedisZk.SlotIndex

open Streams (Sds)
open Cluster (Slot keyHashSlot)

/-! ### The functions -/

/-- The ways in which an operation does not end well. -/
inductive Stop
  /-- `serverAssert` of a key that is there, or is not there. -/
  | assertion
  /-- A write behind the end of a buffer. -/
  | overrun
  /-- The key of an iterator that has none. -/
  | stale
  /-- The loop went on for longer than was allowed. -/
  | fuel
deriving DecidableEq

structure Db (σ : Type) where
  dict : List (Sds × σ)
  expires : List (Sds × ℤ)

structure Server (σ : Type) where
  dbnum : ℕ
  /-- The configuration takes no number of databases below 1. -/
  dbnum_pos : 0 < dbnum
  db : ℕ → Db σ
  slots_to_keys : SortedMap Sds Unit
  slots_keys_count : Slot → ℤ

variable {σ β : Type}

def dictFind (dict : List (Sds × β)) (key : Sds) : Option (Sds × β) := dict.find? fun de => decide (de.1 = key)

def dictDelete (dict : List (Sds × β)) (key : Sds) : List (Sds × β) := dict.filter fun de => decide (de.1 ≠ key)

def setDb (server : Server σ) (j : ℕ) (db : Db σ) : Server σ := { server with db := Function.update server.db j db }

/-- The first two bytes of the keys of a slot. -/
def slotBytes (hashslot : ℕ) : Sds := [Fin.ofNat 256 (hashslot / 256), Fin.ofNat 256 hashslot]

/-- The buffer with the slot and the key: 64 bytes, or memory of its own for a longer key. -/
def indexedKey (hashslot : ℕ) (key : Sds) : Except Stop Sds :=
  let size := if key.length + 2 > 64 then key.length + 2 else 64
  if key.length + 2 ≤ size then .ok (slotBytes hashslot ++ key) else .error .overrun

def slotToKeyUpdateKey (server : Server σ) (key : Sds) (add : Bool) : Except Stop (Server σ) :=
  let hashslot := keyHashSlot key
  (indexedKey hashslot key).map fun indexed =>
    { server with
      slots_keys_count := Function.update server.slots_keys_count hashslot (server.slots_keys_count hashslot + if add then 1 else -1)
      slots_to_keys := if add then server.slots_to_keys.insert indexed () else server.slots_to_keys.erase indexed }

def slotToKeyAdd (server : Server σ) (key : Sds) : Except Stop (Server σ) := slotToKeyUpdateKey server key true

def slotToKeyDel (server : Server σ) (key : Sds) : Except Stop (Server σ) := slotToKeyUpdateKey server key false

def slotToKeyFlush (server : Server σ) : Server σ := { server with slots_to_keys := .empty, slots_keys_count := fun _ => 0 }

/-- The old tree is freed by another thread. -/
def slotToKeyFlushAsync (server : Server σ) : Server σ := { server with slots_to_keys := .empty, slots_keys_count := fun _ => 0 }

def dbAdd (server : Server σ) (j : ℕ) (key : Sds) (val : σ) : Except Stop (Server σ) :=
  let db := server.db j
  if (dictFind db.dict key).isSome then .error .assertion
  else slotToKeyAdd (setDb server j { db with dict := db.dict ++ [(key, val)] }) key

def dbOverwrite (server : Server σ) (j : ℕ) (key : Sds) (val : σ) : Except Stop (Server σ) :=
  let db := server.db j
  if (dictFind db.dict key).isSome then
    .ok (setDb server j { db with dict := db.dict.map fun de => if de.1 = key then (de.1, val) else de })
  else .error .assertion

/-- The server, and whether the key was there. -/
def dbSyncDelete (server : Server σ) (j : ℕ) (key : Sds) : Except Stop (Server σ × Bool) :=
  let db := server.db j
  let expires := if 0 < db.expires.length then dictDelete db.expires key else db.expires
  if (dictFind db.dict key).isSome then
    (slotToKeyDel (setDb server j ⟨dictDelete db.dict key, expires⟩) key).map fun server => (server, true)
  else .ok (setDb server j ⟨db.dict, expires⟩, false)

/-- The entry is unlinked first, and a large value is left to another thread. -/
def dbAsyncDelete (server : Server σ) (j : ℕ) (key : Sds) : Except Stop (Server σ × Bool) :=
  let db := server.db j
  let expires := if 0 < db.expires.length then dictDelete db.expires key else db.expires
  match dictFind db.dict key with
  | some _ => (slotToKeyDel (setDb server j ⟨dictDelete db.dict key, expires⟩) key).map fun server => (server, true)
  | none => .ok (setDb server j ⟨db.dict, expires⟩, false)

/-- By the flag `lazyfree_lazy_server_del`. -/
def dbDelete (lazy : Bool) (server : Server σ) (j : ℕ) (key : Sds) : Except Stop (Server σ × Bool) :=
  if lazy then dbAsyncDelete server j key else dbSyncDelete server j key

/-- The server, and the number of keys that were removed, or -1. -/
def emptyDb (server : Server σ) (dbnum : ℤ) (async : Bool) : Server σ × ℤ :=
  if dbnum < -1 ∨ dbnum ≥ server.dbnum then (server, -1)
  else
    let dbs := if dbnum = -1 then List.range server.dbnum else [dbnum.toNat]
    let removed := (dbs.map fun j => (server.db j).dict.length).sum
    let server := { server with db := fun j => if j ∈ dbs then ⟨[], []⟩ else server.db j }
    (if async then slotToKeyFlushAsync server else slotToKeyFlush server, removed)

/-- The keys that an iterator has before it, after a seek of `>=`. -/
def raxSeek (rax : SortedMap Sds Unit) (ele : Sds) : List Sds :=
  (rax.entries.map Prod.fst).dropWhile fun key => decide (key < ele)

def getKeysLoop (indexed : Sds) : ℕ → List Sds → List Sds
  | 0, _ => []
  | _ + 1, [] => []
  | count + 1, key :: iter => if key.take 2 ≠ indexed then [] else key.drop 2 :: getKeysLoop indexed count iter

/-- The keys of the slot, and no more than `count`. -/
def getKeysInSlot (server : Server σ) (hashslot : Slot) (count : ℕ) : List Sds :=
  getKeysLoop (slotBytes hashslot) count (raxSeek server.slots_to_keys (slotBytes hashslot))

/-- The server, and the number of keys that were deleted. -/
def delKeysInSlot (lazy : Bool) (hashslot : Slot) : ℕ → Server σ → Except Stop (Server σ × ℕ)
  | 0, _ => .error .fuel
  | fuel + 1, server =>
    if server.slots_keys_count hashslot = 0 then .ok (server, 0)
    else
      match raxSeek server.slots_to_keys (slotBytes hashslot) with
      | [] => .error .stale
      | key :: _ => do
        let (server, _) ← dbDelete lazy server 0 (key.drop 2)
        let (server, j) ← delKeysInSlot lazy hashslot fuel server
        .ok (server, j + 1)

/-! ### The index agrees with the keys -/

def keysOf (server : Server σ) : List Sds := (server.db 0).dict.map Prod.fst

def ofSlot (keys : List Sds) (s : Slot) : List Sds := keys.filter fun key => decide (keyHashSlot key = s)

/-- The entries are the slots and keys of `keys`, and the counts those of the slots. -/
structure Indexes (keys : List Sds) (rax : SortedMap Sds Unit) (counts : Slot → ℤ) : Prop where
  nodup : keys.Nodup
  index : ∀ e, e ∈ rax.entries.map Prod.fst ↔ ∃ key ∈ keys, e = slotBytes (keyHashSlot key) ++ key
  counts : ∀ s, counts s = (ofSlot keys s).length

/-- Of every key of database 0 there is one entry, and no other entry. -/
def Exact (server : Server σ) : Prop := Indexes (keysOf server) server.slots_to_keys server.slots_keys_count

theorem slotBytes_length (s : ℕ) : (slotBytes s).length = 2 := rfl

theorem slotBytes_inj {s t : Slot} (h : slotBytes s = slotBytes t) : s = t := by
  have hs : s.val < 16384 := s.isLt
  have ht : t.val < 16384 := t.isLt
  have h1 : Fin.ofNat 256 (s.val / 256) = Fin.ofNat 256 (t.val / 256) := (List.cons.inj h).1
  have h2 : Fin.ofNat 256 s.val = Fin.ofNat 256 t.val := (List.cons.inj (List.cons.inj h).2).1
  have h1' := congrArg Fin.val h1
  have h2' := congrArg Fin.val h2
  dsimp only [Fin.ofNat] at h1' h2'
  apply Fin.ext
  omega

theorem indexed_inj {s t : Slot} {k k' : Sds} (h : slotBytes s ++ k = slotBytes t ++ k') : s = t ∧ k = k' := by
  obtain ⟨hs, hk⟩ := List.append_inj h rfl
  exact ⟨slotBytes_inj hs, hk⟩

/-- The buffer is long enough for every key. -/
theorem indexedKey_spec (s : ℕ) (key : Sds) : indexedKey s key = .ok (slotBytes s ++ key) := by
  unfold indexedKey
  dsimp only
  split
  · exact if_pos (le_refl _)
  · rename_i h
    exact if_pos (not_lt.mp h)

variable {keys : List Sds} {s : Slot}

theorem mem_ofSlot {key : Sds} : key ∈ ofSlot keys s ↔ key ∈ keys ∧ keyHashSlot key = s := by
  rw [ofSlot, List.mem_filter, decide_eq_true_eq]

theorem Indexes.empty : Indexes [] .empty fun _ => 0 where
  nodup := List.nodup_nil
  index := fun e => by simp [SortedMap.empty]
  counts := fun _ => rfl

/-- **A new key gets its entry and is counted.** -/
theorem Indexes.add {rax : SortedMap Sds Unit} {counts : Slot → ℤ} (h : Indexes keys rax counts) (key : Sds)
    (hkey : key ∉ keys) :
    Indexes (keys ++ [key]) (rax.insert (slotBytes (keyHashSlot key) ++ key) ())
      (Function.update counts (keyHashSlot key) (counts (keyHashSlot key) + 1)) := by
  constructor
  · rw [List.nodup_append]
    refine ⟨h.nodup, List.nodup_singleton key, fun a ha b hb => ?_⟩
    rw [List.mem_singleton] at hb
    rintro rfl
    exact hkey (hb ▸ ha)
  · intro e
    have hold := h.index e
    rw [List.mem_map] at hold ⊢
    constructor
    · rintro ⟨p, hp, rfl⟩
      rcases SortedMap.mem_insert.mp hp with rfl | ⟨hp, -⟩
      · exact ⟨key, List.mem_append_right keys (List.mem_singleton_self key), rfl⟩
      · obtain ⟨k, hk, heq⟩ := hold.mp ⟨p, hp, rfl⟩
        exact ⟨k, List.mem_append_left _ hk, heq⟩
    · rintro ⟨k, hk, rfl⟩
      rcases List.mem_append.mp hk with hin | hin
      · obtain ⟨p, hp, heq⟩ := hold.mpr ⟨k, hin, rfl⟩
        refine ⟨p, SortedMap.mem_insert.mpr (Or.inr ⟨hp, fun hsame => ?_⟩), heq⟩
        obtain ⟨-, hsame⟩ := indexed_inj (heq.symm.trans hsame)
        exact hkey (hsame ▸ hin)
      · obtain rfl := List.mem_singleton.mp hin
        exact ⟨_, SortedMap.mem_insert.mpr (Or.inl rfl), rfl⟩
  · intro s
    rw [ofSlot, List.filter_append, List.length_append]
    by_cases hs : s = keyHashSlot key
    · subst hs
      rw [Function.update_self, h.counts, List.filter_cons, if_pos (decide_eq_true rfl)]
      rfl
    · rw [Function.update_of_ne hs, h.counts, List.filter_cons, if_neg (by simpa using Ne.symm hs)]
      rfl

/-- **A key that is removed takes its entry along.** -/
theorem Indexes.del {rax : SortedMap Sds Unit} {counts : Slot → ℤ} (h : Indexes keys rax counts) {key : Sds}
    (hkey : key ∈ keys) :
    Indexes (keys.filter fun k => decide (k ≠ key)) (rax.erase (slotBytes (keyHashSlot key) ++ key))
      (Function.update counts (keyHashSlot key) (counts (keyHashSlot key) + -1)) := by
  constructor
  · exact h.nodup.filter _
  · intro e
    have hold := h.index e
    rw [List.mem_map] at hold ⊢
    constructor
    · rintro ⟨p, hp, rfl⟩
      obtain ⟨hp, hne⟩ := SortedMap.mem_erase.mp hp
      obtain ⟨k, hk, heq⟩ := hold.mp ⟨p, hp, rfl⟩
      refine ⟨k, List.mem_filter.mpr ⟨hk, decide_eq_true fun hsame => hne ?_⟩, heq⟩
      rw [heq, hsame]
    · rintro ⟨k, hk, rfl⟩
      obtain ⟨hk, hne⟩ := List.mem_filter.mp hk
      obtain ⟨p, hp, heq⟩ := hold.mpr ⟨k, hk, rfl⟩
      refine ⟨p, SortedMap.mem_erase.mpr ⟨hp, fun hsame => of_decide_eq_true hne ?_⟩, heq⟩
      exact (indexed_inj (heq.symm.trans hsame)).2
  · intro s
    have hfilter : (keys.filter fun k => decide (k ≠ key)) = keys.erase key := by
      rw [h.nodup.erase_eq_filter]
      exact List.filter_congr fun k _ => by rw [bne, beq_eq_decide, decide_not]
    have hperm : (ofSlot keys s).Perm (ofSlot (key :: keys.erase key) s) := (List.perm_cons_erase hkey).filter _
    have hlength := hperm.length_eq
    rw [hfilter]
    by_cases hs : s = keyHashSlot key
    · subst hs
      rw [ofSlot, ofSlot, List.filter_cons, if_pos (decide_eq_true rfl), List.length_cons] at hlength
      rw [Function.update_self, h.counts, ofSlot, hlength, ofSlot]
      push_cast
      omega
    · rw [ofSlot, ofSlot, List.filter_cons, if_neg (by simpa using Ne.symm hs)] at hlength
      rw [Function.update_of_ne hs, h.counts, ofSlot, hlength, ofSlot]

/-! ### One operation -/

variable {server : Server σ} {key : Sds}

theorem isSome_dictFind {dict : List (Sds × β)} : (dictFind dict key).isSome = true ↔ key ∈ dict.map Prod.fst := by
  rw [dictFind, List.find?_isSome, List.mem_map]
  constructor
  · rintro ⟨de, hde, heq⟩
    exact ⟨de, hde, of_decide_eq_true heq⟩
  · rintro ⟨de, hde, heq⟩
    exact ⟨de, hde, decide_eq_true heq⟩

theorem keys_dictDelete (dict : List (Sds × β)) (key : Sds) :
    (dictDelete dict key).map Prod.fst = (dict.map Prod.fst).filter fun k => decide (k ≠ key) := by
  rw [List.filter_map]
  rfl

/-- Nothing is removed for a key that is not there. -/
theorem dictDelete_of_notMem {dict : List (Sds × β)} (h : key ∉ dict.map Prod.fst) : dictDelete dict key = dict := by
  refine List.filter_eq_self.mpr fun de hde => decide_eq_true ?_
  rintro rfl
  exact h (List.mem_map.mpr ⟨de, hde, rfl⟩)

theorem expires_dictDelete (expires : List (Sds × ℤ)) (key : Sds) :
    (if 0 < expires.length then dictDelete expires key else expires) = dictDelete expires key := by
  split
  · rfl
  · rename_i h
    rw [List.eq_nil_of_length_eq_zero (Nat.eq_zero_of_not_pos h)]
    rfl

theorem slotToKeyAdd_eq (server : Server σ) (key : Sds) : slotToKeyAdd server key = .ok { server with
    slots_keys_count := Function.update server.slots_keys_count (keyHashSlot key) (server.slots_keys_count (keyHashSlot key) + 1)
    slots_to_keys := server.slots_to_keys.insert (slotBytes (keyHashSlot key) ++ key) () } := by
  rw [slotToKeyAdd, slotToKeyUpdateKey, indexedKey_spec]
  rfl

theorem slotToKeyDel_eq (server : Server σ) (key : Sds) : slotToKeyDel server key = .ok { server with
    slots_keys_count := Function.update server.slots_keys_count (keyHashSlot key) (server.slots_keys_count (keyHashSlot key) + -1)
    slots_to_keys := server.slots_to_keys.erase (slotBytes (keyHashSlot key) ++ key) } := by
  rw [slotToKeyDel, slotToKeyUpdateKey, indexedKey_spec]
  rfl

/-- Where the value is freed makes no difference. -/
theorem dbAsyncDelete_eq (server : Server σ) (j : ℕ) (key : Sds) : dbAsyncDelete server j key = dbSyncDelete server j key := by
  unfold dbAsyncDelete dbSyncDelete
  dsimp only
  cases dictFind (server.db j).dict key with
  | none => rfl
  | some de => rfl

theorem dbAdd_spec (h : Exact server) (key : Sds) (val : σ) :
    dbAdd server 0 key val = .error .assertion ∨ ∃ server', dbAdd server 0 key val = .ok server' ∧ Exact server' := by
  unfold dbAdd
  dsimp only
  by_cases hfind : (dictFind (server.db 0).dict key).isSome = true
  · exact Or.inl (if_pos hfind)
  · rw [if_neg hfind, slotToKeyAdd_eq]
    refine Or.inr ⟨_, rfl, ?_⟩
    have hkeys : ((server.db 0).dict ++ [(key, val)]).map Prod.fst = keysOf server ++ [key] := List.map_append
    have hadd := h.add key fun hin => hfind (isSome_dictFind.mpr hin)
    rw [← hkeys] at hadd
    unfold Exact keysOf setDb
    dsimp only
    rw [Function.update_self]
    exact hadd

theorem dbOverwrite_spec (h : Exact server) (key : Sds) (val : σ) :
    dbOverwrite server 0 key val = .error .assertion ∨ ∃ server', dbOverwrite server 0 key val = .ok server' ∧ Exact server' := by
  unfold dbOverwrite
  dsimp only
  by_cases hfind : (dictFind (server.db 0).dict key).isSome = true
  · rw [if_pos hfind]
    refine Or.inr ⟨_, rfl, ?_⟩
    have hkeys : ((server.db 0).dict.map fun de => if de.1 = key then (de.1, val) else de).map Prod.fst = keysOf server := by
      rw [List.map_map]
      refine List.map_congr_left fun de _ => ?_
      dsimp only [Function.comp]
      split
      · rfl
      · rfl
    unfold Exact keysOf setDb
    dsimp only
    rw [Function.update_self, hkeys]
    exact h
  · exact Or.inl (if_neg hfind)

/-- **A key that is deleted leaves the dict, the times and the index**, and nothing else changes. -/
theorem dbSyncDelete_spec (h : Exact server) (key : Sds) :
    ∃ server' deleted, dbSyncDelete server 0 key = .ok (server', deleted) ∧ Exact server' ∧
      (server'.db 0).dict = dictDelete (server.db 0).dict key ∧ (server'.db 0).expires = dictDelete (server.db 0).expires key ∧
      ∀ j, j ≠ 0 → server'.db j = server.db j := by
  unfold dbSyncDelete
  dsimp only
  rw [expires_dictDelete]
  by_cases hfind : (dictFind (server.db 0).dict key).isSome = true
  · rw [if_pos hfind, slotToKeyDel_eq]
    refine ⟨_, _, rfl, ?_, ?_, ?_, fun j hj => Function.update_of_ne hj _ _⟩
    · have hdel := h.del (isSome_dictFind.mp hfind)
      unfold keysOf at hdel
      rw [← keys_dictDelete] at hdel
      unfold Exact keysOf setDb
      dsimp only
      rw [Function.update_self]
      exact hdel
    · unfold setDb
      dsimp only
      rw [Function.update_self]
    · unfold setDb
      dsimp only
      rw [Function.update_self]
  · have hkey : key ∉ (server.db 0).dict.map Prod.fst := fun hin => hfind (isSome_dictFind.mpr hin)
    rw [if_neg hfind]
    refine ⟨_, _, rfl, ?_, ?_, ?_, fun j hj => Function.update_of_ne hj _ _⟩
    · unfold Exact keysOf setDb
      dsimp only
      rw [Function.update_self]
      exact h
    · unfold setDb
      dsimp only
      rw [Function.update_self, dictDelete_of_notMem hkey]
    · unfold setDb
      dsimp only
      rw [Function.update_self]

theorem dbDelete_spec (lazy : Bool) (h : Exact server) (key : Sds) :
    ∃ server' deleted, dbDelete lazy server 0 key = .ok (server', deleted) ∧ Exact server' ∧
      (server'.db 0).dict = dictDelete (server.db 0).dict key ∧ (server'.db 0).expires = dictDelete (server.db 0).expires key ∧
      ∀ j, j ≠ 0 → server'.db j = server.db j := by
  have hdelete := dbSyncDelete_spec h key
  rw [dbDelete]
  cases lazy with
  | false => exact hdelete
  | true =>
    rw [if_pos rfl, dbAsyncDelete_eq]
    exact hdelete

/-- The index is emptied together with database 0. -/
theorem emptyDb_spec (server : Server σ) {dbnum : ℤ} (h : dbnum = -1 ∨ dbnum = 0) (async : Bool) : Exact (emptyDb server dbnum async).1 := by
  have hpos := server.dbnum_pos
  unfold emptyDb
  rw [if_neg (by rintro (hlt | hge) <;> omega)]
  dsimp only
  have hin : 0 ∈ if dbnum = -1 then List.range server.dbnum else [dbnum.toNat] := by
    rcases h with rfl | rfl
    · rw [if_pos rfl]
      exact List.mem_range.mpr hpos
    · rw [if_neg (by decide)]
      exact List.mem_singleton_self 0
  have hempty : ∀ {rax : SortedMap Sds Unit} {counts : Slot → ℤ}, rax = .empty → counts = (fun _ => 0) →
      Indexes (((if 0 ∈ (if dbnum = -1 then List.range server.dbnum else [dbnum.toNat]) then (⟨[], []⟩ : Db σ) else server.db 0)).dict.map Prod.fst)
        rax counts := by
    rintro _ _ rfl rfl
    rw [if_pos hin]
    exact Indexes.empty
  cases async with
  | false => exact hempty rfl rfl
  | true => exact hempty rfl rfl

/-! ### Any sequence of operations -/

/-- An operation on database 0, or on all of them. -/
inductive Step (σ : Type)
  | dbAdd (key : Sds) (val : σ)
  | dbOverwrite (key : Sds) (val : σ)
  | dbSyncDelete (key : Sds)
  | dbAsyncDelete (key : Sds)
  | emptyDb (all async : Bool)

def step (server : Server σ) : Step σ → Except Stop (Server σ)
  | .dbAdd key val => dbAdd server 0 key val
  | .dbOverwrite key val => dbOverwrite server 0 key val
  | .dbSyncDelete key => (dbSyncDelete server 0 key).map Prod.fst
  | .dbAsyncDelete key => (dbAsyncDelete server 0 key).map Prod.fst
  | .emptyDb all async => .ok (emptyDb server (if all then -1 else 0) async).1

def run : Server σ → List (Step σ) → Except Stop (Server σ)
  | server, [] => .ok server
  | server, s :: steps => (step server s).bind fun server => run server steps

/-- **An operation keeps the index exact**, unless it is stopped by its assertion. -/
theorem step_spec (h : Exact server) (s : Step σ) :
    step server s = .error .assertion ∨ ∃ server', step server s = .ok server' ∧ Exact server' := by
  cases s with
  | dbAdd key val => exact dbAdd_spec h key val
  | dbOverwrite key val => exact dbOverwrite_spec h key val
  | dbSyncDelete key =>
    obtain ⟨server', deleted, hdelete, h', -⟩ := dbSyncDelete_spec h key
    exact Or.inr ⟨server', by rw [step, hdelete]; rfl, h'⟩
  | dbAsyncDelete key =>
    obtain ⟨server', deleted, hdelete, h', -⟩ := dbSyncDelete_spec h key
    exact Or.inr ⟨server', by rw [step, dbAsyncDelete_eq, hdelete]; rfl, h'⟩
  | emptyDb all async =>
    refine Or.inr ⟨_, rfl, emptyDb_spec server ?_ async⟩
    cases all with
    | false => exact Or.inr rfl
    | true => exact Or.inl rfl

theorem run_spec : ∀ (steps : List (Step σ)) {server : Server σ}, Exact server →
    run server steps = .error .assertion ∨ ∃ server', run server steps = .ok server' ∧ Exact server'
  | [], server, h => Or.inr ⟨server, rfl, h⟩
  | s :: steps, server, h => by
    rw [run]
    rcases step_spec h s with hstop | ⟨server', hstep, h'⟩
    · rw [hstop]
      exact Or.inl rfl
    · rw [hstep]
      exact run_spec steps h'

/-! ### The keys of a slot -/

/-- The keys of a slot in the order of the tree. -/
def slotKeys (rax : SortedMap Sds Unit) (s : Slot) : List Sds :=
  ((rax.entries.map Prod.fst).filter fun key => decide (slotBytes s <+: key)).map fun key => key.drop 2

theorem sorted_keys (rax : SortedMap Sds Unit) : (rax.entries.map Prod.fst).Pairwise (· < ·) := List.pairwise_map.mpr rax.sorted

theorem take_two (s : ℕ) (key : Sds) : key.take 2 = slotBytes s ↔ slotBytes s <+: key := by
  rw [List.prefix_iff_eq_take, slotBytes_length]
  exact eq_comm

/-- The tree has the keys of a slot, each once. -/
theorem slotKeys_perm {rax : SortedMap Sds Unit} {counts : Slot → ℤ} (h : Indexes keys rax counts) (s : Slot) :
    (slotKeys rax s).Perm (ofSlot keys s) := by
  have hmem : ∀ key, key ∈ slotKeys rax s ↔ key ∈ ofSlot keys s := by
    intro key
    rw [slotKeys, List.mem_map, mem_ofSlot]
    constructor
    · rintro ⟨e, he, rfl⟩
      obtain ⟨he, hpre⟩ := List.mem_filter.mp he
      obtain ⟨k, hk, rfl⟩ := (h.index e).mp he
      obtain ⟨t, ht⟩ := of_decide_eq_true hpre
      obtain ⟨hs, -⟩ := indexed_inj ht
      exact ⟨hk, hs.symm⟩
    · rintro ⟨hk, rfl⟩
      exact ⟨_, List.mem_filter.mpr ⟨(h.index _).mpr ⟨key, hk, rfl⟩, decide_eq_true (List.prefix_append _ _)⟩, rfl⟩
  have hnodup : (slotKeys rax s).Nodup := by
    refine List.Nodup.map_on ?_ (List.Nodup.filter _ ((sorted_keys rax).imp fun hlt => hlt.ne))
    intro a ha b hb heq
    obtain ⟨t, rfl⟩ := of_decide_eq_true (List.mem_filter.mp ha).2
    obtain ⟨t', rfl⟩ := of_decide_eq_true (List.mem_filter.mp hb).2
    have htail : t = t' := heq
    rw [htail]
  exact (List.perm_ext_iff_of_nodup hnodup (h.nodup.filter _)).mpr hmem

/-- The scan from the two bytes of a slot meets its keys first. -/
theorem scan_slot (rax : SortedMap Sds Unit) (s : Slot) :
    ((raxSeek rax (slotBytes s)).takeWhile fun key => decide (slotBytes s <+: key)).map (fun key => key.drop 2) = slotKeys rax s := by
  rw [raxSeek, Prefixes.scan_starts ((sorted_keys rax).imp le_of_lt), slotKeys]

theorem getKeysLoop_eq (s : ℕ) : ∀ (count : ℕ) (iter : List Sds), getKeysLoop (slotBytes s) count iter =
    ((iter.takeWhile fun key => decide (slotBytes s <+: key)).map fun key => key.drop 2).take count
  | 0, iter => by rw [getKeysLoop, List.take_zero]
  | count + 1, [] => rfl
  | count + 1, key :: iter => by
    rw [getKeysLoop, List.takeWhile_cons]
    by_cases hpre : slotBytes s <+: key
    · rw [if_neg (not_not.mpr ((take_two s key).mpr hpre)), if_pos (decide_eq_true hpre), getKeysLoop_eq s count iter]
      rfl
    · rw [if_pos (fun heq => hpre ((take_two s key).mp heq)), if_neg (by simpa using hpre)]
      rfl

/-- **The keys of the slot are returned**, in the order of the tree, and no more than asked for. -/
theorem getKeysInSlot_spec (h : Exact server) (s : Slot) (count : ℕ) :
    ∃ l : List Sds, l.Perm (ofSlot (keysOf server) s) ∧ getKeysInSlot server s count = l.take count :=
  ⟨_, slotKeys_perm h s, by rw [getKeysInSlot, getKeysLoop_eq, scan_slot]⟩

/-- If the slot has a key, the seek finds one of them. -/
theorem raxSeek_slot (h : Exact server) (hcount : server.slots_keys_count s ≠ 0) :
    ∃ key iter, raxSeek server.slots_to_keys (slotBytes s) = key :: iter ∧ key.drop 2 ∈ ofSlot (keysOf server) s := by
  have hperm := slotKeys_perm h s
  have hscan := scan_slot server.slots_to_keys s
  have hne : slotKeys server.slots_to_keys s ≠ [] := by
    intro hnil
    rw [hnil] at hperm
    rw [h.counts s, ← hperm.length_eq] at hcount
    exact hcount rfl
  cases hseek : raxSeek server.slots_to_keys (slotBytes s) with
  | nil =>
    rw [hseek] at hscan
    exact absurd hscan.symm hne
  | cons key iter =>
    refine ⟨key, iter, rfl, hperm.mem_iff.mp ?_⟩
    rw [hseek, List.takeWhile_cons] at hscan
    split at hscan
    · rw [← hscan]
      exact List.mem_cons_self
    · exact absurd hscan.symm hne

/-- What is left of database 0 when the keys of a slot are deleted. -/
structure Without (server : Server σ) (s : Slot) (server' : Server σ) : Prop where
  exact : Exact server'
  dict : (server'.db 0).dict = (server.db 0).dict.filter fun de => decide (keyHashSlot de.1 ≠ s)
  expires : (server'.db 0).expires = (server.db 0).expires.filter fun de => decide (de.1 ∉ ofSlot (keysOf server) s)
  others : ∀ j, j ≠ 0 → server'.db j = server.db j

theorem without_none (h : Exact server) (hnone : ofSlot (keysOf server) s = []) : Without server s server := by
  have hdict : ∀ de ∈ (server.db 0).dict, decide (keyHashSlot de.1 ≠ s) = true := by
    refine fun de hde => decide_eq_true fun heq => ?_
    have hin : de.1 ∈ ofSlot (keysOf server) s := mem_ofSlot.mpr ⟨List.mem_map.mpr ⟨de, hde, rfl⟩, heq⟩
    rw [hnone] at hin
    cases hin
  have hexpires : ∀ de ∈ (server.db 0).expires, decide (de.1 ∉ ofSlot (keysOf server) s) = true := by
    refine fun de _ => decide_eq_true ?_
    rw [hnone]
    exact List.not_mem_nil
  exact ⟨h, (List.filter_eq_self.mpr hdict).symm, (List.filter_eq_self.mpr hexpires).symm, fun _ _ => rfl⟩

/-- One key of the slot is deleted, and then the others. -/
theorem without_step {server1 server2 : Server σ} (hkey : key ∈ ofSlot (keysOf server) s)
    (hdict : (server1.db 0).dict = dictDelete (server.db 0).dict key) (hexpires : (server1.db 0).expires = dictDelete (server.db 0).expires key)
    (hothers : ∀ j, j ≠ 0 → server1.db j = server.db j) (h : Without server1 s server2) : Without server s server2 := by
  obtain ⟨-, hslot⟩ := mem_ofSlot.mp hkey
  have hkeys : keysOf server1 = (keysOf server).filter fun k => decide (k ≠ key) := by rw [keysOf, hdict, keys_dictDelete, keysOf]
  refine ⟨h.exact, ?_, ?_, fun j hj => (h.others j hj).trans (hothers j hj)⟩
  · rw [h.dict, hdict, dictDelete, List.filter_filter]
    refine List.filter_congr fun de _ => ?_
    by_cases hs : keyHashSlot de.1 = s
    · rw [decide_eq_false (not_not.mpr hs), Bool.false_and]
    · have hne : de.1 ≠ key := by
        rintro rfl
        exact hs hslot
      rw [decide_eq_true hs, decide_eq_true hne, Bool.and_true]
  · rw [h.expires, hexpires, dictDelete, List.filter_filter]
    refine List.filter_congr fun de _ => ?_
    rw [← Bool.decide_and, decide_eq_decide, mem_ofSlot, mem_ofSlot, hkeys, List.mem_filter, decide_eq_true_eq]
    constructor
    · rintro ⟨hnot, hne⟩ ⟨hin, hs⟩
      exact hnot ⟨⟨hin, hne⟩, hs⟩
    · intro hnot
      refine ⟨fun hin => hnot ⟨hin.1.1, hin.2⟩, ?_⟩
      rintro rfl
      exact hnot (mem_ofSlot.mp hkey)

theorem ofSlot_delete (hnodup : keys.Nodup) (hkey : key ∈ ofSlot keys s) :
    (ofSlot (keys.filter fun k => decide (k ≠ key)) s).length + 1 = (ofSlot keys s).length := by
  have hcomm : ofSlot (keys.filter fun k => decide (k ≠ key)) s = (ofSlot keys s).erase key := by
    rw [ofSlot, ofSlot, (hnodup.filter _).erase_eq_filter, List.filter_filter, List.filter_filter]
    refine List.filter_congr fun k _ => ?_
    rw [bne, beq_eq_decide, decide_not, Bool.and_comm]
  rw [hcomm, List.length_erase_of_mem hkey]
  have hpos := List.length_pos_of_mem hkey
  omega

/-- **The loop deletes the keys of the slot and no others**, in as many rounds. -/
theorem delKeysInSlot_spec (lazy : Bool) (s : Slot) : ∀ (n : ℕ) {server : Server σ}, Exact server → (ofSlot (keysOf server) s).length = n →
    ∃ server', Without server s server' ∧ ∀ fuel, n < fuel → delKeysInSlot lazy s fuel server = .ok (server', n) := by
  intro n
  induction n with
  | zero =>
    intro server h hlen
    refine ⟨server, without_none h (List.eq_nil_of_length_eq_zero hlen), fun fuel hfuel => ?_⟩
    obtain ⟨fuel, rfl⟩ := Nat.exists_eq_add_of_lt hfuel
    have hcount : server.slots_keys_count s = 0 := by rw [h.counts, hlen]; rfl
    rw [Nat.zero_add, delKeysInSlot, if_pos hcount]
  | succ n ih =>
    intro server h hlen
    have hcount : server.slots_keys_count s ≠ 0 := by
      rw [h.counts, hlen]
      exact Int.natCast_ne_zero.mpr (Nat.succ_ne_zero n)
    obtain ⟨key, iter, hseek, hkey⟩ := raxSeek_slot h hcount
    obtain ⟨server1, deleted, hdelete, h1, hdict, hexpires, hothers⟩ := dbDelete_spec lazy h (key.drop 2)
    have hkeys : keysOf server1 = (keysOf server).filter fun k => decide (k ≠ key.drop 2) := by
      rw [keysOf, hdict, keys_dictDelete, keysOf]
    have hlen1 : (ofSlot (keysOf server1) s).length = n := by
      have hless := ofSlot_delete h.nodup hkey
      rw [hlen] at hless
      rw [hkeys]
      exact Nat.succ.inj hless
    obtain ⟨server2, hwithout, hloop⟩ := ih h1 hlen1
    refine ⟨server2, without_step hkey hdict hexpires hothers hwithout, fun fuel hfuel => ?_⟩
    obtain ⟨fuel, rfl⟩ : ∃ f, fuel = f + 1 := ⟨fuel - 1, by omega⟩
    rw [delKeysInSlot, if_neg hcount, hseek]
    dsimp only
    rw [hdelete]
    show (delKeysInSlot lazy s fuel server1).bind (fun r => .ok (r.1, r.2 + 1)) = _
    rw [hloop fuel (by omega)]
    rfl

/-! ### The index is exact -/

/-- **After any operations the index is exact**, the keys of a slot are found in it, and they can be
deleted. -/
theorem slot_index_exact (h : Exact server) (steps : List (Step σ)) :
    run server steps = .error .assertion ∨ ∃ server', run server steps = .ok server' ∧ Exact server' ∧
      (∀ s count, ∃ l : List Sds, l.Perm (ofSlot (keysOf server') s) ∧ getKeysInSlot server' s count = l.take count) ∧
      ∀ lazy s, ∃ server'', Without server' s server'' ∧ ∀ fuel, (ofSlot (keysOf server') s).length < fuel →
        delKeysInSlot lazy s fuel server' = .ok (server'', (ofSlot (keysOf server') s).length) := by
  rcases run_spec steps h with hstop | ⟨server', hrun, h'⟩
  · exact Or.inl hstop
  · exact Or.inr ⟨server', hrun, h', getKeysInSlot_spec h', fun lazy s => delKeysInSlot_spec lazy s _ h' rfl⟩

/-- A node as it starts. -/
def started : Server ℕ where
  dbnum := 1
  dbnum_pos := Nat.one_pos
  db := fun _ => ⟨[], []⟩
  slots_to_keys := .empty
  slots_keys_count := fun _ => 0

/-- The empty key is one of slot 0, and is deleted with it. -/
theorem slot_index_exact_empty_key : run started [.dbAdd [] 7] = .error .assertion ∨
    ∃ server', run started [.dbAdd [] 7] = .ok server' ∧ Exact server' ∧
      (∀ s count, ∃ l : List Sds, l.Perm (ofSlot (keysOf server') s) ∧ getKeysInSlot server' s count = l.take count) ∧
      ∀ lazy s, ∃ server'', Without server' s server'' ∧ ∀ fuel, (ofSlot (keysOf server') s).length < fuel →
        delKeysInSlot lazy s fuel server' = .ok (server'', (ofSlot (keysOf server') s).length) :=
  @slot_index_exact ℕ started Indexes.empty [.dbAdd [] 7]

end RedisZk.SlotIndex
