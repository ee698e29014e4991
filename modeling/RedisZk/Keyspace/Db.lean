/-
# A database

The keys with their values, and the times at which some of them expire. No time is kept for a key
that is not there.

Key definitions: `Db`, `getExpire`, `dbDelete`, `setKey`.
-/
import RedisZk.Networking.Reply

namespace RedisZk.Keyspace

open Streams (Sds)

/-- `redisDb`: its dict, and its expires. -/
structure Db (σ : Type) where
  dict : Sds → Option σ
  expires : Sds → Option ℤ
  expires_in : ∀ {key}, (expires key).isSome = true → (dict key).isSome = true

variable {σ : Type}

/-- The time at which a key expires, or -1. -/
def getExpire (db : Db σ) (key : Sds) : ℤ := (db.expires key).getD (-1)

def dbDelete (db : Db σ) (key : Sds) : Db σ where
  dict := Function.update db.dict key none
  expires := Function.update db.expires key none
  expires_in := by
    intro key' h
    by_cases hkey : key' = key
    · subst hkey
      simp at h
    · rw [Function.update_of_ne hkey] at h ⊢
      exact db.expires_in h

/-- The key gets the value, and no longer expires. -/
def setKey (db : Db σ) (key : Sds) (val : σ) : Db σ where
  dict := Function.update db.dict key (some val)
  expires := Function.update db.expires key none
  expires_in := by
    intro key' h
    by_cases hkey : key' = key
    · subst hkey
      simp at h
    · rw [Function.update_of_ne hkey] at h ⊢
      exact db.expires_in h

@[simp] theorem dict_dbDelete_self (db : Db σ) (key : Sds) : (dbDelete db key).dict key = none :=
  Function.update_self _ _ _

theorem dict_dbDelete_ne (db : Db σ) {key key' : Sds} (h : key' ≠ key) : (dbDelete db key).dict key' = db.dict key' :=
  Function.update_of_ne h _ _

theorem getExpire_dbDelete_ne (db : Db σ) {key key' : Sds} (h : key' ≠ key) :
    getExpire (dbDelete db key) key' = getExpire db key' := by
  have hexpires : (dbDelete db key).expires key' = db.expires key' := Function.update_of_ne h _ _
  rw [getExpire, getExpire, hexpires]

/-- A key with a time is there. -/
theorem dict_of_getExpire (db : Db σ) {key : Sds} (h : getExpire db key ≠ -1) : (db.dict key).isSome = true := by
  apply db.expires_in
  cases he : db.expires key with
  | none => exact absurd (by rw [getExpire, he]; rfl) h
  | some _ => rfl

end RedisZk.Keyspace
