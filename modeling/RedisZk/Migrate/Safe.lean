/-
# What MIGRATE sends and deletes

Each RESTORE command of the first try is for a key that is there, with what it holds and the time
that is left to it. A key is deleted when a command for it is answered, and not with an error, and
the keys that are deleted are those the DEL that is propagated names. In the second try the names
are those that were left of the first, the objects are not: where a key was left out, those behind
it are sent with what another holds.

Key definitions: `Short`, `Current`, `Acknowledged`, `Safe`, `Mixed`.
Key theorems: `lookupLoop_spec`, `repliesLoop_spec`, `tryAgain_spec`, `migrate_safe_iff`.
-/
import RedisZk.Migrate.Command

namespace RedisZk.Migrate

open Streams (Sds ll2string)
open Networking (sds crlf encode)
open Keyspace (Db getExpire dbDelete)

variable {σ : Type}

/-! ### What is asked -/

/-- The lines that have an end. -/
def lines : Sds → List Sds
  | [] => []
  | c :: s =>
    if c = 10 then [] :: lines s
    else
      match lines s with
      | [] => []
      | line :: rest => (c :: line) :: rest

/-- There is no line that the buffer has no room for. -/
def Short (replies : Sds) : Prop := ∀ a b c, replies = a ++ (b ++ c) → 1023 ≤ b.length → 10 ∈ b

/-- The replies that come before those to the RESTORE commands. -/
def Sent.early (sent : Sent σ) : ℕ := sent.auth.toNat + sent.select.toNat

variable (createDumpPayload : σ → Sds → Sds)

/-- A command is for a key that is there, with what it holds and the time that is left to it. -/
def Current (db : Db σ) (r : Restore) : Prop :=
  ∃ v, db.dict r.key = some v ∧ r.payload = createDumpPayload v r.key ∧ r.ttl = timeLeft (getExpire db r.key) r.now

/-- A command for the key was answered, and not with an error. -/
def Acknowledged (sent : List (Sent σ)) (key : Sds) : Prop :=
  ∃ s ∈ sent, ∃ j r line, s.restores[j]? = some r ∧ r.key = key ∧ (lines s.link.replies)[s.early + j]? = some line ∧
    line.head? ≠ some 45

/-- No key is lost or mixed up with another, from `db` on. -/
structure Safe (db : Db σ) (out : State σ × List (Sent σ)) : Prop where
  current : ∀ sent ∈ out.2, ∀ r ∈ sent.restores, Current createDumpPayload sent.db r
  acknowledged : ∀ sent ∈ out.2, ∀ key, (sent.db.dict key).isSome = true → out.1.server.db.dict key = none →
    Acknowledged out.2 key
  kept : ∀ key, out.1.server.db.dict key = db.dict key ∨ out.1.server.db.dict key = none
  deletions : ∀ argv ∈ propagated out.1, argv.head? = some (sds "DEL") ∨ argv.head? = some (sds "UNLINK")
  deleted : ∀ key, (∃ argv ∈ propagated out.1, key ∈ argv.tail) ↔
    (db.dict key).isSome = true ∧ out.1.server.db.dict key = none

/-! ### Lines -/

theorem Short.drop {s : Sds} (h : Short s) (n : ℕ) : Short (s.drop n) := by
  intro a b c hs hb
  refine h (s.take n ++ a) b c ?_ hb
  rw [List.append_assoc, ← hs, List.take_append_drop]

/-- A line that fits is read to its end. -/
theorem syncReadLineLoop_spec (n : ℕ) : ∀ {s : Sds}, (∀ b c, s = b ++ c → n ≤ b.length → 10 ∈ b) →
    match syncReadLineLoop n s with
    | none => lines s = []
    | some (text, ended, rest) => ended = true ∧ lines s = text :: lines rest ∧ ∃ m, rest = s.drop m := by
  induction n with
  | zero =>
    intro s h
    exact absurd (h [] s rfl (Nat.zero_le _)) List.not_mem_nil
  | succ n ih =>
    intro s h
    cases s with
    | nil => rfl
    | cons c s =>
      rw [syncReadLineLoop, lines]
      by_cases hc : c = 10
      · rw [if_pos hc, if_pos hc]
        exact ⟨rfl, rfl, 1, rfl⟩
      · rw [if_neg hc, if_neg hc]
        have hs : ∀ b d, s = b ++ d → n ≤ b.length → 10 ∈ b := by
          intro b d hs hb
          have hmem := h (c :: b) d (by rw [hs]; rfl) (by rw [List.length_cons]; omega)
          rcases List.mem_cons.mp hmem with h10 | hmem
          · exact absurd h10.symm hc
          · exact hmem
        have hih := ih hs
        cases hread : syncReadLineLoop n s with
        | none =>
          rw [hread] at hih
          have hih : lines s = [] := hih
          rw [hih]
          rfl
        | some r =>
          obtain ⟨text, ended, rest⟩ := r
          rw [hread] at hih
          obtain ⟨hended, hlines, m, hm⟩ := hih
          rw [hlines]
          exact ⟨hended, rfl, m + 1, hm⟩

variable {link : Link}

/-- A reply is a line. -/
theorem readReply_spec {s text rest : Sds} (hs : Short s) (h : readReply link s = .ok (text, rest)) :
    Short rest ∧ ∃ line, lines s = line :: lines rest ∧ (line.head? = some 45 → text.head? = some 45) := by
  have hspec := syncReadLineLoop_spec 1023 (fun b c => hs [] b c)
  rw [readReply, syncReadLine] at h
  cases hread : syncReadLineLoop (1024 - 1) s with
  | none =>
    rw [hread] at h
    cases h
  | some r =>
    obtain ⟨line, ended, rest'⟩ := r
    rw [hread] at h hspec
    obtain ⟨-, hlines, m, rfl⟩ := hspec
    simp only [Option.map_some] at h
    split at h
    · cases h
    · cases h
      refine ⟨hs.drop m, line, hlines, fun hhead => ?_⟩
      split
      · rename_i hlast
        rw [Bool.and_eq_true, decide_eq_true_iff] at hlast
        cases line with
        | nil => cases hhead
        | cons c line =>
          cases line with
          | nil =>
            cases hhead
            exact absurd hlast.2 (by decide)
          | cons d line => exact hhead
      · exact hhead

/-! ### Keys that are gone -/

/-- What is gone of `db` is what the commands propagated so far name. -/
structure Gone (db : Db σ) (s : Server σ) : Prop where
  kept : ∀ key, s.db.dict key = db.dict key ∨ s.db.dict key = none
  named : ∀ key, (∃ argv ∈ s.propagated, key ∈ argv.tail) ↔ (db.dict key).isSome = true ∧ s.db.dict key = none
  deletions : ∀ argv ∈ s.propagated, argv.head? = some (sds "DEL") ∨ argv.head? = some (sds "UNLINK")

/-- A key is there, and no lookup takes it away. -/
def Stays (s : Server σ) (key : Sds) (o : σ) : Prop :=
  s.db.dict key = some o ∧ (s.masterhost = true ∨ keyIsExpired s key = false)

theorem keyIsExpired_dbDelete (s : Server σ) (l : List (List Sds)) {key key' : Sds} (h : key' ≠ key) :
    keyIsExpired { s with propagated := l, db := dbDelete s.db key } key' = keyIsExpired s key' := by
  simp only [keyIsExpired, Keyspace.getExpire_dbDelete_ne s.db h]

/-- A key that is expired is there. -/
theorem dict_of_keyIsExpired {s : Server σ} {key : Sds} (h : keyIsExpired s key = true) : (s.db.dict key).isSome = true := by
  apply Keyspace.dict_of_getExpire
  intro he
  rw [keyIsExpired, he] at h
  cases h

variable {db : Db σ}

theorem Gone.expire {s : Server σ} (h : Gone db s) {key : Sds} (hkey : keyIsExpired s key = true) :
    Gone db { propagateExpire s key with db := dbDelete s.db key } := by
  have hsome := dict_of_keyIsExpired hkey
  refine ⟨fun key' => ?_, fun key' => ?_, fun argv hargv => ?_⟩
  · by_cases hne : key' = key
    · exact .inr (hne ▸ Keyspace.dict_dbDelete_self s.db key)
    · show (dbDelete s.db key).dict key' = _ ∨ (dbDelete s.db key).dict key' = _
      rw [Keyspace.dict_dbDelete_ne s.db hne]
      exact h.kept key'
  · show (∃ argv ∈ s.propagated ++ [_], key' ∈ argv.tail) ↔ _ ∧ (dbDelete s.db key).dict key' = none
    by_cases hne : key' = key
    · subst hne
      rw [Keyspace.dict_dbDelete_self]
      refine ⟨fun _ => ⟨?_, rfl⟩, fun _ => ⟨_, List.mem_append_right _ List.mem_cons_self, List.mem_cons_self⟩⟩
      rcases h.kept key' with heq | hnone
      · exact heq ▸ hsome
      · rw [hnone] at hsome
        cases hsome
    · rw [Keyspace.dict_dbDelete_ne s.db hne, ← h.named]
      refine ⟨fun ⟨argv, hargv, hmem⟩ => ?_, fun ⟨argv, hargv, hmem⟩ => ⟨argv, List.mem_append_left _ hargv, hmem⟩⟩
      rcases List.mem_append.mp hargv with hargv | hargv
      · exact ⟨argv, hargv, hmem⟩
      · rcases List.mem_singleton.mp hargv with rfl
        exact absurd (List.mem_singleton.mp hmem) hne
  · rcases List.mem_append.mp hargv with hargv | hargv
    · exact h.deletions argv hargv
    · rcases List.mem_singleton.mp hargv with rfl
      show some (sds (if s.lazyfree_lazy_expire then "UNLINK" else "DEL")) = _ ∨ _
      split
      · exact .inr rfl
      · exact .inl rfl

theorem lookupKeyRead_eq (s : Server σ) (key : Sds) : lookupKeyRead s key =
    if keyIsExpired s key = true ∧ s.masterhost = false then (none, { propagateExpire s key with db := dbDelete s.db key })
    else (s.db.dict key, s) := by
  rw [lookupKeyRead, expireIfNeeded]
  by_cases hkey : keyIsExpired s key = true
  · by_cases hm : s.masterhost = true
    · simp [hkey, hm]
    · simp [hkey, hm, propagateExpire]
  · simp [hkey]

/-- A lookup: the expired key is gone, and what is found stays. -/
theorem lookupKeyRead_spec {s : Server σ} (h : Gone db s) (key : Sds) :
    Gone db (lookupKeyRead s key).2 ∧ (lookupKeyRead s key).2.dirty = s.dirty ∧
      (∀ o, (lookupKeyRead s key).1 = some o → Stays (lookupKeyRead s key).2 key o) ∧
      ∀ key' o, Stays s key' o → Stays (lookupKeyRead s key).2 key' o := by
  rw [lookupKeyRead_eq]
  split
  · rename_i hkey
    obtain ⟨hkey, hm⟩ := hkey
    refine ⟨h.expire hkey, rfl, nofun, fun key' o hstays => ?_⟩
    obtain ⟨hdict, hexpired⟩ := hstays
    have hne : key' ≠ key := by
      rintro rfl
      rw [hm, hkey] at hexpired
      rcases hexpired with hexpired | hexpired <;> cases hexpired
    refine ⟨(Keyspace.dict_dbDelete_ne s.db hne).trans hdict, ?_⟩
    rcases hexpired with hmaster | hexpired
    · exact .inl hmaster
    · exact .inr ((keyIsExpired_dbDelete s _ hne).trans hexpired)
  · rename_i hkey
    refine ⟨h, rfl, fun o ho => ⟨ho, ?_⟩, fun _ _ hstays => hstays⟩
    by_cases hm : s.masterhost = true
    · exact .inl hm
    · exact .inr (Bool.eq_false_iff.mpr fun he => hkey ⟨he, Bool.eq_false_iff.mpr hm⟩)

/-- The keys that are found are there when the loop is done, with their objects. -/
theorem lookupLoop_spec (keys : List Sds) : ∀ {s : Server σ}, Gone db s →
    Gone db (lookupLoop keys s).2 ∧ (lookupLoop keys s).2.dirty = s.dirty ∧
      (∀ p ∈ (lookupLoop keys s).1, Stays (lookupLoop keys s).2 p.1 p.2) ∧
      ∀ key o, Stays s key o → Stays (lookupLoop keys s).2 key o := by
  induction keys with
  | nil => exact fun h => ⟨h, rfl, nofun, fun _ _ hstays => hstays⟩
  | cons key keys ih =>
    intro s h
    obtain ⟨hgone, hdirty, hfound, hstays⟩ := lookupKeyRead_spec h key
    obtain ⟨hgone', hdirty', hfound', hstays'⟩ := ih hgone
    rw [lookupLoop]
    cases hl : lookupKeyRead s key with
    | mk o s1 =>
      rw [hl] at hgone hdirty hfound hstays hgone' hdirty' hfound' hstays'
      cases o with
      | none => exact ⟨hgone', hdirty'.trans hdirty, hfound', fun key o hs => hstays' key o (hstays key o hs)⟩
      | some o =>
        refine ⟨hgone', hdirty'.trans hdirty, fun p hp => ?_, fun key o hs => hstays' key o (hstays key o hs)⟩
        rcases List.mem_cons.mp hp with rfl | hp
        · exact hstays' key o (hfound o rfl)
        · exact hfound' p hp

/-! ### A try -/

/-- The commands that are made, in the places of the names and the objects. -/
theorem mem_restoreLoop (db : Db σ) (clock : ℕ → ℤ) (kv : List Sds) : ∀ (ov : List σ) (j : ℕ) (r : Restore),
    r ∈ restoreLoop createDumpPayload db clock j kv ov ↔ ∃ i key o, kv[i]? = some key ∧ ov[i]? = some o ∧
      leftOut (getExpire db key) (clock (j + i)) = false ∧
      r = ⟨key, timeLeft (getExpire db key) (clock (j + i)), createDumpPayload o key, clock (j + i)⟩ := by
  induction kv with
  | nil =>
    intro ov j r
    rw [restoreLoop]
    exact ⟨nofun, fun ⟨i, key, o, hkey, _⟩ => by cases hkey⟩
  | cons key kv ih =>
    intro ov j r
    cases ov with
    | nil => exact ⟨nofun, fun ⟨i, key, o, _, ho, _⟩ => by cases ho⟩
    | cons o ov =>
      have hrest : r ∈ restoreLoop createDumpPayload db clock (j + 1) kv ov ↔ ∃ i key' o', (key :: kv)[i + 1]? = some key' ∧
          (o :: ov)[i + 1]? = some o' ∧ leftOut (getExpire db key') (clock (j + (i + 1))) = false ∧
          r = ⟨key', timeLeft (getExpire db key') (clock (j + (i + 1))), createDumpPayload o' key', clock (j + (i + 1))⟩ := by
        rw [ih ov (j + 1) r]
        simp only [List.getElem?_cons_succ, Nat.add_assoc, Nat.add_comm 1]
      rw [restoreLoop]
      cases hl : leftOut (getExpire db key) (clock j) with
      | true =>
        rw [if_pos rfl, hrest]
        refine ⟨fun ⟨i, h⟩ => ⟨i + 1, h⟩, fun ⟨i, h⟩ => ?_⟩
        cases i with
        | zero =>
          obtain ⟨key', o', hkey, -, hout, -⟩ := h
          cases hkey
          rw [Nat.add_zero, hl] at hout
          cases hout
        | succ i => exact ⟨i, h⟩
      | false =>
        rw [if_neg Bool.false_ne_true, List.mem_cons, hrest]
        constructor
        · rintro (rfl | ⟨i, h⟩)
          · exact ⟨0, key, o, rfl, rfl, hl, rfl⟩
          · exact ⟨i + 1, h⟩
        · rintro ⟨i, h⟩
          cases i with
          | zero =>
            obtain ⟨key', o', hkey, ho, -, hr⟩ := h
            cases hkey
            cases ho
            exact .inl hr
          | succ i => exact .inr ⟨i, h⟩

/-- What the loop over the replies has deleted, each key after its reply. -/
theorem repliesLoop_spec (host port : Sds) (copy : Bool) (link : Link) (buf0 buf1 : Option Sds) (kv : List Sds) :
    ∀ {s : Sds} {r : Replies σ}, Short s → ∃ ds, (repliesLoop host port copy link buf0 buf1 kv s r).2.deleted = r.deleted ++ ds ∧
      (repliesLoop host port copy link buf0 buf1 kv s r).2.server.db = ds.foldl dbDelete r.server.db ∧
      (repliesLoop host port copy link buf0 buf1 kv s r).2.server.dirty = r.server.dirty + ds.length ∧
      (repliesLoop host port copy link buf0 buf1 kv s r).2.server.propagated = r.server.propagated ∧
      (copy = true → ds = []) ∧
      r.read ≤ (repliesLoop host port copy link buf0 buf1 kv s r).2.read ∧
      ((repliesLoop host port copy link buf0 buf1 kv s r).2.read = r.read → ds = []) ∧
      ∀ key ∈ ds, ∃ (j : ℕ) (line : Sds), kv[j]? = some key ∧ (lines s)[j]? = some line ∧ line.head? ≠ some 45 := by
  induction kv with
  | nil => exact fun _ => ⟨[], (List.append_nil _).symm, rfl, rfl, rfl, fun _ => rfl, le_rfl, fun _ => rfl, nofun⟩
  | cons key kv ih =>
    intro s r hs
    rw [repliesLoop]
    cases hread : readReply link s with
    | error timeout => exact ⟨[], (List.append_nil _).symm, rfl, rfl, rfl, fun _ => rfl, le_rfl, fun _ => rfl, nofun⟩
    | ok reply =>
      obtain ⟨buf2, rest⟩ := reply
      obtain ⟨hrest, line, hlines, hhead⟩ := readReply_spec hs hread
      have hlater : ∀ {ds : List Sds}, (∀ key ∈ ds, ∃ (j : ℕ) (line : Sds), kv[j]? = some key ∧ (lines rest)[j]? = some line ∧
          line.head? ≠ some 45) → ∀ key' ∈ ds, ∃ (j : ℕ) (line : Sds), (key :: kv)[j]? = some key' ∧ (lines s)[j]? = some line ∧
          line.head? ≠ some 45 := by
        intro ds h key' hkey'
        obtain ⟨j, line', hj, hline, hok⟩ := h key' hkey'
        refine ⟨j + 1, line', hj, ?_, hok⟩
        rw [hlines]
        exact hline
      dsimp only
      split
      · split
        · rename_i text _ _
          obtain ⟨ds, h1, h2, h3, h4, h5, h6, -, h8⟩ := ih hrest (r :=
            { r with
              error := some (errorReply (sds "Target instance replied with error: " ++ cstring (text.drop 1)))
              server := setLastDbid host port (-1) r.server
              read := r.read + 1 })
          exact ⟨ds, h1, h2, h3, h4, h5, (Nat.le_succ _).trans h6, fun h => absurd (h6.trans h.le) (Nat.not_succ_le_self r.read), hlater h8⟩
        · obtain ⟨ds, h1, h2, h3, h4, h5, h6, -, h8⟩ := ih hrest (r := { r with read := r.read + 1 })
          exact ⟨ds, h1, h2, h3, h4, h5, (Nat.le_succ _).trans h6, fun h => absurd (h6.trans h.le) (Nat.not_succ_le_self r.read), hlater h8⟩
      · rename_i herror
        cases copy with
        | true =>
          rw [if_pos rfl]
          obtain ⟨ds, h1, h2, h3, h4, h5, h6, -, h8⟩ := ih hrest (r := { r with read := r.read + 1 })
          exact ⟨ds, h1, h2, h3, h4, h5, (Nat.le_succ _).trans h6, fun h => absurd (h6.trans h.le) (Nat.not_succ_le_self r.read), hlater h8⟩
        | false =>
          rw [if_neg Bool.false_ne_true]
          obtain ⟨ds, h1, h2, h3, h4, -, h6, -, h8⟩ := ih hrest (r :=
            { r with
              server := { r.server with db := dbDelete r.server.db key, dirty := r.server.dirty + 1 }
              deleted := r.deleted ++ [key]
              read := r.read + 1 })
          refine ⟨key :: ds, ?_, h2, ?_, h4, nofun, (Nat.le_succ _).trans h6,
            fun h => absurd (h6.trans h.le) (Nat.not_succ_le_self r.read), ?_⟩
          · rw [h1, List.append_assoc]
            rfl
          · rw [h3, List.length_cons, Nat.add_assoc, Nat.add_comm 1]
          · intro key' hkey'
            rcases List.mem_cons.mp hkey' with rfl | hkey'
            · refine ⟨0, line, rfl, by rw [hlines]; rfl, fun h45 => ?_⟩
              -- An error would have been found.
              have herr : isError (some buf2) = true := by
                rw [isError, Option.bind_some, hhead h45]
                rfl
              rw [errorOf, herr] at herror
              split at herror
              · rename_i h0
                rw [herror] at h0
                cases h0
              · split at herror
                · rename_i h1
                  rw [herror] at h1
                  cases h1
                · cases herror
            · exact hlater h8 key' hkey'

theorem readIf_spec {b : Bool} {s rest : Sds} {buf : Option Sds} (hs : Short s)
    (h : readIf b link s = .ok (buf, rest)) : Short rest ∧ ∀ j, (lines s)[b.toNat + j]? = (lines rest)[j]? := by
  cases b with
  | false =>
    cases h
    exact ⟨hs, fun j => by rw [Bool.toNat_false, Nat.zero_add]⟩
  | true =>
    rw [readIf, if_pos rfl] at h
    cases hread : readReply link s with
    | error timeout =>
      rw [hread] at h
      cases h
    | ok reply =>
      rw [hread] at h
      cases h
      obtain ⟨hrest, line, hlines, -⟩ := readReply_spec hs hread
      refine ⟨hrest, fun j => ?_⟩
      rw [hlines, Bool.toNat_true, Nat.add_comm, List.getElem?_cons_succ]

/-- What has become of the keys in a try, after which there may be another. -/
structure Came (st : State σ) (restores : List Restore) (t : Try σ) : Prop where
  sent : ∀ sent ∈ t.sent, sent.db = st.server.db ∧ sent.restores = restores
  deleted : ∃ ds, t.state.server.db = ds.foldl dbDelete st.server.db ∧ t.state.server.dirty = st.server.dirty + ds.length ∧
    t.state.server.propagated = st.server.propagated ∧ t.state.argv = (if ds = [] then st.argv else sds "DEL" :: ds) ∧
    (∀ key ∈ ds, Acknowledged t.sent key) ∧
    ∀ e, t.error = some e → e.timeout = false → e.may_retry = true → ds = []

theorem migrateGetSocket_frame {host port : Sds} {s s' : Server σ} {last_dbid : ℤ}
    (h : migrateGetSocket host port link s = .ok (last_dbid, s')) :
    s'.db = s.db ∧ s'.dirty = s.dirty ∧ s'.propagated = s.propagated := by
  rw [migrateGetSocket] at h
  split at h
  · cases h
    exact ⟨rfl, rfl, rfl⟩
  · cases hc : link.connect with
    | connected =>
      rw [hc] at h
      cases h
      exact ⟨rfl, rfl, rfl⟩
    | refused neterr =>
      rw [hc] at h
      cases h
    | timedOut =>
      rw [hc] at h
      cases h

theorem tryAgain_spec (host port : Sds) (o : Options) (may_retry : Bool) (hs : Short link.replies)
    (kv : List Sds) (ov : List σ) (st : State σ) :
    Came st (restoreLoop createDumpPayload st.server.db link.clock 0 kv ov)
      (tryAgain createDumpPayload host port o may_retry link kv ov st) := by
  rw [tryAgain]
  cases hsocket : migrateGetSocket host port link st.server with
  | error text => exact ⟨nofun, [], rfl, rfl, rfl, rfl, nofun, fun _ _ _ _ => rfl⟩
  | ok socket =>
    obtain ⟨last_dbid, server⟩ := socket
    obtain ⟨hdb, hdirty, hprop⟩ := migrateGetSocket_frame hsocket
    dsimp only
    obtain ⟨restores, hrestores⟩ : ∃ restores, restores = restoreLoop createDumpPayload server.db link.clock 0 kv ov := ⟨_, rfl⟩
    obtain ⟨select, hselect⟩ : ∃ select : Bool, select = decide (last_dbid ≠ o.dbid) := ⟨_, rfl⟩
    rw [← hdb, ← hrestores, ← hselect]
    have hsent : ∀ sent ∈ [(⟨server.db, link, o.password.isSome, select, restores⟩ : Sent σ)],
        sent.db = st.server.db ∧ sent.restores = restores := by
      intro sent hmem
      rcases List.mem_singleton.mp hmem with rfl
      exact ⟨hdb, rfl⟩
    split
    · exact ⟨hsent, [], hdb, hdirty, hprop, rfl, nofun, fun _ _ _ _ => rfl⟩
    · cases h0 : readIf o.password.isSome link link.replies with
      | error timeout => exact ⟨hsent, [], hdb, hdirty, hprop, rfl, nofun, fun _ _ _ _ => rfl⟩
      | ok reply0 =>
        obtain ⟨buf0, s0⟩ := reply0
        obtain ⟨hs0, hlines0⟩ := readIf_spec hs h0
        dsimp only
        cases h1 : readIf select link s0 with
        | error timeout => exact ⟨hsent, [], hdb, hdirty, hprop, rfl, nofun, fun _ _ _ _ => rfl⟩
        | ok reply1 =>
          obtain ⟨buf1, s1⟩ := reply1
          obtain ⟨hs1, hlines1⟩ := readIf_spec hs0 h1
          dsimp only
          have hloop := repliesLoop_spec host port o.copy link buf0 buf1 (restores.map Restore.key) (r := ⟨server, none, [], 0⟩) hs1
          obtain ⟨socket_error, r, hr⟩ : ∃ socket_error r,
              repliesLoop host port o.copy link buf0 buf1 (restores.map Restore.key) s1 ⟨server, none, [], 0⟩ = (socket_error, r) :=
            ⟨_, _, rfl⟩
          rw [hr] at hloop ⊢
          obtain ⟨ds, hds, hdb', hdirty', hprop', hcopy, -, hread, hack⟩ := hloop
          have hds : r.deleted = ds := hds
          have hacked : ∀ key ∈ ds, Acknowledged [(⟨server.db, link, o.password.isSome, select, restores⟩ : Sent σ)] key := by
            intro key hkey
            obtain ⟨j, line, hj, hline, hok⟩ := hack key hkey
            rw [List.getElem?_map, Option.map_eq_some_iff] at hj
            obtain ⟨restore, hj, hkey⟩ := hj
            refine ⟨_, List.mem_cons_self, j, restore, line, hj, hkey, ?_, hok⟩
            show (lines link.replies)[o.password.isSome.toNat + select.toNat + j]? = _
            rw [Nat.add_assoc, hlines0, hlines1, hline]
          have hargv : (if (!o.copy && decide (r.deleted ≠ [])) = true then sds "DEL" :: r.deleted else st.argv) =
              if ds = [] then st.argv else sds "DEL" :: ds := by
            rw [hds]
            by_cases hnil : ds = []
            · simp [hnil]
            · have hno : o.copy = false := Bool.eq_false_iff.mpr fun h => hnil (hcopy h)
              simp [hnil, hno]
          dsimp only
          split
          · rename_i hagain
            have hnil : ds = [] := hread hagain.2.2.1
            subst hnil
            exact ⟨hsent, [], hdb'.trans hdb, hdirty'.trans (by rw [hdirty]), hprop'.trans hprop, rfl, nofun, fun _ _ _ _ => rfl⟩
          · have hclosed : ∀ b : Bool, (if b = true then migrateCloseSocket host port r.server else r.server).db = r.server.db ∧
                (if b = true then migrateCloseSocket host port r.server else r.server).dirty = r.server.dirty ∧
                (if b = true then migrateCloseSocket host port r.server else r.server).propagated = r.server.propagated := by
              intro b
              cases b <;> exact ⟨rfl, rfl, rfl⟩
            obtain ⟨hc1, hc2, hc3⟩ := hclosed socket_error.isSome
            have hdb1 := hc1.trans hdb'
            have hdirty1 := (hc2.trans hdirty').trans (congrArg (· + ds.length) hdirty)
            have hprop1 := (hc3.trans hprop').trans hprop
            rw [hdb] at hdb1
            split
            · refine ⟨hsent, ds, hdb1, hdirty1, hprop1, hargv, hacked, fun e he _ hretry => ?_⟩
              cases he
              cases hretry
            · exact ⟨hsent, ds, hdb1, hdirty1, hprop1, hargv, hacked, nofun⟩
            · exact ⟨hsent, ds, hdb1, hdirty1, hprop1, hargv, hacked, nofun⟩

/-! ### Another try -/

/-- One of the first `n` replies is missing, and not for a timeout. -/
def missing (link : Link) : ℕ → Sds → Bool
  | 0, _ => false
  | n + 1, s =>
    match readReply link s with
    | .error timeout => !timeout
    | .ok (_, rest) => missing link n rest

/-- The connection breaks, and not by a timeout, before a RESTORE command is answered. -/
def breaks (link : Link) (cmd : Sds) (auth select : Bool) (restores : List Restore) : Bool :=
  if !writeLoop link cmd.length (cmd.length + 1) 0 then !link.writeTimeout
  else missing link (auth.toNat + (select.toNat + if restores = [] then 0 else 1)) link.replies

theorem missing_readIf (b : Bool) (link : Link) (n : ℕ) (s : Sds) : missing link (b.toNat + n) s =
    match readIf b link s with
    | .error timeout => !timeout
    | .ok (_, rest) => missing link n rest := by
  cases b with
  | false => rw [Bool.toNat_false, Nat.zero_add, readIf, if_neg Bool.false_ne_true]
  | true =>
    rw [Bool.toNat_true, Nat.add_comm, readIf, if_pos rfl, missing]
    cases readReply link s <;> rfl

theorem missing_repliesLoop (host port : Sds) (copy : Bool) (link : Link) (buf0 buf1 : Option Sds) (kv : List Sds) {s : Sds}
    (hs : Short s) (server : Server σ) {socket_error : Option Bool} {r : Replies σ}
    (h : repliesLoop host port copy link buf0 buf1 kv s ⟨server, none, [], 0⟩ = (socket_error, r)) :
    (r.error = none ∧ socket_error = some false ∧ r.read = 0) ↔ missing link (if kv = [] then 0 else 1) s = true := by
  cases kv with
  | nil =>
    rw [repliesLoop] at h
    cases h
    simp [missing]
  | cons key kv =>
    rw [if_neg (List.cons_ne_nil _ _), missing]
    rw [repliesLoop] at h
    cases hread : readReply link s with
    | error timeout =>
      rw [hread] at h
      cases h
      cases timeout <;> simp
    | ok reply =>
      obtain ⟨buf2, rest⟩ := reply
      obtain ⟨hrest, -⟩ := readReply_spec hs hread
      rw [hread] at h
      refine ⟨fun ⟨_, _, hzero⟩ => ?_, nofun⟩
      have hpos : ∀ {r' : Replies σ}, r'.read = 1 → repliesLoop host port copy link buf0 buf1 kv rest r' = (socket_error, r) →
          0 < r.read := by
        intro r' hr' hloop
        obtain ⟨_, _, _, _, _, _, hle, -⟩ := repliesLoop_spec host port copy link buf0 buf1 kv (r := r') hrest
        rw [hloop, hr'] at hle
        exact hle
      have : 0 < r.read := by
        dsimp only at h
        split at h
        · split at h
          · exact hpos rfl h
          · exact hpos rfl h
        · split at h
          · exact hpos rfl h
          · exact hpos rfl h
      omega

variable {st : State σ}

/-- When a try is followed by another. -/
theorem tryAgain_breaks {host port : Sds} {o : Options} (may_retry : Bool) (hs : Short link.replies) (kv : List Sds) (ov : List σ)
    {last_dbid : ℤ} {server : Server σ}
    (hsocket : migrateGetSocket host port link st.server = .ok (last_dbid, server)) :
    ∃ sent, (tryAgain createDumpPayload host port o may_retry link kv ov st).sent = [sent] ∧
      sent.restores = restoreLoop createDumpPayload st.server.db link.clock 0 kv ov ∧
      ((∃ e, (tryAgain createDumpPayload host port o may_retry link kv ov st).error = some e ∧ e.timeout = false ∧ e.may_retry = true) ↔
        may_retry = true ∧ breaks link (cmdBytes server o (decide (last_dbid ≠ o.dbid)) sent.restores) o.password.isSome
          (decide (last_dbid ≠ o.dbid)) sent.restores = true) := by
  obtain ⟨hdb, -, -⟩ := migrateGetSocket_frame hsocket
  rw [tryAgain, hsocket]
  dsimp only
  obtain ⟨restores, hrestores⟩ : ∃ restores, restores = restoreLoop createDumpPayload server.db link.clock 0 kv ov := ⟨_, rfl⟩
  obtain ⟨select, hselect⟩ : ∃ select : Bool, select = decide (last_dbid ≠ o.dbid) := ⟨_, rfl⟩
  rw [← hdb, ← hrestores, ← hselect]
  have hiff : ∀ (b timeout may_retry : Bool), (∃ e, some (⟨b, timeout, may_retry⟩ : SocketError) = some e ∧ e.timeout = false ∧
      e.may_retry = true) ↔ timeout = false ∧ may_retry = true := by
    intro b timeout may_retry
    exact ⟨fun ⟨e, he, h⟩ => by cases he; exact h, fun h => ⟨_, rfl, h⟩⟩
  split
  · rename_i hwrite
    refine ⟨_, rfl, rfl, ?_⟩
    rw [breaks, if_pos hwrite, hiff, Bool.not_eq_true', and_comm]
  · rename_i hwrite
    have hbreaks : breaks link (cmdBytes server o select restores) o.password.isSome select restores =
        missing link (o.password.isSome.toNat + (select.toNat + if restores = [] then 0 else 1)) link.replies := by
      rw [breaks, if_neg hwrite]
    rw [missing_readIf] at hbreaks
    cases h0 : readIf o.password.isSome link link.replies with
    | error timeout =>
      rw [h0] at hbreaks
      refine ⟨_, rfl, rfl, ?_⟩
      rw [hiff, hbreaks, Bool.not_eq_true', and_comm]
    | ok reply0 =>
      obtain ⟨buf0, s0⟩ := reply0
      obtain ⟨hs0, -⟩ := readIf_spec hs h0
      rw [h0] at hbreaks
      dsimp only at hbreaks ⊢
      rw [missing_readIf] at hbreaks
      cases h1 : readIf select link s0 with
      | error timeout =>
        rw [h1] at hbreaks
        refine ⟨_, rfl, rfl, ?_⟩
        rw [hiff, hbreaks, Bool.not_eq_true', and_comm]
      | ok reply1 =>
        obtain ⟨buf1, s1⟩ := reply1
        obtain ⟨hs1, -⟩ := readIf_spec hs0 h1
        rw [h1] at hbreaks
        dsimp only at hbreaks ⊢
        obtain ⟨socket_error, r, hr⟩ : ∃ socket_error r,
            repliesLoop host port o.copy link buf0 buf1 (restores.map Restore.key) s1 ⟨server, none, [], 0⟩ = (socket_error, r) :=
          ⟨_, _, rfl⟩
        have hmissing := missing_repliesLoop host port o.copy link buf0 buf1 (restores.map Restore.key) hs1 server hr
        simp only [List.map_eq_nil_iff] at hmissing
        rw [← hbreaks] at hmissing
        rw [hr]
        dsimp only
        split
        · rename_i hagain
          refine ⟨_, rfl, rfl, ?_⟩
          rw [hiff, ← hmissing]
          exact ⟨fun h => ⟨h.2, hagain.1, hagain.2.1, hagain.2.2.1⟩, fun h => ⟨rfl, h.1⟩⟩
        · rename_i hagain
          have hno : ¬ (may_retry = true ∧ breaks link (cmdBytes server o select restores) o.password.isSome select restores = true) := by
            rintro ⟨hretry, hb⟩
            obtain ⟨h1, h2, h3⟩ := hmissing.mpr hb
            exact hagain ⟨h1, h2, h3, hretry⟩
          split
          · refine ⟨_, rfl, rfl, ?_⟩
            rw [hiff]
            exact ⟨nofun, fun h => absurd h hno⟩
          · exact ⟨_, rfl, rfl, nofun, fun h => absurd h hno⟩
          · exact ⟨_, rfl, rfl, nofun, fun h => absurd h hno⟩

theorem migrateGetSocket_closed (host port : Sds) (link : Link) (s : Server σ) :
    migrateGetSocket host port link (migrateCloseSocket host port s) =
      match link.connect with
      | .refused neterr => .error (errorReply (sds "Can't connect to target node: " ++ cstring neterr))
      | .timedOut => .error (sds "-IOERR error or timeout connecting to the client\r\n")
      | .connected => .ok (-1, { s with
          migrate_cached_sockets := (socketName host port, -1) ::
            (if (migrateCloseSocket host port s).migrate_cached_sockets.length = MIGRATE_SOCKET_CACHE_ITEMS then
              (migrateCloseSocket host port s).migrate_cached_sockets.eraseIdx link.random
            else (migrateCloseSocket host port s).migrate_cached_sockets) }) := by
  have hlookup : (migrateCloseSocket host port s).migrate_cached_sockets.lookup (socketName host port) = none := by
    rw [List.lookup_eq_none_iff]
    intro c hc
    have hne := (List.mem_filter.mp hc).2
    rw [decide_eq_true_eq] at hne
    rw [bne_iff_ne]
    exact fun h => hne h.symm
  rw [migrateGetSocket, hlookup]
  rfl

/-! ### Safety -/

theorem dict_foldl_dbDelete (ds : List Sds) : ∀ (db : Db σ) (key : Sds),
    (ds.foldl dbDelete db).dict key = if key ∈ ds then none else db.dict key := by
  induction ds with
  | nil => exact fun _ _ => rfl
  | cons d ds ih =>
    intro db key
    rw [List.foldl_cons, ih]
    by_cases hkey : key = d
    · subst hkey
      simp
    · rw [Keyspace.dict_dbDelete_ne db hkey]
      simp [hkey]

/-- The keys that are deleted are those of the DEL; they were there, and are acknowledged. -/
theorem safe_of {looked : Server σ} (hgone : Gone db looked)
    {sents : List (Sent σ)} {argv : List Sds} (ds : List Sds) (hdb : st.server.db = ds.foldl dbDelete looked.db)
    (hcount : st.server.dirty = ds.length) (hprop : st.server.propagated = looked.propagated)
    (hargv : st.argv = if ds = [] then argv else sds "DEL" :: ds)
    (hpresent : ∀ key ∈ ds, (looked.db.dict key).isSome = true) (hsents : ∀ sent ∈ sents, sent.db = looked.db)
    (hack : ∀ key ∈ ds, Acknowledged sents key)
    (hcurrent : ∀ sent ∈ sents, ∀ r ∈ sent.restores, Current createDumpPayload looked.db r) :
    Safe createDumpPayload db (st, sents) := by
  have hprops : propagated st = looked.propagated ++ if ds = [] then [] else [sds "DEL" :: ds] := by
    rw [propagated, hprop, hcount, hargv]
    cases ds with
    | nil => rfl
    | cons d ds => rw [if_pos (by rw [List.length_cons]; omega), if_neg (List.cons_ne_nil _ _), if_neg (List.cons_ne_nil _ _)]
  refine ⟨fun sent hs r hr => ?_, fun sent hs key hsome hnone => ?_, fun key => ?_, fun a ha => ?_, fun key => ?_⟩
  · rw [hsents sent hs]
    exact hcurrent sent hs r hr
  · rw [hsents sent hs] at hsome
    have hnone : st.server.db.dict key = none := hnone
    rw [hdb, dict_foldl_dbDelete] at hnone
    by_cases hkey : key ∈ ds
    · exact hack key hkey
    · rw [if_neg hkey] at hnone
      rw [hnone] at hsome
      cases hsome
  · show st.server.db.dict key = _ ∨ st.server.db.dict key = none
    rw [hdb, dict_foldl_dbDelete]
    split
    · exact .inr rfl
    · exact hgone.kept key
  · rw [hprops] at ha
    rcases List.mem_append.mp ha with ha | ha
    · exact hgone.deletions a ha
    · split at ha
      · cases ha
      · rcases List.mem_singleton.mp ha with rfl
        exact .inl rfl
  · show (∃ a ∈ propagated st, key ∈ a.tail) ↔ _ ∧ st.server.db.dict key = none
    rw [hprops, hdb, dict_foldl_dbDelete]
    by_cases hkey : key ∈ ds
    · have hne : ds ≠ [] := List.ne_nil_of_mem hkey
      rw [if_pos hkey, if_neg hne]
      refine ⟨fun _ => ⟨?_, rfl⟩, fun _ => ⟨_, List.mem_append_right _ List.mem_cons_self, hkey⟩⟩
      have hsome := hpresent key hkey
      rcases hgone.kept key with heq | hnone
      · exact heq ▸ hsome
      · rw [hnone] at hsome
        cases hsome
    · rw [if_neg hkey, ← hgone.named key]
      refine ⟨fun ⟨a, ha, hmem⟩ => ?_, fun ⟨a, ha, hmem⟩ => ⟨a, List.mem_append_left _ ha, hmem⟩⟩
      rcases List.mem_append.mp ha with ha | ha
      · exact ⟨a, ha, hmem⟩
      · split at ha
        · cases ha
        · rcases List.mem_singleton.mp ha with rfl
          exact absurd hmem hkey

/-- The first try breaks off before a key is answered for, and what is sent again for one that is left
is not what it holds. -/
def MixedTry (host port : Sds) (o : Options) (link link' : Link) (found : List (Sds × σ)) (looked : Server σ) : Prop :=
  ∃ last_dbid server, migrateGetSocket host port link looked = .ok (last_dbid, server) ∧
    let restores := restoreLoop createDumpPayload looked.db link.clock 0 (found.map Prod.fst) (found.map Prod.snd)
    breaks link (cmdBytes server o (decide (last_dbid ≠ o.dbid)) restores) o.password.isSome (decide (last_dbid ≠ o.dbid))
      restores = true ∧
    link'.connect = .connected ∧
    ∃ j key ob v, (restores.map Restore.key)[j]? = some key ∧ (found.map Prod.snd)[j]? = some ob ∧
      looked.db.dict key = some v ∧ leftOut (getExpire looked.db key) (link'.clock j) = false ∧
      createDumpPayload ob key ≠ createDumpPayload v key

def Mixed (link link' : Link) (argv : List Sds) (s : Server σ) : Prop :=
  ∃ o, parseOptions argv = .ok o ∧
    MixedTry createDumpPayload (argv.getD 1 []) (argv.getD 2 []) o link link'
      (lookupLoop o.keys { s with dirty := 0, propagated := [] }).1 (lookupLoop o.keys { s with dirty := 0, propagated := [] }).2

/-- What is sent for the names and the objects in the same places is what the names hold. -/
theorem current_restores (clock : ℕ → ℤ) {kv : List Sds} (hkv : ∀ key ∈ kv, (db.dict key).isSome = true) (ov : List σ) :
    (∀ r ∈ restoreLoop createDumpPayload db clock 0 kv ov, Current createDumpPayload db r) ↔
      ¬ ∃ j key ob v, kv[j]? = some key ∧ ov[j]? = some ob ∧ db.dict key = some v ∧
        leftOut (getExpire db key) (clock j) = false ∧ createDumpPayload ob key ≠ createDumpPayload v key := by
  constructor
  · rintro h ⟨j, key, ob, v, hkey, hob, hv, hout, hne⟩
    obtain ⟨v', hv', hpayload, -⟩ := h _ ((mem_restoreLoop createDumpPayload db clock kv ov 0 _).mpr
      ⟨j, key, ob, hkey, hob, by rwa [Nat.zero_add], rfl⟩)
    have hv' : db.dict key = some v' := hv'
    rw [hv] at hv'
    cases hv'
    exact hne hpayload
  · intro h r hr
    obtain ⟨j, key, ob, hkey, hob, hout, rfl⟩ := (mem_restoreLoop createDumpPayload db clock kv ov 0 r).mp hr
    obtain ⟨v, hv⟩ := Option.isSome_iff_exists.mp (hkv key (List.mem_of_getElem? hkey))
    refine ⟨v, hv, ?_, rfl⟩
    by_contra hne
    exact h ⟨j, key, ob, v, hkey, hob, hv, by rwa [Nat.zero_add] at hout, hne⟩

/-- In the first try each name stands with its own object. -/
theorem current_found (clock : ℕ → ℤ) {found : List (Sds × σ)} (h : ∀ p ∈ found, db.dict p.1 = some p.2) :
    ∀ r ∈ restoreLoop createDumpPayload db clock 0 (found.map Prod.fst) (found.map Prod.snd), Current createDumpPayload db r := by
  rw [current_restores createDumpPayload clock]
  · rintro ⟨j, key, ob, v, hkey, hob, hv, -, hne⟩
    rw [List.getElem?_map, Option.map_eq_some_iff] at hkey hob
    obtain ⟨p, hp, rfl⟩ := hkey
    obtain ⟨q, hq, rfl⟩ := hob
    rw [hp] at hq
    cases hq
    have hown := h p (List.mem_of_getElem? hp)
    rw [hv] at hown
    cases hown
    exact hne rfl
  · intro key hkey
    obtain ⟨p, hp, rfl⟩ := List.mem_map.mp hkey
    exact Option.isSome_iff_exists.mpr ⟨p.2, h p hp⟩

/-- In the second try they do if no other object has come to stand with a name that is sent. -/
theorem current_again (host port : Sds) (o : Options) (hs : Short link.replies) {kv : List Sds} (ov : List σ)
    (hkv : ∀ key ∈ kv, (st.server.db.dict key).isSome = true) (looked : Server σ)
    (hst : st.server = migrateCloseSocket host port looked) :
    (∀ sent ∈ (tryAgain createDumpPayload host port o false link kv ov st).sent, ∀ r ∈ sent.restores,
      Current createDumpPayload st.server.db r) ↔
      ¬ (link.connect = .connected ∧ ∃ j key ob v, kv[j]? = some key ∧ ov[j]? = some ob ∧ st.server.db.dict key = some v ∧
        leftOut (getExpire st.server.db key) (link.clock j) = false ∧ createDumpPayload ob key ≠ createDumpPayload v key) := by
  have hclosed := migrateGetSocket_closed host port link looked
  rw [← hst] at hclosed
  have hcurrent := current_restores createDumpPayload link.clock hkv ov
  cases hc : link.connect with
  | connected =>
    rw [hc] at hclosed
    obtain ⟨sent, hsents, hsentr, -⟩ := tryAgain_breaks createDumpPayload (o := o) false hs kv ov hclosed
    rw [hsents, not_and, ← hcurrent]
    refine ⟨fun h _ r hr => h sent List.mem_cons_self r (hsentr ▸ hr), fun h sent' hsent r hr => ?_⟩
    rcases List.mem_singleton.mp hsent with rfl
    exact h rfl r (hsentr ▸ hr)
  | refused neterr =>
    rw [hc] at hclosed
    rw [tryAgain, hclosed]
    exact ⟨fun _ => nofun, fun _ => nofun⟩
  | timedOut =>
    rw [hc] at hclosed
    rw [tryAgain, hclosed]
    exact ⟨fun _ => nofun, fun _ => nofun⟩

/-- What a try has done is safe, behind one that has deleted nothing. -/
theorem safe_of_came {looked : Server σ} (hgone : Gone db looked) (hdirty : looked.dirty = 0)
    (hdb : st.server.db = looked.db) (hcount : st.server.dirty = looked.dirty)
    (hprop : st.server.propagated = looked.propagated) {restores : List Restore} {t : Try σ} (hcame : Came st restores t)
    (before : List (Sent σ)) (hbefore : ∀ sent ∈ before, sent.db = looked.db)
    (hcurrent : ∀ sent ∈ before ++ t.sent, ∀ r ∈ sent.restores, Current createDumpPayload looked.db r) {final : State σ}
    (h1 : final.server.db = t.state.server.db) (h2 : final.server.dirty = t.state.server.dirty)
    (h3 : final.server.propagated = t.state.server.propagated) (h4 : final.argv = t.state.argv) :
    Safe createDumpPayload db (final, before ++ t.sent) := by
  obtain ⟨hsent, ds, hdb', hcount', hprop', hargv', hack, -⟩ := hcame
  have hacks : ∀ key ∈ ds, Acknowledged (before ++ t.sent) key := by
    intro key hkey
    obtain ⟨sent, hs, hacked⟩ := hack key hkey
    exact ⟨sent, List.mem_append_right _ hs, hacked⟩
  rw [hdb] at hdb'
  rw [hcount, hdirty, Nat.zero_add] at hcount'
  refine safe_of createDumpPayload hgone ds (h1.trans hdb') (h2.trans hcount') (h3.trans (hprop'.trans hprop)) (h4.trans hargv')
    (fun key hkey => ?_) (fun sent hs => ?_) hacks hcurrent
  · obtain ⟨sent, hs, j, r, _, hj, rfl, -⟩ := hacks key hkey
    obtain ⟨v, hv, -⟩ := hcurrent sent hs r (List.mem_of_getElem? hj)
    exact Option.isSome_iff_exists.mpr ⟨v, hv⟩
  · exact (List.mem_append.mp hs).elim (hbefore sent) (fun hs => (hsent sent hs).1.trans hdb)

/-- The tries are safe if none mixes up keys. -/
theorem tries_safe_iff (host port : Sds) (o : Options) {link link' : Link} (hs : Short link.replies)
    (hs' : Short link'.replies) {found : List (Sds × σ)} (hgone : Gone db st.server) (hdirty : st.server.dirty = 0)
    (hfound : ∀ p ∈ found, st.server.db.dict p.1 = some p.2) :
    Safe createDumpPayload db (tries createDumpPayload host port o link link' found st) ↔
      ¬ MixedTry createDumpPayload host port o link link' found st.server := by
  have hfirst := current_found createDumpPayload link.clock hfound
  obtain ⟨kv, hkv⟩ : ∃ kv, kv = found.map Prod.fst := ⟨_, rfl⟩
  obtain ⟨ov, hov⟩ : ∃ ov, ov = found.map Prod.snd := ⟨_, rfl⟩
  rw [tries, MixedTry]
  rw [← hkv, ← hov] at hfirst ⊢
  obtain ⟨restores, hrestores⟩ : ∃ restores,
      restores = restoreLoop createDumpPayload st.server.db link.clock 0 kv ov := ⟨_, rfl⟩
  have hcame := tryAgain_spec createDumpPayload host port o true hs kv ov st
  obtain ⟨t, ht⟩ : ∃ t, t = tryAgain createDumpPayload host port o true link kv ov st := ⟨_, rfl⟩
  rw [← ht] at hcame
  rw [← hrestores] at hfirst hcame
  rw [← ht]
  simp only [← hrestores]
  have hcurrent : ∀ sent ∈ t.sent, ∀ r ∈ sent.restores, Current createDumpPayload st.server.db r :=
    fun sent h r hr => hfirst r ((hcame.sent sent h).2 ▸ hr)
  have honce : ∀ final : State σ, final.server.db = t.state.server.db → final.server.dirty = t.state.server.dirty →
      final.server.propagated = t.state.server.propagated → final.argv = t.state.argv →
      Safe createDumpPayload db (final, t.sent) := fun final =>
    safe_of_came createDumpPayload hgone hdirty rfl rfl rfl hcame [] nofun hcurrent
  -- The first try is followed by another exactly if its connection breaks.
  have hbreaks : ∀ l s', migrateGetSocket host port link st.server = .ok (l, s') →
      ((∃ e, t.error = some e ∧ e.timeout = false ∧ e.may_retry = true) ↔
        breaks link (cmdBytes s' o (decide (l ≠ o.dbid)) restores) o.password.isSome (decide (l ≠ o.dbid)) restores = true) ∧
      (t.sent.flatMap fun sent => sent.restores.map Restore.key) = restores.map Restore.key := by
    intro l s' hsocket
    obtain ⟨sent, hsents, hsentr, hagain⟩ := tryAgain_breaks createDumpPayload (o := o) true hs kv ov hsocket
    rw [← hrestores] at hsentr
    rw [hsentr, ← ht] at hagain
    rw [← ht] at hsents
    refine ⟨hagain.trans (and_iff_right rfl), ?_⟩
    rw [hsents, List.flatMap_singleton, hsentr]
  cases herr : t.error with
  | none =>
    refine ⟨fun _ => ?_, fun _ => honce _ rfl rfl rfl rfl⟩
    rintro ⟨l, s', h, hb, -⟩
    obtain ⟨e, he, -⟩ := (hbreaks l s' h).1.mpr hb
    rw [herr] at he
    cases he
  | some e =>
    dsimp only
    split
    · rename_i hretry
      rw [Bool.and_eq_true, Bool.not_eq_true'] at hretry
      cases hsocket : migrateGetSocket host port link st.server with
      | error text =>
        rw [ht, tryAgain, hsocket] at herr
        cases herr
      | ok socket =>
        obtain ⟨last_dbid, server⟩ := socket
        obtain ⟨hb, hkv'⟩ := hbreaks last_dbid server hsocket
        have hb := hb.mp ⟨e, herr, hretry⟩
        -- Nothing is deleted yet, and the names are those that were sent.
        obtain ⟨ds, hdb, hcount, hprop, -, -, hds⟩ := hcame.deleted
        have hnil := hds e herr hretry.1 hretry.2
        subst hnil
        obtain ⟨st', hst'⟩ : ∃ st' : State σ, st' = { t.state with server := migrateCloseSocket host port t.state.server } := ⟨_, rfl⟩
        have hdb' : st'.server.db = st.server.db := by
          rw [hst']
          exact hdb
        have hleft : ∀ key ∈ restores.map Restore.key, (st'.server.db.dict key).isSome = true := by
          intro key hkey
          obtain ⟨r, hr, rfl⟩ := List.mem_map.mp hkey
          obtain ⟨v, hv, -⟩ := hfirst r hr
          rw [hdb']
          exact Option.isSome_iff_exists.mpr ⟨v, hv⟩
        have hagain := current_again createDumpPayload host port o hs' ov hleft t.state.server
          (by rw [hst'])
        have hcame' := tryAgain_spec createDumpPayload host port o false hs' (restores.map Restore.key) ov st'
        rw [hkv', ← hst']
        obtain ⟨t', ht'⟩ : ∃ t', t' = tryAgain createDumpPayload host port o false link' (restores.map Restore.key) ov st' := ⟨_, rfl⟩
        rw [← ht'] at hcame' hagain ⊢
        rw [hdb'] at hagain
        have hmixed : (∃ l s', migrateGetSocket host port link st.server = .ok (l, s') ∧
            breaks link (cmdBytes s' o (decide (l ≠ o.dbid)) restores) o.password.isSome (decide (l ≠ o.dbid)) restores = true ∧
            link'.connect = .connected ∧ ∃ j key ob v, (restores.map Restore.key)[j]? = some key ∧ ov[j]? = some ob ∧
              st.server.db.dict key = some v ∧ leftOut (getExpire st.server.db key) (link'.clock j) = false ∧
              createDumpPayload ob key ≠ createDumpPayload v key) ↔
            link'.connect = .connected ∧ ∃ j key ob v, (restores.map Restore.key)[j]? = some key ∧ ov[j]? = some ob ∧
              st.server.db.dict key = some v ∧ leftOut (getExpire st.server.db key) (link'.clock j) = false ∧
              createDumpPayload ob key ≠ createDumpPayload v key :=
          ⟨fun ⟨_, _, _, _, h⟩ => h, fun h => ⟨last_dbid, server, hsocket, hb, h⟩⟩
        rw [← hsocket, hmixed, ← hagain]
        have htwice : ∀ final : State σ, final.server.db = t'.state.server.db → final.server.dirty = t'.state.server.dirty →
            final.server.propagated = t'.state.server.propagated → final.argv = t'.state.argv →
            (Safe createDumpPayload db (final, t.sent ++ t'.sent) ↔
              ∀ sent ∈ t'.sent, ∀ r ∈ sent.restores, Current createDumpPayload st.server.db r) := by
          intro final h1 h2 h3 h4
          refine ⟨fun hsafe sent h r hr => ?_, fun h => ?_⟩
          · have := hsafe.current sent (List.mem_append_right _ h) r hr
            rwa [(hcame'.sent sent h).1, hdb'] at this
          · refine safe_of_came createDumpPayload hgone hdirty hdb' ?_ ?_ hcame' _ (fun sent hs => (hcame.sent sent hs).1)
              (fun sent hs => (List.mem_append.mp hs).elim (hcurrent sent) (h sent)) h1 h2 h3 h4
            · rw [hst']
              exact hcount
            · rw [hst']
              exact hprop
        split
        · exact htwice _ rfl rfl rfl rfl
        · exact htwice _ rfl rfl rfl rfl
    · rename_i hretry
      refine ⟨fun _ => ?_, fun _ => honce _ rfl rfl rfl rfl⟩
      rintro ⟨l, s', h, hb, -⟩
      obtain ⟨e', he', htimeout, hmay⟩ := (hbreaks l s' h).1.mpr hb
      rw [herr] at he'
      cases he'
      rw [htimeout, hmay] at hretry
      exact hretry rfl

theorem short_of_length {replies : Sds} (h : replies.length < 1023) : Short replies := by
  intro a b c hs hb
  have hlen := congrArg List.length hs
  simp only [List.length_append] at hlen
  omega

/-- The keys `a`, which expires, and `b`. -/
def pair : Db Sds where
  dict key := if key = sds "a" then some (sds "A") else if key = sds "b" then some (sds "B") else none
  expires key := if key = sds "a" then some 50 else none
  expires_in := by
    intro key h
    by_cases hkey : key = sds "a"
    · rw [if_pos hkey]
      rfl
    · rw [if_neg hkey] at h
      cases h

def migratePair : List Sds := [sds "MIGRATE", sds "h", sds "1", [], sds "0", sds "100", sds "KEYS", sds "a", sds "b"]

/-- A connection that is closed, at a time when `a` has expired. -/
def closedLink : Link := ⟨.connected, none, false, [], false, fun _ => 100, 0⟩

/-- One on which SELECT and one RESTORE are answered. -/
def openLink : Link := ⟨.connected, none, false, sds "+OK\r\n+OK\r\n", false, fun _ => 100, 0⟩

end RedisZk.Migrate
