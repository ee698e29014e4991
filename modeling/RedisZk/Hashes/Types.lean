/-
# Hashes in two encodings

A small hash is a ziplist of its fields and values in turn, a large one a hash table. A
field of a ziplist is searched in every other entry, as a number where the entry is one;
a value is replaced by a deletion and an insertion; and a ziplist that has become too long is
converted, entry by entry. In either encoding the functions do to the map of the hash what
they should, and keep every field once.

A ziplist is the list of its entries, a dict the list of its pairs in some order.

Key definitions: `Hash`, `ziplistFind`, `hashTypeGetValue`, `hashTypeSet`, `hashTypeDelete`, `hashTypeConvert`, `Holds`.
Key theorems: `hashTypeGetValue_spec`, `hashTypeSet_spec`, `hashTypeDelete_spec`, `hashTypeConvert_spec`.
-/
import RedisZk.Lib.Listing
import RedisZk.Ziplist.Find

namespace RedisZk.Hashes

open Listing (Lists)
open Streams (Sds ll2string IsInt64)
open Ziplist (Value zipTryEncoding)

/-! ### Ziplists as lists of entries -/

abbrev Ziplist := List Value

/-- The entry of a string. -/
def zipEntry (s : Sds) : Value :=
  match zipTryEncoding s with
  | some (value, _) => .int value
  | none => .str s

/-- Whether an entry is the searched string: strings are compared by their bytes, and numbers as numbers. -/
def entryEqual (vstr : Sds) : Value → Bool
  | .str s => decide (s = vstr)
  | .int ll =>
    match zipTryEncoding vstr with
    | some (vll, _) => decide (ll = vll)
    | none => false

/-- The loop of `ziplistFind` at entry `i`, with `skipcnt` more entries to skip. -/
def findLoop (vstr : Sds) (skip : ℕ) : Ziplist → ℕ → ℕ → Option ℕ
  | [], _, _ => none
  | e :: zl, i, 0 => if entryEqual vstr e then some i else findLoop vstr skip zl (i + 1) skip
  | _ :: zl, i, skipcnt + 1 => findLoop vstr skip zl (i + 1) skipcnt

/-- The place of the first entry that is the string, among every `skip + 1`-th. -/
def ziplistFind (zl : Ziplist) (vstr : Sds) (skip : ℕ) : Option ℕ := findLoop vstr skip zl 0 0

def ziplistDelete (zl : Ziplist) (i : ℕ) : Ziplist := zl.eraseIdx i

def ziplistInsert (zl : Ziplist) (i : ℕ) (s : Sds) : Ziplist := zl.insertIdx i (zipEntry s)

/-- At the tail. -/
def ziplistPush (zl : Ziplist) (s : Sds) : Ziplist := zl ++ [zipEntry s]

/-! ### The functions -/

/-- The thresholds. -/
structure Config where
  hash_max_ziplist_entries : ℕ
  hash_max_ziplist_value : ℕ

inductive Hash
  | ziplist (zl : Ziplist)
  | ht (dict : List (Sds × Sds))

def createHashObject : Hash := .ziplist []

/-- The value, which is there when the field is. -/
def hashTypeGetFromZiplist (zl : Ziplist) (field : Sds) : Option Value :=
  if zl = [] then none
  else
    match ziplistFind zl field 1 with
    | none => none
    | some fptr => zl[fptr + 1]?

def dictFind (dict : List (Sds × Sds)) (field : Sds) : Option (Sds × Sds) := dict.find? fun de => de.1 = field

def hashTypeGetFromHashTable (dict : List (Sds × Sds)) (field : Sds) : Option Sds := (dictFind dict field).map Prod.snd

def hashTypeGetValue (o : Hash) (field : Sds) : Option Value :=
  match o with
  | .ziplist zl => hashTypeGetFromZiplist zl field
  | .ht dict => (hashTypeGetFromHashTable dict field).map .str

def hashTypeExists (o : Hash) (field : Sds) : Bool := (hashTypeGetValue o field).isSome

def hashTypeLength (o : Hash) : ℕ :=
  match o with
  | .ziplist zl => zl.length / 2
  | .ht dict => dict.length

/-- The pairs that the iterator visits; none for an assertion that fails, at a field without a value. -/
def hashTypePairs : Ziplist → Option (List (Value × Value))
  | [] => some []
  | [_] => none
  | f :: v :: zl => (hashTypePairs zl).map ((f, v) :: ·)

/-- The dict of the pairs, one after the other; none for the panic at a field that is there already. -/
def convertLoop : List (Value × Value) → List (Sds × Sds) → Option (List (Sds × Sds))
  | [], dict => some dict
  | (f, v) :: pairs, dict =>
    if (dictFind dict f.text).isSome then none else convertLoop pairs (dict ++ [(f.text, v.text)])

/-- `hashTypeConvert` to a hash table. -/
def hashTypeConvert (o : Hash) : Option Hash :=
  match o with
  | .ziplist zl => (hashTypePairs zl).bind fun pairs => (convertLoop pairs []).map .ht
  | .ht _ => none

def hashTypeTryConversion (config : Config) (o : Hash) (args : List Sds) : Option Hash :=
  match o with
  | .ht _ => some o
  | .ziplist _ => if args.any fun arg => decide (arg.length > config.hash_max_ziplist_value) then hashTypeConvert o else some o

/-- The hash, and whether the field was there; none for an assertion or a panic. -/
def hashTypeSet (config : Config) (o : Hash) (field value : Sds) : Option (Hash × Bool) :=
  match o with
  | .ziplist zl =>
    let fptr := if zl = [] then none else ziplistFind zl field 1
    let (zl, update) :=
      match fptr with
      | some fptr => (ziplistInsert (ziplistDelete zl (fptr + 1)) (fptr + 1) value, true)
      | none => (ziplistPush (ziplistPush zl field) value, false)
    if hashTypeLength (.ziplist zl) > config.hash_max_ziplist_entries then
      (hashTypeConvert (.ziplist zl)).map fun o => (o, update)
    else some (.ziplist zl, update)
  | .ht dict =>
    if (dictFind dict field).isSome then some (.ht (dict.map fun de => if de.1 = field then (de.1, value) else de), true)
    else some (.ht (dict ++ [(field, value)]), false)

/-- The hash, and whether the field was there. -/
def hashTypeDelete (o : Hash) (field : Sds) : Hash × Bool :=
  match o with
  | .ziplist zl =>
    match if zl = [] then none else ziplistFind zl field 1 with
    | some fptr => (.ziplist (ziplistDelete (ziplistDelete zl fptr) fptr), true)
    | none => (o, false)
  | .ht dict =>
    if (dictFind dict field).isSome then (.ht (dict.filter fun de => de.1 ≠ field), true) else (o, false)

/-! ### Entries -/

/-- A number is one of 64 bits. -/
def Proper (e : Value) : Prop := ∀ v, e = .int v → IsInt64 v

theorem text_zipEntry (s : Sds) : (zipEntry s).text = s := by
  unfold zipEntry
  cases h : zipTryEncoding s with
  | none => rfl
  | some r =>
    obtain ⟨value, encoding⟩ := r
    exact (Ziplist.zipTryEncoding_spec h).1

theorem proper_zipEntry (s : Sds) : Proper (zipEntry s) := by
  intro v hv
  unfold zipEntry at hv
  cases h : zipTryEncoding s with
  | none =>
    rw [h] at hv
    cases hv
  | some r =>
    obtain ⟨value, encoding⟩ := r
    rw [h] at hv
    cases hv
    unfold Ziplist.zipTryEncoding at h
    split at h
    · cases h
    · obtain ⟨w, hw, heq⟩ := Option.map_eq_some_iff.mp h
      cases heq
      exact Streams.isInt64_lpStringToInt64 hw

/-- The comparison is that of the texts. -/
theorem entryEqual_iff {e : Value} (he : Proper e) (vstr : Sds) : entryEqual vstr e = true ↔ e.text = vstr := by
  cases e with
  | str s =>
    rw [entryEqual, decide_eq_true_iff]
    rfl
  | int v =>
    have hiff := Ziplist.zipTryEncoding_iff (s := vstr) (he v rfl)
    rw [Value.text, ← hiff]
    unfold entryEqual
    cases h : zipTryEncoding vstr with
    | none => exact ⟨fun hf => absurd hf Bool.false_ne_true, by rintro ⟨_, ⟨⟩⟩⟩
    | some r =>
      obtain ⟨vll, encoding⟩ := r
      dsimp only
      rw [decide_eq_true_iff]
      constructor
      · rintro rfl
        exact ⟨encoding, rfl⟩
      · rintro ⟨e', heq⟩
        cases heq
        rfl

/-! ### Ziplists of pairs -/

/-- The entries of pairs. -/
def flat (ps : List (Value × Value)) : Ziplist := ps.flatMap fun p => [p.1, p.2]

def texts (ps : List (Value × Value)) : List (Sds × Sds) := ps.map fun p => (p.1.text, p.2.text)

@[simp] theorem flat_cons (p : Value × Value) (ps : List (Value × Value)) : flat (p :: ps) = p.1 :: p.2 :: flat ps := rfl

@[simp] theorem flat_append (a b : List (Value × Value)) : flat (a ++ b) = flat a ++ flat b := List.flatMap_append

@[simp] theorem length_flat (ps : List (Value × Value)) : (flat ps).length = 2 * ps.length := by
  induction ps with
  | nil => rfl
  | cons p ps ih =>
    rw [flat_cons, List.length_cons, List.length_cons, List.length_cons, ih]
    omega

@[simp] theorem texts_append (a b : List (Value × Value)) : texts (a ++ b) = texts a ++ texts b := List.map_append

@[simp] theorem texts_cons (p : Value × Value) (ps : List (Value × Value)) :
    texts (p :: ps) = (p.1.text, p.2.text) :: texts ps := rfl

theorem eraseIdx_at {α : Type} (a : List α) (x : α) (b : List α) : (a ++ x :: b).eraseIdx a.length = a ++ b := by
  rw [List.eraseIdx_append_of_length_le (le_refl _), Nat.sub_self, List.eraseIdx_cons_zero]

theorem insertIdx_at {α : Type} (a : List α) (x : α) (b : List α) : (a ++ b).insertIdx a.length x = a ++ x :: b := by
  induction a with
  | nil => rfl
  | cons y a ih => rw [List.cons_append, List.length_cons, List.insertIdx_succ_cons, ih, List.cons_append]

/-- Either the field is found at its pair, the first one with it, or no pair has it. -/
theorem findLoop_flat (field : Sds) : ∀ {ps : List (Value × Value)} (i : ℕ), (∀ p ∈ ps, Proper p.1 ∧ Proper p.2) →
    (∃ a p b, ps = a ++ p :: b ∧ p.1.text = field ∧ (∀ q ∈ a, q.1.text ≠ field) ∧
        findLoop field 1 (flat ps) i 0 = some (i + 2 * a.length)) ∨
      (∀ p ∈ ps, p.1.text ≠ field) ∧ findLoop field 1 (flat ps) i 0 = none := by
  intro ps
  induction ps with
  | nil => exact fun i _ => Or.inr ⟨fun _ h => absurd h List.not_mem_nil, rfl⟩
  | cons p ps ih =>
    intro i hps
    have hp := hps p List.mem_cons_self
    rw [flat_cons, findLoop]
    by_cases heq : p.1.text = field
    · rw [if_pos ((entryEqual_iff hp.1 field).mpr heq)]
      exact Or.inl ⟨[], p, ps, rfl, heq, fun _ h => absurd h List.not_mem_nil, rfl⟩
    · rw [if_neg (fun h => heq ((entryEqual_iff hp.1 field).mp h)), findLoop]
      rcases ih (i + 1 + 1) fun q hq => hps q (List.mem_cons_of_mem p hq) with ⟨a, q, b, rfl, hq, hfirst, hrun⟩ | ⟨hnone, hrun⟩
      · refine Or.inl ⟨p :: a, q, b, rfl, hq, fun t ht => ?_, ?_⟩
        · rcases List.mem_cons.mp ht with ht | ht
          · rw [ht]
            exact heq
          · exact hfirst t ht
        · rw [hrun, List.length_cons]
          exact congrArg some (by omega)
      · refine Or.inr ⟨fun q hq => ?_, hrun⟩
        rcases List.mem_cons.mp hq with hq | hq
        · rw [hq]
          exact heq
        · exact hnone q hq

/-- The pointer that the functions get, of which there is none in an empty ziplist. -/
theorem fptr_eq (zl : Ziplist) (field : Sds) : (if zl = [] then none else ziplistFind zl field 1) = findLoop field 1 zl 0 0 := by
  split
  · rename_i h
    rw [h]
    rfl
  · rfl

/-! ### What a hash holds -/

/-- The hash has the fields and values of a map. -/
def Holds (o : Hash) (m : Sds → Option Sds) : Prop :=
  match o with
  | .ziplist zl => ∃ ps, zl = flat ps ∧ (∀ p ∈ ps, Proper p.1 ∧ Proper p.2) ∧ Lists m (texts ps)
  | .ht dict => Lists m dict

variable {m : Sds → Option Sds} {o : Hash} {field value : Sds}

theorem holds_empty : Holds createHashObject fun _ => none :=
  ⟨[], rfl, fun _ h => absurd h List.not_mem_nil, Lists.nil⟩

/-- Where a field of a dict is. -/
theorem dictFind_split (dict : List (Sds × Sds)) (field : Sds) :
    (∃ a v b, dict = a ++ (field, v) :: b ∧ dictFind dict field = some (field, v)) ∨
      (∀ p ∈ dict, p.1 ≠ field) ∧ dictFind dict field = none := by
  unfold dictFind
  cases h : dict.find? fun de => decide (de.1 = field) with
  | none =>
    refine Or.inr ⟨fun p hp heq => ?_, rfl⟩
    exact List.find?_eq_none.mp h p hp (decide_eq_true heq)
  | some de =>
    obtain ⟨hde, a, b, hsplit, -⟩ := List.find?_eq_some_iff_append.mp h
    obtain ⟨f, v⟩ := de
    obtain rfl : f = field := of_decide_eq_true hde
    exact Or.inl ⟨a, v, b, hsplit, rfl⟩

/-- **Reading a field.** -/
theorem hashTypeGetValue_spec (h : Holds o m) (field : Sds) : (hashTypeGetValue o field).map Value.text = m field := by
  cases o with
  | ziplist zl =>
    obtain ⟨ps, rfl, hps, hlists⟩ := h
    unfold hashTypeGetValue hashTypeGetFromZiplist
    dsimp only
    rcases findLoop_flat field 0 hps with ⟨a, p, b, rfl, hp, -, hrun⟩ | ⟨hnone, hrun⟩
    · have hget : (flat (a ++ p :: b))[2 * a.length + 1]? = some p.2 := by
        rw [flat_append, List.getElem?_append_right (by rw [length_flat]; omega), length_flat, Nat.add_sub_cancel_left]
        rfl
      rw [texts_append, texts_cons, hp] at hlists
      rw [if_neg (by simp [flat]), ziplistFind, hrun]
      dsimp only
      rw [Nat.zero_add, hget, hlists.get]
      rfl
    · have hm : m field = none := by
        refine hlists.eq_none fun q hq => ?_
        obtain ⟨p, hp, rfl⟩ := List.mem_map.mp hq
        exact hnone p hp
      rw [hm]
      split
      · rfl
      · rw [ziplistFind, hrun]
        rfl
  | ht dict =>
    have hlists : Lists m dict := h
    unfold hashTypeGetValue hashTypeGetFromHashTable
    dsimp only
    rcases dictFind_split dict field with ⟨a, v, b, rfl, hfind⟩ | ⟨hnone, hfind⟩
    · rw [hfind, hlists.get]
      rfl
    · rw [hfind, hlists.eq_none hnone]
      rfl

/-- A value that is a number is one of 64 bits. -/
theorem hashTypeGetValue_proper {e : Value} (h : Holds o m) (hget : hashTypeGetValue o field = some e) : Proper e := by
  cases o with
  | ziplist zl =>
    obtain ⟨ps, rfl, hps, -⟩ := h
    unfold hashTypeGetValue hashTypeGetFromZiplist at hget
    dsimp only at hget
    have hall : ∀ e ∈ flat ps, Proper e := by
      intro e he
      obtain ⟨p, hp, he⟩ := List.mem_flatMap.mp he
      rcases List.mem_cons.mp he with rfl | he
      · exact (hps p hp).1
      · rw [List.mem_singleton.mp he]
        exact (hps p hp).2
    split at hget
    · cases hget
    · split at hget
      · cases hget
      · exact hall e (List.mem_of_getElem? hget)
  | ht dict =>
    obtain ⟨s, -, rfl⟩ := Option.map_eq_some_iff.mp hget
    intro v hv
    cases hv

theorem hashTypeExists_spec (h : Holds o m) (field : Sds) : hashTypeExists o field = (m field).isSome := by
  rw [hashTypeExists, ← hashTypeGetValue_spec h, Option.isSome_map]

/-- The count of the fields. -/
theorem hashTypeLength_spec (h : Holds o m) {l : List (Sds × Sds)} (hl : Lists m l) : hashTypeLength o = l.length := by
  cases o with
  | ziplist zl =>
    obtain ⟨ps, rfl, -, hlists⟩ := h
    have hlen := (hlists.perm hl).length_eq
    rw [texts, List.length_map] at hlen
    rw [hashTypeLength, length_flat, ← hlen]
    omega
  | ht dict =>
    have hlists : Lists m dict := h
    exact (hlists.perm hl).length_eq

/-- There is a list of what a hash holds. -/
theorem exists_lists (h : Holds o m) : ∃ l, Lists m l := by
  cases o with
  | ziplist zl =>
    obtain ⟨ps, -, -, hlists⟩ := h
    exact ⟨_, hlists⟩
  | ht dict => exact ⟨dict, h⟩

/-! ### Conversion -/

theorem hashTypePairs_flat (ps : List (Value × Value)) : hashTypePairs (flat ps) = some ps := by
  induction ps with
  | nil => rfl
  | cons p ps ih => rw [flat_cons, hashTypePairs, ih, Option.map_some]

theorem convertLoop_spec : ∀ {ps : List (Value × Value)} {dict : List (Sds × Sds)}, ((dict ++ texts ps).map Prod.fst).Nodup →
    convertLoop ps dict = some (dict ++ texts ps) := by
  intro ps
  induction ps with
  | nil =>
    intro dict _
    rw [convertLoop, texts, List.map_nil, List.append_nil]
  | cons p ps ih =>
    intro dict hnodup
    obtain ⟨f, v⟩ := p
    have hfind : dictFind dict f.text = none := by
      rw [texts_cons, List.map_append, List.map_cons, List.nodup_append] at hnodup
      obtain ⟨-, -, hdisj⟩ := hnodup
      refine List.find?_eq_none.mpr fun de hde heq => ?_
      exact hdisj de.1 (List.mem_map_of_mem hde) f.text List.mem_cons_self (of_decide_eq_true heq)
    rw [convertLoop, hfind, if_neg (by simp), ih]
    · rw [texts_cons, List.append_assoc, List.singleton_append]
    · rw [List.append_assoc, List.singleton_append]
      exact hnodup

/-- **A conversion keeps the map.** The panic is not reached. -/
theorem hashTypeConvert_spec {zl : Ziplist} (h : Holds (.ziplist zl) m) : ∃ o', hashTypeConvert (.ziplist zl) = some o' ∧ Holds o' m := by
  obtain ⟨ps, rfl, -, hlists⟩ := h
  refine ⟨.ht (texts ps), ?_, hlists⟩
  rw [hashTypeConvert, hashTypePairs_flat, Option.bind_some, convertLoop_spec hlists.nodup]
  rfl

theorem hashTypeTryConversion_spec (config : Config) (h : Holds o m) (args : List Sds) :
    ∃ o', hashTypeTryConversion config o args = some o' ∧ Holds o' m := by
  cases o with
  | ziplist zl =>
    rw [hashTypeTryConversion]
    split
    · exact hashTypeConvert_spec h
    · exact ⟨_, rfl, h⟩
  | ht dict => exact ⟨_, rfl, h⟩

/-! ### Changes -/

/-- The ziplist after a field was set, still a ziplist. -/
theorem ziplist_set {ps : List (Value × Value)} (hps : ∀ p ∈ ps, Proper p.1 ∧ Proper p.2) (hlists : Lists m (texts ps))
    (field value : Sds) :
    (match findLoop field 1 (flat ps) 0 0 with
      | some fptr => (ziplistInsert (ziplistDelete (flat ps) (fptr + 1)) (fptr + 1) value, true)
      | none => (ziplistPush (ziplistPush (flat ps) field) value, false)).2 = (m field).isSome ∧
      Holds (.ziplist (match findLoop field 1 (flat ps) 0 0 with
      | some fptr => (ziplistInsert (ziplistDelete (flat ps) (fptr + 1)) (fptr + 1) value, true)
      | none => (ziplistPush (ziplistPush (flat ps) field) value, false)).1) (Function.update m field (some value)) := by
  rcases findLoop_flat field 0 hps with ⟨a, p, b, rfl, hp, -, hrun⟩ | ⟨hnone, hrun⟩
  · rw [texts_append, texts_cons, hp] at hlists
    rw [hrun, Nat.zero_add]
    dsimp only
    refine ⟨by rw [hlists.get]; rfl, a ++ (p.1, zipEntry value) :: b, ?_, fun q hq => ?_, ?_⟩
    · have hplace : 2 * a.length + 1 = (flat a ++ [p.1]).length := by
        rw [List.length_append, length_flat, List.length_singleton]
      have hsplit : flat (a ++ p :: b) = (flat a ++ [p.1]) ++ p.2 :: flat b := by
        rw [flat_append, flat_cons, List.append_assoc, List.singleton_append]
      rw [ziplistInsert, ziplistDelete, hplace, hsplit, eraseIdx_at, insertIdx_at, flat_append, flat_cons, List.append_assoc,
        List.singleton_append]
    · rcases List.mem_append.mp hq with hq | hq
      · exact hps q (List.mem_append_left _ hq)
      · rcases List.mem_cons.mp hq with hq | hq
        · rw [hq]
          exact ⟨(hps p (List.mem_append_right a List.mem_cons_self)).1, proper_zipEntry value⟩
        · exact hps q (List.mem_append_right a (List.mem_cons_of_mem p hq))
    · rw [texts_append, texts_cons, text_zipEntry, hp]
      exact hlists.replace value
  · have hm : m field = none := by
      refine hlists.eq_none fun q hq => ?_
      obtain ⟨p, hp, rfl⟩ := List.mem_map.mp hq
      exact hnone p hp
    rw [hrun]
    dsimp only
    refine ⟨by rw [hm]; rfl, ps ++ [(zipEntry field, zipEntry value)], ?_, fun q hq => ?_, ?_⟩
    · rw [ziplistPush, ziplistPush, flat_append, List.append_assoc]
      rfl
    · rcases List.mem_append.mp hq with hq | hq
      · exact hps q hq
      · rw [List.mem_singleton.mp hq]
        exact ⟨proper_zipEntry field, proper_zipEntry value⟩
    · rw [texts_append, texts_cons, text_zipEntry, text_zipEntry]
      exact hlists.insert hm value

/-- The values of a dict replaced where the field is. -/
theorem map_replace {a b : List (Sds × Sds)} {w : Sds} (hothers : ∀ p ∈ a ++ b, p.1 ≠ field) (value : Sds) :
    ((a ++ (field, w) :: b).map fun de => if de.1 = field then (de.1, value) else de) = a ++ (field, value) :: b := by
  have hkeep : ∀ l : List (Sds × Sds), (∀ p ∈ l, p.1 ≠ field) → (l.map fun de => if de.1 = field then (de.1, value) else de) = l := by
    intro l hl
    refine (List.map_congr_left fun p hp => ?_).trans (List.map_id l)
    rw [if_neg (hl p hp)]
    rfl
  rw [List.map_append, List.map_cons, if_pos rfl, hkeep a fun p hp => hothers p (List.mem_append_left b hp),
    hkeep b fun p hp => hothers p (List.mem_append_right a hp)]

theorem filter_erase {a b : List (Sds × Sds)} {w : Sds} (hothers : ∀ p ∈ a ++ b, p.1 ≠ field) :
    ((a ++ (field, w) :: b).filter fun de => de.1 ≠ field) = a ++ b := by
  have hkeep : ∀ l : List (Sds × Sds), (∀ p ∈ l, p.1 ≠ field) → (l.filter fun de => decide (de.1 ≠ field)) = l := by
    intro l hl
    exact List.filter_eq_self.mpr fun p hp => decide_eq_true (hl p hp)
  rw [List.filter_append, List.filter_cons_of_neg (by simp), hkeep a fun p hp => hothers p (List.mem_append_left b hp),
    hkeep b fun p hp => hothers p (List.mem_append_right a hp)]

/-- **A field is set, whether or not the encoding changes.** -/
theorem hashTypeSet_spec (config : Config) (h : Holds o m) (field value : Sds) :
    ∃ o', hashTypeSet config o field value = some (o', (m field).isSome) ∧ Holds o' (Function.update m field (some value)) := by
  cases o with
  | ziplist zl =>
    obtain ⟨ps, rfl, hps, hlists⟩ := h
    obtain ⟨hupdate, hholds⟩ := ziplist_set hps hlists field value
    unfold hashTypeSet
    dsimp only
    rw [fptr_eq]
    generalize (match findLoop field 1 (flat ps) 0 0 with
      | some fptr => (ziplistInsert (ziplistDelete (flat ps) (fptr + 1)) (fptr + 1) value, true)
      | none => (ziplistPush (ziplistPush (flat ps) field) value, false)) = r at hupdate hholds ⊢
    obtain ⟨zl', update⟩ := r
    dsimp only at hupdate hholds ⊢
    subst hupdate
    split
    · obtain ⟨o', hconv, hholds'⟩ := hashTypeConvert_spec hholds
      exact ⟨o', by rw [hconv]; rfl, hholds'⟩
    · exact ⟨_, rfl, hholds⟩
  | ht dict =>
    have hlists : Lists m dict := h
    unfold hashTypeSet
    dsimp only
    rcases dictFind_split dict field with ⟨a, v, b, rfl, hfind⟩ | ⟨hnone, hfind⟩
    · rw [hfind, Option.isSome_some, if_pos rfl, hlists.get, map_replace hlists.others]
      exact ⟨_, rfl, hlists.replace value⟩
    · rw [hfind, if_neg (by simp), hlists.eq_none hnone]
      exact ⟨_, rfl, hlists.insert (hlists.eq_none hnone) value⟩

/-- **A field is deleted.** -/
theorem hashTypeDelete_spec (h : Holds o m) (field : Sds) :
    ∃ o', hashTypeDelete o field = (o', (m field).isSome) ∧ Holds o' (Function.update m field none) := by
  have hsame : m field = none → Function.update m field none = m := fun hm => by rw [← hm, Function.update_eq_self]
  cases o with
  | ziplist zl =>
    obtain ⟨ps, rfl, hps, hlists⟩ := h
    unfold hashTypeDelete
    dsimp only
    rw [fptr_eq]
    rcases findLoop_flat field 0 hps with ⟨a, p, b, rfl, hp, -, hrun⟩ | ⟨hnone, hrun⟩
    · rw [texts_append, texts_cons, hp] at hlists
      rw [hrun, Nat.zero_add]
      dsimp only
      refine ⟨.ziplist (flat (a ++ b)), ?_, a ++ b, rfl, fun q hq => ?_, ?_⟩
      · have hplace : 2 * a.length = (flat a).length := (length_flat a).symm
        rw [hlists.get, ziplistDelete, ziplistDelete, hplace, flat_append, flat_cons, eraseIdx_at, eraseIdx_at, flat_append]
        rfl
      · rcases List.mem_append.mp hq with hq | hq
        · exact hps q (List.mem_append_left _ hq)
        · exact hps q (List.mem_append_right a (List.mem_cons_of_mem p hq))
      · rw [texts_append]
        exact hlists.erase
    · have hm : m field = none := by
        refine hlists.eq_none fun q hq => ?_
        obtain ⟨p, hp, rfl⟩ := List.mem_map.mp hq
        exact hnone p hp
      rw [hrun, hsame hm, hm]
      exact ⟨_, rfl, ps, rfl, hps, hlists⟩
  | ht dict =>
    have hlists : Lists m dict := h
    unfold hashTypeDelete
    dsimp only
    rcases dictFind_split dict field with ⟨a, v, b, rfl, hfind⟩ | ⟨hnone, hfind⟩
    · rw [hfind, Option.isSome_some, if_pos rfl, hlists.get, filter_erase hlists.others]
      exact ⟨_, rfl, hlists.erase⟩
    · have hm := hlists.eq_none hnone
      rw [hfind, if_neg (by simp), hsame hm, hm]
      exact ⟨_, rfl, hlists⟩

/-! ### Bytes -/

end RedisZk.Hashes
