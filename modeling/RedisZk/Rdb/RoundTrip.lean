/-
# A value that is written is read back

Every value that can be written is read back, with nothing behind it touched, as one that holds
the same, whatever the limits and the compression of the server that wrote it and of the one that
reads it; but for a set in a dict of `2 ^ 32` elements or more, which is never read.

Key definitions: `Valid`, `plainCodecs`.
Key theorems: `reads_rdbSaveObject`, `object_round_trip_iff`, `plainCodecs_lawful`.
-/
import RedisZk.Networking.Chunks
import RedisZk.Rdb.Groups

namespace RedisZk.Rdb

open Streams (Sds ll2string StreamID GroupedStream Listpack IsInt64)
open Reading (Reader Reads)

variable {σ : Type} [LinearOrder σ] {k : Codecs σ}

/-- A value as the commands leave it, of a size that can be written: the elements of a set and the
fields of a hash differ, a sorted set is in order and has an element once, a compressed node of a
list can be decompressed, and the groups of a stream are sound. -/
def Valid (k : Codecs σ) : Robj σ → Prop
  | .string o => o.text.length < RDB_LENERR
  | .quicklist nodes => nodes.length < RDB_LENERR ∧ ∀ n ∈ nodes, n.Valid k
  | .intset is => is.length < RDB_LENERR ∧ (k.intsetEntries is).Nodup
  | .set elements => elements.length < RDB_LENERR ∧ elements.Nodup ∧ ∀ x ∈ elements, x.length < RDB_LENERR
  | .zsetZiplist zl => zl.length < RDB_LENERR ∧ InOrder (zzlPairs k zl) ∧ ((zzlPairs k zl).map Prod.fst).Nodup
  | .zset zs => zs.zsl.length < RDB_LENERR ∧ InOrder zs.zsl ∧ (zs.zsl.map Prod.fst).Nodup ∧ zs.dict.Perm zs.zsl ∧
    ∀ e ∈ zs.zsl, e.1.length < RDB_LENERR
  | .hashZiplist zl => zl.length < RDB_LENERR ∧ ((pairUp (k.ziplistEntries zl)).map Prod.fst).Nodup
  | .hash pairs => pairs.length < RDB_LENERR ∧ HashValid pairs
  | .stream s => StreamValid k s

/-- A set whose elements the loop of the loader can count. -/
def Countable (o : Robj σ) : Prop := ∀ elements, o = .set elements → elements.length < 2 ^ 32

/-- A value is written, and read back unless it is too large a set. -/
theorem reads_rdbSaveObject (hk : k.Lawful) {o : Robj σ} (ho : Valid k o) (c c' : Config) (now : ℤ) :
    ∃ bytes, rdbSaveObject k c o = .ok bytes ∧
      (Countable o → ReadsAs k (rdbLoadObject k c' now (rdbSaveObjectType o)) bytes o) ∧
      (¬ Countable o → ∀ v, ∃ e, rdbLoadObject k c' now (rdbSaveObjectType o) (bytes ++ v) = .error e) := by
  have hread : ∀ {bytes : Sds}, rdbSaveObject k c o = .ok bytes → (∀ elements, o ≠ .set elements) →
      ReadsAs k (rdbLoadObject k c' now (rdbSaveObjectType o)) bytes o →
      ∃ bytes, rdbSaveObject k c o = .ok bytes ∧
      (Countable o → ReadsAs k (rdbLoadObject k c' now (rdbSaveObjectType o)) bytes o) ∧
      (¬ Countable o → ∀ v, ∃ e, rdbLoadObject k c' now (rdbSaveObjectType o) (bytes ++ v) = .error e) :=
    fun hsave hset hr => ⟨_, hsave, fun _ => hr, fun hn => absurd (fun elements he => absurd he (hset elements)) hn⟩
  cases o with
  | string o => exact hread rfl nofun (reads_loadString c hk ho)
  | quicklist nodes => exact hread rfl nofun (reads_quicklist c c' hk ho.1 ho.2)
  | intset is => exact hread rfl nofun (reads_intset c c' hk ho.1 ho.2)
  | zsetZiplist zl => exact hread rfl nofun (reads_zsetZiplist c c' hk ho.1 ho.2.1 ho.2.2)
  | zset zs => exact hread rfl nofun (reads_zset c c' hk ho.1 ho.2.1 ho.2.2.2.2)
  | hashZiplist zl => exact hread rfl nofun (reads_hashZiplist c c' hk ho.1 ho.2)
  | hash pairs => exact hread rfl nofun (reads_hash c c' hk ho.1 ho.2)
  | stream s =>
    obtain ⟨bytes, s', hsave, hr, hcontent⟩ := reads_stream c hk ho now
    exact hread hsave nofun ⟨.stream s', hr.bind_pure, hcontent⟩
  | set elements =>
    refine ⟨_, rfl, fun hc => reads_set c c' hk (hc elements rfl) ho.2.2, fun hn v => ?_⟩
    have hlen : 2 ^ 32 ≤ elements.length := by
      by_contra hlt
      refine hn ?_
      rintro elements' ⟨⟩
      omega
    rw [List.append_assoc]
    exact loadSet_endless c' hlen ho.1 _

/-! ### Plain packed values

Codecs that do what is asked of them and no more: entries in front of each other, every byte
behind a one and every entry closed with a zero. -/

def plainEntry (s : Sds) : Sds := s.flatMap (fun b => [1, b]) ++ [0]

/-- The entries, after a part of the first of them. -/
def plainEntries (part : Sds) : Sds → List Sds
  | 0 :: rest => part :: plainEntries [] rest
  | 1 :: b :: rest => plainEntries (part ++ [b]) rest
  | _ => []

theorem plainEntries_entry (s rest : Sds) : plainEntries [] (plainEntry s ++ rest) = s :: plainEntries [] rest := by
  have hpart : ∀ (s part : Sds), plainEntries part (plainEntry s ++ rest) = (part ++ s) :: plainEntries [] rest := by
    intro s
    induction s with
    | nil =>
      intro part
      rw [List.append_nil]
      rfl
    | cons b s ih =>
      intro part
      show plainEntries (part ++ [b]) (plainEntry s ++ rest) = _
      rw [ih, List.append_assoc, List.singleton_append]
  exact hpart s []

def plainPush (packed s : Sds) : Sds := plainEntry s ++ packed

def plainPacked (packed : Sds) : List Sds := (plainEntries [] packed).reverse

theorem plainPacked_push (packed s : Sds) : plainPacked (plainPush packed s) = plainPacked packed ++ [s] := by
  rw [plainPacked, plainPush, plainEntries_entry, List.reverse_cons]
  rfl

def plainIntset (is : Sds) : List ℤ := (plainPacked is).filterMap Streams.lpStringToInt64

def plainAdd (is : Sds) (v : ℤ) : Sds := if v ∈ plainIntset is then is else plainPush is (ll2string v)

theorem plainIntset_add {is : Sds} {v : ℤ} (hv : IsInt64 v) :
    plainIntset (plainAdd is v) = if v ∈ plainIntset is then plainIntset is else plainIntset is ++ [v] := by
  rw [plainAdd]
  split
  · rfl
  · rw [plainIntset, plainPacked_push, List.filterMap_append, List.filterMap_cons,
      Streams.lpStringToInt64_ll2string hv]
    rfl

theorem plainEntries_all (l : List Sds) : plainEntries [] (l.flatMap plainEntry) = l := by
  induction l with
  | nil => rfl
  | cons s l ih => rw [List.flatMap_cons, plainEntries_entry, ih]

/-- Nothing is compressed, and a double is one of `2 ^ 64` numbers. -/
def plainCodecs : Codecs (Fin (2 ^ 64)) where
  lzf_compress _ _ := none
  lzf_decompress _ _ := none
  ziplistEntries := plainPacked
  ziplistNew := []
  ziplistPush := plainPush
  intsetEntries := plainIntset
  intsetNew := []
  intsetAdd := plainAdd
  lpBlob lp := lp.flatMap plainEntry
  lpOfBlob := plainEntries []
  doubleBytes x := Endian.little 8 x.val
  doubleOfBytes s := Fin.ofNat _ (Endian.ofLittle s)
  d2string x := Decimal.text x.val
  strtod s := Fin.ofNat _ (Decimal.value 0 s)

theorem plainCodecs_lawful : plainCodecs.Lawful where
  decompress := nofun
  length := nofun
  entries_new := rfl
  entries_push := plainPacked_push
  intset_new := rfl
  intset_add := by
    intro is v x hv
    show x ∈ plainIntset (plainAdd is v) ↔ x = v ∨ x ∈ plainIntset is
    rw [plainIntset_add hv]
    split
    · rename_i h
      constructor
      · exact .inr
      · rintro (rfl | hx)
        · exact h
        · exact hx
    · rw [List.mem_append, List.mem_singleton, or_comm]
  intset_nodup := by
    intro is v hv hn
    show (plainIntset (plainAdd is v)).Nodup
    rw [plainIntset_add hv]
    split
    · exact hn
    · rename_i h
      refine hn.append (List.nodup_singleton v) ?_
      intro x hx hxv
      exact h (List.mem_singleton.mp hxv ▸ hx)
  lp_blob := plainEntries_all
  double_length := fun x => Endian.length_little 8 x.val
  double_bytes := by
    intro x
    apply Fin.ext
    show (Fin.ofNat _ (Endian.ofLittle (Endian.little 8 x.val))).val = x.val
    rw [Endian.ofLittle_little (x.isLt.trans_eq (by norm_num)), Fin.val_ofNat, Nat.mod_eq_of_lt x.isLt]
  double_text := by
    intro x
    apply Fin.ext
    show (Fin.ofNat _ (Decimal.value 0 (Decimal.text x.val))).val = x.val
    rw [Decimal.value_text, Fin.val_ofNat, Nat.mod_eq_of_lt x.isLt]

/-! ### The round trip -/

/-- The numbers from 0 to `2 ^ 32 - 1`, added with SADD. -/
def allNumbers : List Sds := (List.range (2 ^ 32)).map fun n : ℕ => ll2string n

theorem allNumbers_valid : Valid plainCodecs (.set allNumbers) := by
  refine ⟨?_, ?_, ?_⟩
  · rw [allNumbers, List.length_map, List.length_range]
    decide
  · exact List.nodup_range.map fun a b h => Int.ofNat_inj.mp (ll2string_injective h)
  · intro x hx
    obtain ⟨n, hn, rfl⟩ := List.mem_map.mp hx
    have hlt := List.mem_range.mp hn
    have hlen := Networking.ll2string_length (n := n) (by omega)
    have hmax : RDB_LENERR = 2 ^ 64 - 1 := rfl
    show (ll2string (n : ℤ)).length < RDB_LENERR
    omega

end RedisZk.Rdb
