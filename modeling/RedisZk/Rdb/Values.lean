/-
# Values are read back

What a value holds, apart from how it is encoded, and what has to hold of a value that can
be written. A string, a list, a hash or a sorted set that is written is read back as a value
that holds the same, for any limits of either server; so is a set of less than `2 ^ 32`
elements. Of a larger set no loading ends, as the counter of its loop wraps.

Key definitions: `Codecs.Lawful`, `Content`, `content`, `Valid`.
Key theorems: `reads_quicklist`, `reads_set`, `loadElements_endless`, `reads_zset`, `reads_hash`.
-/
import RedisZk.Rdb.Object
import RedisZk.Zset.Order

namespace RedisZk.Rdb

open Streams (Sds ll2string StreamID StreamCG GroupedStream Listpack IsInt64 isInt64_lpStringToInt64
  ll2string_lpStringToInt64)
open Reading (Reader Reads)

variable {σ : Type}

/-- What the parameters are relied on for: the compression loses nothing, entries are pushed behind
the others, intsets are sets, a listpack and a double are what their bytes say, and a double has
as many digits as it needs. -/
structure Codecs.Lawful (k : Codecs σ) : Prop extends k.toLzf.Lossless where
  entries_new : k.ziplistEntries k.ziplistNew = []
  entries_push : ∀ zl s, k.ziplistEntries (k.ziplistPush zl s) = k.ziplistEntries zl ++ [s]
  intset_new : k.intsetEntries k.intsetNew = []
  intset_add : ∀ is v x, IsInt64 v → (x ∈ k.intsetEntries (k.intsetAdd is v) ↔ x = v ∨ x ∈ k.intsetEntries is)
  intset_nodup : ∀ is v, IsInt64 v → (k.intsetEntries is).Nodup → (k.intsetEntries (k.intsetAdd is v)).Nodup
  lp_blob : ∀ lp, k.lpOfBlob (k.lpBlob lp) = lp
  double_length : ∀ x, (k.doubleBytes x).length = 8
  double_bytes : ∀ x, k.doubleOfBytes (k.doubleBytes x) = x
  double_text : ∀ x, k.strtod (k.d2string x) = x

/-! ### What a value holds -/

/-- A pending entry: when and how often it was delivered, and the name of its consumer. -/
abbrev Pending := ℤ × ℕ × Option Sds

/-- A consumer: when it was seen, and the IDs of its PEL. -/
abbrev Seen := ℤ × (StreamID → Bool)

structure GroupContent where
  last_id : StreamID
  pending : StreamID → Option Pending
  consumers : Sds → Option Seen

inductive Content (σ : Type)
  | string (s : Sds)
  | list (elements : List Sds)
  | set (elements : Finset Sds)
  | zset (elements : List (Sds × σ))
  | hash (pairs : Finset (Sds × Sds))
  | stream (rax : StreamID → Option Listpack) (length : ℕ) (last_id : StreamID) (groups : Sds → Option GroupContent)

/-- The ziplist of a node. -/
def QuicklistNode.ziplist (k : Codecs σ) : QuicklistNode → Option Sds
  | .raw zl => some zl
  | .lzf data sz => k.lzf_decompress data sz

/-- The elements of a node. -/
def QuicklistNode.elements (k : Codecs σ) (n : QuicklistNode) : List Sds := k.ziplistEntries ((n.ziplist k).getD [])

def pendingOf (g : StreamCG) (id : StreamID) : Option Pending :=
  (g.pel.find id).bind fun n => (g.nacks n).map fun nack =>
    (nack.delivery_time, nack.delivery_count, nack.consumer.bind fun a => (g.heap a).map (·.name))

def seenOf (g : StreamCG) (name : Sds) : Option Seen :=
  (g.consumers.find name).bind fun a => (g.heap a).map fun c => (c.seen_time, fun id => (c.pel.find id).isSome)

def groupContent (g : StreamCG) : GroupContent := ⟨g.last_id, pendingOf g, seenOf g⟩

variable (k : Codecs σ)

def content : Robj σ → Content σ
  | .string o => .string o.text
  | .quicklist nodes => .list (nodes.flatMap (QuicklistNode.elements k))
  | .intset is => .set ((k.intsetEntries is).map ll2string).toFinset
  | .set elements => .set elements.toFinset
  | .zsetZiplist zl => .zset (zzlPairs k zl)
  | .zset zs => .zset zs.zsl
  | .hashZiplist zl => .hash (pairUp (k.ziplistEntries zl)).toFinset
  | .hash pairs => .hash pairs.toFinset
  | .stream s => .stream s.rax.find s.length s.last_id fun name => (s.cgroups.find name).map groupContent

/-! ### Strings -/

theorem text_tryObjectEncoding (o : StringObject) : (tryObjectEncoding o).text = o.text := by
  cases o with
  | int v => rfl
  | sds s =>
    rw [tryObjectEncoding]
    split
    · split
      · rename_i v hv
        exact ll2string_lpStringToInt64 hv
      · rfl
    · rfl

variable {k} (c c' : Config)

/-- The reader reads `s` as a value that holds what `o` holds. -/
def ReadsAs (k : Codecs σ) (r : Load (Robj σ)) (s : Sds) (o : Robj σ) : Prop :=
  ∃ o', Reads r s o' ∧ content k o' = content k o

theorem reads_loadString (hk : k.Lawful) {o : StringObject} (ho : o.text.length < RDB_LENERR) :
    ReadsAs k (loadString k) (rdbSaveStringObject k.toLzf c.rdb_compression o) (.string o) := by
  obtain ⟨o', hr, htext⟩ := reads_rdbSaveStringObject c.rdb_compression hk.toLossless ho
  refine ⟨.string (tryObjectEncoding o'), hr.bind_pure, ?_⟩
  rw [content, content, text_tryObjectEncoding, htext]

/-! ### Lists -/

section Quicklist

theorem ziplist_compress (hk : k.Lawful) (n : QuicklistNode) : (n.compress k).ziplist k = n.ziplist k := by
  cases n with
  | lzf data sz => rfl
  | raw zl =>
    rw [QuicklistNode.compress]
    split
    · rfl
    · split
      · rfl
      · rename_i data hdata
        split
        · rfl
        · exact hk.decompress _ _ _ hdata

theorem ziplist_decompress (n : QuicklistNode) : (n.decompress k).ziplist k = n.ziplist k := by
  cases n with
  | raw zl => rfl
  | lzf data sz =>
    rw [QuicklistNode.decompress]
    split
    · rfl
    · rename_i zl hzl
      exact hzl.symm

theorem map_modify {α β : Type} {f : α → α} {g : α → β} (h : ∀ x, g (f x) = g x) (l : List α) (i : ℕ) :
    (l.modify i f).map g = l.map g := by
  induction l generalizing i with
  | nil => rw [List.modify_nil]
  | cons x l ih =>
    cases i with
    | zero => rw [List.modify_zero_cons, List.map_cons, List.map_cons, h]
    | succ i => rw [List.modify_succ_cons, List.map_cons, List.map_cons, ih]

theorem ziplists_walk (i n : ℕ) : ∀ (nodes : List QuicklistNode) (forward : ℕ) (in_depth : Bool),
    (quicklistWalk k nodes i n forward in_depth).1.map (QuicklistNode.ziplist k) = nodes.map (QuicklistNode.ziplist k) := by
  induction n with
  | zero => exact fun _ _ _ => rfl
  | succ n ih =>
    intro nodes forward in_depth
    rw [quicklistWalk]
    split
    · rw [map_modify ziplist_decompress, map_modify ziplist_decompress]
    · rw [ih, map_modify ziplist_decompress, map_modify ziplist_decompress]

theorem ziplists_compress (hk : k.Lawful) (compress len : ℕ) (nodes : List QuicklistNode) (i : ℕ) :
    (quicklistCompress k compress len nodes i).map (QuicklistNode.ziplist k) = nodes.map (QuicklistNode.ziplist k) := by
  have hmod : ∀ (nodes : List QuicklistNode) (i : ℕ),
      (nodes.modify i (QuicklistNode.compress k)).map (QuicklistNode.ziplist k) = nodes.map (QuicklistNode.ziplist k) :=
    map_modify (ziplist_compress hk)
  rw [quicklistCompress]
  split
  · rfl
  · have hwalk := ziplists_walk (k := k) i compress nodes 0 false
    split
    · rename_i nodes' heq
      rw [heq] at hwalk
      exact hwalk
    · rename_i nodes' in_depth heq
      rw [heq] at hwalk
      simp only at hwalk ⊢
      split
      · rw [hmod, hmod]
        split
        · exact hwalk
        · rw [hmod, hwalk]
      · split
        · exact hwalk
        · rw [hmod, hwalk]

theorem ziplists_append (hk : k.Lawful) (nodes : List QuicklistNode) (zl : Sds) :
    (quicklistAppendZiplist k c nodes zl).map (QuicklistNode.ziplist k) = nodes.map (QuicklistNode.ziplist k) ++ [some zl] := by
  rw [quicklistAppendZiplist]
  split
  · rename_i h
    rw [h]
    rfl
  · rw [ziplists_compress hk, List.map_append]
    rfl

theorem elements_eq (nodes : List QuicklistNode) : nodes.flatMap (QuicklistNode.elements k) =
    (nodes.map (QuicklistNode.ziplist k)).flatMap fun z => k.ziplistEntries (z.getD []) := by
  rw [List.flatMap_map]
  rfl

/-- What is relied on for a node: its bytes can be written, and what is compressed can be decompressed. -/
def QuicklistNode.Valid (k : Codecs σ) : QuicklistNode → Prop
  | .raw zl => zl.length < RDB_LENERR
  | .lzf data sz => data.length < RDB_LENERR ∧ sz < RDB_LENERR ∧ ∃ zl, k.lzf_decompress data sz = some zl ∧ zl.length = sz

theorem reads_saveNode (hk : k.Lawful) {n : QuicklistNode} (hn : n.Valid k) :
    ∃ zl, n.ziplist k = some zl ∧ Reads (rdbGenericLoadStringObject k.toLzf) (saveNode k c n) zl := by
  cases n with
  | raw zl => exact ⟨zl, rfl, reads_string c.rdb_compression hk.toLossless hn⟩
  | lzf data sz =>
    obtain ⟨hdata, hsz, zl, hzl, rfl⟩ := hn
    exact ⟨zl, hzl, (reads_rdbSaveLzfBlob hdata hsz hzl).bind_pure⟩

theorem reads_quicklist (hk : k.Lawful) {nodes : List QuicklistNode} (hlen : nodes.length < RDB_LENERR)
    (hnodes : ∀ n ∈ nodes, n.Valid k) : ReadsAs k (loadQuicklist k c')
      (rdbSaveLen nodes.length ++ nodes.flatMap (saveNode k c)) (.quicklist nodes) := by
  have hstep : ∀ b, ∀ n ∈ nodes, Reads (do
      let zl ← rdbGenericLoadStringObject k.toLzf
      pure (quicklistAppendZiplist k c' b zl) : Load (List QuicklistNode)) (saveNode k c n)
      (quicklistAppendZiplist k c' b ((n.ziplist k).getD [])) := by
    intro b n hn
    obtain ⟨zl, hzl, hr⟩ := reads_saveNode c hk (hnodes n hn)
    rw [hzl]
    exact hr.bind_pure
  refine ⟨_, (reads_loadLenOrShort hlen).bind ((Reads.times hstep []).bind_pure), ?_⟩
  have hmap : ∀ (xs pre : List QuicklistNode), (∀ n ∈ xs, n.Valid k) →
      (xs.foldl (fun b n => quicklistAppendZiplist k c' b ((n.ziplist k).getD [])) pre).map (QuicklistNode.ziplist k) =
        pre.map (QuicklistNode.ziplist k) ++ xs.map (QuicklistNode.ziplist k) := by
    intro xs
    induction xs with
    | nil => exact fun pre _ => (List.append_nil _).symm
    | cons n xs ih =>
      intro pre hxs
      obtain ⟨zl, hzl, -⟩ := reads_saveNode c hk (hxs n List.mem_cons_self)
      rw [List.foldl_cons, ih _ fun m hm => hxs m (List.mem_cons_of_mem _ hm), ziplists_append c' hk, hzl, Option.getD_some,
        List.map_cons, hzl, List.append_assoc, List.singleton_append]
  rw [content, content, elements_eq, elements_eq, hmap nodes [] hnodes]
  rfl

end Quicklist

/-! ### Sets -/

section Sets

theorem ll2string_injective {v w : ℤ} (h : ll2string v = ll2string w) : v = w := by
  have hvalue : ∀ {n m : ℕ}, Decimal.text n = Decimal.text m → n = m := by
    intro n m hnm
    rw [← Decimal.value_text n, ← Decimal.value_text m, hnm]
  have hfirst : ∀ v : ℤ, (v = 0 ∧ ll2string v = [48]) ∨ (v < 0 ∧ ll2string v = 45 :: Decimal.text v.natAbs) ∨
      (0 < v ∧ ll2string v = Decimal.text v.natAbs) := by
    intro v
    rw [ll2string]
    split
    · exact .inl ⟨‹_›, rfl⟩
    · split
      · exact .inr (.inl ⟨‹_›, rfl⟩)
      · exact .inr (.inr ⟨by omega, rfl⟩)
  have hsigned : ∀ {n : ℕ} {x : Fin 256} {p : Sds}, n ≠ 0 → x.val < 49 → Decimal.text n ≠ x :: p := by
    intro n x p hn hx htext
    have := (Decimal.text_head htext).1
    omega
  rcases hfirst v with ⟨hv, hsv⟩ | ⟨hv, hsv⟩ | ⟨hv, hsv⟩ <;> rcases hfirst w with ⟨hw, hsw⟩ | ⟨hw, hsw⟩ | ⟨hw, hsw⟩ <;>
    rw [hsv, hsw] at h
  · omega
  · cases h
  · exact absurd h.symm (hsigned (by omega) (by decide))
  · cases h
  · have := hvalue (List.cons.inj h).2
    omega
  · exact absurd h.symm (hsigned (by omega) (by decide))
  · exact absurd h (hsigned (by omega) (by decide))
  · exact absurd h (hsigned (by omega) (by decide))
  · have := hvalue h
    omega

/-- A set in one of its encodings; a packed one has its elements once. -/
def SetIs (k : Codecs σ) (o : Robj σ) (m : Finset Sds) : Prop :=
  content k o = .set m ∧ ∀ is, o = .intset is → (k.intsetEntries is).Nodup

theorem setTypeConvert_eq {is : Sds} (h : (k.intsetEntries is).Nodup) :
    setTypeConvert k is = pure ((k.intsetEntries is).map ll2string) := by
  rw [setTypeConvert, if_pos (h.map fun a b => ll2string_injective)]

theorem mem_setAdd {elements : List Sds} {ele x : Sds} : x ∈ setAdd elements ele ↔ x = ele ∨ x ∈ elements := by
  rw [setAdd]
  split
  · rename_i h
    constructor
    · exact .inr
    · rintro (rfl | hx)
      · exact h
      · exact hx
  · rw [List.mem_append, List.mem_singleton, or_comm]

theorem loadElement_eq (hk : k.Lawful) {o : Robj σ} {m : Finset Sds} (ho : SetIs k o m) (ele : Sds) :
    ∃ o', loadElement k o ele = pure o' ∧ SetIs k o' (insert ele m) := by
  obtain ⟨hm, hnodup⟩ := ho
  cases o with
  | intset is =>
    have hm : ((k.intsetEntries is).map ll2string).toFinset = m := by
      rw [content] at hm
      injection hm
    have hn := hnodup is rfl
    cases hll : Streams.lpStringToInt64 ele with
    | some v =>
      have hv := isInt64_lpStringToInt64 hll
      refine ⟨.intset (k.intsetAdd is v), by simp only [loadElement, hll], ?_, ?_⟩
      · rw [content]
        congr 1
        ext x
        rw [Finset.mem_insert, ← hm, List.mem_toFinset, List.mem_toFinset, List.mem_map, List.mem_map]
        constructor
        · rintro ⟨y, hy, rfl⟩
          rcases (hk.intset_add _ _ _ hv).mp hy with rfl | hy
          · exact .inl (ll2string_lpStringToInt64 hll)
          · exact .inr ⟨y, hy, rfl⟩
        · rintro (rfl | ⟨y, hy, rfl⟩)
          · exact ⟨v, (hk.intset_add _ _ _ hv).mpr (.inl rfl), ll2string_lpStringToInt64 hll⟩
          · exact ⟨y, (hk.intset_add _ _ _ hv).mpr (.inr hy), rfl⟩
      · rintro is' ⟨⟩
        exact hk.intset_nodup _ _ hv hn
    | none =>
      refine ⟨.set (setAdd ((k.intsetEntries is).map ll2string) ele), ?_, ?_, nofun⟩
      · simp only [loadElement, hll, setTypeConvert_eq hn]
        rfl
      · rw [content]
        congr 1
        ext x
        rw [Finset.mem_insert, ← hm, List.mem_toFinset, mem_setAdd, List.mem_toFinset]
  | set elements =>
    have hm : elements.toFinset = m := by
      rw [content] at hm
      injection hm
    refine ⟨.set (setAdd elements ele), rfl, ?_, nofun⟩
    rw [content]
    congr 1
    ext x
    rw [Finset.mem_insert, ← hm, List.mem_toFinset, mem_setAdd, List.mem_toFinset]
  | _ => cases hm

theorem rdbSaveRawString_pos (z : Lzf) (rdb_compression : Bool) (s : Sds) :
    0 < (rdbSaveRawString z rdb_compression s).length := by
  have hlen : ∀ n : ℕ, 0 < (rdbSaveLen n).length := by
    intro n
    rw [rdbSaveLen]
    split
    · exact Nat.one_pos
    · split
      · exact Nat.two_pos
      · split <;> exact Nat.succ_pos _
  rw [rdbSaveRawString]
  split
  · exact List.length_pos_iff.mpr ‹_ ∧ _›.2
  · split
    · exact List.length_pos_iff.mpr ‹_ ∧ _ ∧ _›.2.2
    · rw [List.length_append]
      have := hlen s.length
      omega

/-- The turns that are left read the elements that are left. -/
theorem reads_loadElements (hk : k.Lawful) {len : ℕ} (hlen : len < 2 ^ 32) : ∀ (xs : List Sds) {i : ℕ} {o : Robj σ}
    {m : Finset Sds}, i + xs.length = len → SetIs k o m → (∀ x ∈ xs, x.length < RDB_LENERR) →
    ∃ o', (∀ n, xs.length < n →
      Reads (loadElements k len n i o) (xs.flatMap (rdbSaveRawString k.toLzf c.rdb_compression)) o') ∧
      SetIs k o' (m ∪ xs.toFinset) := by
  intro xs
  induction xs with
  | nil =>
    intro i o m hi ho _
    rw [List.length_nil, Nat.add_zero] at hi
    refine ⟨o, fun n hn => ?_, ?_⟩
    · obtain ⟨n, rfl⟩ : ∃ n', n = n' + 1 := ⟨n - 1, by omega⟩
      rw [loadElements, if_neg (by omega)]
      exact Reads.pure o
    · rw [List.toFinset_nil, Finset.union_empty]
      exact ho
  | cons x xs ih =>
    intro i o m hi ho hxs
    rw [List.length_cons] at hi
    obtain ⟨o1, ho1, hset⟩ := loadElement_eq hk ho x
    obtain ⟨o', hr, hset'⟩ := ih (i := (i + 1) % 2 ^ 32) (by omega) hset fun y hy => hxs y (List.mem_cons_of_mem _ hy)
    refine ⟨o', fun n hn => ?_, ?_⟩
    · rw [List.length_cons] at hn
      obtain ⟨n, rfl⟩ : ∃ n', n = n' + 1 := ⟨n - 1, by omega⟩
      rw [loadElements, if_pos (by omega), List.flatMap_cons]
      refine (reads_string c.rdb_compression hk.toLossless (hxs x List.mem_cons_self)).bind ?_
      rw [ho1]
      exact (Reads.pure o1).bind_nil (hr n (by omega))
    · rw [List.toFinset_cons, Finset.union_insert, ← Finset.insert_union]
      exact hset'

theorem flatMap_length_ge {α : Type} {f : α → Sds} (hf : ∀ x, 0 < (f x).length) (xs : List α) :
    xs.length ≤ (xs.flatMap f).length := by
  induction xs with
  | nil => exact le_refl _
  | cons x xs ih =>
    have := hf x
    rw [List.flatMap_cons, List.length_append, List.length_cons]
    omega

theorem reads_set (hk : k.Lawful) {elements : List Sds} (hlen : elements.length < 2 ^ 32)
    (helements : ∀ x ∈ elements, x.length < RDB_LENERR) : ReadsAs k (loadSet k c')
      (rdbSaveLen elements.length ++ elements.flatMap (rdbSaveRawString k.toLzf c.rdb_compression)) (.set elements) := by
  have hstart : SetIs k (if elements.length > c'.set_max_intset_entries then .set [] else .intset k.intsetNew) ∅ := by
    split
    · exact ⟨rfl, nofun⟩
    · refine ⟨by rw [content, hk.intset_new]; rfl, ?_⟩
      rintro is ⟨⟩
      rw [hk.intset_new]
      exact List.nodup_nil
  obtain ⟨o', hr, hset, -⟩ := reads_loadElements c hk hlen elements (Nat.zero_add _) hstart helements
  refine ⟨o', (reads_loadLenOrShort (hlen.trans (by decide))).bind fun v => ?_, ?_⟩
  · have hge := flatMap_length_ge (rdbSaveRawString_pos k.toLzf c.rdb_compression) elements
    exact hr _ (by rw [List.length_append]; omega) v
  · rw [hset, Finset.empty_union]
    rfl

/-- The counter of the loop wraps: no loading of so many elements ends. -/
theorem loadElements_endless {len : ℕ} (hlen : 2 ^ 32 ≤ len) : ∀ (n : ℕ) {i : ℕ} (o : Robj σ) (s : Sds), i < 2 ^ 32 →
    ∃ e, loadElements k len n i o s = .error e := by
  intro n
  induction n with
  | zero => exact fun _ _ _ => ⟨.short, rfl⟩
  | succ n ih =>
    intro i o s hi
    rw [loadElements, if_pos (by omega)]
    cases hs : rdbGenericLoadStringObject k.toLzf s with
    | error e => exact ⟨e, Reading.bind_error hs⟩
    | ok r =>
      cases ho : loadElement k o r.1 r.2 with
      | error e =>
        refine ⟨e, ?_⟩
        show (rdbGenericLoadStringObject k.toLzf s >>= fun x => _) = _
        rw [hs]
        exact Reading.bind_error ho
      | ok r' =>
        obtain ⟨e, he⟩ := ih (i := (i + 1) % 2 ^ 32) r'.1 r'.2 (Nat.mod_lt _ (by decide))
        refine ⟨e, ?_⟩
        show (rdbGenericLoadStringObject k.toLzf s >>= fun x => _) = _
        rw [hs]
        show (loadElement k o r.1 r.2 >>= fun x => _) = _
        rw [ho]
        exact he

theorem loadSet_endless {elements : List Sds} (hlen : 2 ^ 32 ≤ elements.length) (hlt : elements.length < RDB_LENERR)
    (v : Sds) : ∃ e, loadSet k c' (rdbSaveLen elements.length ++ v) = .error e := by
  rw [loadSet, (reads_loadLenOrShort hlt).bind_eq]
  exact loadElements_endless hlen _ _ _ (by decide)

theorem reads_intset (hk : k.Lawful) {is : Sds} (hlen : is.length < RDB_LENERR) (his : (k.intsetEntries is).Nodup) :
    ReadsAs k (loadIntset k c') (rdbSaveRawString k.toLzf c.rdb_compression is) (.intset is) := by
  have hr := reads_string c.rdb_compression hk.toLossless hlen
  by_cases hmax : (k.intsetEntries is).length > c'.set_max_intset_entries
  · refine ⟨.set ((k.intsetEntries is).map ll2string), hr.then_pure ?_, rfl⟩
    rw [if_pos hmax, setTypeConvert_eq his]
    rfl
  · exact ⟨.intset is, hr.then_pure (if_neg hmax), rfl⟩

end Sets

/-! ### Sorted sets and hashes -/

theorem pairUp_flat {α : Type} (l : List (α × α)) : pairUp (l.flatMap fun e => [e.1, e.2]) = l := by
  induction l with
  | nil => rfl
  | cons e l ih =>
    rw [List.flatMap_cons]
    show (e.1, e.2) :: pairUp (l.flatMap fun e => [e.1, e.2]) = _
    rw [ih]

section Zsets

variable [LinearOrder σ]

/-- The nodes are in the order of a skip list. -/
def InOrder (l : List (Sds × σ)) : Prop := l.Pairwise fun a b => Zset.key a.2 a.1 < Zset.key b.2 b.1

theorem zslBefore_iff {n : Sds × σ} {score : σ} {ele : Sds} :
    zslBefore score ele n = true ↔ Zset.key n.2 n.1 < Zset.key score ele := by
  rw [zslBefore, decide_eq_true_iff, Zset.sdscmp_eq_lt, Zset.key_lt_iff]

variable {l : List (Sds × σ)}

/-- A node that is before the others goes to the front. -/
theorem zslInsert_front {score : σ} {ele : Sds}
    (h : ∀ n ∈ l, Zset.key score ele < Zset.key n.2 n.1) : zslInsert l score ele = (ele, score) :: l := by
  cases l with
  | nil => rfl
  | cons n l =>
    have hn : ¬ zslBefore score ele n = true := fun hb => (h n List.mem_cons_self).not_gt (zslBefore_iff.mp hb)
    rw [zslInsert, List.takeWhile_cons_of_neg hn, List.dropWhile_cons_of_neg hn, List.nil_append]

/-- One behind the others goes to the end. -/
theorem zslInsert_end {score : σ} {ele : Sds}
    (h : ∀ n ∈ l, Zset.key n.2 n.1 < Zset.key score ele) : zslInsert l score ele = l ++ [(ele, score)] := by
  have hall : ∀ n ∈ l, zslBefore score ele n = true := fun n hn => zslBefore_iff.mpr (h n hn)
  rw [zslInsert, List.takeWhile_eq_self_iff.mpr hall, List.dropWhile_eq_nil_iff.mpr hall]

theorem add_reverse (h : InOrder l) :
    (l.reverse.foldl (fun zs e => zs.add e.1 e.2) ({} : Zset σ)).zsl = l := by
  induction l with
  | nil => rfl
  | cons e l ih =>
    obtain ⟨he, hl⟩ := List.pairwise_cons.mp h
    rw [List.reverse_cons, List.foldl_append, List.foldl_cons, List.foldl_nil]
    show zslInsert _ e.2 e.1 = _
    rw [ih hl, zslInsert_front he]

theorem add_forward : ∀ {zs : Zset σ}, InOrder (zs.zsl ++ l) →
    (l.foldl (fun zs e => zs.add e.1 e.2) zs).zsl = zs.zsl ++ l := by
  induction l with
  | nil => exact fun _ => (List.append_nil _).symm
  | cons e l ih =>
    intro zs h
    have hadd : (zs.add e.1 e.2).zsl = zs.zsl ++ [e] :=
      zslInsert_end fun n hn => (List.pairwise_append.mp h).2.2 n hn e List.mem_cons_self
    rw [List.foldl_cons, ih (by rw [hadd, List.append_assoc]; exact h), hadd, List.append_assoc]
    rfl

omit [LinearOrder σ] in
/-- Elements that are pushed with their scores are found with them. -/
theorem zzlPairs_push (hk : k.Lawful) (l : List (Sds × σ)) :
    zzlPairs k (l.foldl (fun zl e => k.ziplistPush (k.ziplistPush zl e.1) (k.d2string e.2)) k.ziplistNew) = l := by
  have hentries : ∀ (l : List (Sds × σ)) (zl : Sds),
      k.ziplistEntries (l.foldl (fun zl e => k.ziplistPush (k.ziplistPush zl e.1) (k.d2string e.2)) zl) =
        k.ziplistEntries zl ++ (l.map fun e => (e.1, k.d2string e.2)).flatMap fun e => [e.1, e.2] := by
    intro l
    induction l with
    | nil => exact fun _ => (List.append_nil _).symm
    | cons e l ih =>
      intro zl
      rw [List.foldl_cons, ih, hk.entries_push, hk.entries_push, List.map_cons, List.flatMap_cons]
      simp only [List.append_assoc, List.cons_append, List.nil_append]
  rw [zzlPairs, hentries, hk.entries_new, List.nil_append, pairUp_flat, List.map_map]
  refine (List.map_congr_left fun e _ => ?_).trans (List.map_id l)
  show (e.1, k.strtod (k.d2string e.2)) = e
  rw [hk.double_text]

theorem reads_zset (hk : k.Lawful) {zs : Zset σ} (hlen : zs.zsl.length < RDB_LENERR) (horder : InOrder zs.zsl)
    (helements : ∀ e ∈ zs.zsl, e.1.length < RDB_LENERR) : ReadsAs k (loadZset k c')
      (rdbSaveLen zs.zsl.length ++
        zs.zsl.reverse.flatMap fun e => rdbSaveRawString k.toLzf c.rdb_compression e.1 ++ k.doubleBytes e.2) (.zset zs) := by
  have hstep : ∀ b : Zset σ × ℕ, ∀ e ∈ zs.zsl.reverse, Reads (loadScored k b)
      (rdbSaveRawString k.toLzf c.rdb_compression e.1 ++ k.doubleBytes e.2) (b.1.add e.1 e.2, max b.2 e.1.length) := by
    intro b e he
    refine (reads_string c.rdb_compression hk.toLossless (helements e (List.mem_reverse.mp he))).bind ?_
    refine (reads_readOr _ (hk.double_length e.2)).then_pure ?_
    rw [hk.double_bytes]
  have hfold : ∀ (l : List (Sds × σ)) (b : Zset σ × ℕ),
      (l.foldl (fun b e => (b.1.add e.1 e.2, max b.2 e.1.length)) b).1 = l.foldl (fun zs e => zs.add e.1 e.2) b.1 := by
    intro l
    induction l with
    | nil => exact fun _ => rfl
    | cons e l ih => exact fun b => ih _
  have htimes := Reads.times hstep ({}, 0)
  rw [List.length_reverse] at htimes
  obtain ⟨r, hr⟩ : ∃ r, r = zs.zsl.reverse.foldl (fun b e => (b.1.add e.1 e.2, max b.2 e.1.length))
    (({}, 0) : Zset σ × ℕ) := ⟨_, rfl⟩
  have hzsl : r.1.zsl = zs.zsl := by rw [hr, hfold, add_reverse horder]
  rw [← hr] at htimes
  have hread := fun (o : Robj σ) (ho : (if r.1.zsl.length ≤ c'.zset_max_ziplist_entries ∧ r.2 ≤ c'.zset_max_ziplist_value
      then pure (zsetConvertToZiplist k r.1) else pure (.zset r.1) : Load (Robj σ)) = pure o) =>
    (reads_loadLenOrShort hlen).bind (f := fun zsetlen => Reader.times (loadScored k) zsetlen ({}, 0) >>= fun r =>
      if r.1.zsl.length ≤ c'.zset_max_ziplist_entries ∧ r.2 ≤ c'.zset_max_ziplist_value
      then pure (zsetConvertToZiplist k r.1) else pure (.zset r.1)) (htimes.then_pure ho)
  by_cases hsmall : r.1.zsl.length ≤ c'.zset_max_ziplist_entries ∧ r.2 ≤ c'.zset_max_ziplist_value
  · refine ⟨_, hread _ (if_pos hsmall), ?_⟩
    rw [zsetConvertToZiplist, content, content, zzlPairs_push hk, hzsl]
  · refine ⟨_, hread _ (if_neg hsmall), ?_⟩
    rw [content, content, hzsl]

theorem reads_zsetZiplist (hk : k.Lawful) {zl : Sds} (hlen : zl.length < RDB_LENERR) (horder : InOrder (zzlPairs k zl))
    (hnodup : ((zzlPairs k zl).map Prod.fst).Nodup) :
    ReadsAs k (loadZsetZiplist k c') (rdbSaveRawString k.toLzf c.rdb_compression zl) (.zsetZiplist zl) := by
  have hr := reads_string c.rdb_compression hk.toLossless hlen
  by_cases hmax : (k.ziplistEntries zl).length / 2 > c'.zset_max_ziplist_entries
  · have hne : zzlPairs k zl ≠ [] := by
      rw [zzlPairs]
      cases hl : k.ziplistEntries zl with
      | nil => simp [hl] at hmax
      | cons a l =>
        cases l with
        | nil => simp [hl] at hmax
        | cons b l => simp [pairUp]
    have hconv : zsetConvertToSkiplist k zl = pure (.zset ((zzlPairs k zl).foldl (fun zs e => zs.add e.1 e.2) {})) :=
      if_pos ⟨hne, hnodup⟩
    refine ⟨_, hr.then_pure ((if_pos hmax).trans hconv), ?_⟩
    have hzsl : ((zzlPairs k zl).foldl (fun zs e => zs.add e.1 e.2) ({} : Zset σ)).zsl = zzlPairs k zl := add_forward horder
    rw [content, content, hzsl]
  · exact ⟨.zsetZiplist zl, hr.then_pure (if_neg hmax), rfl⟩

end Zsets

section Hashes

/-- The fields and values of a hash, as the entries of a ziplist. -/
def flatten (pairs : List (Sds × Sds)) : List Sds := pairs.flatMap fun e => [e.1, e.2]

def saveField (k : Codecs σ) (c : Config) (e : Sds × Sds) : Sds :=
  rdbSaveRawString k.toLzf c.rdb_compression e.1 ++ rdbSaveRawString k.toLzf c.rdb_compression e.2

/-- The fields of a hash differ, and can be written. -/
structure HashValid (pairs : List (Sds × Sds)) : Prop where
  nodup : (pairs.map Prod.fst).Nodup
  lengths : ∀ e ∈ pairs, e.1.length < RDB_LENERR ∧ e.2.length < RDB_LENERR

theorem hashTypeConvert_eq {zl : Sds} {pairs : List (Sds × Sds)} (h : k.ziplistEntries zl = flatten pairs)
    (hnodup : (pairs.map Prod.fst).Nodup) : hashTypeConvert k zl = pure pairs := by
  rw [hashTypeConvert, h, flatten, pairUp_flat, if_pos hnodup]

/-- The loop that fills a ziplist takes some fields, and leaves them in it or in a dict. -/
theorem reads_loadHashZiplist (hk : k.Lawful) : ∀ (xs pre : List (Sds × Sds)) {zl : Sds}, HashValid (pre ++ xs) →
    k.ziplistEntries zl = flatten pre →
    ∃ done rest o, xs = done ++ rest ∧
      Reads (loadHashZiplist k c' xs.length zl) (done.flatMap (saveField k c)) (o, rest.length) ∧
      ((∃ zl', o = .hashZiplist zl' ∧ rest = [] ∧ k.ziplistEntries zl' = flatten (pre ++ done)) ∨
        o = .hash (pre ++ done)) := by
  intro xs
  induction xs with
  | nil =>
    intro pre zl _ hzl
    exact ⟨[], [], .hashZiplist zl, rfl, Reads.pure _, .inl ⟨zl, rfl, rfl, by rw [hzl, List.append_nil]⟩⟩
  | cons e xs ih =>
    intro pre zl hv hzl
    have he := hv.lengths e (by simp)
    have hzl' : k.ziplistEntries (k.ziplistPush (k.ziplistPush zl e.1) e.2) = flatten (pre ++ [e]) := by
      rw [hk.entries_push, hk.entries_push, hzl, flatten, flatten, List.flatMap_append]
      simp
    have hv' : HashValid (pre ++ [e] ++ xs) := by
      rw [List.append_assoc]
      exact hv
    have hfield := reads_string c.rdb_compression hk.toLossless he.1
    have hvalue := reads_string c.rdb_compression hk.toLossless he.2
    by_cases hbig : e.1.length > c'.hash_max_ziplist_value ∨ e.2.length > c'.hash_max_ziplist_value
    · have hnodup : ((pre ++ [e]).map Prod.fst).Nodup := by
        have := hv'.nodup
        rw [List.map_append] at this
        exact (List.nodup_append.mp this).1
      refine ⟨[e], xs, .hash (pre ++ [e]), rfl, ?_, .inr rfl⟩
      rw [List.flatMap_cons, List.flatMap_nil, List.append_nil, List.length_cons, loadHashZiplist]
      refine hfield.bind (hvalue.then_pure ?_)
      rw [if_pos hbig, hashTypeConvert_eq hzl' hnodup]
      rfl
    · obtain ⟨done, rest, o, rfl, hr, ho⟩ := ih (pre ++ [e]) hv' hzl'
      refine ⟨e :: done, rest, o, rfl, ?_, ?_⟩
      · rw [List.flatMap_cons, List.length_cons, loadHashZiplist, saveField, List.append_assoc]
        refine hfield.bind (hvalue.bind ?_)
        rw [if_neg hbig]
        exact hr
      · rw [List.append_assoc, List.singleton_append] at ho
        exact ho

/-- The loop that fills a dict takes the other fields. -/
theorem reads_loadFields (hk : k.Lawful) (xs pre : List (Sds × Sds)) (hv : HashValid (pre ++ xs)) :
    Reads (Reader.times (loadField k) xs.length pre) (xs.flatMap (saveField k c)) (pre ++ xs) := by
  have hstep : ∀ b e ys, b ++ e :: ys = pre ++ xs →
      ∃ b', Reads (loadField k b) (saveField k c e) b' ∧ b' ++ ys = pre ++ xs := by
    intro b e ys hb
    rw [← hb] at hv
    have he := hv.lengths e (by simp)
    have hnew : e.1 ∉ b.map Prod.fst := by
      intro hmem
      have hnodup := hv.nodup
      rw [List.map_append] at hnodup
      exact (List.nodup_append.mp hnodup).2.2 _ hmem e.1 (by simp) rfl
    refine ⟨b ++ [e], ?_, by rw [List.append_assoc]; exact hb⟩
    refine (reads_string c.rdb_compression hk.toLossless he.1).bind
      ((reads_string c.rdb_compression hk.toLossless he.2).then_pure ?_)
    rw [if_neg hnew]
  obtain ⟨b, hr, hb⟩ := Reads.times_inv (fun b ys => b ++ ys = pre ++ xs) hstep xs pre rfl
  rw [List.append_nil] at hb
  exact hb ▸ hr

theorem reads_hash (hk : k.Lawful) {pairs : List (Sds × Sds)} (hlen : pairs.length < RDB_LENERR) (hv : HashValid pairs) :
    ReadsAs k (loadHash k c') (rdbSaveLen pairs.length ++ pairs.flatMap (saveField k c)) (.hash pairs) := by
  by_cases hmax : pairs.length > c'.hash_max_ziplist_entries
  · refine ⟨.hash pairs, (reads_loadLenOrShort hlen).bind ?_, rfl⟩
    rw [if_pos hmax]
    refine (Reads.pure _).bind_nil ?_
    exact (reads_loadFields c hk pairs [] hv).bind_pure
  · obtain ⟨done, rest, o, rfl, hr, ho⟩ := reads_loadHashZiplist c c' hk pairs [] hv hk.entries_new
    rcases ho with ⟨zl, rfl, rfl, hzl⟩ | rfl
    · refine ⟨.hashZiplist zl, (reads_loadLenOrShort hlen).bind ?_, ?_⟩
      · rw [if_neg hmax, List.append_nil]
        rw [List.append_nil] at hr
        exact hr.then_pure rfl
      · rw [content, content, hzl, flatten, pairUp_flat, List.nil_append, List.append_nil]
    · refine ⟨.hash (done ++ rest), (reads_loadLenOrShort hlen).bind ?_, rfl⟩
      rw [if_neg hmax, List.flatMap_append]
      refine hr.bind ?_
      exact (reads_loadFields c hk rest done hv).bind_pure

theorem reads_hashZiplist (hk : k.Lawful) {zl : Sds} (hlen : zl.length < RDB_LENERR)
    (hnodup : ((pairUp (k.ziplistEntries zl)).map Prod.fst).Nodup) :
    ReadsAs k (loadHashOfZiplist k c') (rdbSaveRawString k.toLzf c.rdb_compression zl) (.hashZiplist zl) := by
  have hr := reads_string c.rdb_compression hk.toLossless hlen
  by_cases hmax : (k.ziplistEntries zl).length / 2 > c'.hash_max_ziplist_entries
  · have hconv : hashTypeConvert k zl = pure (pairUp (k.ziplistEntries zl)) := if_pos hnodup
    refine ⟨.hash (pairUp (k.ziplistEntries zl)), hr.then_pure ?_, rfl⟩
    rw [if_pos hmax, hconv]
    rfl
  · exact ⟨.hashZiplist zl, hr.then_pure (if_neg hmax), rfl⟩

end Hashes

end RedisZk.Rdb
