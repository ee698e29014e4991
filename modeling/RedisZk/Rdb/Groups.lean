/-
# Streams are read back

The PEL of a group is written with its NACKs but without their consumers, and the PELs of the
consumers as IDs only, which are looked up in that of the group while loading. A group that is
`Sound` is read back as a group with the same entries pending, for the same consumers, and
so is a stream.

Key definitions: `Partial`, `GroupValid`, `StreamValid`.
Key theorems: `reads_loadPending`, `reads_loadOwned`, `reads_loadConsumer`, `reads_stream`.
-/
import RedisZk.Rdb.Values
import RedisZk.Streams.Owners

namespace RedisZk.Rdb

open Streams (Sds StreamID StreamCG StreamNACK StreamConsumer GroupedStream Listpack IsInt64 Sound U64)
open Endian (big ofBig)
open Reading (Reader Reads)
open Function (update)

variable {σ : Type} {k : Codecs σ} (c : Config)

/-! ### IDs -/

theorem reads_orExit {α : Type} {r : Load α} {s : Sds} {a : α} (hr : Reads r s a) : Reads (orExit r) s a := by
  intro v
  rw [orExit, hr]
  rfl

theorem reads_onGroup {α : Type} {r : Except Streams.Abort α} {a : α} (hr : r = .ok a) : Reads (onGroup r) [] a := by
  intro v
  rw [hr]
  rfl

theorem u64_lt (x : U64) : x.val < 2 ^ 64 := x.isLt

theorem rawId_length (id : StreamID) : (rawId id).length = 16 := by
  rw [rawId, List.length_append, Endian.length_big, Endian.length_big]

theorem idOfRaw_rawId (id : StreamID) : idOfRaw (rawId id) = id := by
  have hms := u64_lt id.ms
  have hseq := u64_lt id.seq
  have htake : (rawId id).take 8 = big 8 id.ms.val := List.take_left' (Endian.length_big _ _)
  have hdrop : (rawId id).drop 8 = big 8 id.seq.val := List.drop_left' (Endian.length_big _ _)
  rw [idOfRaw, htake, hdrop, Endian.ofBig_big (by omega), Endian.ofBig_big (by omega)]
  have hback : ∀ x : U64, Fin.ofNat (2 ^ 64) x.val = x := fun x => Fin.ext (Nat.mod_eq_of_lt x.isLt)
  show (⟨Fin.ofNat (2 ^ 64) id.ms.val, Fin.ofNat (2 ^ 64) id.seq.val⟩ : StreamID) = id
  rw [hback, hback]

theorem reads_rawId {e : LoadError} (id : StreamID) : Reads (readOr e 16) (rawId id) (rawId id) :=
  reads_readOr _ (rawId_length id)

theorem reads_loadId (id : StreamID) : Reads loadId (saveId id) id := by
  have hback : ∀ x : U64, Fin.ofNat (2 ^ 64) x.val = x := fun x => Fin.ext (Nat.mod_eq_of_lt x.isLt)
  refine (reads_rdbLoadLen (u64_lt id.ms)).bind ((reads_rdbLoadLen (u64_lt id.seq)).then_pure ?_)
  show pure (⟨Fin.ofNat (2 ^ 64) id.ms.val, Fin.ofNat (2 ^ 64) id.seq.val⟩ : StreamID) = _
  rw [hback, hback]

/-! ### Listpacks -/

/-- The listpacks of a stream are not empty, and can be written. -/
def ListpackValid (k : Codecs σ) (lp : Listpack) : Prop := lp ≠ [] ∧ (k.lpBlob lp).length < RDB_LENERR

/-- Bindings of a map with their keys in order, as far as they are loaded. -/
def Built {κ ν : Type} [LinearOrder κ] (m m' : SortedMap κ ν) (rest : List (κ × ν)) : Prop :=
  ∃ done, done ++ rest = m.entries ∧ ∀ e, e ∈ m'.entries ↔ e ∈ done

section Built

variable {κ ν : Type} [LinearOrder κ] {m m' : SortedMap κ ν} {x : κ × ν} {rest : List (κ × ν)}

theorem Built.start (m : SortedMap κ ν) : Built m .empty m.entries :=
  ⟨[], rfl, fun _ => ⟨fun h => h, fun h => h⟩⟩

/-- The next key is not there yet. -/
theorem Built.new (h : Built m m' (x :: rest)) : m'.find x.1 = none := by
  obtain ⟨done, hdone, hmem⟩ := h
  have hs := m.sorted
  rw [← hdone] at hs
  rw [SortedMap.find_eq_none_iff]
  intro e he
  exact ((List.pairwise_append.mp hs).2.2 e ((hmem e).mp he) x List.mem_cons_self).ne

theorem Built.insert (h : Built m m' (x :: rest)) : Built m (m'.insert x.1 x.2) rest := by
  have hnew := h.new
  obtain ⟨done, hdone, hmem⟩ := h
  refine ⟨done ++ [x], by rw [List.append_assoc]; exact hdone, fun e => ?_⟩
  rw [SortedMap.mem_insert, List.mem_append, List.mem_singleton, ← hmem]
  constructor
  · rintro (rfl | ⟨he, -⟩)
    · exact .inr rfl
    · exact .inl he
  · rintro (he | rfl)
    · exact .inr ⟨he, SortedMap.find_eq_none_iff.mp hnew e he⟩
    · exact .inl rfl

theorem Built.find_eq (h : Built m m' []) : m'.find = m.find := by
  obtain ⟨done, hdone, hmem⟩ := h
  rw [List.append_nil] at hdone
  subst hdone
  funext κ'
  ext v
  rw [SortedMap.find_eq_some_iff, SortedMap.find_eq_some_iff, hmem]

end Built

theorem reads_listpacks (hk : k.Lawful) {rax : SortedMap StreamID Listpack}
    (hlp : ∀ e ∈ rax.entries, ListpackValid k e.2) :
    ∃ rax', Reads (Reader.times (loadListpack k) rax.entries.length .empty) (rax.entries.flatMap (saveListpack k c)) rax' ∧
      rax'.find = rax.find := by
  have hstep : ∀ b e rest, Built rax b (e :: rest) →
      ∃ b', Reads (loadListpack k b) (saveListpack k c e) b' ∧ Built rax b' rest := by
    intro b e rest hb
    have he : e ∈ rax.entries := by
      obtain ⟨done, hdone, -⟩ := hb
      rw [← hdone]
      simp
    obtain ⟨hne, hlen⟩ := hlp e he
    have hkey : Reads (rdbGenericLoadStringObject k.toLzf) (rdbSaveRawString k.toLzf c.rdb_compression (rawId e.1)) (rawId e.1) :=
      reads_string c.rdb_compression hk.toLossless (by rw [rawId_length]; decide)
    refine ⟨b.insert e.1 e.2, ?_, hb.insert⟩
    refine (reads_orExit hkey).bind ?_
    rw [if_neg (by rw [rawId_length]; decide)]
    refine (reads_string c.rdb_compression hk.toLossless hlen).then_pure ?_
    simp only [hk.lp_blob, idOfRaw_rawId]
    rw [if_neg hne, if_neg (by rw [hb.new]; decide)]
  obtain ⟨rax', hr, hbuilt⟩ := Reads.times_inv (Built rax) hstep rax.entries .empty (.start rax)
  exact ⟨rax', hr, hbuilt.find_eq⟩

/-! ### Pending entries -/

/-- A group that is loaded in part: a pending entry has a NACK of its own, whose consumer is there if
it has one. -/
structure Partial (g : StreamCG) : Prop where
  nack : ∀ {id n}, g.pel.find id = some n → n < g.fresh ∧
    ∃ nk, g.nacks n = some nk ∧ ∀ a, nk.consumer = some a → ∃ c, g.heap a = some c
  single : ∀ {id id' n}, g.pel.find id = some n → g.pel.find id' = some n → id = id'
  member : ∀ {name a}, g.consumers.find name = some a → ∃ c, g.heap a = some c ∧ c.name = name
  low : ∀ {a}, g.fresh ≤ a → g.heap a = none

section Pending

variable {g : StreamCG} {id : StreamID} {t now : ℤ} {count : ℕ}

theorem Partial.start (last_id : StreamID) : Partial { last_id := last_id } where
  nack h := by cases h
  single h := by cases h
  member h := by cases h
  low _ := rfl

theorem pendingOf_of_nack {n : ℕ} {nk : StreamNACK} (hn : g.pel.find id = some n) (hnk : g.nacks n = some nk) :
    pendingOf g id = some (nk.delivery_time, nk.delivery_count, nk.consumer.bind fun a => (g.heap a).map (·.name)) := by
  rw [pendingOf, hn, Option.bind_some, hnk, Option.map_some]

theorem pendingOf_eq_none (hn : g.pel.find id = none) : pendingOf g id = none := by
  rw [pendingOf, hn, Option.bind_none]

/-- Where the NACK of an entry and the consumer are as before, the entry is pending as before. -/
theorem Partial.pendingOf_eq (h : Partial g) {g' : StreamCG} (hpel : g'.pel.find id = g.pel.find id)
    (hnacks : ∀ n, g.pel.find id = some n → g'.nacks n = g.nacks n)
    (hheap : ∀ a c, g.heap a = some c → (g'.heap a).map (·.name) = some c.name) : pendingOf g' id = pendingOf g id := by
  cases hn : g.pel.find id with
  | none => rw [pendingOf_eq_none hn, pendingOf_eq_none (hpel.trans hn)]
  | some n =>
    obtain ⟨-, nk, hnk, hown⟩ := h.nack hn
    rw [pendingOf_of_nack hn hnk, pendingOf_of_nack (hpel.trans hn) ((hnacks n hn).trans hnk)]
    cases ha : nk.consumer with
    | none => rfl
    | some a =>
      obtain ⟨c, hc⟩ := hown a ha
      rw [Option.bind_some, Option.bind_some, hheap a c hc, hc, Option.map_some]

variable (now) in
theorem reads_loadPending (h : Partial g) (hnew : g.pel.find id = none) (ht : IsInt64 t) (hcount : count < 2 ^ 64) :
    ∃ g', Reads (loadPending now g) (rawId id ++ (rdbSaveMillisecondTime t ++ rdbSaveLen count)) g' ∧ Partial g' ∧
      pendingOf g' = update (pendingOf g) id (some (t, count, none)) ∧ seenOf g' = seenOf g ∧ g'.last_id = g.last_id ∧
      g'.pel = g.pel.insert id g.fresh ∧ g'.consumers = g.consumers := by
  obtain ⟨g', hg'⟩ : ∃ g' : StreamCG, g' = { (Streams.streamCreateNACK g now none).1.setNack g.fresh
      { delivery_time := t, delivery_count := count, consumer := none } with pel := g.pel.insert id g.fresh } := ⟨_, rfl⟩
  have hpel : g'.pel = g.pel.insert id g.fresh := by rw [hg']
  have hheap : g'.heap = g.heap := by rw [hg']; rfl
  have hconsumers : g'.consumers = g.consumers := by rw [hg']; rfl
  have hlast : g'.last_id = g.last_id := by rw [hg']; rfl
  have hfresh : g'.fresh = g.fresh + 1 := by rw [hg']; rfl
  have hself : g'.nacks g.fresh = some { delivery_time := t, delivery_count := count, consumer := none } := by
    rw [hg']
    exact if_pos rfl
  have hothers : ∀ n, n ≠ g.fresh → g'.nacks n = g.nacks n := by
    intro n hn
    rw [hg']
    show (if n = g.fresh then _ else if n = g.fresh then _ else g.nacks n) = _
    rw [if_neg hn, if_neg hn]
  have hlow : ∀ {id' n}, g.pel.find id' = some n → n ≠ g.fresh := fun hn => (h.nack hn).1.ne
  refine ⟨g', ?_, ⟨?_, ?_, ?_, ?_⟩, ?_, ?_, hlast, hpel, hconsumers⟩
  · refine (reads_rawId id).bind ((reads_rdbLoadMillisecondTime ht).bind ((reads_rdbLoadLen hcount).then_pure ?_))
    rw [idOfRaw_rawId, if_neg]
    · rw [hg']
      rfl
    · show ¬ (g.pel.find id).isSome = true
      rw [hnew]
      decide
  · intro id' n hn
    rw [hpel, SortedMap.find_insert] at hn
    rw [hfresh]
    split at hn
    · cases hn
      exact ⟨by omega, _, hself, fun a ha => by cases ha⟩
    · obtain ⟨hlt, nk, hnk, hown⟩ := h.nack hn
      refine ⟨by omega, nk, (hothers n hlt.ne).trans hnk, fun a ha => ?_⟩
      rw [hheap]
      exact hown a ha
  · intro id1 id2 n h1 h2
    rw [hpel, SortedMap.find_insert] at h1 h2
    split at h1
    · rename_i he1
      split at h2
      · rename_i he2
        rw [he1, he2]
      · cases h1
        exact absurd rfl (hlow h2)
    · split at h2
      · cases h2
        exact absurd rfl (hlow h1)
      · exact h.single h1 h2
  · rw [hheap, hconsumers]
    exact h.member
  · intro a ha
    rw [hheap]
    exact h.low (by omega)
  · funext id'
    by_cases hid : id' = id
    · subst hid
      have hfind : g'.pel.find id' = some g.fresh := by rw [hpel, SortedMap.find_insert_self]
      rw [Function.update_self, pendingOf_of_nack hfind hself]
      rfl
    · rw [Function.update_of_ne hid]
      refine h.pendingOf_eq (by rw [hpel, SortedMap.find_insert_of_ne _ _ hid]) (fun n hn => hothers n (hlow hn)) ?_
      intro a c hc
      rw [hheap, hc, Option.map_some]
  · funext name
    rw [seenOf, seenOf, hconsumers, hheap]

/-- The consumer at `a` gets a pending entry. -/
theorem reads_loadOwned (h : Partial g) {a : ℕ} {c : StreamConsumer} {o : Option Sds} (hc : g.heap a = some c)
    (hid : pendingOf g id = some (t, count, o)) (hnew : c.pel.find id = none) :
    ∃ g' n, Reads (loadOwned a g) (rawId id) g' ∧ Partial g' ∧
      pendingOf g' = update (pendingOf g) id (some (t, count, some c.name)) ∧
      g'.heap = update g.heap a (some { c with pel := c.pel.insert id n }) ∧
      g'.consumers = g.consumers ∧ g'.last_id = g.last_id := by
  have hn : ∃ n, g.pel.find id = some n := by
    cases hn : g.pel.find id with
    | none =>
      rw [pendingOf_eq_none hn] at hid
      cases hid
    | some n => exact ⟨n, rfl⟩
  obtain ⟨n, hn⟩ := hn
  obtain ⟨hlt, nk, hnk, hown⟩ := h.nack hn
  rw [pendingOf_of_nack hn hnk] at hid
  obtain ⟨rfl, rfl, -⟩ : nk.delivery_time = t ∧ nk.delivery_count = count ∧ _ := by
    have := Option.some.inj hid
    exact ⟨congrArg Prod.fst this, congrArg (·.2.1) this, trivial⟩
  obtain ⟨g', hg'⟩ : ∃ g' : StreamCG, g' = (g.setNack n { nk with consumer := some a }).setConsumer a
    { c with pel := c.pel.insert id n } := ⟨_, rfl⟩
  have hpel : g'.pel = g.pel := by rw [hg']; rfl
  have hheap : g'.heap = update g.heap a (some { c with pel := c.pel.insert id n }) := by
    funext b
    rw [hg']
    by_cases hb : b = a
    · rw [hb, Function.update_self]
      exact if_pos rfl
    · rw [Function.update_of_ne hb]
      exact if_neg hb
  have hconsumers : g'.consumers = g.consumers := by rw [hg']; rfl
  have hlast : g'.last_id = g.last_id := by rw [hg']; rfl
  have hfresh : g'.fresh = g.fresh := by rw [hg']; rfl
  have hself : g'.nacks n = some { nk with consumer := some a } := by
    rw [hg']
    exact if_pos rfl
  have hothers : ∀ m, m ≠ n → g'.nacks m = g.nacks m := by
    intro m hm
    rw [hg']
    exact if_neg hm
  have hnames : ∀ b d, g.heap b = some d → (g'.heap b).map (·.name) = some d.name := by
    intro b d hd
    rw [hheap]
    by_cases hb : b = a
    · subst hb
      rw [Function.update_self, Option.map_some]
      rw [hc] at hd
      cases hd
      rfl
    · rw [Function.update_of_ne hb, hd, Option.map_some]
  have hstays : ∀ b d, g.heap b = some d → ∃ d', g'.heap b = some d' ∧ d'.name = d.name := fun b d hd =>
    Option.map_eq_some_iff.mp (hnames b d hd)
  refine ⟨g', n, ?_, ⟨?_, ?_, ?_, ?_⟩, ?_, hheap, hconsumers, hlast⟩
  · have hnack : g.nack n = .ok nk := Streams.nack_eq hnk
    have hconsumer : (g.setNack n { nk with consumer := some a }).consumer a = .ok c := Streams.consumer_eq hc
    have hlink : (g.setNack n { nk with consumer := some a }).link a id n = .ok g' := by
      rw [hg']
      exact Streams.link_eq (g := g.setNack n { nk with consumer := some a }) hc
    rw [← List.append_nil (rawId id)]
    refine (reads_rawId id).bind ?_
    rw [idOfRaw_rawId]
    simp only [hn]
    refine (reads_onGroup hnack).bind_nil ((reads_onGroup hconsumer).bind_nil ?_)
    rw [if_neg (by rw [hnew]; decide)]
    exact reads_onGroup hlink
  · intro id' m hm
    rw [hpel] at hm
    obtain ⟨hmlt, mk, hmk, hmown⟩ := h.nack hm
    rw [hfresh]
    refine ⟨hmlt, ?_⟩
    by_cases hmn : m = n
    · subst hmn
      refine ⟨_, hself, fun b hb => ?_⟩
      cases hb
      obtain ⟨d, hd, -⟩ := hstays a c hc
      exact ⟨d, hd⟩
    · refine ⟨mk, (hothers m hmn).trans hmk, fun b hb => ?_⟩
      obtain ⟨d, hd⟩ := hmown b hb
      obtain ⟨d', hd', -⟩ := hstays b d hd
      exact ⟨d', hd'⟩
  · rw [hpel]
    exact h.single
  · intro name b hb
    rw [hconsumers] at hb
    obtain ⟨d, hd, hname⟩ := h.member hb
    obtain ⟨d', hd', hname'⟩ := hstays b d hd
    exact ⟨d', hd', hname'.trans hname⟩
  · intro b hb
    rw [hfresh] at hb
    have hba : b ≠ a := by
      rintro rfl
      rw [h.low hb] at hc
      cases hc
    rw [hheap, Function.update_of_ne hba]
    exact h.low hb
  · funext id'
    by_cases hid' : id' = id
    · subst hid'
      have hname := hnames a c hc
      rw [Function.update_self, pendingOf_of_nack (by rw [hpel]; exact hn) hself]
      show some (nk.delivery_time, nk.delivery_count, (g'.heap a).map (·.name)) = _
      rw [hname]
    · rw [Function.update_of_ne hid']
      refine h.pendingOf_eq (by rw [hpel]) (fun m hm => hothers m ?_) hnames
      rintro rfl
      exact hid' (h.single hm hn)

end Pending

/-! ### Consumers -/

section Consumers

variable {g : StreamCG} {name : Sds} {seen now : ℤ}

/-- The entries that a consumer is said to own. -/
def ownedBy (pending : StreamID → Option Pending) (ids : StreamID → Bool) (name : Sds) (id : StreamID) : Option Pending :=
  if ids id then (pending id).map fun p => (p.1, p.2.1, some name) else pending id

/-- The PEL of a consumer that is loaded in part. -/
structure OwnsSoFar (g g' : StreamCG) (a : ℕ) (name : Sds) (seen : ℤ) (pel : SortedMap StreamID ℕ)
    (rest : List (StreamID × ℕ)) : Prop where
  sound : Partial g'
  consumers : g'.consumers = g.consumers
  last_id : g'.last_id = g.last_id
  others : ∀ b, b ≠ a → g'.heap b = g.heap b
  done : ∃ done c, done ++ rest = pel.entries ∧ g'.heap a = some c ∧ c.name = name ∧ c.seen_time = seen ∧
    (∀ id, (c.pel.find id).isSome ↔ id ∈ done.map Prod.fst) ∧
    pendingOf g' = ownedBy (pendingOf g) (fun id => id ∈ done.map Prod.fst) name

theorem OwnsSoFar.step {g' : StreamCG} {a : ℕ} {pel : SortedMap StreamID ℕ} {e : StreamID × ℕ} {rest : List (StreamID × ℕ)}
    (h : OwnsSoFar g g' a name seen pel (e :: rest)) (hpending : ∃ p, pendingOf g e.1 = some p) :
    ∃ g'', Reads (loadOwned a g') (rawId e.1) g'' ∧ OwnsSoFar g g'' a name seen pel rest := by
  obtain ⟨done, c, hdone, hc, hname, hseen, hpel, hpend⟩ := h.done
  have hnotin : e.1 ∉ done.map Prod.fst := by
    intro hmem
    obtain ⟨x, hx, heq⟩ := List.mem_map.mp hmem
    have hs := pel.sorted
    rw [← hdone] at hs
    exact ((List.pairwise_append.mp hs).2.2 x hx e List.mem_cons_self).ne heq
  obtain ⟨⟨t, count, o⟩, hp⟩ := hpending
  have hcur : pendingOf g' e.1 = some (t, count, o) := by
    rw [hpend, ownedBy, if_neg (by simpa using hnotin), hp]
  have hnew : c.pel.find e.1 = none := by
    cases hf : c.pel.find e.1 with
    | none => rfl
    | some n => exact absurd ((hpel e.1).mp (by rw [hf]; rfl)) hnotin
  obtain ⟨g'', n, hr, hsound, hpend', hheap, hconsumers, hlast⟩ := reads_loadOwned h.sound hc hcur hnew
  refine ⟨g'', hr, hsound, hconsumers.trans h.consumers, hlast.trans h.last_id, fun b hb => ?_,
    done ++ [e], { c with pel := c.pel.insert e.1 n }, by rw [List.append_assoc]; exact hdone, ?_, hname, hseen, fun id => ?_, ?_⟩
  · rw [hheap, Function.update_of_ne hb]
    exact h.others b hb
  · rw [hheap, Function.update_self]
  · show ((c.pel.insert e.1 n).find id).isSome ↔ _
    rw [SortedMap.find_insert, List.map_append, List.mem_append, ← hpel]
    split
    · rename_i hid
      simp [hid]
    · rename_i hid
      simp [hid]
  · funext id
    rw [hpend', hname]
    by_cases hid : id = e.1
    · subst hid
      rw [Function.update_self, ownedBy, if_pos (by simp), hp]
      rfl
    · rw [Function.update_of_ne hid, hpend, ownedBy, ownedBy]
      have hiff : (id ∈ (done ++ [e]).map Prod.fst) ↔ id ∈ done.map Prod.fst := by
        rw [List.map_append, List.mem_append]
        constructor
        · rintro (h | h)
          · exact h
          · exact absurd (List.mem_singleton.mp h) hid
        · exact .inl
      simp only [hiff]

variable (now) in
/-- A new consumer. -/
theorem reads_loadConsumer (hk : k.Lawful) (h : Partial g) (hnew : g.consumers.find name = none)
    (hname : name.length < RDB_LENERR) (hseen : IsInt64 seen) {pel : SortedMap StreamID ℕ}
    (hlen : pel.entries.length < 2 ^ 64) (hpel : ∀ e ∈ pel.entries, ∃ p, pendingOf g e.1 = some p) :
    ∃ g', Reads (loadConsumer k now g) (rdbSaveRawString k.toLzf c.rdb_compression name ++
        (rdbSaveMillisecondTime seen ++ (rdbSaveLen pel.entries.length ++ pel.entries.flatMap fun e => rawId e.1))) g' ∧
      Partial g' ∧ seenOf g' = update (seenOf g) name (some (seen, fun id => (pel.find id).isSome)) ∧
      pendingOf g' = ownedBy (pendingOf g) (fun id => (pel.find id).isSome) name ∧ g'.last_id = g.last_id ∧
      g'.consumers = g.consumers.insert name g.fresh := by
  have hfree : g.heap g.fresh = none := h.low le_rfl
  obtain ⟨g1, hg1⟩ : ∃ g1 : StreamCG, g1 = { g.setConsumer g.fresh { seen_time := now, name := name } with
    consumers := g.consumers.insert name g.fresh, fresh := g.fresh + 1 } := ⟨_, rfl⟩
  obtain ⟨g2, hg2⟩ : ∃ g2, g2 = g1.setConsumer g.fresh { seen_time := seen, name := name } := ⟨_, rfl⟩
  have hlookup : Streams.streamLookupConsumer g now name = .ok (g1, g.fresh) := by
    rw [Streams.streamLookupConsumer, hnew, hg1]
  have hheap1 : g1.heap g.fresh = some { seen_time := now, name := name } := by
    rw [hg1]
    exact if_pos rfl
  have hheap2 : g2.heap = update g.heap g.fresh (some { seen_time := seen, name := name }) := by
    funext b
    rw [hg2, hg1]
    by_cases hb : b = g.fresh
    · rw [hb, Function.update_self]
      exact if_pos rfl
    · rw [Function.update_of_ne hb]
      show (if b = g.fresh then _ else if b = g.fresh then _ else g.heap b) = _
      rw [if_neg hb, if_neg hb]
  have hpel2 : g2.pel = g.pel := by rw [hg2, hg1]; rfl
  have hnacks2 : g2.nacks = g.nacks := by rw [hg2, hg1]; rfl
  have hconsumers2 : g2.consumers = g.consumers.insert name g.fresh := by rw [hg2, hg1]; rfl
  have hlast2 : g2.last_id = g.last_id := by rw [hg2, hg1]; rfl
  have hfresh2 : g2.fresh = g.fresh + 1 := by rw [hg2, hg1]; rfl
  have hkeep : ∀ b d, g.heap b = some d → g2.heap b = some d := by
    intro b d hd
    have hb : b ≠ g.fresh := by
      rintro rfl
      rw [hfree] at hd
      cases hd
    rw [hheap2, Function.update_of_ne hb, hd]
  have hself : g2.heap g.fresh = some { seen_time := seen, name := name } := by rw [hheap2, Function.update_self]
  have hsound2 : Partial g2 := by
    refine ⟨?_, ?_, ?_, ?_⟩
    · intro id n hn
      rw [hpel2] at hn
      obtain ⟨hlt, nk, hnk, hown⟩ := h.nack hn
      rw [hfresh2, hnacks2]
      refine ⟨by omega, nk, hnk, fun a ha => ?_⟩
      obtain ⟨d, hd⟩ := hown a ha
      exact ⟨d, hkeep a d hd⟩
    · rw [hpel2]
      exact h.single
    · intro name' a ha
      rw [hconsumers2, SortedMap.find_insert] at ha
      split at ha
      · rename_i heq
        cases ha
        exact ⟨_, hself, heq.symm⟩
      · obtain ⟨d, hd, hdname⟩ := h.member ha
        exact ⟨d, hkeep a d hd, hdname⟩
    · intro a ha
      rw [hfresh2] at ha
      rw [hheap2, Function.update_of_ne (by omega)]
      exact h.low (by omega)
  have hpend2 : pendingOf g2 = pendingOf g := by
    funext id
    exact h.pendingOf_eq (by rw [hpel2]) (fun n _ => by rw [hnacks2]) fun b d hd => by rw [hkeep b d hd, Option.map_some]
  have hstart : OwnsSoFar g2 g2 g.fresh name seen pel pel.entries :=
    ⟨hsound2, rfl, rfl, fun _ _ => rfl, [], _, rfl, hself, rfl, rfl, fun _ => iff_of_false Bool.false_ne_true List.not_mem_nil, by funext id; simp [ownedBy]⟩
  have hstep : ∀ b e rest, (OwnsSoFar g2 b g.fresh name seen pel (e :: rest)) →
      ∃ b', Reads (loadOwned g.fresh b) (rawId e.1) b' ∧ OwnsSoFar g2 b' g.fresh name seen pel rest := by
    intro b e rest hb
    refine hb.step ?_
    obtain ⟨done, -, hdone, -⟩ := hb.done
    rw [hpend2]
    exact hpel e (by rw [← hdone]; simp)
  obtain ⟨g', hr, hend⟩ := Reads.times_inv (fun b rest => OwnsSoFar g2 b g.fresh name seen pel rest) hstep pel.entries g2 hstart
  obtain ⟨done, d, hdone, hd, hdname, hdseen, hdpel, hpend⟩ := hend.done
  rw [List.append_nil] at hdone
  subst hdone
  have hids : ∀ id, (id ∈ pel.entries.map Prod.fst) ↔ (pel.find id).isSome := by
    intro id
    rw [List.mem_map, Option.isSome_iff_exists]
    constructor
    · rintro ⟨e, he, rfl⟩
      exact ⟨e.2, SortedMap.find_eq_some_iff.mpr he⟩
    · rintro ⟨n, hn⟩
      exact ⟨(id, n), SortedMap.find_eq_some_iff.mp hn, rfl⟩
  refine ⟨g', ?_, hend.sound, ?_, ?_, hend.last_id.trans hlast2, hend.consumers.trans hconsumers2⟩
  · have hconsumer : g1.consumer g.fresh = .ok { seen_time := now, name := name } := Streams.consumer_eq hheap1
    refine (reads_orExit (reads_string c.rdb_compression hk.toLossless hname)).bind ?_
    refine (reads_onGroup hlookup).bind_nil ((reads_rdbLoadMillisecondTime hseen).bind ((reads_onGroup hconsumer).bind_nil ?_))
    refine (reads_rdbLoadLen hlen).bind ?_
    rw [hg2] at hr
    exact hr
  · funext name'
    rw [seenOf, hend.consumers, hconsumers2, SortedMap.find_insert]
    by_cases hn : name' = name
    · rw [if_pos hn, hn, Function.update_self, Option.bind_some, hd, Option.map_some, hdseen]
      congr 2
      funext id
      rw [Bool.eq_iff_iff, hdpel, hids]
    · rw [if_neg hn, Function.update_of_ne hn, seenOf]
      cases hf : g.consumers.find name' with
      | none => rfl
      | some a =>
        obtain ⟨d', hd', -⟩ := h.member hf
        have ha : a ≠ g.fresh := by
          rintro rfl
          rw [hfree] at hd'
          cases hd'
        rw [Option.bind_some, Option.bind_some, hend.others a ha, hkeep a d' hd', hd']
  · rw [hpend, hpend2]
    funext id
    rw [ownedBy, ownedBy]
    simp only [hids, Bool.decide_eq_true]

end Consumers

/-! ### Groups -/

/-- A group whose two indices agree, and which can be written. -/
structure GroupValid (g : StreamCG) : Prop where
  sound : Sound g
  pel_length : g.pel.entries.length < 2 ^ 64
  consumers_length : g.consumers.entries.length < 2 ^ 64
  nacks : ∀ {n nk}, g.nacks n = some nk → IsInt64 nk.delivery_time ∧ nk.delivery_count < 2 ^ 64
  members : ∀ {a c}, g.heap a = some c → c.name.length < RDB_LENERR ∧ IsInt64 c.seen_time ∧ c.pel.entries.length < 2 ^ 64

section Groups

variable {g g' : StreamCG} {now : ℤ}

theorem saveAll_eq {α : Type} {save : α → Except Streams.Abort Sds} {write : α → Sds} {xs : List α}
    (h : ∀ x ∈ xs, save x = .ok (write x)) : saveAll save xs = .ok (xs.flatMap write) := by
  induction xs with
  | nil => rfl
  | cons x xs ih =>
    simp only [saveAll, h x List.mem_cons_self, ih fun y hy => h y (List.mem_cons_of_mem _ hy), bind, Except.bind,
      List.flatMap_cons]

theorem find_of_mem {κ ν : Type} [LinearOrder κ] {m : SortedMap κ ν} {e : κ × ν} (h : e ∈ m.entries) : m.find e.1 = some e.2 :=
  SortedMap.find_eq_some_iff.mpr h

theorem mem_keys {κ ν : Type} [LinearOrder κ] {m : SortedMap κ ν} {x : κ} :
    x ∈ m.entries.map Prod.fst ↔ (m.find x).isSome := by
  rw [List.mem_map, Option.isSome_iff_exists]
  constructor
  · rintro ⟨e, he, rfl⟩
    exact ⟨e.2, find_of_mem he⟩
  · rintro ⟨n, hn⟩
    exact ⟨(x, n), SortedMap.find_eq_some_iff.mp hn, rfl⟩

/-- The next of the bindings of a map has a new key. -/
theorem key_new {κ ν : Type} [LinearOrder κ] {m : SortedMap κ ν} {done rest : List (κ × ν)} {e : κ × ν}
    (h : done ++ e :: rest = m.entries) : e.1 ∉ done.map Prod.fst := by
  intro hmem
  obtain ⟨x, hx, heq⟩ := List.mem_map.mp hmem
  have hs := m.sorted
  rw [← h] at hs
  exact ((List.pairwise_append.mp hs).2.2 x hx e List.mem_cons_self).ne heq

def writeNack (g : StreamCG) (e : StreamID × ℕ) : Sds :=
  let p := (pendingOf g e.1).getD (0, 0, none)
  rawId e.1 ++ (rdbSaveMillisecondTime p.1 ++ rdbSaveLen p.2.1)

/-- The pending entries of a group that is sound. -/
theorem Sound.pendingOf_eq (h : Sound g) {id : StreamID} {n : ℕ} (hn : g.pel.find id = some n) :
    ∃ nk a c, g.nacks n = some nk ∧ g.heap a = some c ∧ g.consumers.find c.name = some a ∧ c.pel.find id = some n ∧
      pendingOf g id = some (nk.delivery_time, nk.delivery_count, some c.name) := by
  obtain ⟨nk, a, c, hnk, hown, hc, hlist⟩ := h.pending hn
  refine ⟨nk, a, c, hnk, hc, (h.members _ _).mpr (Streams.names_eq_some.mpr ⟨c, hc, rfl⟩), hlist, ?_⟩
  rw [pendingOf_of_nack hn hnk, hown, Option.bind_some, hc, Option.map_some]

theorem saveNack_eq (h : Sound g) {e : StreamID × ℕ} (he : e ∈ g.pel.entries) : saveNack g e = .ok (writeNack g e) := by
  obtain ⟨nk, a, c, hnk, -, -, -, hp⟩ := Sound.pendingOf_eq h (find_of_mem he)
  simp only [saveNack, Streams.nack_eq hnk, bind, Except.bind, writeNack, hp, Option.getD_some, List.append_assoc]

/-- The PEL of a group that is loaded in part. -/
structure PendingSoFar (g g' : StreamCG) (rest : List (StreamID × ℕ)) : Prop where
  sound : Partial g'
  last_id : g'.last_id = g.last_id
  consumers : g'.consumers = .empty
  seen : seenOf g' = fun _ => none
  done : ∃ done, done ++ rest = g.pel.entries ∧ (∀ id, (g'.pel.find id).isSome → id ∈ done.map Prod.fst) ∧
    pendingOf g' = fun id => if id ∈ done.map Prod.fst then (pendingOf g id).map fun p => (p.1, p.2.1, none) else none

theorem PendingSoFar.step (hg : GroupValid g) {e : StreamID × ℕ} {rest : List (StreamID × ℕ)}
    (h : PendingSoFar g g' (e :: rest)) :
    ∃ g'', Reads (loadPending now g') (writeNack g e) g'' ∧ PendingSoFar g g'' rest := by
  obtain ⟨done, hdone, hpel, hpend⟩ := h.done
  have he : e ∈ g.pel.entries := by rw [← hdone]; simp
  obtain ⟨nk, a, c, hnk, -, -, -, hp⟩ := Sound.pendingOf_eq hg.sound (find_of_mem he)
  obtain ⟨ht, hcount⟩ := hg.nacks hnk
  have hnotin := key_new hdone
  have hnew : g'.pel.find e.1 = none := by
    cases hf : g'.pel.find e.1 with
    | none => rfl
    | some n => exact absurd (hpel e.1 (by rw [hf]; rfl)) hnotin
  obtain ⟨g'', hr, hsound, hpend', hseen, hlast, hpel', hconsumers⟩ := reads_loadPending now h.sound hnew ht hcount
  refine ⟨g'', ?_, hsound, hlast.trans h.last_id, hconsumers.trans h.consumers, hseen.trans h.seen, done ++ [e],
    by rw [List.append_assoc]; exact hdone, fun id hid => ?_, ?_⟩
  · rw [writeNack, hp]
    exact hr
  · rw [hpel', SortedMap.find_insert] at hid
    rw [List.map_append, List.mem_append]
    split at hid
    · rename_i heq
      exact .inr (by simp [heq])
    · exact .inl (hpel id hid)
  · funext id
    rw [hpend']
    by_cases hid : id = e.1
    · subst hid
      rw [Function.update_self, if_pos (by simp), hp]
      rfl
    · have hiff : (id ∈ (done ++ [e]).map Prod.fst) ↔ id ∈ done.map Prod.fst := by simp [hid]
      rw [Function.update_of_ne hid, hpend]
      simp only [hiff]

variable (now) in
/-- The whole PEL, with no consumers yet. -/
theorem reads_pel (hg : GroupValid g) :
    ∃ g', Reads (Reader.times (loadPending now) g.pel.entries.length { last_id := g.last_id })
      (g.pel.entries.flatMap (writeNack g)) g' ∧ PendingSoFar g g' [] := by
  refine Reads.times_inv (PendingSoFar g) (fun b e rest hb => hb.step hg) g.pel.entries { last_id := g.last_id } ?_
  refine ⟨Partial.start g.last_id, rfl, rfl, rfl, [], rfl, fun id hid => ?_, ?_⟩
  · cases hid
  · funext id
    rw [if_neg (by simp)]
    rfl

/-- The consumer of a name. -/
theorem Sound.seenOf_eq (h : Sound g) {e : Sds × ℕ} (he : e ∈ g.consumers.entries) :
    ∃ c, g.heap e.2 = some c ∧ c.name = e.1 ∧ seenOf g e.1 = some (c.seen_time, fun id => (c.pel.find id).isSome) := by
  obtain ⟨c, hc, hname⟩ := Streams.names_eq_some.mp ((h.members _ _).mp (find_of_mem he))
  exact ⟨c, hc, hname, by rw [seenOf, find_of_mem he, Option.bind_some, hc, Option.map_some]⟩

def writeConsumer (k : Codecs σ) (c : Config) (g : StreamCG) (e : Sds × ℕ) : Sds :=
  match g.heap e.2 with
  | none => []
  | some consumer => rdbSaveRawString k.toLzf c.rdb_compression e.1 ++ (rdbSaveMillisecondTime consumer.seen_time ++
      (rdbSaveLen consumer.pel.entries.length ++ consumer.pel.entries.flatMap fun e => rawId e.1))

theorem saveConsumer_eq (h : Sound g) {e : Sds × ℕ} (he : e ∈ g.consumers.entries) :
    saveConsumer k c g e = .ok (writeConsumer k c g e) := by
  obtain ⟨d, hd, -, -⟩ := Sound.seenOf_eq h he
  simp only [saveConsumer, Streams.consumer_eq hd, bind, Except.bind, writeConsumer, hd, List.append_assoc]

/-- A group whose consumers are loaded in part: the entries of the others have no consumer yet. -/
structure ConsumersSoFar (g g' : StreamCG) (rest : List (Sds × ℕ)) : Prop where
  sound : Partial g'
  last_id : g'.last_id = g.last_id
  done : ∃ done, done ++ rest = g.consumers.entries ∧ (∀ name, (g'.consumers.find name).isSome → name ∈ done.map Prod.fst) ∧
    (seenOf g' = fun name => if name ∈ done.map Prod.fst then seenOf g name else none) ∧
    pendingOf g' = fun id => (pendingOf g id).map fun p =>
      (p.1, p.2.1, p.2.2.filter fun name => decide (name ∈ done.map Prod.fst))

theorem ConsumersSoFar.step (hk : k.Lawful) (hg : GroupValid g) {e : Sds × ℕ} {rest : List (Sds × ℕ)}
    (h : ConsumersSoFar g g' (e :: rest)) :
    ∃ g'', Reads (loadConsumer k now g') (writeConsumer k c g e) g'' ∧ ConsumersSoFar g g'' rest := by
  obtain ⟨done, hdone, hnames, hseen, hpend⟩ := h.done
  have he : e ∈ g.consumers.entries := by rw [← hdone]; simp
  obtain ⟨d, hd, hdname, hdseen⟩ := Sound.seenOf_eq hg.sound he
  obtain ⟨hlen, htime, hcount⟩ := hg.members hd
  have hnotin := key_new hdone
  have hnew : g'.consumers.find e.1 = none := by
    cases hf : g'.consumers.find e.1 with
    | none => rfl
    | some n => exact absurd (hnames e.1 (by rw [hf]; rfl)) hnotin
  have hlisted : ∀ id n, d.pel.find id = some n → ∃ t count, pendingOf g id = some (t, count, some e.1) := by
    intro id n hn
    obtain ⟨hpel, nk, hnk, hown⟩ := hg.sound.listed hd hn
    exact ⟨nk.delivery_time, nk.delivery_count, by
      rw [pendingOf_of_nack hpel hnk, hown, Option.bind_some, hd, Option.map_some, hdname]⟩
  have hall : ∀ x ∈ d.pel.entries, ∃ p, pendingOf g' x.1 = some p := by
    intro x hx
    obtain ⟨t, count, hp⟩ := hlisted x.1 x.2 (find_of_mem hx)
    refine ⟨(t, count, (some e.1).filter fun name => decide (name ∈ done.map Prod.fst)), ?_⟩
    rw [hpend]
    simp only [hp, Option.map_some]
  obtain ⟨g'', hr, hsound, hseen', hpend', hlast, hconsumers⟩ := reads_loadConsumer c now hk h.sound hnew
    (hdname ▸ hlen) htime hcount hall
  refine ⟨g'', ?_, hsound, hlast.trans h.last_id, done ++ [e], by rw [List.append_assoc]; exact hdone, fun name hn => ?_, ?_, ?_⟩
  · rw [writeConsumer, hd]
    exact hr
  · rw [hconsumers, SortedMap.find_insert] at hn
    rw [List.map_append, List.mem_append]
    split at hn
    · rename_i heq
      exact .inr (by simp [heq])
    · exact .inl (hnames name hn)
  · funext name
    rw [hseen']
    by_cases hn : name = e.1
    · rw [hn, Function.update_self, if_pos (by simp), hdseen]
    · have hiff : (name ∈ (done ++ [e]).map Prod.fst) ↔ name ∈ done.map Prod.fst := by simp [hn]
      rw [Function.update_of_ne hn, hseen]
      simp only [hiff]
  · funext id
    rw [hpend', ownedBy, hpend]
    cases hf : d.pel.find id with
    | some n =>
      obtain ⟨t, count, hp⟩ := hlisted id n hf
      have hmem : e.1 ∈ (done ++ [e]).map Prod.fst := by simp
      rw [if_pos (show (some n).isSome = true from rfl)]
      simp only [hp, Option.map_some, Option.filter, hmem, decide_true, if_true]
    | none =>
      rw [if_neg (show ¬ (none : Option ℕ).isSome = true by decide)]
      cases hp : g.pel.find id with
      | none => simp only [pendingOf_eq_none hp, Option.map_none]
      | some n =>
        obtain ⟨nk, a, c', hnk, hc', hcons, hlist, hpending⟩ := Sound.pendingOf_eq hg.sound hp
        have hne : c'.name ≠ e.1 := by
          intro heq
          rw [heq, find_of_mem he] at hcons
          cases hcons
          rw [hd] at hc'
          cases hc'
          rw [hf] at hlist
          cases hlist
        have hiff : (c'.name ∈ (done ++ [e]).map Prod.fst) ↔ c'.name ∈ done.map Prod.fst := by simp [hne]
        simp only [hpending, Option.map_some, Option.filter, hiff]

variable (now) in
theorem reads_consumers (hk : k.Lawful) (hg : GroupValid g) (h : PendingSoFar g g' []) :
    ∃ g'', Reads (Reader.times (loadConsumer k now) g.consumers.entries.length g')
      (g.consumers.entries.flatMap (writeConsumer k c g)) g'' ∧ groupContent g'' = groupContent g := by
  have hstart : ConsumersSoFar g g' g.consumers.entries := by
    obtain ⟨done, hdone, -, hpend⟩ := h.done
    rw [List.append_nil] at hdone
    subst hdone
    refine ⟨h.sound, h.last_id, [], rfl, fun name hn => ?_, ?_, ?_⟩
    · rw [h.consumers] at hn
      cases hn
    · rw [h.seen]
      funext name
      rw [if_neg (by simp)]
    · rw [hpend]
      funext id
      cases hp : g.pel.find id with
      | none =>
        rw [pendingOf_eq_none hp]
        split <;> rfl
      | some n =>
        rw [if_pos (mem_keys.mpr (by rw [hp]; rfl))]
        congr 1
        funext p
        cases p.2.2 <;> simp [Option.filter]
  obtain ⟨g'', hr, hend⟩ := Reads.times_inv (ConsumersSoFar g) (fun b e rest hb => hb.step c hk hg) g.consumers.entries g' hstart
  refine ⟨g'', hr, ?_⟩
  obtain ⟨done, hdone, -, hseen, hpend⟩ := hend.done
  rw [List.append_nil] at hdone
  subst hdone
  rw [groupContent, groupContent, hend.last_id]
  congr 1
  · rw [hpend]
    funext id
    cases hp : g.pel.find id with
    | none => rw [pendingOf_eq_none hp, Option.map_none]
    | some n =>
      obtain ⟨nk, a, c', hnk, hc', hcons, hlist, hpending⟩ := Sound.pendingOf_eq hg.sound hp
      have hmem : c'.name ∈ g.consumers.entries.map Prod.fst := mem_keys.mpr (by rw [hcons]; rfl)
      rw [hpending, Option.map_some]
      simp [Option.filter, hmem]
  · rw [hseen]
    funext name
    split
    · rfl
    · rename_i hn
      rw [mem_keys, Bool.not_eq_true, Option.isSome_eq_false_iff, Option.isNone_iff_eq_none] at hn
      rw [seenOf, hn, Option.bind_none]

end Groups

/-! ### Streams -/

/-- A stream that can be written, with groups that can. -/
structure StreamValid (k : Codecs σ) (s : GroupedStream) : Prop where
  listpacks : ∀ e ∈ s.rax.entries, ListpackValid k e.2
  rax_length : s.rax.entries.length < 2 ^ 64
  length : s.length < 2 ^ 64
  groups_length : s.cgroups.entries.length < 2 ^ 64
  names : ∀ e ∈ s.cgroups.entries, e.1.length < RDB_LENERR
  groups : ∀ e ∈ s.cgroups.entries, GroupValid e.2

def writeGroup (k : Codecs σ) (c : Config) (e : Sds × StreamCG) : Sds :=
  rdbSaveRawString k.toLzf c.rdb_compression e.1 ++ (saveId e.2.last_id ++
    (rdbSaveLen e.2.pel.entries.length ++ (e.2.pel.entries.flatMap (writeNack e.2) ++
      (rdbSaveLen e.2.consumers.entries.length ++ e.2.consumers.entries.flatMap (writeConsumer k c e.2)))))

theorem saveGroup_eq {e : Sds × StreamCG} (h : Sound e.2) : saveGroup k c e = .ok (writeGroup k c e) := by
  have hpel : saveAll (saveNack e.2) e.2.pel.entries = _ := saveAll_eq fun x hx => saveNack_eq h hx
  have hconsumers : saveAll (saveConsumer k c e.2) e.2.consumers.entries = _ := saveAll_eq fun x hx => saveConsumer_eq c h hx
  simp only [saveGroup, hpel, hconsumers, bind, Except.bind, writeGroup, List.append_assoc]

/-- A stream whose groups are loaded in part. -/
structure GroupsSoFar (s s' : GroupedStream) (rest : List (Sds × StreamCG)) : Prop where
  rax : s'.rax.find = s.rax.find
  length : s'.length = s.length
  last_id : s'.last_id = s.last_id
  done : ∃ done, done ++ rest = s.cgroups.entries ∧ ∀ name, (s'.cgroups.find name).map groupContent =
    if name ∈ done.map Prod.fst then (s.cgroups.find name).map groupContent else none

theorem GroupsSoFar.step (hk : k.Lawful) {s s' : GroupedStream} (hs : StreamValid k s) (now : ℤ) {e : Sds × StreamCG}
    {rest : List (Sds × StreamCG)} (h : GroupsSoFar s s' (e :: rest)) :
    ∃ s'', Reads (loadGroup k now s') (writeGroup k c e) s'' ∧ GroupsSoFar s s'' rest := by
  obtain ⟨done, hdone, hgroups⟩ := h.done
  have he : e ∈ s.cgroups.entries := by rw [← hdone]; simp
  have hg := hs.groups e he
  have hnotin := key_new hdone
  have hnew : s'.cgroups.find e.1 = none := by
    have := hgroups e.1
    rw [if_neg hnotin, Option.map_eq_none_iff] at this
    exact this
  obtain ⟨g1, hr1, hpel⟩ := reads_pel now hg
  obtain ⟨g2, hr2, hcontent⟩ := reads_consumers c now hk hg hpel
  obtain ⟨s1, hs1⟩ : ∃ s1, s1 = s'.setGroup e.1 { last_id := e.2.last_id } := ⟨_, rfl⟩
  have hcreate : Streams.streamCreateCG s' e.1 e.2.last_id = some s1 := by
    rw [Streams.streamCreateCG, hnew, hs1]
  refine ⟨s1.setGroup e.1 g2, ?_, ?_, ?_, ?_, done ++ [e], by rw [List.append_assoc]; exact hdone, fun name => ?_⟩
  · refine (reads_orExit (reads_string c.rdb_compression hk.toLossless (hs.names e he))).bind ?_
    refine (reads_loadId e.2.last_id).bind ?_
    simp only [hcreate]
    refine (reads_rdbLoadLen hg.pel_length).bind (hr1.bind ?_)
    exact (reads_rdbLoadLen hg.consumers_length).bind (hr2.then_pure rfl)
  · rw [hs1]
    exact h.rax
  · rw [hs1]
    exact h.length
  · rw [hs1]
    exact h.last_id
  · have hset : (s1.setGroup e.1 g2).cgroups = (s'.cgroups.insert e.1 { last_id := e.2.last_id }).insert e.1 g2 := by
      rw [hs1]
      rfl
    rw [hset, SortedMap.find_insert, SortedMap.find_insert]
    by_cases hname : name = e.1
    · rw [if_pos hname, hname, if_pos (by simp), find_of_mem he, Option.map_some, Option.map_some, hcontent]
    · have hiff : (name ∈ (done ++ [e]).map Prod.fst) ↔ name ∈ done.map Prod.fst := by simp [hname]
      rw [if_neg hname, if_neg hname, hgroups]
      simp only [hiff]

/-- A stream is written, and read back as one that holds the same. -/
theorem reads_stream (hk : k.Lawful) {s : GroupedStream} (hs : StreamValid k s) (now : ℤ) :
    ∃ bytes s', saveStream k c s = .ok bytes ∧ Reads (loadStream k now) bytes s' ∧
      content k (.stream s') = content k (.stream s) := by
  have hgroups : saveAll (saveGroup k c) s.cgroups.entries = _ := saveAll_eq fun x hx => saveGroup_eq c (hs.groups x hx).sound
  obtain ⟨rax, hr, hrax⟩ := reads_listpacks c hk hs.listpacks
  have hstart : GroupsSoFar s { rax := rax, length := s.length, last_id := s.last_id } s.cgroups.entries :=
    ⟨hrax, rfl, rfl, [], rfl, fun name => by rw [if_neg (by simp)]; rfl⟩
  obtain ⟨s', hr', hend⟩ := Reads.times_inv (GroupsSoFar s) (fun b e rest hb => hb.step c hk hs now)
    s.cgroups.entries _ hstart
  have hsave : saveStream k c s = .ok (rdbSaveLen s.rax.entries.length ++ s.rax.entries.flatMap (saveListpack k c) ++
      rdbSaveLen s.length ++ saveId s.last_id ++
        (rdbSaveLen s.cgroups.entries.length ++ s.cgroups.entries.flatMap (writeGroup k c))) := by
    simp only [saveStream, hgroups, bind, Except.bind]
  refine ⟨_, s', hsave, ?_, ?_⟩
  · simp only [List.append_assoc]
    refine (reads_rdbLoadLen hs.rax_length).bind (hr.bind ((reads_rdbLoadLen hs.length).bind ?_))
    exact (reads_loadId s.last_id).bind ((reads_rdbLoadLen hs.groups_length).bind hr')
  · obtain ⟨done, hdone, hall⟩ := hend.done
    rw [List.append_nil] at hdone
    subst hdone
    rw [content, content, hend.rax, hend.length, hend.last_id]
    congr 1
    funext name
    rw [hall name]
    split
    · rfl
    · rename_i hn
      rw [mem_keys, Bool.not_eq_true, Option.isSome_eq_false_iff, Option.isNone_iff_eq_none] at hn
      rw [hn, Option.map_none]

end RedisZk.Rdb
