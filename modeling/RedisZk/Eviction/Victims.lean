/-
# The victims

The samples are offered to the pool one by one, and `freeMemoryIfNeeded` goes through it from the end
for a key that still exists. Whatever is offered and whatever is picked, the buffers stay
apart, the names are those that were offered, and the pool is the list of the best offers in order.

Key definitions: `offerAll`, `Step`, `run`, `Ordered`.
Key theorems: `populate_spec`, `scan_spec`, `run_spec`, `pool_stays_ordered`.
-/
import RedisZk.Eviction.Pool

namespace RedisZk.Eviction

open Streams (Sds)

variable {heap : ℕ → Option Sds} {e : Entry} {s : State}

/-! ### The samples and the scan -/

/-- What the samples make of the candidates. -/
def offerAll (dbid : ℤ) (l : List Item) (samples : List (Sds × ℕ)) : List Item :=
  samples.foldl (fun l sample => Ranked.offer Item.idle EVPOOL_SIZE l ⟨sample.2, sample.1, dbid⟩) l

theorem populate_spec (dbid : ℤ) : ∀ (samples : List (Sds × ℕ)) {s : State}, Inv s →
    ∃ s', evictionPoolPopulate s dbid samples = some s' ∧ Inv s' ∧ view s' = offerAll dbid (view s) samples
  | [], s, h => ⟨s, rfl, h, rfl⟩
  | (key, idle) :: samples, s, h => by
    obtain ⟨s1, hs1, h1, hview1⟩ := insert_spec h key idle dbid
    obtain ⟨s2, hs2, h2, hview2⟩ := populate_spec dbid samples h1
    refine ⟨s2, ?_, h2, ?_⟩
    · rw [evictionPoolPopulate, hs1, Option.bind_some]
      exact hs2
    · rw [hview2, hview1]
      rfl

/-- Before an entry with a key there are only entries with keys. -/
theorem full_before {l l' : List Entry} (h : Inv s) (hpool : s.pool = l ++ e :: l') (he : e.key.isSome = true) :
    ∀ x ∈ l, x.key.isSome = true := by
  obtain ⟨full, empty, hsplit, hfull, hempty⟩ := h.split
  rw [hpool] at hsplit
  rcases List.append_eq_append_iff.mp hsplit with ⟨c, rfl, -⟩ | ⟨c, -, rfl⟩
  · exact fun x hx => hfull x (List.mem_append_left c hx)
  · rw [hempty e (List.mem_append_right c List.mem_cons_self)] at he
    cases he

/-- The last candidate leaves the pool. -/
theorem remove_last {l l' : List Entry} {addr : ℕ} (h : Inv s) (hpool : s.pool = l ++ e :: l') (hkey : e.key = some addr) (hl' : ∀ x ∈ l', x.key = none) :
    ∃ name heap, s.heap addr = some name ∧ freeKey s.heap e = some heap ∧ view s = l.filterMap (item s.heap) ++ [⟨e.idle, name, e.dbid⟩] ∧
      Inv ⟨l ++ { e with key := none, idle := 0 } :: l', heap, s.next⟩ ∧
      view ⟨l ++ { e with key := none, idle := 0 } :: l', heap, s.next⟩ = l.filterMap (item s.heap) := by
  have hlen := h.length
  have hapart := h.apart
  have hempty : ∀ x ∈ ({ e with key := none, idle := 0 } : Entry) :: l', x.key = none := by
    intro x hx
    rcases List.mem_cons.mp hx with rfl | hx
    · rfl
    · exact hl' x hx
  rw [hpool] at hlen hapart
  obtain ⟨name, hname⟩ := Option.isSome_iff_exists.mp (hapart.live addr (List.mem_flatMap.mpr ⟨e, List.mem_append_right l List.mem_cons_self, mem_owned hkey⟩))
  obtain ⟨heap, hfree, hapart', hitems⟩ := freeKey_spec (apart_middle hapart)
  have hviewl : l.filterMap (item heap) = l.filterMap (item s.heap) :=
    List.filterMap_congr fun x hx => hitems x (List.mem_append_left l' hx)
  refine ⟨name, heap, hname, hfree, ?_, ⟨?_, ⟨l, _, rfl, ?_, hempty⟩, ?_⟩, ?_⟩
  · rw [view, hpool, List.filterMap_append, List.filterMap_cons, items_empty hl', item, hkey, Option.bind_some, hname, Option.map_some]
  · rw [← hlen]
    simp only [List.length_append, List.length_cons]
  · exact full_before h hpool (by rw [hkey]; rfl)
  · refine hapart'.perm ?_
    show (e.cached :: (l ++ l').flatMap owned).Perm ((l ++ _ :: l').flatMap owned)
    rw [List.flatMap_append, List.flatMap_append, List.flatMap_cons]
    exact List.perm_middle.symm
  · rw [view, List.filterMap_append, items_empty hempty, List.append_nil, hviewl]

/-- **The scan picks the last candidate that is there**, and all behind it leave the pool. -/
theorem scan_spec (there : ℤ → Sds → Bool) : ∀ (k : ℕ) {s : State}, Inv s → k ≤ EVPOOL_SIZE → (∀ e ∈ s.pool.drop k, e.key = none) →
    ∃ s' r, scanPool there k s = some (s', r) ∧ Inv s' ∧ (view s', r) = Ranked.pick (fun x => there x.dbid x.name) (view s)
  | 0, s, h, _, hdrop => by
    have hview : view s = [] := items_empty hdrop
    exact ⟨s, none, rfl, h, by rw [hview]; rfl⟩
  | k + 1, s, h, hk, hdrop => by
    have hlt : k < s.pool.length := by
      rw [h.length]
      exact hk
    obtain ⟨e, he⟩ : ∃ e : Entry, s.pool[k]? = some e := ⟨_, List.getElem?_eq_getElem hlt⟩
    have hcons : s.pool.drop k = e :: s.pool.drop (k + 1) := by
      rw [List.drop_eq_getElem_cons hlt]
      rw [List.getElem?_eq_getElem hlt] at he
      rw [Option.some.inj he]
    have hpool : s.pool = s.pool.take k ++ e :: s.pool.drop (k + 1) := by
      rw [← hcons, List.take_append_drop]
    have htake : (s.pool.take k).length = k := List.length_take_of_le hlt.le
    rw [scanPool, he]
    dsimp only
    cases hkey : e.key with
    | none =>
      refine scan_spec there k h (Nat.le_of_succ_le hk) fun x hx => ?_
      rw [hcons] at hx
      rcases List.mem_cons.mp hx with rfl | hx
      · exact hkey
      · exact hdrop x hx
    | some a =>
      obtain ⟨name, heap, hname, hfree, hview, hinv, hview'⟩ := remove_last h hpool hkey hdrop
      have hset : s.pool.set k { e with key := none, idle := 0 } = s.pool.take k ++ { e with key := none, idle := 0 } :: s.pool.drop (k + 1) := by
        have hmid := set_middle (s.pool.take k) e { e with key := none, idle := 0 } (s.pool.drop (k + 1))
        rw [← hpool, htake] at hmid
        exact hmid
      dsimp only
      rw [hname]
      dsimp only
      rw [hfree, Option.bind_some, hset, hview, Ranked.pick_snoc]
      split
      · exact ⟨_, _, rfl, hinv, by rw [hview']⟩
      · rw [← hview']
        refine scan_spec there k hinv (Nat.le_of_succ_le hk) fun x hx => ?_
        rw [List.drop_left' htake] at hx
        rcases List.mem_cons.mp hx with rfl | hx
        · rfl
        · exact hdrop x hx

/-! ### Runs -/

inductive Step where
  | populate (dbid : ℤ) (samples : List (Sds × ℕ))
  | scan (there : ℤ → Sds → Bool)

def step (s : State) : Step → Option State
  | .populate dbid samples => evictionPoolPopulate s dbid samples
  | .scan there => (scanPool there EVPOOL_SIZE s).map Prod.fst

def run (s : State) : List Step → Option State
  | [] => some s
  | x :: steps => (step s x).bind fun s => run s steps

/-- What a step does to the candidates. -/
def stepItems (l : List Item) : Step → List Item
  | .populate dbid samples => offerAll dbid l samples
  | .scan there => (Ranked.pick (fun x => there x.dbid x.name) l).1

theorem scan_inv (h : Inv s) (there : ℤ → Sds → Bool) : ∃ s' r, scanPool there EVPOOL_SIZE s = some (s', r) ∧ Inv s' ∧
    (view s', r) = Ranked.pick (fun x => there x.dbid x.name) (view s) := by
  refine scan_spec there EVPOOL_SIZE h (le_refl _) fun e he => ?_
  rw [List.drop_eq_nil_of_le h.length.le] at he
  cases he

theorem step_spec (h : Inv s) (x : Step) : ∃ s', step s x = some s' ∧ Inv s' ∧ view s' = stepItems (view s) x := by
  cases x with
  | populate dbid samples => exact populate_spec dbid samples h
  | scan there =>
    obtain ⟨s', r, hscan, h', hview⟩ := scan_inv h there
    refine ⟨s', ?_, h', congrArg Prod.fst hview⟩
    rw [step, hscan]
    rfl

theorem run_spec : ∀ (steps : List Step) {s : State}, Inv s →
    ∃ s', run s steps = some s' ∧ Inv s' ∧ view s' = steps.foldl stepItems (view s)
  | [], s, h => ⟨s, rfl, h, rfl⟩
  | x :: steps, s, h => by
    obtain ⟨s1, hs1, h1, hview1⟩ := step_spec h x
    obtain ⟨s2, hs2, h2, hview2⟩ := run_spec steps h1
    refine ⟨s2, ?_, h2, ?_⟩
    · rw [run, hs1]
      exact hs2
    · rw [hview2, hview1]
      rfl

theorem sorted_stepItems {l : List Item} (h : Ranked.Sorted Item.idle l) (x : Step) : Ranked.Sorted Item.idle (stepItems l x) := by
  cases x with
  | populate dbid samples =>
    unfold stepItems offerAll
    induction samples generalizing l with
    | nil => exact h
    | cons sample samples ih => exact ih (Ranked.sorted_offer h _ _)
  | scan there => exact h.sublist (Ranked.pick_best _ h).1.sublist

theorem sorted_run (steps : List Step) {l : List Item} (h : Ranked.Sorted Item.idle l) : Ranked.Sorted Item.idle (steps.foldl stepItems l) := by
  induction steps generalizing l with
  | nil => exact h
  | cons x steps ih => exact ih (sorted_stepItems h x)

theorem inv_alloc : Inv evictionPoolAlloc := by
  have howned : ∀ l : List ℕ, (l.map fun j => (⟨0, none, j, 0⟩ : Entry)).flatMap owned = l := by
    intro l
    induction l with
    | nil => rfl
    | cons j l ih => exact congrArg (List.cons j) ih
  have hpool : evictionPoolAlloc.pool.flatMap owned = List.range EVPOOL_SIZE := howned _
  refine ⟨by rw [evictionPoolAlloc, List.length_map, List.length_range], ⟨[], _, (List.nil_append _).symm, nofun, fun e he => ?_⟩, ?_⟩
  · obtain ⟨j, -, rfl⟩ := List.mem_map.mp he
    rfl
  · rw [hpool]
    refine ⟨List.nodup_range, fun a ha => ?_, fun a ha => ?_⟩
    · exact (congrArg Option.isSome (if_pos (List.mem_range.mp ha))).trans rfl
    · exact if_neg (not_lt.mpr ha)

/-- The entries with a key come first and in order, the buffers are apart, and a key is in its own buffer or in a
string that is nobody else's. -/
structure Ordered (s : State) : Prop where
  length : s.pool.length = EVPOOL_SIZE
  entries : ∃ full empty, s.pool = full ++ empty ∧ (∀ e ∈ full, e.key.isSome = true) ∧ (∀ e ∈ empty, e.key = none) ∧
    full.Pairwise fun e e' => e.idle ≤ e'.idle
  buffers : (s.pool.map Entry.cached).Nodup
  own : ∀ l e l', s.pool = l ++ e :: l' → ∀ a, e.key = some a → (s.heap a).isSome = true ∧
    (a = e.cached ∨ a ∉ s.pool.map Entry.cached) ∧ ∀ e' ∈ l ++ l', e'.key ≠ some a

theorem cached_mem_owned (e : Entry) : e.cached ∈ owned e := by
  unfold owned
  split
  · exact List.mem_cons_self
  · split
    · exact List.mem_cons_self
    · exact List.mem_cons_self

theorem cached_sublist (l : List Entry) : (l.map Entry.cached).Sublist (l.flatMap owned) := by
  induction l with
  | nil => exact List.Sublist.refl []
  | cons e l ih =>
    rw [List.map_cons, List.flatMap_cons]
    exact (List.singleton_sublist.mpr (cached_mem_owned e)).append ih

theorem idle_sorted : ∀ {full : List Entry}, (∀ e ∈ full, ∃ x : Item, item heap e = some x ∧ x.idle = e.idle) →
    Ranked.Sorted Item.idle (full.filterMap (item heap)) → full.Pairwise fun e e' => e.idle ≤ e'.idle
  | [], _, _ => List.Pairwise.nil
  | e :: full, hitems, h => by
    obtain ⟨x, hx, hidle⟩ := hitems e List.mem_cons_self
    rw [List.filterMap_cons, hx] at h
    obtain ⟨hle, hrest⟩ := List.pairwise_cons.mp h
    refine List.pairwise_cons.mpr ⟨fun e' he' => ?_, idle_sorted (fun y hy => hitems y (List.mem_cons_of_mem e hy)) hrest⟩
    obtain ⟨x', hx', hidle'⟩ := hitems e' (List.mem_cons_of_mem e he')
    rw [← hidle, ← hidle']
    exact hle x' (List.mem_filterMap.mpr ⟨e', he', hx'⟩)

theorem ordered_of_inv (h : Inv s) (hsorted : Ranked.Sorted Item.idle (view s)) : Ordered s := by
  refine ⟨h.length, ?_, h.apart.nodup.sublist (cached_sublist s.pool), fun l e l' hpool addr hkey => ?_⟩
  · obtain ⟨full, empty, hpool, hfull, hempty⟩ := h.split
    obtain ⟨hview, -⟩ := view_split h hpool hfull hempty 0
    rw [hview] at hsorted
    refine ⟨full, empty, hpool, hfull, hempty, idle_sorted (fun e he => ?_) hsorted⟩
    refine item_full h.apart (fun a ha => List.mem_flatMap.mpr ⟨e, ?_, ha⟩) (hfull e he)
    rw [hpool]
    exact List.mem_append_left empty he
  · have hapart := h.apart
    rw [hpool] at hapart
    have hmiddle := apart_middle hapart
    obtain ⟨-, -, hdisjoint⟩ := List.nodup_append.mp hmiddle.nodup
    have hmem := mem_owned hkey
    have hothers : ∀ x ∈ l ++ l', addr ∉ owned x := fun x hx hin => hdisjoint addr hmem addr (List.mem_flatMap.mpr ⟨x, hx, hin⟩) rfl
    refine ⟨hmiddle.live addr (List.mem_append_left _ hmem), ?_, fun x hx hsame => hothers x hx (mem_owned hsame)⟩
    by_cases hown : addr = e.cached
    · exact Or.inl hown
    · refine Or.inr fun hin => ?_
      rw [hpool, List.map_append, List.map_cons] at hin
      obtain ⟨x, hx, hcached⟩ : ∃ x ∈ l ++ l', x.cached = addr := by
        rcases List.mem_append.mp hin with hin | hin
        · obtain ⟨x, hx, hcached⟩ := List.mem_map.mp hin
          exact ⟨x, List.mem_append_left l' hx, hcached⟩
        · obtain ⟨x, hx, hcached⟩ := List.mem_map.mp ((List.mem_cons.mp hin).resolve_left hown)
          exact ⟨x, List.mem_append_right l hx, hcached⟩
      exact hothers x hx (hcached ▸ cached_mem_owned x)

/-- **The pool stays ordered.** After any populations and scans the entries with a key come first, in order of their
scores, the buffers are apart and every key has its own string. The pool holds what the offers and the scans make
of a list of candidates; what an offer drives out is no better than what stays, only a full pool refuses, and only
what is no better than its least candidate; the victim is the best candidate that is there. -/
theorem pool_stays_ordered (steps : List Step) :
    ∃ s, run evictionPoolAlloc steps = some s ∧ Ordered s ∧ view s = steps.foldl stepItems [] ∧
      (∀ key idle dbid, ∃ s', evictionPoolInsert s key idle dbid = some s' ∧
        (∃ lost : List Item, (lost ++ view s').Perm (⟨idle, key, dbid⟩ :: view s) ∧ ((view s).length < EVPOOL_SIZE → lost = []) ∧
          ∀ x ∈ lost, ∀ y ∈ view s', x.idle ≤ y.idle) ∧
        (⟨idle, key, dbid⟩ ∉ view s' → (view s).length = EVPOOL_SIZE ∧ ∀ x ∈ view s, idle ≤ x.idle)) ∧
      ∀ there, ∃ s' r, scanPool there EVPOOL_SIZE s = some (s', r) ∧
        (∀ x, r = some x → x ∈ view s ∧ there x.dbid x.name = true ∧ ∀ y ∈ view s, there y.dbid y.name = true → y.idle ≤ x.idle) ∧
        (r = none → ∀ y ∈ view s, there y.dbid y.name = false) := by
  obtain ⟨s, hs, h, hview⟩ := run_spec steps inv_alloc
  have hsorted := sorted_run steps (List.Pairwise.nil (R := fun a b : Item => a.idle ≤ b.idle))
  have hnil : view evictionPoolAlloc = [] := rfl
  rw [hnil] at hview
  rw [← hview] at hsorted
  have hle : (view s).length ≤ EVPOOL_SIZE := by
    rw [← h.length]
    exact List.length_filterMap_le _ _
  refine ⟨s, hs, ordered_of_inv h hsorted, hview, fun key idle dbid => ?_, fun there => ?_⟩
  · obtain ⟨s', hs', -, hview'⟩ := insert_spec h key idle dbid
    refine ⟨s', hs', ?_, fun hnot => ?_⟩
    · rw [hview']
      exact Ranked.offer_keeps_best hsorted _ _
    · rw [hview'] at hnot
      obtain ⟨hfull, hbest⟩ := Ranked.offer_refused hsorted hnot
      exact ⟨Nat.le_antisymm hle hfull, hbest⟩
  · obtain ⟨s', r, hscan, -, hpick⟩ := scan_inv h there
    obtain ⟨-, hsome, hnone⟩ := Ranked.pick_best (fun x => there x.dbid x.name) hsorted
    rw [← hpick] at hsome hnone
    exact ⟨s', r, hscan, hsome, hnone⟩

end RedisZk.Eviction
