/-
# The names in the tables

The server's tables refer to string objects. What the tables mean are the tables of the strings;
every change of the one is a change of the other, and takes or gives up a reference.

Key definitions: `Tables.map`, `Tables.refs`.
Key theorems: `map_dropChannel`, `map_dropList`, `refs_addChannel`, `refs_dropChannel`, `refs_dropList`.
-/
import Mathlib
import RedisZk.Pubsub.Tables

namespace RedisZk.Pubsub

variable {ν μ : Type}

def Client.map (f : ν → μ) (c : Client ν) : Client μ := ⟨c.id, c.channels.map f, c.patterns.map f⟩

def Client.refs (c : Client ν) : List ν := c.channels ++ c.patterns

namespace Tables

def map (f : ν → μ) (t : Tables ν) : Tables μ where
  clients := t.clients.map (Client.map f)
  channels := t.channels.map fun e => (f e.1, e.2)
  patterns := t.patterns.map fun p => (p.1, f p.2)

/-- Every place that refers to a name. -/
def refs (t : Tables ν) : List ν := t.clients.flatMap Client.refs ++ (t.channels.map Prod.fst ++ t.patterns.map Prod.snd)

variable {t : Tables ν} {id : ℕ} {a : ν} {c : Client ν} {f f' : ν → μ}

theorem mem_refs_channel (hc : c ∈ t.clients) (ha : a ∈ c.channels) : a ∈ t.refs :=
  List.mem_append_left _ (List.mem_flatMap.mpr ⟨c, hc, List.mem_append_left _ ha⟩)

theorem mem_refs_pattern (hc : c ∈ t.clients) (ha : a ∈ c.patterns) : a ∈ t.refs :=
  List.mem_append_left _ (List.mem_flatMap.mpr ⟨c, hc, List.mem_append_right _ ha⟩)

theorem mem_refs_name {e : ν × List ℕ} (he : e ∈ t.channels) : e.1 ∈ t.refs :=
  List.mem_append_right _ (List.mem_append_left _ (List.mem_map_of_mem he))

theorem mem_refs_all {p : ℕ × ν} (hp : p ∈ t.patterns) : p.2 ∈ t.refs :=
  List.mem_append_right _ (List.mem_append_right _ (List.mem_map_of_mem hp))

/-- The strings of the tables depend on the objects that they refer to, and on no other. -/
theorem map_congr (h : ∀ a ∈ t.refs, f a = f' a) : t.map f = t.map f' := by
  have hclients : t.clients.map (Client.map f) = t.clients.map (Client.map f') := by
    refine List.map_congr_left fun c hc => ?_
    rw [Client.map, Client.map, List.map_congr_left fun a ha => h a (mem_refs_channel hc ha),
      List.map_congr_left fun a ha => h a (mem_refs_pattern hc ha)]
  have hchannels : (t.channels.map fun e => (f e.1, e.2)) = t.channels.map fun e => (f' e.1, e.2) :=
    List.map_congr_left fun e he => by rw [h e.1 (mem_refs_name he)]
  have hpatterns : (t.patterns.map fun p => (p.1, f p.2)) = t.patterns.map fun p => (p.1, f' p.2) :=
    List.map_congr_left fun p hp => by rw [h p.2 (mem_refs_all hp)]
  rw [map, map, hclients, hchannels, hpatterns]

theorem find_map (f : ν → μ) (t : Tables ν) (id : ℕ) : (t.map f).find id = (t.find id).map (Client.map f) := by
  unfold find map Keyed.find
  rw [List.find?_map]
  rfl

theorem ids_map (f : ν → μ) (t : Tables ν) : (t.map f).clients.map Client.id = t.clients.map Client.id := by
  unfold map
  rw [List.map_map]
  rfl

theorem names_map (f : ν → μ) (t : Tables ν) : (t.map f).channels.map Prod.fst = t.channels.map fun e => f e.1 := by
  unfold map
  rw [List.map_map]
  rfl

/-! ### Changes of the strings -/

theorem map_setClient {g : Client ν → Client ν} {g' : Client μ → Client μ} (h : ∀ c ∈ t.clients, c.id = id → (g c).map f = g' (c.map f)) :
    (t.setClient id g).map f = (t.map f).setClient id g' := by
  have hclients : (Keyed.update Client.id t.clients id g).map (Client.map f) = Keyed.update Client.id (t.clients.map (Client.map f)) id g' := by
    unfold Keyed.update
    rw [List.map_map, List.map_map]
    refine List.map_congr_left fun c hc => ?_
    show (if c.id = id then g c else c).map f = if (c.map f).id = id then g' (c.map f) else c.map f
    by_cases hid : c.id = id
    · rw [if_pos hid, if_pos (show (c.map f).id = id from hid)]
      exact h c hc hid
    · rw [if_neg hid, if_neg (show ¬(c.map f).id = id from hid)]
  unfold setClient map
  rw [hclients]

theorem map_addChannel (f : ν → μ) (t : Tables ν) (id : ℕ) (a : ν) : (t.addChannel id a).map f = (t.map f).addChannel id (f a) :=
  map_setClient fun c _ _ => by unfold Client.map; rw [List.map_append]; rfl

theorem map_addPattern (f : ν → μ) (t : Tables ν) (id : ℕ) (a : ν) : (t.addPattern id a).map f = (t.map f).addPattern id (f a) :=
  map_setClient fun c _ _ => by unfold Client.map; rw [List.map_append]; rfl

theorem map_newList (f : ν → μ) (t : Tables ν) (id : ℕ) (a : ν) : (t.newList a id).map f = (t.map f).newList (f a) id := by
  unfold newList map
  rw [List.map_append]
  rfl

theorem map_newPattern (f : ν → μ) (t : Tables ν) (id : ℕ) (a : ν) : (t.newPattern id a).map f = (t.map f).newPattern id (f a) := by
  unfold newPattern map
  rw [List.map_append]
  rfl

/-! ### References -/

theorem refs_setClient (hids : (t.clients.map Client.id).Nodup) (hfind : t.find id = some c) (g : Client ν → Client ν) {l : List ν}
    (h : (g c).refs.Perm (l ++ c.refs)) : (t.setClient id g).refs.Perm (l ++ t.refs) := by
  have hbefore := (Keyed.perm_of_find hids hfind).flatMap_right Client.refs
  have hafter := (Keyed.update_perm hids hfind g).flatMap_right Client.refs
  unfold refs setClient
  rw [← List.append_assoc l]
  refine List.Perm.append_right _ (hafter.trans ?_)
  rw [List.flatMap_cons] at hbefore ⊢
  exact (h.append_right _).trans (by rw [List.append_assoc]; exact hbefore.symm.append_left l)

theorem refs_addChannel (hids : (t.clients.map Client.id).Nodup) (hfind : t.find id = some c) (a : ν) :
    (t.addChannel id a).refs.Perm (a :: t.refs) := by
  refine refs_setClient (l := [a]) hids hfind _ ?_
  unfold Client.refs
  rw [List.append_assoc]
  exact List.perm_middle

theorem refs_addPattern (hids : (t.clients.map Client.id).Nodup) (hfind : t.find id = some c) (a : ν) :
    (t.addPattern id a).refs.Perm (a :: t.refs) := by
  refine refs_setClient (l := [a]) hids hfind _ ?_
  unfold Client.refs
  rw [← List.append_assoc]
  exact List.perm_append_comm

theorem refs_newList (t : Tables ν) (id : ℕ) (a : ν) : (t.newList a id).refs.Perm (a :: t.refs) := by
  unfold refs newList
  refine List.Perm.trans (List.Perm.append_left _ ?_) List.perm_middle
  rw [List.map_append, List.append_assoc]
  exact List.perm_middle

theorem refs_newPattern (t : Tables ν) (id : ℕ) (a : ν) : (t.newPattern id a).refs.Perm (a :: t.refs) := by
  unfold refs newPattern
  refine List.Perm.trans (List.Perm.append_left _ ?_) List.perm_middle
  rw [List.map_append, ← List.append_assoc]
  exact List.perm_append_comm

/-! ### Names that go -/

/-- Names that are different as strings may be removed by either. -/
theorem map_erase_of_nodup {ε δ : Type} [BEq ε] [LawfulBEq ε] [BEq δ] [LawfulBEq δ] {f : ε → δ} {l : List ε} {a : ε} (hnodup : (l.map f).Nodup) (ha : a ∈ l) :
    (l.erase a).map f = (l.map f).erase (f a) := by
  rw [hnodup.erase_eq_filter, (hnodup.of_map f).erase_eq_filter, List.filter_map]
  refine congrArg (List.map f) (List.filter_congr fun x hx => ?_)
  show (x != a) = (f x != f a)
  by_cases hxa : x = a
  · rw [hxa, bne_self_eq_false, bne_self_eq_false]
  · rw [bne_iff_ne.mpr hxa, bne_iff_ne.mpr fun heq => hxa (List.inj_on_of_nodup_map hnodup hx ha heq)]

theorem name_iff {e e' : ν × List ℕ} (h : ((t.map f).channels.map Prod.fst).Nodup) (he : e ∈ t.channels) (he' : e' ∈ t.channels) : f e.1 = f e'.1 ↔ e.1 = e'.1 := by
  rw [names_map] at h
  exact ⟨fun heq => congrArg Prod.fst (List.inj_on_of_nodup_map h he he' heq), congrArg f⟩

variable [DecidableEq ν] [DecidableEq μ]

theorem map_dropChannel (h : (t.map f).Mirror) (hfind : t.find id = some c) (ha : a ∈ c.channels) :
    (t.dropChannel id a).map f = (t.map f).dropChannel id (f a) := by
  refine map_setClient fun x hx hid => ?_
  have hids := h.ids
  rw [ids_map] at hids
  obtain rfl : x = c := Option.some.inj (((Keyed.find_eq_some_iff hids).mpr ⟨hx, hid⟩).symm.trans hfind)
  have hnodup := (h.own (x.map f) (List.mem_map_of_mem hx)).1
  unfold Client.map
  rw [map_erase_of_nodup hnodup ha]

theorem map_dropPattern (h : (t.map f).Mirror) (hfind : t.find id = some c) (ha : a ∈ c.patterns) :
    (t.dropPattern id a).map f = (t.map f).dropPattern id (f a) := by
  refine map_setClient fun x hx hid => ?_
  have hids := h.ids
  rw [ids_map] at hids
  obtain rfl : x = c := Option.some.inj (((Keyed.find_eq_some_iff hids).mpr ⟨hx, hid⟩).symm.trans hfind)
  have hnodup := (h.own (x.map f) (List.mem_map_of_mem hx)).2
  unfold Client.map
  rw [map_erase_of_nodup hnodup ha]

theorem map_setList {e : ν × List ℕ} (h : ((t.map f).channels.map Prod.fst).Nodup) (he : e ∈ t.channels) (ids : List ℕ) :
    (t.setList e.1 ids).map f = (t.map f).setList (f e.1) ids := by
  have hlists : (Keyed.update Prod.fst t.channels e.1 fun x => (x.1, ids)).map (fun x => (f x.1, x.2)) =
      Keyed.update Prod.fst (t.channels.map fun x => (f x.1, x.2)) (f e.1) fun x => (x.1, ids) := by
    unfold Keyed.update
    rw [List.map_map, List.map_map]
    refine List.map_congr_left fun x hx => ?_
    show (fun y : ν × List ℕ => (f y.1, y.2)) (if x.1 = e.1 then (x.1, ids) else x) = if f x.1 = f e.1 then (f x.1, ids) else (f x.1, x.2)
    by_cases hid : x.1 = e.1
    · rw [if_pos hid, if_pos (congrArg f hid)]
    · rw [if_neg hid, if_neg fun heq => hid ((name_iff h hx he).mp heq)]
  unfold setList map
  rw [hlists]

theorem map_dropList {e : ν × List ℕ} (h : ((t.map f).channels.map Prod.fst).Nodup) (he : e ∈ t.channels) : (t.dropList e.1).map f = (t.map f).dropList (f e.1) := by
  have hlists : (Keyed.erase Prod.fst t.channels e.1).map (fun x => (f x.1, x.2)) =
      Keyed.erase Prod.fst (t.channels.map fun x => (f x.1, x.2)) (f e.1) := by
    unfold Keyed.erase
    rw [List.filter_map]
    refine congrArg (List.map _) (List.filter_congr fun x hx => ?_)
    exact decide_eq_decide.mpr (not_congr (name_iff h hx he).symm)
  unfold dropList map
  rw [hlists]

theorem map_erasePattern (h : (t.map f).patterns.Nodup) (ha : (id, a) ∈ t.patterns) :
    (t.erasePattern id a).map f = (t.map f).erasePattern id (f a) := by
  have hpatterns : (t.patterns.erase (id, a)).map (fun p => (p.1, f p.2)) = (t.patterns.map fun p => (p.1, f p.2)).erase (id, f a) :=
    map_erase_of_nodup h ha
  unfold erasePattern map
  dsimp only
  rw [hpatterns]

theorem refs_setList (t : Tables ν) (a : ν) (ids : List ℕ) : (t.setList a ids).refs = t.refs := by
  unfold refs
  rw [names_setList]
  rfl

theorem refs_dropChannel (hids : (t.clients.map Client.id).Nodup) (hfind : t.find id = some c) (ha : a ∈ c.channels) :
    t.refs.Perm (a :: (t.dropChannel id a).refs) := by
  have hbefore := (Keyed.perm_of_find hids hfind).flatMap_right Client.refs
  have hafter := (Keyed.update_perm hids hfind fun c => { c with channels := c.channels.erase a }).flatMap_right Client.refs
  unfold refs dropChannel setClient
  rw [← List.cons_append]
  refine List.Perm.append_right _ (hbefore.trans (List.Perm.trans ?_ (hafter.symm.cons a)))
  rw [List.flatMap_cons, List.flatMap_cons, ← List.cons_append]
  refine List.Perm.append_right _ ?_
  unfold Client.refs
  exact (List.perm_cons_erase ha).append_right _

theorem refs_dropPattern (hids : (t.clients.map Client.id).Nodup) (hfind : t.find id = some c) (ha : a ∈ c.patterns) :
    t.refs.Perm (a :: (t.dropPattern id a).refs) := by
  have hbefore := (Keyed.perm_of_find hids hfind).flatMap_right Client.refs
  have hafter := (Keyed.update_perm hids hfind fun c => { c with patterns := c.patterns.erase a }).flatMap_right Client.refs
  unfold refs dropPattern setClient
  rw [← List.cons_append]
  refine List.Perm.append_right _ (hbefore.trans (List.Perm.trans ?_ (hafter.symm.cons a)))
  rw [List.flatMap_cons, List.flatMap_cons, ← List.cons_append]
  refine List.Perm.append_right _ ?_
  unfold Client.refs
  exact ((List.perm_cons_erase ha).append_left _).trans List.perm_middle

theorem refs_dropList {e : ν × List ℕ} (hnames : (t.channels.map Prod.fst).Nodup) (he : e ∈ t.channels) :
    t.refs.Perm (e.1 :: (t.dropList e.1).refs) := by
  have hperm := (Keyed.perm_of_find hnames ((Keyed.find_eq_some_iff hnames).mpr ⟨he, rfl⟩)).map Prod.fst
  unfold refs dropList
  refine List.Perm.trans ?_ List.perm_middle
  exact List.Perm.append_left _ (hperm.append_right _)

theorem refs_erasePattern (ha : (id, a) ∈ t.patterns) : t.refs.Perm (a :: (t.erasePattern id a).refs) := by
  have hperm := (List.perm_cons_erase ha).map Prod.snd
  unfold refs erasePattern
  rw [← List.append_assoc, ← List.append_assoc]
  exact (hperm.append_left _).trans List.perm_middle

end Tables
end RedisZk.Pubsub
