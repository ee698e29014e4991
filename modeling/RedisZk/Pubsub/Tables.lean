/-
# The tables of subscriptions

A client has its set of channels and its list of patterns; the server has the clients of each channel,
and all the patterns with their clients. The names are objects for the server, and strings for
what the tables mean: what is said here holds for both.

Key definitions: `Tables`, `Tables.subscribe`, `Tables.unsubscribe`, `Mirror`.
Key theorems: `Mirror.subscribe`, `Mirror.unsubscribe`, `Mirror.psubscribe`, `Mirror.punsubscribe`.
-/
import Mathlib
import RedisZk.Lib.Keyed

namespace RedisZk.Pubsub

/-- `pubsub_channels` and `pubsub_patterns` of a client. -/
structure Client (ν : Type) where
  id : ℕ
  channels : List ν
  patterns : List ν

/-- The clients, and `pubsub_channels` and `pubsub_patterns` of the server. -/
structure Tables (ν : Type) where
  clients : List (Client ν)
  channels : List (ν × List ℕ)
  patterns : List (ℕ × ν)

namespace Tables

variable {ν : Type} {t : Tables ν} {id id' : ℕ} {channel channel' pattern : ν}

def find (t : Tables ν) (id : ℕ) : Option (Client ν) := Keyed.find Client.id t.clients id

def setClient (t : Tables ν) (id : ℕ) (g : Client ν → Client ν) : Tables ν := { t with clients := Keyed.update Client.id t.clients id g }

def addChannel (t : Tables ν) (id : ℕ) (channel : ν) : Tables ν :=
  t.setClient id fun c => { c with channels := c.channels ++ [channel] }

def addPattern (t : Tables ν) (id : ℕ) (pattern : ν) : Tables ν :=
  t.setClient id fun c => { c with patterns := c.patterns ++ [pattern] }

/-- A new list of clients, of one. -/
def newList (t : Tables ν) (channel : ν) (id : ℕ) : Tables ν := { t with channels := t.channels ++ [(channel, [id])] }

def newPattern (t : Tables ν) (id : ℕ) (pattern : ν) : Tables ν := { t with patterns := t.patterns ++ [(id, pattern)] }

/-! ### What the tables say -/

def channelsOf (t : Tables ν) (id : ℕ) : List ν := ((t.find id).map Client.channels).getD []

def patternsOf (t : Tables ν) (id : ℕ) : List ν := ((t.find id).map Client.patterns).getD []

variable {g : Client ν → Client ν} {c : Client ν}

theorem channelsOf_eq (hfind : t.find id = some c) : t.channelsOf id = c.channels := by
  unfold channelsOf
  rw [hfind]
  rfl

theorem patternsOf_eq (hfind : t.find id = some c) : t.patternsOf id = c.patterns := by
  unfold patternsOf
  rw [hfind]
  rfl

/-- A client is found if it has a name at all. -/
theorem find_of_channel (hin : channel ∈ t.channelsOf id) : ∃ c, t.find id = some c ∧ channel ∈ c.channels := by
  unfold channelsOf at hin
  cases hfind : t.find id with
  | none => rw [hfind] at hin; cases hin
  | some c => rw [hfind] at hin; exact ⟨c, rfl, hin⟩

theorem find_of_pattern (hin : pattern ∈ t.patternsOf id) : ∃ c, t.find id = some c ∧ pattern ∈ c.patterns := by
  unfold patternsOf at hin
  cases hfind : t.find id with
  | none => rw [hfind] at hin; cases hin
  | some c => rw [hfind] at hin; exact ⟨c, rfl, hin⟩

theorem find_setClient (hg : ∀ c, (g c).id = c.id) : (t.setClient id g).find id' = if id' = id then (t.find id).map g else t.find id' :=
  Keyed.find_update g hg t.clients id id'

theorem channelsOf_setClient (hg : ∀ c, (g c).id = c.id) (hfind : t.find id = some c) (id' : ℕ) :
    (t.setClient id g).channelsOf id' = if id' = id then (g c).channels else t.channelsOf id' := by
  unfold channelsOf
  rw [find_setClient hg]
  by_cases hid : id' = id
  · rw [if_pos hid, if_pos hid, hfind]
    rfl
  · rw [if_neg hid, if_neg hid]

theorem patternsOf_setClient (hg : ∀ c, (g c).id = c.id) (hfind : t.find id = some c) (id' : ℕ) :
    (t.setClient id g).patternsOf id' = if id' = id then (g c).patterns else t.patternsOf id' := by
  unfold patternsOf
  rw [find_setClient hg]
  by_cases hid : id' = id
  · rw [if_pos hid, if_pos hid, hfind]
    rfl
  · rw [if_neg hid, if_neg hid]

/-! ### Both sides at once -/

variable [DecidableEq ν]

def dropChannel (t : Tables ν) (id : ℕ) (channel : ν) : Tables ν :=
  t.setClient id fun c => { c with channels := c.channels.erase channel }

def dropPattern (t : Tables ν) (id : ℕ) (pattern : ν) : Tables ν :=
  t.setClient id fun c => { c with patterns := c.patterns.erase pattern }

def setList (t : Tables ν) (channel : ν) (ids : List ℕ) : Tables ν :=
  { t with channels := Keyed.update Prod.fst t.channels channel fun e => (e.1, ids) }

def dropList (t : Tables ν) (channel : ν) : Tables ν := { t with channels := Keyed.erase Prod.fst t.channels channel }

def erasePattern (t : Tables ν) (id : ℕ) (pattern : ν) : Tables ν := { t with patterns := t.patterns.erase (id, pattern) }

def listeners (t : Tables ν) (channel : ν) : List ℕ := ((Keyed.find Prod.fst t.channels channel).map Prod.snd).getD []

/-- The channel is a channel of the client. -/
def subscribe (t : Tables ν) (id : ℕ) (channel : ν) : Tables ν :=
  if channel ∈ t.channelsOf id then t
  else
    match Keyed.find Prod.fst t.channels channel with
    | none => (t.addChannel id channel).newList channel id
    | some e => (t.addChannel id channel).setList channel (e.2 ++ [id])

/-- It is no more; a list that gets empty goes. -/
def unsubscribe (t : Tables ν) (id : ℕ) (channel : ν) : Tables ν :=
  if channel ∈ t.channelsOf id then
    if (t.listeners channel).erase id = [] then (t.dropChannel id channel).dropList channel
    else (t.dropChannel id channel).setList channel ((t.listeners channel).erase id)
  else t

def psubscribe (t : Tables ν) (id : ℕ) (pattern : ν) : Tables ν :=
  if pattern ∈ t.patternsOf id then t else (t.addPattern id pattern).newPattern id pattern

def punsubscribe (t : Tables ν) (id : ℕ) (pattern : ν) : Tables ν :=
  if pattern ∈ t.patternsOf id then (t.dropPattern id pattern).erasePattern id pattern else t

/-- **Every subscription is stored twice**, once on each side. -/
structure Mirror (t : Tables ν) : Prop where
  ids : (t.clients.map Client.id).Nodup
  own : ∀ c ∈ t.clients, c.channels.Nodup ∧ c.patterns.Nodup
  names : (t.channels.map Prod.fst).Nodup
  lists : ∀ e ∈ t.channels, e.2 ≠ [] ∧ e.2.Nodup
  listed : ∀ id channel, id ∈ t.listeners channel ↔ channel ∈ t.channelsOf id
  patterns : t.patterns.Nodup
  patterned : ∀ id pattern, (id, pattern) ∈ t.patterns ↔ pattern ∈ t.patternsOf id

theorem listeners_newList (hnone : Keyed.find Prod.fst t.channels channel = none) (channel' : ν) :
    (t.newList channel id).listeners channel' = if channel' = channel then [id] else t.listeners channel' := by
  unfold listeners newList
  rw [Keyed.find_snoc]
  by_cases heq : channel' = channel
  · subst heq
    rw [hnone, if_pos rfl, if_pos rfl]
    rfl
  · rw [if_neg heq, if_neg (Ne.symm heq), Option.or_none]

theorem listeners_setList {ids : List ℕ} {e : ν × List ℕ} (hfind : Keyed.find Prod.fst t.channels channel = some e) (channel' : ν) :
    (t.setList channel ids).listeners channel' = if channel' = channel then ids else t.listeners channel' := by
  have hupdate := Keyed.find_update (fun e : ν × List ℕ => (e.1, ids)) (f := Prod.fst) (fun _ => rfl) t.channels channel channel'
  unfold listeners setList
  rw [hupdate]
  by_cases heq : channel' = channel
  · rw [if_pos heq, if_pos heq, hfind]
    rfl
  · rw [if_neg heq, if_neg heq]

theorem names_setList (t : Tables ν) (channel : ν) (ids : List ℕ) : (t.setList channel ids).channels.map Prod.fst = t.channels.map Prod.fst :=
  Keyed.update_keys (f := Prod.fst) (fun e => (e.1, ids)) (fun _ => rfl) t.channels channel

theorem listeners_dropList (t : Tables ν) (channel channel' : ν) :
    (t.dropList channel).listeners channel' = if channel' = channel then [] else t.listeners channel' := by
  unfold listeners dropList
  rw [Keyed.find_erase]
  by_cases heq : channel' = channel
  · rw [if_pos heq, if_pos heq]
    rfl
  · rw [if_neg heq, if_neg heq]

theorem ids_setClient (h : t.Mirror) (hg : ∀ c, (g c).id = c.id) : ((t.setClient id g).clients.map Client.id).Nodup := by
  unfold setClient
  rw [Keyed.update_keys g hg]
  exact h.ids

theorem own_setClient (h : t.Mirror) (hfind : t.find id = some c) (hg : (g c).channels.Nodup ∧ (g c).patterns.Nodup) :
    ∀ c ∈ (t.setClient id g).clients, c.channels.Nodup ∧ c.patterns.Nodup := by
  intro y hy
  obtain ⟨x, hx, rfl⟩ := List.mem_map.mp hy
  split
  · rename_i hid
    rw [Option.some.inj (((Keyed.find_eq_some_iff h.ids).mpr ⟨hx, hid⟩).symm.trans hfind)]
    exact hg
  · exact h.own x hx

theorem nodup_listeners (h : t.Mirror) (channel : ν) : (t.listeners channel).Nodup := by
  unfold listeners
  cases hfind : Keyed.find Prod.fst t.channels channel with
  | none => exact List.nodup_nil
  | some e => exact (h.lists e (Keyed.of_find hfind).1).2

theorem listeners_eq {e : ν × List ℕ} (hfind : Keyed.find Prod.fst t.channels channel = some e) : t.listeners channel = e.2 := by
  unfold listeners
  rw [hfind]
  rfl

/-- What is changed for one client and one channel on both sides agrees if it agrees there. -/
theorem listed_update (h : t.Mirror) {t' : Tables ν} {ids : List ℕ} {channels : List ν}
    (hl : ∀ channel', t'.listeners channel' = if channel' = channel then ids else t.listeners channel')
    (hc : ∀ id', t'.channelsOf id' = if id' = id then channels else t.channelsOf id')
    (hids : ∀ id', id' ≠ id → (id' ∈ ids ↔ id' ∈ t.listeners channel))
    (hchannels : ∀ channel', channel' ≠ channel → (channel' ∈ channels ↔ channel' ∈ t.channelsOf id))
    (hboth : id ∈ ids ↔ channel ∈ channels) : ∀ id' channel', id' ∈ t'.listeners channel' ↔ channel' ∈ t'.channelsOf id' := by
  intro id' channel'
  rw [hl, hc]
  by_cases hid : id' = id
  · rw [if_pos hid]
    by_cases hch : channel' = channel
    · rw [if_pos hch, hid, hch]
      exact hboth
    · rw [if_neg hch, hchannels channel' hch, hid]
      exact h.listed id channel'
  · rw [if_neg hid]
    by_cases hch : channel' = channel
    · rw [if_pos hch, hids id' hid, hch]
      exact h.listed id' channel
    · rw [if_neg hch]
      exact h.listed id' channel'

/-- A change of the channels of one client, and of the lists. -/
theorem mirror_channels (h : t.Mirror) (hfind : t.find id = some c) {lists : List (ν × List ℕ)} {t' : Tables ν}
    (ht' : t' = { t.setClient id g with channels := lists }) (hg : ∀ c, (g c).id = c.id) (hpatterns : (g c).patterns = c.patterns)
    (hnodup : (g c).channels.Nodup) (hnames : (lists.map Prod.fst).Nodup) (hlists : ∀ e ∈ lists, e.2 ≠ [] ∧ e.2.Nodup)
    (hlisted : ∀ id channel, id ∈ t'.listeners channel ↔ channel ∈ t'.channelsOf id) : t'.Mirror := by
  subst ht'
  have hown := (h.own c (Keyed.of_find hfind).1).2
  refine ⟨ids_setClient h hg, own_setClient h hfind ⟨hnodup, hpatterns ▸ hown⟩, hnames, hlists, hlisted,
    h.patterns, fun id' pattern => (h.patterned id' pattern).trans ?_⟩
  show _ ↔ pattern ∈ (t.setClient id g).patternsOf id'
  rw [patternsOf_setClient hg hfind]
  split
  · rename_i hid
    rw [hid, patternsOf_eq hfind, hpatterns]
  · rfl

/-- A change of the patterns of one client, and of all patterns. -/
theorem mirror_patterns (h : t.Mirror) (hfind : t.find id = some c) {all : List (ℕ × ν)} {t' : Tables ν}
    (ht' : t' = { t.setClient id g with patterns := all }) (hg : ∀ c, (g c).id = c.id) (hchannels : (g c).channels = c.channels)
    (hnodup : (g c).patterns.Nodup) (hall : all.Nodup)
    (hpatterned : ∀ id' pattern, (id', pattern) ∈ all ↔ if id' = id then pattern ∈ (g c).patterns else (id', pattern) ∈ t.patterns) :
    t'.Mirror := by
  subst ht'
  have hown := (h.own c (Keyed.of_find hfind).1).1
  refine ⟨ids_setClient h hg, own_setClient h hfind ⟨hchannels ▸ hown, hnodup⟩, h.names, h.lists,
    fun id' channel => (h.listed id' channel).trans ?_, hall, fun id' pattern => (hpatterned id' pattern).trans ?_⟩
  · show _ ↔ channel ∈ (t.setClient id g).channelsOf id'
    rw [channelsOf_setClient hg hfind]
    split
    · rename_i hid
      rw [hid, channelsOf_eq hfind, hchannels]
    · rfl
  · show _ ↔ pattern ∈ (t.setClient id g).patternsOf id'
    rw [patternsOf_setClient hg hfind]
    split
    · rfl
    · exact h.patterned id' pattern

/-- **A new subscription is stored on both sides.** -/
theorem Mirror.subscribe (h : t.Mirror) (hfind : t.find id = some c) (channel : ν) : (t.subscribe id channel).Mirror := by
  unfold Tables.subscribe
  have hnodup := (h.own c (Keyed.of_find hfind).1).1
  rw [channelsOf_eq hfind]
  split
  · exact h
  · rename_i hnot
    have hg : ∀ x : Client ν, (⟨x.id, x.channels ++ [channel], x.patterns⟩ : Client ν).id = x.id := fun _ => rfl
    have hadd : (c.channels ++ [channel]).Nodup := List.nodup_append.mpr ⟨hnodup, List.nodup_singleton _, fun a ha b hb heq =>
      hnot (by rw [← List.mem_singleton.mp hb, ← heq]; exact ha)⟩
    have hother : ∀ channel', channel' ≠ channel → (channel' ∈ c.channels ++ [channel] ↔ channel' ∈ t.channelsOf id) := by
      intro channel' hne
      rw [channelsOf_eq hfind, List.mem_append, List.mem_singleton, or_iff_left hne]
    have hnew : id ∉ t.listeners channel := fun hin => hnot (by rw [← channelsOf_eq hfind]; exact (h.listed id channel).mp hin)
    cases hlist : Keyed.find Prod.fst t.channels channel with
    | none =>
      have hempty : t.listeners channel = [] := by
        unfold listeners
        rw [hlist]
        rfl
      refine mirror_channels h hfind rfl hg rfl hadd (Keyed.nodup_snoc h.names hlist) (fun e he => ?_)
        (listed_update h (listeners_newList hlist) (channelsOf_setClient hg hfind) (fun id' hne => ?_) hother ?_)
      · rcases List.mem_append.mp he with he | he
        · exact h.lists e he
        · rw [List.mem_singleton.mp he]
          exact ⟨List.cons_ne_nil _ _, List.nodup_singleton _⟩
      · rw [hempty, List.mem_singleton]
        exact ⟨fun heq => absurd heq hne, by rintro ⟨⟩⟩
      · exact iff_of_true (List.mem_singleton_self id) (List.mem_append_right _ (List.mem_singleton_self channel))
    | some e =>
      rw [listeners_eq hlist] at hnew
      refine mirror_channels h hfind rfl hg rfl hadd ?_ (fun e' he' => ?_)
        (listed_update h (listeners_setList hlist) (channelsOf_setClient hg hfind) (fun id' hne => ?_) hother ?_)
      · exact (congrArg List.Nodup (names_setList _ channel _)).mpr h.names
      · obtain ⟨x, hx, rfl⟩ := List.mem_map.mp he'
        split
        · refine ⟨List.append_ne_nil_of_right_ne_nil _ (List.cons_ne_nil _ _), List.nodup_append.mpr
            ⟨(h.lists e (Keyed.of_find hlist).1).2, List.nodup_singleton _, fun a ha b hb heq => hnew ?_⟩⟩
          rw [← List.mem_singleton.mp hb, ← heq]
          exact ha
        · exact h.lists x hx
      · rw [listeners_eq hlist, List.mem_append, List.mem_singleton, or_iff_left hne]
      · exact iff_of_true (List.mem_append_right _ (List.mem_singleton_self id)) (List.mem_append_right _ (List.mem_singleton_self channel))

/-- **A subscription goes from both sides.** -/
theorem Mirror.unsubscribe (h : t.Mirror) (hfind : t.find id = some c) (channel : ν) : (t.unsubscribe id channel).Mirror := by
  unfold Tables.unsubscribe
  have hnodup := (h.own c (Keyed.of_find hfind).1).1
  rw [channelsOf_eq hfind]
  split
  · rename_i hin
    have hg : ∀ x : Client ν, (⟨x.id, x.channels.erase channel, x.patterns⟩ : Client ν).id = x.id := fun _ => rfl
    have hother : ∀ channel', channel' ≠ channel → (channel' ∈ c.channels.erase channel ↔ channel' ∈ t.channelsOf id) := by
      intro channel' hne
      rw [channelsOf_eq hfind]
      exact List.mem_erase_of_ne hne
    have hl := nodup_listeners h channel
    have hids : ∀ id', id' ≠ id → (id' ∈ (t.listeners channel).erase id ↔ id' ∈ t.listeners channel) := fun _ hne => List.mem_erase_of_ne hne
    have hboth : id ∈ (t.listeners channel).erase id ↔ channel ∈ c.channels.erase channel :=
      iff_of_false (fun hmem => (hl.mem_erase_iff.mp hmem).1 rfl) fun hmem => (hnodup.mem_erase_iff.mp hmem).1 rfl
    split
    · rename_i hempty
      rw [hempty] at hids hboth
      exact mirror_channels h hfind rfl hg rfl (hnodup.erase _) (Keyed.nodup_erase h.names channel)
        (fun e he => h.lists e (List.mem_of_mem_filter he))
        (listed_update h (listeners_dropList _ _) (channelsOf_setClient hg hfind) hids hother hboth)
    · rename_i hne
      have hmem : id ∈ t.listeners channel := (h.listed id channel).mpr (by rw [channelsOf_eq hfind]; exact hin)
      obtain ⟨e, hlist⟩ : ∃ e, Keyed.find Prod.fst t.channels channel = some e := by
        unfold listeners at hmem
        cases hlist : Keyed.find Prod.fst t.channels channel with
        | none => rw [hlist] at hmem; cases hmem
        | some e => exact ⟨e, rfl⟩
      refine mirror_channels h hfind rfl hg rfl (hnodup.erase _) ?_ (fun e' he' => ?_)
        (listed_update h (listeners_setList hlist) (channelsOf_setClient hg hfind) hids hother hboth)
      · exact (congrArg List.Nodup (names_setList _ channel _)).mpr h.names
      · obtain ⟨x, hx, rfl⟩ := List.mem_map.mp he'
        split
        · exact ⟨hne, hl.erase _⟩
        · exact h.lists x hx
  · exact h

theorem Mirror.psubscribe (h : t.Mirror) (hfind : t.find id = some c) (pattern : ν) : (t.psubscribe id pattern).Mirror := by
  unfold Tables.psubscribe
  have hnodup := (h.own c (Keyed.of_find hfind).1).2
  have hof := patternsOf_eq hfind
  split
  · exact h
  · rename_i hnot
    have hnew : (id, pattern) ∉ t.patterns := fun hin => hnot ((h.patterned id pattern).mp hin)
    rw [hof] at hnot
    refine mirror_patterns h hfind rfl (fun _ => rfl) rfl ?_ ?_ fun id' pattern' => ?_
    · exact List.nodup_append.mpr ⟨hnodup, List.nodup_singleton _, fun a ha b hb heq =>
        hnot (by rw [← List.mem_singleton.mp hb, ← heq]; exact ha)⟩
    · exact List.nodup_append.mpr ⟨h.patterns, List.nodup_singleton _, fun a ha b hb heq =>
        hnew (by rw [← List.mem_singleton.mp hb, ← heq]; exact ha)⟩
    · show (id', pattern') ∈ t.patterns ++ [(id, pattern)] ↔ if id' = id then pattern' ∈ c.patterns ++ [pattern] else (id', pattern') ∈ t.patterns
      rw [List.mem_append, List.mem_singleton, Prod.mk.injEq]
      split
      · rename_i hid
        rw [hid, h.patterned, hof, List.mem_append, List.mem_singleton, eq_self_iff_true, true_and]
      · rename_i hid
        exact or_iff_left fun heq => hid heq.1

theorem Mirror.punsubscribe (h : t.Mirror) (hfind : t.find id = some c) (pattern : ν) : (t.punsubscribe id pattern).Mirror := by
  unfold Tables.punsubscribe
  have hnodup := (h.own c (Keyed.of_find hfind).1).2
  have hof := patternsOf_eq hfind
  split
  · refine mirror_patterns h hfind rfl (fun _ => rfl) rfl (hnodup.erase pattern) (h.patterns.erase _) fun id' pattern' => ?_
    show (id', pattern') ∈ t.patterns.erase (id, pattern) ↔ if id' = id then pattern' ∈ c.patterns.erase pattern else (id', pattern') ∈ t.patterns
    rw [h.patterns.mem_erase_iff]
    split
    · rename_i hid
      rw [hid, hnodup.mem_erase_iff, h.patterned, hof, ne_eq, Prod.mk.injEq, eq_self_iff_true, true_and]
    · rename_i hid
      exact and_iff_right fun heq => hid (Prod.mk.inj heq).1
  · exact h

end Tables
end RedisZk.Pubsub
