/-
# Mass unsubscription and messages

A client's subscriptions go one after the other while the iterator is in the table that they go from, and a
message is sent to the clients of its channel and to the patterns that it matches.

Key definitions: `View.unsubscribeAll`, `View.punsubscribeAll`, `deliveries`.
Key theorems: `unsubscribeEach_spec`, `unsubscribeAllChannels_spec`, `publish_spec`.
-/
import RedisZk.Pubsub.Commands

namespace RedisZk.Pubsub

open Streams (Sds)
open Referenced (incr decr value Exact)

variable {s s' : Server} {held refs refs' : List ℕ} {id channel pattern message a next : ℕ} {c : Client ℕ}
  {old heap : ℕ → Option (Counted Sds)}

/-! ### All subscriptions of a client -/

/-- One unsubscription after the other. -/
def View.unsubscribeEach (v : View) (id : ℕ) (channels : List Sds) (notify : Bool) : View :=
  channels.foldl (fun v channel => v.unsubscribe id channel notify) v

def View.punsubscribeEach (v : View) (id : ℕ) (patterns : List Sds) (notify : Bool) : View :=
  patterns.foldl (fun v pattern => v.punsubscribe id pattern notify) v

theorem Does.refl (h : Inv s held) : Does s s held (Pubsub.view s) := ⟨h, fun _ _ => rfl, rfl, rfl⟩

/-- One function after the other. -/
theorem Does.trans {s1 s2 : Server} {v1 v2 : View} (h1 : Does s s1 held v1) (h2 : Does s1 s2 held v2) : Does s s2 held v2 :=
  ⟨h2.inv, fun b hb => (h2.held b hb).trans (h1.held b hb), h2.view, h2.ids.trans h1.ids⟩

theorem text_congr {heap' : ℕ → Option (Counted Sds)} (h : value heap' a = value heap a) : text heap' a = text heap a := by
  rw [text, text, h]

/-- **The iterator meets every name that was there**, each before it is freed. -/
theorem each_spec {own : Client ℕ → List ℕ} {step : Server → ℕ → Option (Server × ℕ)} {run : List ℕ → Server → Option (Server × ℕ)}
    {f : View → Sds → View} (hnil : ∀ s, run [] s = some (s, 0)) (hcons : ∀ a rest s, run (a :: rest) s = (do
      let c ← s.tables.find id
      if a ∉ own c then none
      else do
        let (s, n) ← step s a
        let (s, m) ← run rest s
        some (s, n + m)))
    (hown : ∀ {s : Server} {c}, s.tables.find id = some c → ∀ b ∈ own c, b ∈ s.tables.refs)
    (hstep : ∀ {s : Server} {c a}, Inv s held → s.tables.find id = some c → a ∈ own c →
      Unsubscribes own s held id a c (f (view s) (text s.heap a)) (step s a)) :
    ∀ (l : List ℕ) {s : Server} {c : Client ℕ}, Inv s held → s.tables.find id = some c →
    (l.map (text s.heap)).Nodup → (∀ b ∈ l, b ∈ own c) →
    ∃ s', run l s = some (s', l.length) ∧ Does s s' held ((l.map (text s.heap)).foldl f (view s))
  | [], s, _, h, _, _, _ => ⟨s, hnil s, Does.refl h⟩
  | a :: rest, s, c, h, hfind, hnodup, hin => by
    have ha := hin a List.mem_cons_self
    obtain ⟨hnot, hrest⟩ := List.nodup_cons.mp (show (text s.heap a :: rest.map (text s.heap)).Nodup from hnodup)
    obtain ⟨s1, c1, hrun1, hdoes1, hfind1, hleft, hsame⟩ := hstep h hfind ha
    have hin1 : ∀ b ∈ rest, b ∈ own c1 := by
      intro b hb
      refine hleft b (hin b (List.mem_cons_of_mem a hb)) fun heq => hnot ?_
      rw [← heq]
      exact List.mem_map_of_mem hb
    have htext : rest.map (text s1.heap) = rest.map (text s.heap) := List.map_congr_left fun b hb =>
      text_congr (hsame b (hown hfind1 b (hin1 b hb)))
    obtain ⟨s2, hrun2, hdoes2⟩ := each_spec hnil hcons hown hstep rest hdoes1.inv hfind1 (by rw [htext]; exact hrest) hin1
    refine ⟨s2, ?_, ?_⟩
    · rw [hcons, hfind, some_bind, if_neg (not_not.mpr ha), hrun1, if_pos (List.mem_map_of_mem ha), some_bind]
      dsimp only
      rw [hrun2, some_bind, List.length_cons, Nat.add_comm]
    · rw [htext, hdoes1.view] at hdoes2
      exact hdoes1.trans hdoes2

theorem unsubscribeEach_spec (notify : Bool) (l : List ℕ) (h : Inv s held) (hfind : s.tables.find id = some c)
    (hnodup : (l.map (text s.heap)).Nodup) (hin : ∀ b ∈ l, b ∈ c.channels) :
    ∃ s', unsubscribeEach id notify l s = some (s', l.length) ∧ Does s s' held ((view s).unsubscribeEach id (l.map (text s.heap)) notify) :=
  each_spec (fun _ => rfl) (fun _ _ _ => rfl) (fun hfind _ hb => Tables.mem_refs_channel (Keyed.of_find hfind).1 hb)
    (fun h hfind ha => unsubscribeChannel_spec h (mem_channels_refs hfind held _ ha) hfind notify) l h hfind hnodup hin

theorem punsubscribeEach_spec (notify : Bool) (l : List ℕ) (h : Inv s held) (hfind : s.tables.find id = some c)
    (hnodup : (l.map (text s.heap)).Nodup) (hin : ∀ b ∈ l, b ∈ c.patterns) :
    ∃ s', punsubscribeEach id notify l s = some (s', l.length) ∧ Does s s' held ((view s).punsubscribeEach id (l.map (text s.heap)) notify) :=
  each_spec (fun _ => rfl) (fun _ _ _ => rfl) (fun hfind _ hb => Tables.mem_refs_pattern (Keyed.of_find hfind).1 hb)
    (fun h hfind ha => unsubscribePattern_spec h (mem_patterns_refs hfind held _ ha) hfind notify) l h hfind hnodup hin

theorem notify_does (h : Inv s held) (hfind : s.tables.find id = some c) (r : ℕ → Reply) :
    ∃ s', notifyClient s id r = some s' ∧ Does s s' held ((view s).notifyClient id r) :=
  ⟨_, notifyClient_spec hfind (text s.heap) r, does_of h.kept h.mirror rfl⟩

/-- The names in any order; a client without a subscription is told so. -/
def View.unsubscribeAll (v : View) (id : ℕ) (channels : List Sds) (notify : Bool) : View :=
  if notify ∧ channels = [] then v.notifyClient id (.unsubscribe none) else v.unsubscribeEach id channels notify

def View.punsubscribeAll (v : View) (id : ℕ) (patterns : List Sds) (notify : Bool) : View :=
  if notify ∧ patterns = [] then v.notifyClient id (.punsubscribe none) else v.punsubscribeEach id patterns notify

theorem unsubscribeAllChannels_spec (h : Inv s held) (hfind : s.tables.find id = some c) (walk : Walk) (notify : Bool) :
    ∃ s' channels, pubsubUnsubscribeAllChannels s id walk notify = some s' ∧ channels.Perm ((names s).channelsOf id) ∧
      Does s s' held ((view s).unsubscribeAll id channels notify) := by
  have hperm := walk.perm c.channels
  have hnodup : (c.channels.map (text s.heap)).Nodup := (h.mirror.own _ (Keyed.of_find (find_names hfind)).1).1
  have hnodup' : ((walk.order c.channels).map (text s.heap)).Nodup := ((hperm.map _).nodup_iff).mpr hnodup
  obtain ⟨s', hrun, hdoes⟩ := unsubscribeEach_spec notify (walk.order c.channels) h hfind hnodup' fun b hb => hperm.mem_iff.mp hb
  rw [pubsubUnsubscribeAllChannels, hfind, some_bind, hrun, some_bind]
  dsimp only
  unfold View.unsubscribeAll
  by_cases hnone : notify = true ∧ (walk.order c.channels).length = 0
  · have hempty := List.length_eq_zero_iff.mp hnone.2
    rw [hempty] at hrun
    obtain rfl : s' = s := (Prod.mk.inj (Option.some.inj hrun)).1.symm
    obtain ⟨s1, hrun1, hdoes1⟩ := notify_does h hfind (.unsubscribe none)
    refine ⟨s1, [], ?_, ?_, ?_⟩
    · rw [if_pos hnone]
      exact hrun1
    · rw [channelsOf_names hfind]
      rw [hempty] at hperm
      exact hperm.map (text s'.heap)
    · rw [if_pos ⟨hnone.1, rfl⟩]
      exact hdoes1
  · refine ⟨s', (walk.order c.channels).map (text s.heap), if_neg hnone, ?_, ?_⟩
    · rw [channelsOf_names hfind]
      exact hperm.map (text s.heap)
    · rw [if_neg fun hand => hnone ⟨hand.1, by rw [List.map_eq_nil_iff.mp hand.2]; rfl⟩]
      exact hdoes

theorem unsubscribeAllPatterns_spec (h : Inv s held) (hfind : s.tables.find id = some c) (notify : Bool) :
    ∃ s', pubsubUnsubscribeAllPatterns s id notify = some s' ∧
      Does s s' held ((view s).punsubscribeAll id ((names s).patternsOf id) notify) := by
  have hnodup : (c.patterns.map (text s.heap)).Nodup := (h.mirror.own _ (Keyed.of_find (find_names hfind)).1).2
  obtain ⟨s', hrun, hdoes⟩ := punsubscribeEach_spec notify c.patterns h hfind hnodup fun b hb => hb
  rw [pubsubUnsubscribeAllPatterns, hfind, some_bind, hrun, some_bind,
    patternsOf_names hfind]
  dsimp only
  unfold View.punsubscribeAll
  by_cases hnone : notify = true ∧ c.patterns.length = 0
  · have hempty := List.length_eq_zero_iff.mp hnone.2
    rw [hempty] at hrun
    obtain rfl : s' = s := (Prod.mk.inj (Option.some.inj hrun)).1.symm
    obtain ⟨s1, hrun1, hdoes1⟩ := notify_does h hfind (.punsubscribe none)
    refine ⟨s1, ?_, ?_⟩
    · rw [if_pos hnone]
      exact hrun1
    · rw [if_pos ⟨hnone.1, by rw [hempty]; rfl⟩]
      exact hdoes1
  · refine ⟨s', if_neg hnone, ?_⟩
    rw [if_neg fun hand => hnone ⟨hand.1, by rw [List.map_eq_nil_iff.mp hand.2]; rfl⟩]
    exact hdoes

/-! ### A message -/

/-- What is sent for a message: one for each client of the channel, and one for each pattern that matches. -/
def deliveries (signedChar : Bool) (t : Tables Sds) (channel message : Sds) : List (ℕ × Reply) :=
  (t.listeners channel).map (fun id => (id, .message channel message)) ++
    (t.patterns.filter fun p => Util.stringmatchlen signedChar false p.2 channel).map fun p => (p.1, .pmessage p.2 channel message)

def View.publish (signedChar : Bool) (v : View) (channel message : Sds) : View :=
  { v with out := v.out ++ deliveries signedChar v.tables channel message }

theorem sendEach_spec (hkept : Kept old next s.heap refs) (hch : channel ∈ refs) (hmsg : message ∈ refs) : ∀ (ids : List ℕ) (out : List (ℕ × Reply)),
    (∀ id ∈ ids, ∃ c, s.tables.find id = some c) →
    sendEach channel message ids { s with out := out } =
      some ({ s with out := out ++ ids.map fun id => (id, .message (text old channel) (text old message)) }, ids.length)
  | [], out, _ => by rw [sendEach, List.map_nil, List.append_nil]; rfl
  | id :: rest, out, hids => by
    obtain ⟨c, hc⟩ := hids id List.mem_cons_self
    rw [sendEach]
    dsimp only
    rw [hkept.read hch, some_bind, hkept.read hmsg, some_bind, addReply]
    dsimp only
    rw [hc, Option.map_some, some_bind,
      sendEach_spec hkept hch hmsg rest _ fun x hx => hids x (List.mem_cons_of_mem id hx), some_bind]
    dsimp only
    rw [List.append_assoc, List.map_cons, List.length_cons]
    rfl

theorem psendEach_spec (signedChar : Bool) (hkept : Kept old next s.heap refs) (hch : channel ∈ refs) (hmsg : message ∈ refs) :
    ∀ (l : List (ℕ × ℕ)) (out : List (ℕ × Reply)), (∀ p ∈ l, p.2 ∈ refs ∧ ∃ c, s.tables.find p.1 = some c) →
    psendEach signedChar channel message l { s with out := out } =
      some ({ s with out := out ++
        ((l.map fun p => (p.1, text old p.2)).filter fun p => Util.stringmatchlen signedChar false p.2 (text old channel)).map (fun p =>
          (p.1, .pmessage p.2 (text old channel) (text old message))) },
        ((l.map fun p => (p.1, text old p.2)).filter fun p => Util.stringmatchlen signedChar false p.2 (text old channel)).length)
  | [], out, _ => by rw [psendEach, List.map_nil, List.filter_nil, List.map_nil, List.append_nil]; rfl
  | (id, b) :: rest, out, hl => by
    obtain ⟨hb, c, hc⟩ := hl (id, b) List.mem_cons_self
    have ih := fun out => psendEach_spec signedChar hkept hch hmsg rest out fun p hp => hl p (List.mem_cons_of_mem _ hp)
    rw [psendEach]
    dsimp only
    rw [hkept.read hb, some_bind, hkept.read hch, some_bind, hkept.read hmsg,
      some_bind, List.map_cons, List.filter_cons]
    dsimp only
    split
    · rw [addReply]
      dsimp only
      rw [hc, Option.map_some, some_bind, ih, some_bind]
      dsimp only
      rw [List.append_assoc, List.map_cons, List.length_cons]
      rfl
    · exact ih out

/-- The clients of the lists are there. -/
theorem find_listener (h : Inv s held) (key : Sds) (hin : id ∈ (names s).listeners key) : ∃ c, s.tables.find id = some c := by
  obtain ⟨c, hc, -⟩ := Tables.find_of_channel ((h.mirror.listed id key).mp hin)
  rw [find_some_iff, ← Tables.ids_map (text s.heap)]
  exact find_some_iff.mp ⟨c, hc⟩

theorem find_patterned (h : Inv s held) (key : Sds) (hin : (id, key) ∈ (names s).patterns) : ∃ c, s.tables.find id = some c := by
  obtain ⟨c, hc, -⟩ := Tables.find_of_pattern ((h.mirror.patterned id key).mp hin)
  rw [find_some_iff, ← Tables.ids_map (text s.heap)]
  exact find_some_iff.mp ⟨c, hc⟩

/-- **A message goes to every client of its channel and to every pattern that matches**, and the number of messages is
returned. -/
theorem publish_spec (signedChar : Bool) (h : Inv s held) (hch : channel ∈ held) (hmsg : message ∈ held) :
    ∃ s', pubsubPublishMessage signedChar s channel message =
        some (s', (deliveries signedChar (names s) (text s.heap channel) (text s.heap message)).length) ∧
      Does s s' held ((view s).publish signedChar (text s.heap channel) (text s.heap message)) := by
  have hkept := h.kept
  have hlist := find_list (text s.heap) s.tables (text s.heap channel)
  have hch' := List.mem_append_right s.tables.refs hch
  have hmsg' := List.mem_append_right s.tables.refs hmsg
  have hfirst : ((Keyed.find (fun e : ℕ × List ℕ => text s.heap e.1) s.tables.channels (text s.heap channel)).elim (some (s, 0))
      fun e => sendEach channel message e.2 s) =
      some ({ s with out := s.out ++ ((names s).listeners (text s.heap channel)).map fun id => (id, .message (text s.heap channel) (text s.heap message)) },
        ((names s).listeners (text s.heap channel)).length) := by
    have hl : (names s).listeners (text s.heap channel) =
        ((Keyed.find (fun e : ℕ × List ℕ => text s.heap e.1) s.tables.channels (text s.heap channel)).map Prod.snd).getD [] := by
      rw [Tables.listeners, names, hlist, Option.map_map]
      rfl
    cases hde : Keyed.find (fun e : ℕ × List ℕ => text s.heap e.1) s.tables.channels (text s.heap channel) with
    | none =>
      rw [hl, hde, Option.map_none, Option.getD_none, List.map_nil, List.append_nil]
      rfl
    | some e =>
      rw [hde] at hl
      rw [hl]
      exact sendEach_spec hkept hch' hmsg' e.2 _ fun x hx => find_listener h (text s.heap channel) (by rw [hl]; exact hx)
  have hsearch : search s.heap Prod.fst s.tables.channels (text s.heap channel) =
      some (Keyed.find (fun e : ℕ × List ℕ => text s.heap e.1) s.tables.channels (text s.heap channel)) :=
    hkept.search (fun e he => List.mem_append_left held (Tables.mem_refs_name he)) _
  have hpatterns : (names s).patterns = s.tables.patterns.map fun p => (p.1, text s.heap p.2) := rfl
  rw [pubsubPublishMessage, hkept.read hch', some_bind, hsearch, some_bind, hfirst,
    some_bind]
  dsimp only
  by_cases hnil : s.tables.patterns = []
  · have hall : deliveries signedChar (names s) (text s.heap channel) (text s.heap message) =
        ((names s).listeners (text s.heap channel)).map fun id => (id, .message (text s.heap channel) (text s.heap message)) := by
      rw [deliveries, hpatterns, hnil, List.map_nil, List.filter_nil, List.map_nil, List.append_nil]
    rw [if_pos hnil, View.publish, view, hall, List.length_map]
    exact ⟨_, rfl, does_of hkept h.mirror rfl⟩
  · obtain ⟨heap1, hincr, hkept1⟩ := hkept.incr hch'
    obtain ⟨heap2, hdecr, hkept2⟩ := hkept1.decr
    have hclients : ∀ p ∈ s.tables.patterns, p.2 ∈ channel :: (s.tables.refs ++ held) ∧ ∃ c, s.tables.find p.1 = some c := by
      intro p hp
      refine ⟨List.mem_cons_of_mem _ (List.mem_append_left held (Tables.mem_refs_all hp)), find_patterned h (text s.heap p.2) ?_⟩
      rw [hpatterns]
      exact List.mem_map.mpr ⟨p, hp, rfl⟩
    have hsend := psendEach_spec (s := { s with heap := heap1 }) signedChar hkept1 List.mem_cons_self (List.mem_cons_of_mem channel hmsg')
      s.tables.patterns (s.out ++ ((names s).listeners (text s.heap channel)).map fun id =>
        (id, .message (text s.heap channel) (text s.heap message))) hclients
    rw [← hpatterns] at hsend
    rw [if_neg hnil, hincr, some_bind, hsend, some_bind]
    dsimp only
    rw [hdecr, some_bind, View.publish, view]
    unfold deliveries
    dsimp only
    rw [← List.append_assoc, List.length_append, List.length_map, List.length_map]
    exact ⟨_, rfl, does_of hkept2 h.mirror rfl⟩

end RedisZk.Pubsub
