/-
# Subscribing and publishing

The commands of pubsub.c on string objects with reference counts. A read of an object that was freed,
an assertion that fails and a reply to a client that is gone make a command fail, and none of
them happens: what is left is what the commands do to the tables of strings, and their replies.
The arguments of a command are never encoded as integers, so every comparison is one of bytes.

Key definitions: `pubsubSubscribeChannel`, `pubsubUnsubscribeChannel`, `pubsubPublishMessage`, `View`, `Inv`.
Key theorems: `subscribeChannel_spec`, `unsubscribeChannel_spec`, `subscribePattern_spec`,
`unsubscribePattern_spec`.
-/
import RedisZk.Lib.Referenced
import RedisZk.Pubsub.Objects
import RedisZk.Util.Glob

namespace RedisZk.Pubsub

open Streams (Sds)
open Referenced (incr decr value Exact)

/-! ### The functions -/

/-- What a client is sent; NULL for the name of an unsubscription from nothing. -/
inductive Reply where
  | subscribe (channel : Sds) (count : ℕ)
  | unsubscribe (channel : Option Sds) (count : ℕ)
  | psubscribe (pattern : Sds) (count : ℕ)
  | punsubscribe (pattern : Option Sds) (count : ℕ)
  | message (channel message : Sds)
  | pmessage (pattern channel message : Sds)
  | integer (n : ℕ)
  deriving DecidableEq

structure Server where
  heap : ℕ → Option (Counted Sds)
  next : ℕ
  tables : Tables ℕ
  out : List (ℕ × Reply)

def text (heap : ℕ → Option (Counted Sds)) (a : ℕ) : Sds := (value heap a).getD []

/-- The first of the objects with the name; none if one of them was freed. -/
def search {ε : Type} (heap : ℕ → Option (Counted Sds)) (name : ε → ℕ) (l : List ε) (key : Sds) : Option (Option ε) :=
  if l.all fun e => (value heap (name e)).isSome then some (Keyed.find (fun e => text heap (name e)) l key) else none

def clientSubscriptionsCount {ν : Type} (c : Client ν) : ℕ := c.channels.length + c.patterns.length

/-- None for a client that was freed. -/
def addReply (s : Server) (id : ℕ) (r : Reply) : Option Server :=
  (s.tables.find id).map fun _ => { s with out := s.out ++ [(id, r)] }

/-- A reply with the number of subscriptions of the client. -/
def notifyClient (s : Server) (id : ℕ) (r : ℕ → Reply) : Option Server := do
  let c ← s.tables.find id
  addReply s id (r (clientSubscriptionsCount c))

/-- The channel is added to the client's, and the client to the list of the channel. -/
def subscribeNew (s : Server) (id channel : ℕ) (key : Sds) : Option Server := do
  let heap ← incr s.heap channel
  let tables := s.tables.addChannel id channel
  let de ← search heap Prod.fst tables.channels key
  match de with
  | none => do
    let heap ← incr heap channel
    some { s with heap := heap, tables := tables.newList channel id }
  | some e => some { s with heap := heap, tables := tables.setList e.1 (e.2 ++ [id]) }

def pubsubSubscribeChannel (s : Server) (id channel : ℕ) : Option Server := do
  let key ← value s.heap channel
  let c ← s.tables.find id
  let found ← search s.heap (fun a => a) c.channels key
  let s ← (if found.isSome then some s else subscribeNew s id channel key)
  notifyClient s id (.subscribe key)

/-- The channel `a` of the client goes, and the client from the list of the channel. -/
def unsubscribeFound (s : Server) (id channel a : ℕ) : Option Server := do
  let heap ← decr s.heap a
  let tables := s.tables.dropChannel id a
  let key ← value heap channel
  let de ← search heap Prod.fst tables.channels key
  let e ← de
  if id ∉ e.2 then none
  else if e.2.erase id = [] then do
    let heap ← decr heap e.1
    some { s with heap := heap, tables := tables.dropList e.1 }
  else some { s with heap := heap, tables := tables.setList e.1 (e.2.erase id) }

/-- The reply with the name, which is read again. -/
def notifyName (s : Server) (id name : ℕ) (notify : Bool) (r : Sds → ℕ → Reply) : Option Server :=
  if notify then (value s.heap name).bind fun key => notifyClient s id (r key) else some s

def pubsubUnsubscribeChannel (s : Server) (id channel : ℕ) (notify : Bool) : Option (Server × ℕ) := do
  let heap ← incr s.heap channel
  let key ← value heap channel
  let c ← s.tables.find id
  let found ← search heap (fun a => a) c.channels key
  let s ← (found.elim (some { s with heap := heap }) (unsubscribeFound { s with heap := heap } id channel))
  let s ← notifyName s id channel notify fun key => .unsubscribe (some key)
  let heap ← decr s.heap channel
  some ({ s with heap := heap }, if found.isSome then 1 else 0)

/-- The decoded object of a string is the string: the pattern has two references more. -/
def psubscribeNew (s : Server) (id pattern : ℕ) : Option Server := do
  let heap ← incr s.heap pattern
  let heap ← incr heap pattern
  some { s with heap := heap, tables := (s.tables.addPattern id pattern).newPattern id pattern }

def pubsubSubscribePattern (s : Server) (id pattern : ℕ) : Option Server := do
  let key ← value s.heap pattern
  let c ← s.tables.find id
  let found ← search s.heap (fun a => a) c.patterns key
  let s ← (if found.isSome then some s else psubscribeNew s id pattern)
  notifyClient s id (.psubscribe key)

/-- The pattern `a` of the client goes, and the one of the server: the code does not ask whether it is there. -/
def punsubscribeFound (s : Server) (id pattern a : ℕ) : Option Server := do
  let heap ← decr s.heap a
  let tables := s.tables.dropPattern id a
  let key ← value heap pattern
  let ln ← search heap Prod.snd (tables.patterns.filter fun p => decide (p.1 = id)) key
  let p ← ln
  let heap ← decr heap p.2
  some { s with heap := heap, tables := tables.erasePattern id p.2 }

def pubsubUnsubscribePattern (s : Server) (id pattern : ℕ) (notify : Bool) : Option (Server × ℕ) := do
  let heap ← incr s.heap pattern
  let key ← value heap pattern
  let c ← s.tables.find id
  let found ← search heap (fun a => a) c.patterns key
  let s ← (found.elim (some { s with heap := heap }) (punsubscribeFound { s with heap := heap } id pattern))
  let s ← notifyName s id pattern notify fun key => .punsubscribe (some key)
  let heap ← decr s.heap pattern
  some ({ s with heap := heap }, if found.isSome then 1 else 0)

/-- The iterator goes over the entries that were there; none if one of them was freed before its turn. -/
def unsubscribeEach (id : ℕ) (notify : Bool) : List ℕ → Server → Option (Server × ℕ)
  | [], s => some (s, 0)
  | channel :: rest, s => do
    let c ← s.tables.find id
    if channel ∉ c.channels then none
    else do
      let (s, n) ← pubsubUnsubscribeChannel s id channel notify
      let (s, m) ← unsubscribeEach id notify rest s
      some (s, n + m)

def punsubscribeEach (id : ℕ) (notify : Bool) : List ℕ → Server → Option (Server × ℕ)
  | [], s => some (s, 0)
  | pattern :: rest, s => do
    let c ← s.tables.find id
    if pattern ∉ c.patterns then none
    else do
      let (s, n) ← pubsubUnsubscribePattern s id pattern notify
      let (s, m) ← punsubscribeEach id notify rest s
      some (s, n + m)

/-- The order in which a dictionary is gone over. -/
structure Walk where
  order : List ℕ → List ℕ
  perm : ∀ l, (order l).Perm l

def pubsubUnsubscribeAllChannels (s : Server) (id : ℕ) (walk : Walk) (notify : Bool) : Option Server := do
  let c ← s.tables.find id
  let (s, count) ← unsubscribeEach id notify (walk.order c.channels) s
  if notify ∧ count = 0 then notifyClient s id (.unsubscribe none) else some s

def pubsubUnsubscribeAllPatterns (s : Server) (id : ℕ) (notify : Bool) : Option Server := do
  let c ← s.tables.find id
  let (s, count) ← punsubscribeEach id notify c.patterns s
  if notify ∧ count = 0 then notifyClient s id (.punsubscribe none) else some s

/-- A message for each client of the list. -/
def sendEach (channel message : ℕ) : List ℕ → Server → Option (Server × ℕ)
  | [], s => some (s, 0)
  | id :: rest, s => do
    let key ← value s.heap channel
    let msg ← value s.heap message
    let s ← addReply s id (.message key msg)
    let (s, n) ← sendEach channel message rest s
    some (s, n + 1)

/-- A message for each pattern that matches. -/
def psendEach (signedChar : Bool) (channel message : ℕ) : List (ℕ × ℕ) → Server → Option (Server × ℕ)
  | [], s => some (s, 0)
  | (id, a) :: rest, s => do
    let pattern ← value s.heap a
    let key ← value s.heap channel
    let msg ← value s.heap message
    if Util.stringmatchlen signedChar false pattern key then do
      let s ← addReply s id (.pmessage pattern key msg)
      let (s, n) ← psendEach signedChar channel message rest s
      some (s, n + 1)
    else psendEach signedChar channel message rest s

def pubsubPublishMessage (signedChar : Bool) (s : Server) (channel message : ℕ) : Option (Server × ℕ) := do
  let key ← value s.heap channel
  let de ← search s.heap Prod.fst s.tables.channels key
  let (s, n) ← de.elim (some (s, 0)) fun e => sendEach channel message e.2 s
  if s.tables.patterns = [] then some (s, n)
  else do
    let heap ← incr s.heap channel
    let (s, m) ← psendEach signedChar channel message s.tables.patterns { s with heap := heap }
    let heap ← decr s.heap channel
    some ({ s with heap := heap }, n + m)

/-! ### What is left of them -/

/-- The number of subscriptions of a client. -/
def Tables.count {ν : Type} (t : Tables ν) (id : ℕ) : ℕ := (t.channelsOf id).length + (t.patternsOf id).length

/-- The tables of the strings, and what was sent. -/
structure View where
  tables : Tables Sds
  out : List (ℕ × Reply)

namespace View

def send (v : View) (id : ℕ) (r : Reply) : View := { v with out := v.out ++ [(id, r)] }

def notifyClient (v : View) (id : ℕ) (r : ℕ → Reply) : View := v.send id (r (v.tables.count id))

def subscribe (v : View) (id : ℕ) (channel : Sds) : View :=
  notifyClient { v with tables := v.tables.subscribe id channel } id (.subscribe channel)

def unsubscribe (v : View) (id : ℕ) (channel : Sds) (notify : Bool) : View :=
  let v := { v with tables := v.tables.unsubscribe id channel }
  if notify then v.notifyClient id (.unsubscribe (some channel)) else v

def psubscribe (v : View) (id : ℕ) (pattern : Sds) : View :=
  notifyClient { v with tables := v.tables.psubscribe id pattern } id (.psubscribe pattern)

def punsubscribe (v : View) (id : ℕ) (pattern : Sds) (notify : Bool) : View :=
  let v := { v with tables := v.tables.punsubscribe id pattern }
  if notify then v.notifyClient id (.punsubscribe (some pattern)) else v

end View

def names (s : Server) : Tables Sds := s.tables.map (text s.heap)

def view (s : Server) : View := ⟨names s, s.out⟩

/-- The counts are the numbers of references, of the tables and of the caller, and the tables mirror each other. -/
structure Inv (s : Server) (held : List ℕ) : Prop where
  exact : Exact s.heap s.next (s.tables.refs ++ held)
  mirror : (names s).Mirror

/-- What a function does: the tables are those of `v`, the caller's objects are as they were, and no client is gone. -/
structure Does (s s' : Server) (held : List ℕ) (v : View) : Prop where
  inv : Inv s' held
  held : ∀ a ∈ held, value s'.heap a = value s.heap a
  view : view s' = v
  ids : s'.tables.clients.map Client.id = s.tables.clients.map Client.id

/-! ### The objects on the way -/

variable {s s' : Server} {held refs refs' : List ℕ} {id channel pattern message a next : ℕ} {c : Client ℕ}
  {old heap : ℕ → Option (Counted Sds)}

/-- The counts of a heap are exact, and what is referred to has its old value. -/
structure Kept (old : ℕ → Option (Counted Sds)) (next : ℕ) (heap : ℕ → Option (Counted Sds)) (refs : List ℕ) : Prop where
  exact : Exact heap next refs
  same : ∀ a ∈ refs, value heap a = value old a

theorem Kept.perm (h : Kept old next heap refs) (hp : refs.Perm refs') : Kept old next heap refs' :=
  ⟨h.exact.perm hp, fun a ha => h.same a (hp.mem_iff.mpr ha)⟩

theorem Kept.incr (h : Kept old next heap refs) (ha : a ∈ refs) : ∃ heap', incr heap a = some heap' ∧ Kept old next heap' (a :: refs) := by
  obtain ⟨heap', hincr, hexact, hvalue⟩ := Referenced.incr_spec h.exact ha
  refine ⟨heap', hincr, hexact, fun b hb => (hvalue b).trans ?_⟩
  rcases List.mem_cons.mp hb with rfl | hb
  · exact h.same b ha
  · exact h.same b hb

theorem Kept.decr (h : Kept old next heap (a :: refs)) : ∃ heap', decr heap a = some heap' ∧ Kept old next heap' refs := by
  obtain ⟨heap', hdecr, hexact, hvalue⟩ := Referenced.decr_spec h.exact
  exact ⟨heap', hdecr, hexact, fun b hb => (hvalue b hb).trans (h.same b (List.mem_cons_of_mem a hb))⟩

/-- An object that is referred to is read. -/
theorem Kept.read (h : Kept old next heap refs) (ha : a ∈ refs) : value heap a = some (text old a) := by
  obtain ⟨v, hv⟩ := h.exact.value_isSome ha
  rw [text, ← h.same a ha, hv]
  rfl

theorem Kept.text_eq (h : Kept old next heap refs) (ha : a ∈ refs) : text heap a = text old a := by
  rw [text, text, h.same a ha]

theorem Kept.search {ε : Type} {name : ε → ℕ} {l : List ε} (h : Kept old next heap refs) (hl : ∀ e ∈ l, name e ∈ refs) (key : Sds) :
    search heap name l key = some (Keyed.find (fun e => text old (name e)) l key) := by
  have hall : l.all (fun e => (value heap (name e)).isSome) = true := by
    rw [List.all_eq_true]
    intro e he
    rw [h.read (hl e he)]
    rfl
  rw [Pubsub.search, if_pos hall]
  exact congrArg some (Keyed.find_congr (fun e he => h.text_eq (hl e he)) key)

theorem Kept.map_eq {t : Tables ℕ} (h : Kept old next heap (t.refs ++ held)) : t.map (text heap) = t.map (text old) :=
  Tables.map_congr fun _ ha => h.text_eq (List.mem_append_left held ha)

theorem Inv.kept (h : Inv s held) : Kept s.heap s.next s.heap (s.tables.refs ++ held) := ⟨h.exact, fun _ _ => rfl⟩

theorem Inv.ids (h : Inv s held) : (s.tables.clients.map Client.id).Nodup := by
  have hids := h.mirror.ids
  rw [names, Tables.ids_map] at hids
  exact hids

/-- What is left when the tables and the heap of a state are given. -/
theorem does_of {t : Tables ℕ} {out : List (ℕ × Reply)} (hkept : Kept s.heap s.next heap (t.refs ++ held))
    (hmirror : (t.map (text s.heap)).Mirror) (hids : t.clients.map Client.id = s.tables.clients.map Client.id) :
    Does s ⟨heap, s.next, t, out⟩ held ⟨t.map (text s.heap), out⟩ := by
  have hnames : names ⟨heap, s.next, t, out⟩ = t.map (text s.heap) := hkept.map_eq
  refine ⟨⟨hkept.exact, by rw [hnames]; exact hmirror⟩, fun b hb => hkept.same b (List.mem_append_right _ hb), ?_, hids⟩
  rw [view, hnames]

theorem count_map {ν μ : Type} {t : Tables ν} {c : Client ν} (f : ν → μ) (hfind : t.find id = some c) : (t.map f).count id = clientSubscriptionsCount c := by
  have hfind' : (t.map f).find id = some (c.map f) := by rw [Tables.find_map, hfind, Option.map_some]
  rw [Tables.count, Tables.channelsOf_eq hfind', Tables.patternsOf_eq hfind', Client.map, List.length_map, List.length_map,
    clientSubscriptionsCount]

theorem notifyClient_spec (hfind : s.tables.find id = some c) (f : ℕ → Sds) (r : ℕ → Reply) :
    notifyClient s id r = some { s with out := s.out ++ [(id, r ((s.tables.map f).count id))] } := by
  rw [notifyClient, hfind, count_map f hfind, some_bind, addReply, hfind, Option.map_some]

theorem find_some_iff {ν : Type} {t : Tables ν} : (∃ c, t.find id = some c) ↔ id ∈ t.clients.map Client.id := by
  rw [List.mem_map]
  constructor
  · rintro ⟨c, hc⟩
    obtain ⟨hmem, hid⟩ := Keyed.of_find hc
    exact ⟨c, hmem, hid⟩
  · rintro ⟨c, hmem, hid⟩
    cases hfind : t.find id with
    | none => exact absurd hid (Keyed.find_eq_none_iff.mp hfind c hmem)
    | some c' => exact ⟨c', rfl⟩

theorem ids_setClient {ν : Type} (t : Tables ν) (id : ℕ) {g : Client ν → Client ν} (hg : ∀ c, (g c).id = c.id) :
    (t.setClient id g).clients.map Client.id = t.clients.map Client.id := Keyed.update_keys g hg t.clients id

theorem find_setClient_self {ν : Type} {t : Tables ν} {c : Client ν} {g : Client ν → Client ν} (hfind : t.find id = some c) (hg : ∀ c, (g c).id = c.id) :
    (t.setClient id g).find id = some (g c) := by
  rw [Tables.find_setClient hg, if_pos rfl, hfind, Option.map_some]

/-- The object that is found has the name, and is found if any has it. -/
theorem found_iff (f : ℕ → Sds) (l : List ℕ) (key : Sds) : (Keyed.find f l key).isSome ↔ key ∈ l.map f := by
  rw [List.mem_map]
  constructor
  · intro hsome
    obtain ⟨a, ha⟩ := Option.isSome_iff_exists.mp hsome
    exact ⟨a, Keyed.of_find ha⟩
  · rintro ⟨a, ha, hkey⟩
    rw [Option.isSome_iff_ne_none]
    exact fun hnone => Keyed.find_eq_none_iff.mp hnone a ha hkey

theorem find_list (f : ℕ → Sds) (t : Tables ℕ) (key : Sds) : Keyed.find Prod.fst (t.map f).channels key =
    (Keyed.find (fun e : ℕ × List ℕ => f e.1) t.channels key).map fun e => (f e.1, e.2) := by
  unfold Tables.map Keyed.find
  rw [List.find?_map]
  rfl

/-! ### Channels -/

/-- What the client has, as strings. -/
theorem find_names (hfind : s.tables.find id = some c) : (names s).find id = some (c.map (text s.heap)) := by
  rw [names, Tables.find_map, hfind, Option.map_some]

theorem channelsOf_names (hfind : s.tables.find id = some c) : (names s).channelsOf id = c.channels.map (text s.heap) :=
  Tables.channelsOf_eq (find_names hfind)

theorem patternsOf_names (hfind : s.tables.find id = some c) : (names s).patternsOf id = c.patterns.map (text s.heap) :=
  Tables.patternsOf_eq (find_names hfind)

theorem mem_channels_refs (hfind : s.tables.find id = some c) (held : List ℕ) : ∀ a ∈ c.channels, a ∈ s.tables.refs ++ held := fun _ ha =>
  List.mem_append_left held (Tables.mem_refs_channel (Keyed.of_find hfind).1 ha)

theorem mem_patterns_refs (hfind : s.tables.find id = some c) (held : List ℕ) : ∀ a ∈ c.patterns, a ∈ s.tables.refs ++ held := fun _ ha =>
  List.mem_append_left held (Tables.mem_refs_pattern (Keyed.of_find hfind).1 ha)

/-- A subscription: it is stored if the client has none of the name, and the client is told. -/
theorem subscription_spec (h : Inv s held) (hin : a ∈ held) (hfind : s.tables.find id = some c) (own : Client ℕ → List ℕ)
    (hown : ∀ b ∈ own c, b ∈ s.tables.refs ++ held) {add : Sds → Option Server} (t' : Tables Sds) (r : Sds → ℕ → Reply)
    (hsame : text s.heap a ∈ (own c).map (text s.heap) → t' = names s) (hmirror : t'.Mirror)
    (hadd : text s.heap a ∉ (own c).map (text s.heap) → ∃ heap t, add (text s.heap a) = some ⟨heap, s.next, t, s.out⟩ ∧
      Kept s.heap s.next heap (t.refs ++ held) ∧ t.map (text s.heap) = t' ∧ t.clients.map Client.id = s.tables.clients.map Client.id) :
    ∃ s', (do
        let key ← value s.heap a
        let c ← s.tables.find id
        let found ← search s.heap (fun b => b) (own c) key
        let s ← (if found.isSome then some s else add key)
        notifyClient s id (r key)) = some s' ∧ Does s s' held (View.notifyClient ⟨t', s.out⟩ id (r (text s.heap a))) := by
  have hkept := h.kept
  have hfound := found_iff (text s.heap) (own c) (text s.heap a)
  rw [hkept.read (List.mem_append_right _ hin), some_bind, hfind, some_bind,
    hkept.search hown, some_bind]
  by_cases hold : text s.heap a ∈ (own c).map (text s.heap)
  · rw [if_pos (hfound.mpr hold), some_bind, notifyClient_spec hfind (text s.heap), hsame hold]
    exact ⟨_, rfl, does_of hkept h.mirror rfl⟩
  · obtain ⟨heap, t, hrun, hkept', rfl, hids⟩ := hadd hold
    obtain ⟨c', hfind'⟩ := find_some_iff.mpr (hids ▸ find_some_iff.mp ⟨c, hfind⟩)
    rw [if_neg fun hsome => hold (hfound.mp hsome), hrun, some_bind, notifyClient_spec hfind' (text s.heap)]
    exact ⟨_, rfl, does_of hkept' hmirror hids⟩

theorem subscribeNew_spec (h : Inv s held) (hin : channel ∈ held) (hfind : s.tables.find id = some c)
    (hnot : text s.heap channel ∉ (names s).channelsOf id) :
    ∃ heap t, subscribeNew s id channel (text s.heap channel) = some ⟨heap, s.next, t, s.out⟩ ∧
      Kept s.heap s.next heap (t.refs ++ held) ∧ t.map (text s.heap) = (names s).subscribe id (text s.heap channel) ∧
      t.clients.map Client.id = s.tables.clients.map Client.id := by
  obtain ⟨heap, hincr, hkept⟩ := h.kept.incr (List.mem_append_right s.tables.refs hin)
  have hlist := find_list (text s.heap) s.tables (text s.heap channel)
  have hrefs := Tables.refs_addChannel h.ids hfind channel
  have hkept1 := hkept.perm (hrefs.symm.append_right held)
  have hsearch : search heap Prod.fst (s.tables.addChannel id channel).channels (text s.heap channel) =
      some (Keyed.find (fun e : ℕ × List ℕ => text s.heap e.1) s.tables.channels (text s.heap channel)) :=
    hkept.search (fun e he => List.mem_cons_of_mem _ (List.mem_append_left held (Tables.mem_refs_name he))) _
  rw [subscribeNew, hincr, some_bind]
  dsimp only
  rw [hsearch, some_bind, Tables.subscribe, if_neg hnot, names, hlist]
  cases hde : Keyed.find (fun e : ℕ × List ℕ => text s.heap e.1) s.tables.channels (text s.heap channel) with
  | none =>
    obtain ⟨heap2, hincr2, hkept2⟩ := hkept1.incr (List.mem_append_right _ hin)
    dsimp only
    rw [hincr2, some_bind]
    refine ⟨_, _, rfl, hkept2.perm ((Tables.refs_newList _ id channel).symm.append_right held), ?_, ids_setClient _ _ fun _ => rfl⟩
    rw [Tables.map_newList, Tables.map_addChannel]
    rfl
  | some e =>
    obtain ⟨he, hkey⟩ := Keyed.of_find hde
    refine ⟨_, _, rfl, ?_, ?_, ids_setClient _ _ fun _ => rfl⟩
    · rw [Tables.refs_setList]
      exact hkept1
    · rw [Tables.map_setList (t := s.tables.addChannel id channel) h.mirror.names he, Tables.map_addChannel, hkey]
      rfl

theorem subscribeChannel_spec (h : Inv s held) (hin : channel ∈ held) (hfind : s.tables.find id = some c) :
    ∃ s', pubsubSubscribeChannel s id channel = some s' ∧ Does s s' held ((view s).subscribe id (text s.heap channel)) :=
  subscription_spec h hin hfind Client.channels (mem_channels_refs hfind held) ((names s).subscribe id (text s.heap channel))
    .subscribe (fun hold => if_pos (by rw [channelsOf_names hfind]; exact hold)) (h.mirror.subscribe (find_names hfind) _)
    fun hnot => subscribeNew_spec h hin hfind (by rw [channelsOf_names hfind]; exact hnot)

/-- The subscription that was found goes from both tables, with its references. -/
theorem unsubscribeFound_spec (hkept : Kept old next s.heap (channel :: (s.tables.refs ++ held))) (hmirror : (s.tables.map (text old)).Mirror)
    (hfind : s.tables.find id = some c) (ha : a ∈ c.channels) (hkey : text old a = text old channel) :
    ∃ heap t, unsubscribeFound s id channel a = some ⟨heap, s.next, t, s.out⟩ ∧ Kept old next heap (channel :: (t.refs ++ held)) ∧
      t.map (text old) = (s.tables.map (text old)).unsubscribe id (text old channel) ∧
      t.find id = some { c with channels := c.channels.erase a } ∧ t.clients.map Client.id = s.tables.clients.map Client.id := by
  have hids := hmirror.ids
  rw [Tables.ids_map] at hids
  have hfind' : (s.tables.map (text old)).find id = some (c.map (text old)) := by rw [Tables.find_map, hfind, Option.map_some]
  have hof : (s.tables.map (text old)).channelsOf id = c.channels.map (text old) := Tables.channelsOf_eq hfind'
  have hin : text old channel ∈ (s.tables.map (text old)).channelsOf id := by
    rw [hof, ← hkey]
    exact List.mem_map_of_mem ha
  have hdrop : (channel :: (s.tables.refs ++ held)).Perm (a :: channel :: ((s.tables.dropChannel id a).refs ++ held)) :=
    (((Tables.refs_dropChannel hids hfind ha).append_right held).cons channel).trans (List.Perm.swap a channel _)
  obtain ⟨heap1, hdecr1, hkept1⟩ := (hkept.perm hdrop).decr
  have hlist := find_list (text old) s.tables (text old channel)
  have hsearch : search heap1 Prod.fst (s.tables.dropChannel id a).channels (text old channel) =
      some (Keyed.find (fun e : ℕ × List ℕ => text old e.1) s.tables.channels (text old channel)) :=
    hkept1.search (fun e he => List.mem_cons_of_mem _ (List.mem_append_left held (Tables.mem_refs_name he))) _
  have hmem := (hmirror.listed id (text old channel)).mpr hin
  have hnew : (s.tables.dropChannel id a).find id = some { c with channels := c.channels.erase a } := find_setClient_self hfind fun _ => rfl
  have hnames := hmirror.names
  rw [unsubscribeFound, hdecr1, some_bind]
  dsimp only
  rw [hkept1.read List.mem_cons_self, some_bind, hsearch, some_bind]
  cases hde : Keyed.find (fun e : ℕ × List ℕ => text old e.1) s.tables.channels (text old channel) with
  | none =>
    rw [Tables.listeners, hlist, hde] at hmem
    cases hmem
  | some e =>
    obtain ⟨he, hname⟩ := Keyed.of_find hde
    have hl : (s.tables.map (text old)).listeners (text old channel) = e.2 := by
      rw [Tables.listeners, hlist, hde]
      rfl
    rw [hl] at hmem
    rw [some_bind, if_neg (not_not.mpr hmem), Tables.unsubscribe, if_pos hin, hl]
    have hmap := Tables.map_dropChannel hmirror hfind ha
    by_cases hempty : e.2.erase id = []
    · have hnodup : ((s.tables.dropChannel id a).channels.map Prod.fst).Nodup := by
        rw [Tables.names_map] at hnames
        exact List.Nodup.of_map (text old) (by rw [List.map_map]; exact hnames)
      have hrefs := ((Tables.refs_dropList hnodup he).append_right held).cons channel
      obtain ⟨heap2, hdecr2, hkept2⟩ := (hkept1.perm (hrefs.trans (List.Perm.swap e.1 channel _))).decr
      rw [if_pos hempty, if_pos hempty, hdecr2, some_bind]
      refine ⟨_, _, rfl, hkept2, ?_, hnew, ids_setClient _ _ fun _ => rfl⟩
      rw [Tables.map_dropList (t := s.tables.dropChannel id a) hnames he, hmap, hkey, hname]
    · rw [if_neg hempty, if_neg hempty]
      refine ⟨_, _, rfl, ?_, ?_, hnew, ids_setClient _ _ fun _ => rfl⟩
      · rw [Tables.refs_setList]
        exact hkept1
      · rw [Tables.map_setList (t := s.tables.dropChannel id a) hnames he, hmap, hkey, hname]

theorem notifyName_spec (hkept : Kept old next s.heap (a :: refs)) (hfind : s.tables.find id = some c) (notify : Bool) (r : Sds → ℕ → Reply) :
    notifyName s id a notify r =
      some { s with out := if notify then s.out ++ [(id, r (text old a) ((s.tables.map (text old)).count id))] else s.out } := by
  unfold notifyName
  cases notify with
  | true =>
    rw [if_pos rfl, if_pos rfl, hkept.read List.mem_cons_self, Option.bind_some, notifyClient_spec hfind (text old)]
  | false => rfl

/-- The end of an unsubscription: the client is told, and the name that was protected is given up. -/
theorem release_spec (hkept : Kept old next s.heap (a :: (s.tables.refs ++ held))) (hfind : s.tables.find id = some c) (notify : Bool)
    (r : Sds → ℕ → Reply) (n : ℕ) :
    ∃ heap, ((notifyName s id a notify r).bind fun s => (decr s.heap a).bind fun heap => some ({ s with heap := heap }, n)) =
      some (⟨heap, s.next, s.tables,
        if notify then s.out ++ [(id, r (text old a) ((s.tables.map (text old)).count id))] else s.out⟩, n) ∧
      Kept old next heap (s.tables.refs ++ held) := by
  obtain ⟨heap, hdecr, hkept'⟩ := hkept.decr
  refine ⟨heap, ?_, hkept'⟩
  rw [notifyName_spec hkept hfind, Option.bind_some]
  dsimp only
  rw [hdecr, Option.bind_some]

theorem view_notify (v : View) (id : ℕ) (notify : Bool) (r : ℕ → Reply) : (if notify then v.notifyClient id r else v) =
    ⟨v.tables, if notify then v.out ++ [(id, r (v.tables.count id))] else v.out⟩ := by
  cases notify with
  | true => rfl
  | false => rfl

/-- What an unsubscription from `a` does: of the client's names only those that are the same go. -/
def Unsubscribes (own : Client ℕ → List ℕ) (s : Server) (held : List ℕ) (id a : ℕ) (c : Client ℕ) (v : View) (r : Option (Server × ℕ)) : Prop :=
  ∃ s' c', r = some (s', if text s.heap a ∈ (own c).map (text s.heap) then 1 else 0) ∧ Does s s' held v ∧ s'.tables.find id = some c' ∧
    (∀ b ∈ own c, text s.heap b ≠ text s.heap a → b ∈ own c') ∧ ∀ b ∈ s'.tables.refs, value s'.heap b = value s.heap b

/-- An unsubscription: what was found goes, and the name is there until the client is told. -/
theorem unsubscription_spec (h : Inv s held) (hin : a ∈ s.tables.refs ++ held) (hfind : s.tables.find id = some c) (notify : Bool)
    (own : Client ℕ → List ℕ) (hown : ∀ b ∈ own c, b ∈ s.tables.refs ++ held) (remove : Server → ℕ → Option Server) (t' : Tables Sds)
    (r : Sds → ℕ → Reply) (hsame : text s.heap a ∉ (own c).map (text s.heap) → t' = names s) (hmirror : t'.Mirror)
    (hremove : ∀ {heap b}, Kept s.heap s.next heap (a :: (s.tables.refs ++ held)) → b ∈ own c → text s.heap b = text s.heap a →
      ∃ heap1 t c', remove { s with heap := heap } b = some ⟨heap1, s.next, t, s.out⟩ ∧ Kept s.heap s.next heap1 (a :: (t.refs ++ held)) ∧
        t.map (text s.heap) = t' ∧ t.find id = some c' ∧ own c' = (own c).erase b ∧
        t.clients.map Client.id = s.tables.clients.map Client.id) :
    Unsubscribes own s held id a c (if notify then View.notifyClient ⟨t', s.out⟩ id (r (text s.heap a)) else ⟨t', s.out⟩) (do
      let heap ← incr s.heap a
      let key ← value heap a
      let c ← s.tables.find id
      let found ← search heap (fun b => b) (own c) key
      let s ← (found.elim (some { s with heap := heap }) (remove { s with heap := heap }))
      let s ← notifyName s id a notify r
      let heap ← decr s.heap a
      some ({ s with heap := heap }, if found.isSome then 1 else 0)) := by
  unfold Unsubscribes
  obtain ⟨heap, hincr, hkept⟩ := h.kept.incr hin
  have hfound := found_iff (text s.heap) (own c) (text s.heap a)
  rw [hincr, some_bind, hkept.read List.mem_cons_self, some_bind,
    hfind, some_bind, hkept.search fun b hb => List.mem_cons_of_mem _ (hown b hb), some_bind, if_congr hfound rfl rfl, view_notify]
  dsimp only
  cases hsearch : Keyed.find (fun b => text s.heap b) (own c) (text s.heap a) with
  | none =>
    have hsame := hsame fun hmem => by
      have hsome := hfound.mpr hmem
      rw [hsearch] at hsome
      cases hsome
    obtain ⟨heap', hrun, hkept'⟩ := release_spec (s := { s with heap := heap }) hkept hfind notify r
      (if text s.heap a ∈ (own c).map (text s.heap) then 1 else 0)
    refine ⟨_, c, hrun, ?_, hfind, fun _ hb _ => hb, fun b hb => hkept'.same b (List.mem_append_left held hb)⟩
    rw [hsame]
    exact does_of hkept' h.mirror rfl
  | some b =>
    obtain ⟨hb, hname⟩ := Keyed.of_find hsearch
    obtain ⟨heap1, t, c', hrun1, hkept1, rfl, hfind', herase, hids⟩ := hremove hkept hb hname
    obtain ⟨heap', hrun, hkept'⟩ := release_spec (s := ⟨heap1, s.next, t, s.out⟩) hkept1 hfind' notify r
      (if text s.heap a ∈ (own c).map (text s.heap) then 1 else 0)
    refine ⟨⟨heap', s.next, t, if notify then s.out ++ [(id, r (text s.heap a) ((t.map (text s.heap)).count id))] else s.out⟩,
      c', ?_, does_of hkept' hmirror hids, hfind', fun x hx hne => ?_, fun x hx => hkept'.same x (List.mem_append_left held hx)⟩
    · rw [Option.elim_some, hrun1]
      exact hrun
    · rw [herase]
      refine (List.mem_erase_of_ne ?_).mpr hx
      rintro rfl
      exact hne hname

theorem unsubscribeChannel_spec (h : Inv s held) (hin : channel ∈ s.tables.refs ++ held) (hfind : s.tables.find id = some c) (notify : Bool) :
    Unsubscribes Client.channels s held id channel c ((view s).unsubscribe id (text s.heap channel) notify) (pubsubUnsubscribeChannel s id channel notify) :=
  unsubscription_spec h hin hfind notify Client.channels (mem_channels_refs hfind held) (fun s => unsubscribeFound s id channel)
    ((names s).unsubscribe id (text s.heap channel)) (fun key => .unsubscribe (some key)) (fun hnot => if_neg (by rw [channelsOf_names hfind]; exact hnot)) (h.mirror.unsubscribe (find_names hfind) _)
    fun {heap} _ hkept hb hname => by
      obtain ⟨heap1, t, hrun, hkept1, hmap, hfind', hids⟩ := unsubscribeFound_spec (s := { s with heap := heap }) hkept h.mirror hfind hb hname
      exact ⟨heap1, t, _, hrun, hkept1, hmap, hfind', rfl, hids⟩

/-! ### Patterns -/

theorem psubscribeNew_spec (h : Inv s held) (hin : pattern ∈ held) (hfind : s.tables.find id = some c)
    (hnot : text s.heap pattern ∉ (names s).patternsOf id) :
    ∃ heap t, psubscribeNew s id pattern = some ⟨heap, s.next, t, s.out⟩ ∧
      Kept s.heap s.next heap (t.refs ++ held) ∧ t.map (text s.heap) = (names s).psubscribe id (text s.heap pattern) ∧
      t.clients.map Client.id = s.tables.clients.map Client.id := by
  obtain ⟨heap1, hincr1, hkept1⟩ := h.kept.incr (List.mem_append_right s.tables.refs hin)
  have hkept1' := hkept1.perm ((Tables.refs_addPattern h.ids hfind pattern).symm.append_right held)
  obtain ⟨heap2, hincr2, hkept2⟩ := hkept1'.incr (List.mem_append_right _ hin)
  rw [psubscribeNew, hincr1, some_bind, hincr2, some_bind, Tables.psubscribe, if_neg hnot]
  refine ⟨_, _, rfl, hkept2.perm ((Tables.refs_newPattern _ id pattern).symm.append_right held), ?_, ids_setClient _ _ fun _ => rfl⟩
  rw [Tables.map_newPattern, Tables.map_addPattern]
  rfl

theorem subscribePattern_spec (h : Inv s held) (hin : pattern ∈ held) (hfind : s.tables.find id = some c) :
    ∃ s', pubsubSubscribePattern s id pattern = some s' ∧ Does s s' held ((view s).psubscribe id (text s.heap pattern)) :=
  subscription_spec h hin hfind Client.patterns (mem_patterns_refs hfind held) ((names s).psubscribe id (text s.heap pattern))
    .psubscribe (fun hold => if_pos (by rw [patternsOf_names hfind]; exact hold)) (h.mirror.psubscribe (find_names hfind) _)
    fun hnot => psubscribeNew_spec h hin hfind (by rw [patternsOf_names hfind]; exact hnot)

/-- The pattern that was found goes from both lists, with its references. -/
theorem punsubscribeFound_spec (hkept : Kept old next s.heap (pattern :: (s.tables.refs ++ held))) (hmirror : (s.tables.map (text old)).Mirror)
    (hfind : s.tables.find id = some c) (ha : a ∈ c.patterns) (hkey : text old a = text old pattern) :
    ∃ heap t, punsubscribeFound s id pattern a = some ⟨heap, s.next, t, s.out⟩ ∧ Kept old next heap (pattern :: (t.refs ++ held)) ∧
      t.map (text old) = (s.tables.map (text old)).punsubscribe id (text old pattern) ∧
      t.find id = some { c with patterns := c.patterns.erase a } ∧ t.clients.map Client.id = s.tables.clients.map Client.id := by
  have hids := hmirror.ids
  rw [Tables.ids_map] at hids
  have hfind' : (s.tables.map (text old)).find id = some (c.map (text old)) := by rw [Tables.find_map, hfind, Option.map_some]
  have hof : (s.tables.map (text old)).patternsOf id = c.patterns.map (text old) := Tables.patternsOf_eq hfind'
  have hin : text old pattern ∈ (s.tables.map (text old)).patternsOf id := by
    rw [hof, ← hkey]
    exact List.mem_map_of_mem ha
  have hdrop : (pattern :: (s.tables.refs ++ held)).Perm (a :: pattern :: ((s.tables.dropPattern id a).refs ++ held)) :=
    (((Tables.refs_dropPattern hids hfind ha).append_right held).cons pattern).trans (List.Perm.swap a pattern _)
  obtain ⟨heap1, hdecr1, hkept1⟩ := (hkept.perm hdrop).decr
  have hsearch : search heap1 Prod.snd ((s.tables.dropPattern id a).patterns.filter fun p => decide (p.1 = id)) (text old pattern) =
      some (Keyed.find (fun p : ℕ × ℕ => text old p.2) (s.tables.patterns.filter fun p => decide (p.1 = id)) (text old pattern)) :=
    hkept1.search (fun p hp => List.mem_cons_of_mem _ (List.mem_append_left held (Tables.mem_refs_all (List.mem_of_mem_filter hp)))) _
  have hnew : (s.tables.dropPattern id a).find id = some { c with patterns := c.patterns.erase a } := find_setClient_self hfind fun _ => rfl
  have hmem : (id, text old pattern) ∈ (s.tables.map (text old)).patterns := (hmirror.patterned id _).mpr hin
  obtain ⟨q, hq, hqid⟩ := List.mem_map.mp hmem
  rw [Prod.mk.injEq] at hqid
  rw [punsubscribeFound, hdecr1, some_bind]
  dsimp only
  rw [hkept1.read List.mem_cons_self, some_bind, hsearch, some_bind]
  cases hln : Keyed.find (fun p : ℕ × ℕ => text old p.2) (s.tables.patterns.filter fun p => decide (p.1 = id)) (text old pattern) with
  | none =>
    exact absurd hqid.2 (Keyed.find_eq_none_iff.mp hln q (List.mem_filter.mpr ⟨hq, decide_eq_true hqid.1⟩))
  | some p =>
    obtain ⟨hp, hname⟩ := Keyed.of_find hln
    obtain ⟨hp, hpid⟩ := List.mem_filter.mp hp
    have hpair : (id, p.2) ∈ s.tables.patterns := by
      rw [← of_decide_eq_true hpid]
      exact hp
    have hrefs := ((Tables.refs_erasePattern (t := s.tables.dropPattern id a) hpair).append_right held).cons pattern
    obtain ⟨heap2, hdecr2, hkept2⟩ := (hkept1.perm (hrefs.trans (List.Perm.swap p.2 pattern _))).decr
    rw [some_bind, hdecr2, some_bind, Tables.punsubscribe, if_pos hin]
    refine ⟨_, _, rfl, hkept2, ?_, hnew, ids_setClient _ _ fun _ => rfl⟩
    rw [Tables.map_erasePattern (t := s.tables.dropPattern id a) hmirror.patterns hpair, Tables.map_dropPattern hmirror hfind ha, hkey, hname]

theorem unsubscribePattern_spec (h : Inv s held) (hin : pattern ∈ s.tables.refs ++ held) (hfind : s.tables.find id = some c) (notify : Bool) :
    Unsubscribes Client.patterns s held id pattern c ((view s).punsubscribe id (text s.heap pattern) notify) (pubsubUnsubscribePattern s id pattern notify) :=
  unsubscription_spec h hin hfind notify Client.patterns (mem_patterns_refs hfind held) (fun s => punsubscribeFound s id pattern)
    ((names s).punsubscribe id (text s.heap pattern)) (fun key => .punsubscribe (some key)) (fun hnot => if_neg (by rw [patternsOf_names hfind]; exact hnot)) (h.mirror.punsubscribe (find_names hfind) _)
    fun {heap} _ hkept hb hname => by
      obtain ⟨heap1, t, hrun, hkept1, hmap, hfind', hids⟩ := punsubscribeFound_spec (s := { s with heap := heap }) hkept h.mirror hfind hb hname
      exact ⟨heap1, t, _, hrun, hkept1, hmap, hfind', rfl, hids⟩

end RedisZk.Pubsub
