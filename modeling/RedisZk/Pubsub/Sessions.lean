/-
# Sessions of subscribers

The commands of the clients, one after the other: subscriptions with any arguments, mass unsubscriptions,
disconnections and messages. The tables mirror each other in every state, the counts that are sent are the
numbers of subscriptions, and a message is sent once for every subscription that it matches.

Key definitions: `Command`, `call`, `step`, `run`, `View.Stepped`.
Key theorems: `call_spec`, `freeClient_spec`, `run_spec`, `tables_mirror`.
-/
import RedisZk.Pubsub.Messages

namespace RedisZk.Pubsub

open Streams (Sds)
open Referenced (incr decr value Exact)

variable {s s' : Server} {held refs refs' : List ℕ} {id channel pattern message a next : ℕ} {c : Client ℕ}
  {old heap : ℕ → Option (Counted Sds)}

/-! ### The commands -/

/-- The arguments behind the name of a command, as many as it needs. -/
inductive Command where
  | subscribe (channel : Sds) (more : List Sds)
  | unsubscribe (walk : Walk) (channels : List Sds)
  | psubscribe (pattern : Sds) (more : List Sds)
  | punsubscribe (patterns : List Sds)
  | publish (channel message : Sds)

def Command.argv : Command → List Sds
  | .subscribe channel more => channel :: more
  | .unsubscribe _ channels => channels
  | .psubscribe pattern more => pattern :: more
  | .punsubscribe patterns => patterns
  | .publish channel message => [channel, message]

def subscribeCommand (s : Server) (id : ℕ) (argv : List ℕ) : Option Server := argv.foldlM (fun s a => pubsubSubscribeChannel s id a) s

def unsubscribeCommand (s : Server) (id : ℕ) (walk : Walk) (argv : List ℕ) : Option Server :=
  if argv = [] then pubsubUnsubscribeAllChannels s id walk true
  else argv.foldlM (fun s a => (pubsubUnsubscribeChannel s id a true).map Prod.fst) s

def psubscribeCommand (s : Server) (id : ℕ) (argv : List ℕ) : Option Server := argv.foldlM (fun s a => pubsubSubscribePattern s id a) s

def punsubscribeCommand (s : Server) (id : ℕ) (argv : List ℕ) : Option Server :=
  if argv = [] then pubsubUnsubscribeAllPatterns s id true
  else argv.foldlM (fun s a => (pubsubUnsubscribePattern s id a true).map Prod.fst) s

def publishCommand (signedChar : Bool) (s : Server) (id channel message : ℕ) : Option Server :=
  (pubsubPublishMessage signedChar s channel message).bind fun r => addReply r.1 id (.integer r.2)

/-- The strings of the arguments, each an object with one reference. -/
def createArgv : List Sds → Server → Server × List ℕ
  | [], s => (s, [])
  | v :: rest, s =>
    let r := createArgv rest { s with heap := Function.update s.heap s.next (some ⟨v, 1⟩), next := s.next + 1 }
    (r.1, s.next :: r.2)

def freeObjects : List ℕ → Server → Option Server
  | [], s => some s
  | a :: rest, s => (decr s.heap a).bind fun heap => freeObjects rest { s with heap := heap }

def execute (signedChar : Bool) (s : Server) (id : ℕ) (argv : List ℕ) : Command → Option Server
  | .subscribe _ _ => subscribeCommand s id argv
  | .unsubscribe walk _ => unsubscribeCommand s id walk argv
  | .psubscribe _ _ => psubscribeCommand s id argv
  | .punsubscribe _ => punsubscribeCommand s id argv
  | .publish _ _ => (argv[0]?).bind fun channel => (argv[1]?).bind fun message => publishCommand signedChar s id channel message

/-- A command from a client, with its arguments read and freed. -/
def call (signedChar : Bool) (s : Server) (id : ℕ) (c : Command) : Option Server :=
  (execute signedChar (createArgv c.argv s).1 id (createArgv c.argv s).2 c).bind (freeObjects (createArgv c.argv s).2)

def createClient (s : Server) (id : ℕ) : Server := { s with tables := { s.tables with clients := s.tables.clients ++ [⟨id, [], []⟩] } }

def Tables.dropClient {ν : Type} (t : Tables ν) (id : ℕ) : Tables ν := { t with clients := Keyed.erase Client.id t.clients id }

/-- The subscriptions of a client that goes; what would be left in its tables is freed with them. -/
def freeClient (s : Server) (id : ℕ) (walk : Walk) : Option Server := do
  let s ← pubsubUnsubscribeAllChannels s id walk false
  let s ← pubsubUnsubscribeAllPatterns s id false
  let c ← s.tables.find id
  let s ← freeObjects c.refs s
  some { s with tables := s.tables.dropClient id }

inductive Step where
  | connect (id : ℕ)
  | command (id : ℕ) (c : Command)
  | disconnect (id : ℕ) (walk : Walk)

/-- The address of a client is free for another once the client is gone. -/
def step (signedChar : Bool) (s : Server) : Step → Option Server
  | .connect id => if (s.tables.find id).isSome then some s else some (createClient s id)
  | .command id c => if (s.tables.find id).isSome then call signedChar s id c else some s
  | .disconnect id walk => if (s.tables.find id).isSome then freeClient s id walk else some s

def run (signedChar : Bool) : List Step → Server → Option Server
  | [], s => some s
  | x :: steps, s => (step signedChar s x).bind (run signedChar steps)

def initServer : Server := ⟨fun _ => none, 0, ⟨[], [], []⟩, []⟩

/-! ### What they mean -/

namespace View

/-- A command on the tables of the strings. A mass unsubscription goes over the channels in some order. -/
def Called (signedChar : Bool) (v : View) (id : ℕ) (v' : View) : Command → Prop
  | .subscribe channel more => v' = (channel :: more).foldl (fun v channel => v.subscribe id channel) v
  | .unsubscribe _ [] => ∃ channels : List Sds, channels.Perm (v.tables.channelsOf id) ∧ v' = v.unsubscribeAll id channels true
  | .unsubscribe _ (channel :: more) => v' = v.unsubscribeEach id (channel :: more) true
  | .psubscribe pattern more => v' = (pattern :: more).foldl (fun v pattern => v.psubscribe id pattern) v
  | .punsubscribe [] => v' = v.punsubscribeAll id (v.tables.patternsOf id) true
  | .punsubscribe (pattern :: more) => v' = v.punsubscribeEach id (pattern :: more) true
  | .publish channel message =>
    v' = (v.publish signedChar channel message).send id (.integer (deliveries signedChar v.tables channel message).length)

def connect (v : View) (id : ℕ) : View := { v with tables := { v.tables with clients := v.tables.clients ++ [⟨id, [], []⟩] } }

def drop (v : View) (id : ℕ) : View := { v with tables := v.tables.dropClient id }

def Stepped (signedChar : Bool) (v v' : View) : Step → Prop
  | .connect id => v' = if (v.tables.find id).isSome then v else v.connect id
  | .command id c => if (v.tables.find id).isSome then v.Called signedChar id v' c else v' = v
  | .disconnect id _ =>
    if (v.tables.find id).isSome then ∃ channels : List Sds, channels.Perm (v.tables.channelsOf id) ∧
      v' = ((v.unsubscribeAll id channels false).punsubscribeAll id ((v.unsubscribeAll id channels false).tables.patternsOf id) false).drop id
    else v' = v

def Run (signedChar : Bool) : List Step → View → View → Prop
  | [], v, v' => v' = v
  | x :: steps, v, v' => ∃ v1, v.Stepped signedChar v1 x ∧ Run signedChar steps v1 v'

end View

/-! ### The arguments -/

theorem Inv.perm (h : Inv s refs) (hp : refs.Perm refs') : Inv s refs' := ⟨h.exact.perm (hp.append_left _), h.mirror⟩

theorem createArgv_spec : ∀ (argv : List Sds) {s : Server} {held : List ℕ}, Inv s held →
    Inv (createArgv argv s).1 ((createArgv argv s).2 ++ held) ∧ (createArgv argv s).2.map (text (createArgv argv s).1.heap) = argv ∧
      view (createArgv argv s).1 = view s ∧ (createArgv argv s).1.tables = s.tables ∧
      ∀ b ∈ held, value (createArgv argv s).1.heap b = value s.heap b
  | [], s, held, h => ⟨h, rfl, rfl, rfl, fun _ _ => rfl⟩
  | v :: rest, s, held, h => by
    obtain ⟨hexact, hnew, hsame⟩ := Referenced.alloc_spec h.exact v
    have hnames : s.tables.map (text (Function.update s.heap s.next (some ⟨v, 1⟩))) = names s :=
      Tables.map_congr fun b hb => text_congr (hsame b (List.mem_append_left held hb))
    have h1 : Inv { s with heap := Function.update s.heap s.next (some ⟨v, 1⟩), next := s.next + 1 } (s.next :: held) := by
      refine ⟨hexact.perm List.perm_middle.symm, ?_⟩
      show (s.tables.map (text (Function.update s.heap s.next (some ⟨v, 1⟩)))).Mirror
      rw [hnames]
      exact h.mirror
    obtain ⟨hinv, htexts, hview, htables, hheld⟩ := createArgv_spec rest h1
    refine ⟨hinv.perm List.perm_middle, ?_, ?_, htables, fun b hb => ?_⟩
    · rw [createArgv]
      dsimp only
      rw [List.map_cons, htexts, text, hheld _ List.mem_cons_self]
      dsimp only
      rw [hnew]
      rfl
    · rw [createArgv]
      dsimp only
      rw [hview, view, view]
      exact congrArg (fun t => View.mk t s.out) hnames
    · rw [createArgv]
      exact (hheld b (List.mem_cons_of_mem _ hb)).trans (hsame b (List.mem_append_right _ hb))

theorem freeObjects_spec : ∀ (argv : List ℕ) {s : Server}, Inv s (argv ++ held) →
    ∃ s', freeObjects argv s = some s' ∧ Does s s' held (view s) ∧ s'.tables = s.tables
  | [], s, h => ⟨s, rfl, Does.refl h, rfl⟩
  | a :: rest, s, h => by
    have hfirst : (s.tables.refs ++ a :: (rest ++ held)).Perm (a :: (s.tables.refs ++ (rest ++ held))) := List.perm_middle
    obtain ⟨heap, hdecr, hkept⟩ := (h.kept.perm hfirst).decr
    have hdoes : Does s ⟨heap, s.next, s.tables, s.out⟩ (rest ++ held) (view s) := does_of hkept h.mirror rfl
    obtain ⟨s', hrun, hdoes', htables⟩ := freeObjects_spec rest hdoes.inv
    refine ⟨s', ?_, ⟨hdoes'.inv, fun b hb => ?_, hdoes'.view.trans hdoes.view, hdoes'.ids.trans hdoes.ids⟩, htables⟩
    · rw [freeObjects, hdecr, Option.bind_some]
      exact hrun
    · exact (hdoes'.held b hb).trans (hdoes.held b (List.mem_append_right _ hb))

/-! ### The commands do what they mean -/

theorem Does.found {v : View} (h : Does s s' held v) (hfind : ∃ c, s.tables.find id = some c) : ∃ c, s'.tables.find id = some c := by
  rw [find_some_iff, h.ids]
  exact find_some_iff.mp hfind

/-- A function for each of the arguments. -/
theorem fold_spec {f : Server → ℕ → Option Server} {g : View → Sds → View}
    (hf : ∀ (s : Server) (a : ℕ), Inv s held → a ∈ held → (∃ c, s.tables.find id = some c) →
      ∃ s', f s a = some s' ∧ Does s s' held (g (view s) (text s.heap a))) :
    ∀ (argv : List ℕ) {s : Server}, Inv s held → (∀ a ∈ argv, a ∈ held) → (∃ c, s.tables.find id = some c) →
      ∃ s', argv.foldlM f s = some s' ∧ Does s s' held ((argv.map (text s.heap)).foldl g (view s))
  | [], s, h, _, _ => ⟨s, rfl, Does.refl h⟩
  | a :: rest, s, h, hargv, hfind => by
    obtain ⟨s1, hrun1, hdoes1⟩ := hf s a h (hargv a List.mem_cons_self) hfind
    have hrest : ∀ b ∈ rest, b ∈ held := fun b hb => hargv b (List.mem_cons_of_mem a hb)
    obtain ⟨s2, hrun2, hdoes2⟩ := fold_spec hf rest hdoes1.inv hrest (hdoes1.found hfind)
    have htext : rest.map (text s1.heap) = rest.map (text s.heap) := List.map_congr_left fun b hb => text_congr (hdoes1.held b (hrest b hb))
    refine ⟨s2, ?_, ?_⟩
    · rw [List.foldlM_cons, hrun1, some_bind]
      exact hrun2
    · rw [htext, hdoes1.view] at hdoes2
      exact hdoes1.trans hdoes2

theorem unsubscribe_fst (h : Inv s held) (hin : a ∈ held) (hfind : ∃ c, s.tables.find id = some c) :
    ∃ s', (pubsubUnsubscribeChannel s id a true).map Prod.fst = some s' ∧ Does s s' held ((view s).unsubscribe id (text s.heap a) true) := by
  obtain ⟨c, hc⟩ := hfind
  obtain ⟨s', c', hrun, hdoes, -⟩ := unsubscribeChannel_spec h (List.mem_append_right _ hin) hc true
  exact ⟨s', by rw [hrun, Option.map_some], hdoes⟩

theorem punsubscribe_fst (h : Inv s held) (hin : a ∈ held) (hfind : ∃ c, s.tables.find id = some c) :
    ∃ s', (pubsubUnsubscribePattern s id a true).map Prod.fst = some s' ∧ Does s s' held ((view s).punsubscribe id (text s.heap a) true) := by
  obtain ⟨c, hc⟩ := hfind
  obtain ⟨s', c', hrun, hdoes, -⟩ := unsubscribePattern_spec h (List.mem_append_right _ hin) hc true
  exact ⟨s', by rw [hrun, Option.map_some], hdoes⟩

theorem addReply_does (h : Inv s held) (hfind : ∃ c, s.tables.find id = some c) (r : Reply) :
    ∃ s', addReply s id r = some s' ∧ Does s s' held ((view s).send id r) := by
  obtain ⟨c, hc⟩ := hfind
  exact ⟨{ s with out := s.out ++ [(id, r)] }, by rw [addReply, hc, Option.map_some], does_of h.kept h.mirror rfl⟩

theorem execute_spec (signedChar : Bool) (cmd : Command) {argv : List ℕ} (h : Inv s argv) (hargv : argv.map (text s.heap) = cmd.argv)
    (hfind : ∃ c, s.tables.find id = some c) :
    ∃ s' v, execute signedChar s id argv cmd = some s' ∧ Does s s' argv v ∧ (view s).Called signedChar id v cmd := by
  obtain ⟨c, hc⟩ := hfind
  cases cmd with
  | subscribe channel more =>
    obtain ⟨s', hrun, hdoes⟩ := fold_spec (f := fun s a => pubsubSubscribeChannel s id a) (g := fun v k => v.subscribe id k)
      (fun s a h hin ⟨_, hc⟩ => subscribeChannel_spec h hin hc) argv h (fun _ ha => ha) ⟨c, hc⟩
    rw [hargv] at hdoes
    exact ⟨s', _, hrun, hdoes, rfl⟩
  | unsubscribe walk channels =>
    unfold execute unsubscribeCommand
    cases channels with
    | nil =>
      obtain rfl : argv = [] := List.map_eq_nil_iff.mp hargv
      obtain ⟨s', channels, hrun, hperm, hdoes⟩ := unsubscribeAllChannels_spec h hc walk true
      exact ⟨s', _, hrun, hdoes, channels, hperm, rfl⟩
    | cons channel more =>
      have hne : argv ≠ [] := by
        rintro rfl
        cases hargv
      obtain ⟨s', hrun, hdoes⟩ := fold_spec (f := fun s a => (pubsubUnsubscribeChannel s id a true).map Prod.fst)
        (g := fun v k => v.unsubscribe id k true) (fun s a h hin hc => unsubscribe_fst h hin hc) argv h (fun _ ha => ha) ⟨c, hc⟩
      rw [hargv] at hdoes
      exact ⟨s', _, (if_neg hne).trans hrun, hdoes, rfl⟩
  | psubscribe pattern more =>
    obtain ⟨s', hrun, hdoes⟩ := fold_spec (f := fun s a => pubsubSubscribePattern s id a) (g := fun v k => v.psubscribe id k)
      (fun s a h hin ⟨_, hc⟩ => subscribePattern_spec h hin hc) argv h (fun _ ha => ha) ⟨c, hc⟩
    rw [hargv] at hdoes
    exact ⟨s', _, hrun, hdoes, rfl⟩
  | punsubscribe patterns =>
    unfold execute punsubscribeCommand
    cases patterns with
    | nil =>
      obtain rfl : argv = [] := List.map_eq_nil_iff.mp hargv
      obtain ⟨s', hrun, hdoes⟩ := unsubscribeAllPatterns_spec h hc true
      exact ⟨s', _, hrun, hdoes, rfl⟩
    | cons pattern more =>
      have hne : argv ≠ [] := by
        rintro rfl
        cases hargv
      obtain ⟨s', hrun, hdoes⟩ := fold_spec (f := fun s a => (pubsubUnsubscribePattern s id a true).map Prod.fst)
        (g := fun v k => v.punsubscribe id k true) (fun s a h hin hc => punsubscribe_fst h hin hc) argv h (fun _ ha => ha) ⟨c, hc⟩
      rw [hargv] at hdoes
      exact ⟨s', _, (if_neg hne).trans hrun, hdoes, rfl⟩
  | publish channel message =>
    obtain ⟨a, b, rfl⟩ : ∃ a b : ℕ, argv = [a, b] := by
      have hlen := congrArg List.length hargv
      rw [List.length_map] at hlen
      exact List.length_eq_two.mp hlen
    have htexts : text s.heap a = channel ∧ text s.heap b = message := by
      obtain ⟨ha, hb⟩ := List.cons.inj hargv
      exact ⟨ha, (List.cons.inj hb).1⟩
    obtain ⟨s1, hrun1, hdoes1⟩ := publish_spec signedChar h List.mem_cons_self (List.mem_cons_of_mem a List.mem_cons_self)
    obtain ⟨s2, hrun2, hdoes2⟩ := addReply_does hdoes1.inv (hdoes1.found ⟨c, hc⟩)
      (.integer (deliveries signedChar (names s) (text s.heap a) (text s.heap b)).length)
    refine ⟨s2, _, ?_, hdoes1.trans hdoes2, ?_⟩
    · show (pubsubPublishMessage signedChar s a b).bind (fun r => addReply r.1 id (.integer r.2)) = some s2
      rw [hrun1, Option.bind_some]
      exact hrun2
    · rw [hdoes1.view, htexts.1, htexts.2]
      rfl

theorem call_spec (signedChar : Bool) (cmd : Command) (h : Inv s []) (hfind : ∃ c, s.tables.find id = some c) :
    ∃ s', call signedChar s id cmd = some s' ∧ Inv s' [] ∧ (view s).Called signedChar id (view s') cmd := by
  obtain ⟨hinv, htexts, hview, htables, -⟩ := createArgv_spec cmd.argv h
  rw [List.append_nil] at hinv
  obtain ⟨s1, v, hrun1, hdoes1, hcalled⟩ := execute_spec signedChar cmd hinv htexts (by rw [htables]; exact hfind)
  have hinv1 : Inv s1 ((createArgv cmd.argv s).2 ++ []) := by
    rw [List.append_nil]
    exact hdoes1.inv
  obtain ⟨s2, hrun2, hdoes2, -⟩ := freeObjects_spec (createArgv cmd.argv s).2 hinv1
  refine ⟨s2, ?_, hdoes2.inv, ?_⟩
  · rw [call, hrun1, Option.bind_some]
    exact hrun2
  · rw [hview] at hcalled
    rw [hdoes2.view, hdoes1.view]
    exact hcalled

theorem createClient_spec (h : Inv s []) (hnone : s.tables.find id = none) : Inv (createClient s id) [] ∧ view (createClient s id) = (view s).connect id := by
  have hnames : names (createClient s id) = ((view s).connect id).tables := by
    unfold names createClient Tables.map
    dsimp only
    rw [List.map_append]
    rfl
  have hnone' : Keyed.find Client.id (names s).clients id = none := by
    show (names s).find id = none
    rw [names, Tables.find_map, hnone, Option.map_none]
  have hfind : ∀ id', ((view s).connect id).tables.find id' = ((names s).find id').or (if id = id' then some ⟨id, [], []⟩ else none) :=
    fun id' => Keyed.find_snoc (names s).clients ⟨id, [], []⟩ id'
  have hchannels : ∀ id', ((view s).connect id).tables.channelsOf id' = (names s).channelsOf id' := by
    intro id'
    unfold Tables.channelsOf
    rw [hfind]
    cases hold : (names s).find id' with
    | some c => rfl
    | none =>
      rw [Option.none_or]
      split
      · rfl
      · rfl
  have hpatterns : ∀ id', ((view s).connect id).tables.patternsOf id' = (names s).patternsOf id' := by
    intro id'
    unfold Tables.patternsOf
    rw [hfind]
    cases hold : (names s).find id' with
    | some c => rfl
    | none =>
      rw [Option.none_or]
      split
      · rfl
      · rfl
  have hm := h.mirror
  refine ⟨⟨?_, ?_⟩, ?_⟩
  · have hrefs : (createClient s id).tables.refs = s.tables.refs := by
      unfold Tables.refs createClient
      dsimp only
      rw [List.flatMap_append]
      show s.tables.clients.flatMap Client.refs ++ [] ++ _ = _
      rw [List.append_nil]
    rw [hrefs]
    exact h.exact
  · rw [hnames]
    refine ⟨Keyed.nodup_snoc hm.ids hnone', fun c hc => ?_, hm.names, hm.lists, fun id' ch => ?_, hm.patterns, fun id' p => ?_⟩
    · rcases List.mem_append.mp hc with hc | hc
      · exact hm.own c hc
      · rw [List.mem_singleton.mp hc]
        exact ⟨List.nodup_nil, List.nodup_nil⟩
    · rw [hchannels]
      exact hm.listed id' ch
    · rw [hpatterns]
      exact hm.patterned id' p
  · rw [view, hnames]
    rfl

/-! ### A client that goes -/

section Removal

variable {ν : Type} [DecidableEq ν] {t : Tables ν} {c : Client ν}

theorem find_dropChannel (hfind : t.find id = some c) (channel : ν) :
    (t.dropChannel id channel).find id = some { c with channels := c.channels.erase channel } := by
  exact find_setClient_self (g := fun c => { c with channels := c.channels.erase channel }) hfind fun _ => rfl

theorem find_dropPattern (hfind : t.find id = some c) (pattern : ν) :
    (t.dropPattern id pattern).find id = some { c with patterns := c.patterns.erase pattern } := by
  exact find_setClient_self (g := fun c => { c with patterns := c.patterns.erase pattern }) hfind fun _ => rfl

theorem channelsOf_unsubscribe (hfind : t.find id = some c) (channel : ν) :
    (t.unsubscribe id channel).channelsOf id = (t.channelsOf id).erase channel := by
  have hdrop : (t.dropChannel id channel).channelsOf id = (t.channelsOf id).erase channel := by
    rw [Tables.channelsOf_eq hfind, Tables.channelsOf_eq (find_dropChannel hfind channel)]
  unfold Tables.unsubscribe
  split
  · split
    · exact hdrop
    · exact hdrop
  · rename_i hnot
    rw [List.erase_of_not_mem hnot]

theorem patternsOf_punsubscribe (hfind : t.find id = some c) (pattern : ν) :
    (t.punsubscribe id pattern).patternsOf id = (t.patternsOf id).erase pattern := by
  have hdrop : (t.dropPattern id pattern).patternsOf id = (t.patternsOf id).erase pattern := by
    rw [Tables.patternsOf_eq hfind, Tables.patternsOf_eq (find_dropPattern hfind pattern)]
  unfold Tables.punsubscribe
  split
  · exact hdrop
  · rename_i hnot
    rw [List.erase_of_not_mem hnot]

theorem channelsOf_punsubscribe (t : Tables ν) (hfind : t.find id = some c) (pattern : ν) :
    (t.punsubscribe id pattern).channelsOf id = t.channelsOf id := by
  unfold Tables.punsubscribe
  split
  · show (t.dropPattern id pattern).channelsOf id = _
    rw [Tables.channelsOf_eq hfind, Tables.channelsOf_eq (find_dropPattern hfind pattern)]
  · rfl

theorem found_unsubscribe (hfind : ∃ c, t.find id = some c) (channel : ν) : ∃ c, (t.unsubscribe id channel).find id = some c := by
  obtain ⟨c, hc⟩ := hfind
  have hdrop := find_dropChannel hc channel
  unfold Tables.unsubscribe
  split
  · split
    · exact ⟨_, hdrop⟩
    · exact ⟨_, hdrop⟩
  · exact ⟨c, hc⟩

theorem found_punsubscribe (hfind : ∃ c, t.find id = some c) (pattern : ν) : ∃ c, (t.punsubscribe id pattern).find id = some c := by
  obtain ⟨c, hc⟩ := hfind
  have hdrop := find_dropPattern hc pattern
  unfold Tables.punsubscribe
  split
  · exact ⟨_, hdrop⟩
  · exact ⟨c, hc⟩

def eraseAll (l names : List ν) : List ν := names.foldl List.erase l

/-- All that was there goes, in any order. -/
theorem eraseAll_perm : ∀ {names l : List ν}, names.Perm l → eraseAll l names = []
  | [], _, h => h.nil_eq.symm
  | name :: names, l, h => by
    have hrest := (h.trans (List.perm_cons_erase (h.mem_iff.mp List.mem_cons_self))).cons_inv
    have ih : eraseAll (l.erase name) names = [] := eraseAll_perm hrest
    exact ih

end Removal

theorem channelsOf_unsubscribeEach (notify : Bool) : ∀ (channels : List Sds) {v : View}, (∃ c, v.tables.find id = some c) →
    (v.unsubscribeEach id channels notify).tables.channelsOf id = eraseAll (v.tables.channelsOf id) channels
  | [], _, _ => rfl
  | channel :: rest, v, hfind => by
    have htables : (v.unsubscribe id channel notify).tables = v.tables.unsubscribe id channel := by
      cases notify <;> rfl
    obtain ⟨c, hc⟩ := hfind
    have ih := channelsOf_unsubscribeEach notify rest (v := v.unsubscribe id channel notify) (by
      rw [htables]
      exact found_unsubscribe ⟨c, hc⟩ channel)
    rw [htables, channelsOf_unsubscribe hc] at ih
    exact ih

theorem patternsOf_punsubscribeEach (notify : Bool) : ∀ (patterns : List Sds) {v : View}, (∃ c, v.tables.find id = some c) →
    (v.punsubscribeEach id patterns notify).tables.patternsOf id = eraseAll (v.tables.patternsOf id) patterns ∧
      (v.punsubscribeEach id patterns notify).tables.channelsOf id = v.tables.channelsOf id
  | [], _, _ => ⟨rfl, rfl⟩
  | pattern :: rest, v, hfind => by
    have htables : (v.punsubscribe id pattern notify).tables = v.tables.punsubscribe id pattern := by
      cases notify <;> rfl
    obtain ⟨c, hc⟩ := hfind
    have ih := patternsOf_punsubscribeEach notify rest (v := v.punsubscribe id pattern notify) (by
      rw [htables]
      exact found_punsubscribe ⟨c, hc⟩ pattern)
    rw [htables, patternsOf_punsubscribe hc, channelsOf_punsubscribe _ hc] at ih
    exact ih

theorem find_dropClient {ν : Type} (t : Tables ν) (id id' : ℕ) : (t.dropClient id).find id' = if id' = id then none else t.find id' :=
  Keyed.find_erase t.clients id id'

/-- A client without subscriptions goes. -/
theorem mirror_dropClient {t : Tables Sds} (h : t.Mirror) (hchannels : t.channelsOf id = []) (hpatterns : t.patternsOf id = []) :
    (t.dropClient id).Mirror := by
  have hch : ∀ id', (t.dropClient id).channelsOf id' = t.channelsOf id' := by
    intro id'
    by_cases hid : id' = id
    · rw [hid, hchannels, Tables.channelsOf, find_dropClient, if_pos rfl]
      rfl
    · rw [Tables.channelsOf, find_dropClient, if_neg hid]
      rfl
  have hpat : ∀ id', (t.dropClient id).patternsOf id' = t.patternsOf id' := by
    intro id'
    by_cases hid : id' = id
    · rw [hid, hpatterns, Tables.patternsOf, find_dropClient, if_pos rfl]
      rfl
    · rw [Tables.patternsOf, find_dropClient, if_neg hid]
      rfl
  refine ⟨Keyed.nodup_erase h.ids id, fun c hc => h.own c (List.mem_of_mem_filter hc), h.names, h.lists, fun id' ch => ?_, h.patterns, fun id' p => ?_⟩
  · rw [hch]
    exact h.listed id' ch
  · rw [hpat]
    exact h.patterned id' p

theorem map_dropClient (f : ℕ → Sds) (t : Tables ℕ) (id : ℕ) : (t.dropClient id).map f = (t.map f).dropClient id := by
  have hclients : (Keyed.erase Client.id t.clients id).map (Client.map f) = Keyed.erase Client.id (t.clients.map (Client.map f)) id := by
    unfold Keyed.erase
    rw [List.filter_map]
    rfl
  unfold Tables.dropClient Tables.map
  rw [hclients]

theorem freeClient_spec (h : Inv s []) (hfind : ∃ c, s.tables.find id = some c) (walk : Walk) :
    ∃ s' channels, freeClient s id walk = some s' ∧ Inv s' [] ∧ channels.Perm ((names s).channelsOf id) ∧
      view s' = (((view s).unsubscribeAll id channels false).punsubscribeAll id
        (((view s).unsubscribeAll id channels false).tables.patternsOf id) false).drop id := by
  obtain ⟨c, hc⟩ := hfind
  obtain ⟨s1, channels, hrun1, hperm, hdoes1⟩ := unsubscribeAllChannels_spec h hc walk false
  obtain ⟨c1, hc1⟩ := hdoes1.found ⟨c, hc⟩
  obtain ⟨s2, hrun2, hdoes2⟩ := unsubscribeAllPatterns_spec hdoes1.inv hc1 false
  obtain ⟨c2, hc2⟩ := hdoes2.found ⟨c1, hc1⟩
  have hview1 : view s1 = (view s).unsubscribeEach id channels false := hdoes1.view
  have hview2 : view s2 = (view s1).punsubscribeEach id ((names s1).patternsOf id) false := hdoes2.view
  have hch1 : (names s1).channelsOf id = [] := by
    have htables : (names s1).channelsOf id = ((view s).unsubscribeEach id channels false).tables.channelsOf id := by rw [← hview1]; rfl
    rw [htables, channelsOf_unsubscribeEach false channels ⟨_, find_names hc⟩]
    exact eraseAll_perm hperm
  have hfound1 : ∃ c, (view s1).tables.find id = some c := ⟨_, find_names hc1⟩
  obtain ⟨hpat2, hch2⟩ := patternsOf_punsubscribeEach false ((names s1).patternsOf id) hfound1
  rw [← hview2] at hpat2 hch2
  have hpatterns : (names s2).patternsOf id = [] := hpat2.trans (eraseAll_perm (List.Perm.refl _))
  have hchannels : (names s2).channelsOf id = [] := hch2.trans hch1
  have hrefs : c2.refs = [] := by
    rw [patternsOf_names hc2, List.map_eq_nil_iff] at hpatterns
    rw [channelsOf_names hc2, List.map_eq_nil_iff] at hchannels
    rw [Client.refs, hpatterns, hchannels, List.append_nil]
  have hnames : names { s2 with tables := s2.tables.dropClient id } = (names s2).dropClient id := map_dropClient (text s2.heap) s2.tables id
  refine ⟨{ s2 with tables := s2.tables.dropClient id }, channels, ?_, ⟨?_, ?_⟩, hperm, ?_⟩
  · rw [freeClient, hrun1, some_bind, hrun2, some_bind, hc2,
      some_bind, hrefs, freeObjects, some_bind]
  · have hp := (Keyed.perm_of_find hdoes2.inv.ids hc2).flatMap_right Client.refs
    rw [List.flatMap_cons, hrefs, List.nil_append] at hp
    exact hdoes2.inv.exact.perm ((hp.append_right _).append_right _)
  · rw [hnames]
    exact mirror_dropClient hdoes2.inv.mirror hchannels hpatterns
  · rw [view, hnames]
    have htables : ((view s).unsubscribeAll id channels false).tables.patternsOf id = (names s1).patternsOf id := by rw [← hdoes1.view]; rfl
    rw [htables, ← hdoes1.view, ← hdoes2.view]
    rfl

/-! ### Runs -/

theorem step_spec (signedChar : Bool) (h : Inv s []) (x : Step) :
    ∃ s', step signedChar s x = some s' ∧ Inv s' [] ∧ (view s).Stepped signedChar (view s') x := by
  have hsome : ∀ id, ((view s).tables.find id).isSome = (s.tables.find id).isSome := by
    intro id
    show ((names s).find id).isSome = _
    rw [names, Tables.find_map, Option.isSome_map]
  cases x with
  | connect id =>
    unfold step View.Stepped
    dsimp only
    rw [hsome]
    by_cases hfind : (s.tables.find id).isSome = true
    · rw [if_pos hfind, if_pos hfind]
      exact ⟨s, rfl, h, rfl⟩
    · rw [if_neg hfind, if_neg hfind]
      exact ⟨_, rfl, createClient_spec h (by simpa using hfind)⟩
  | command id c =>
    unfold step View.Stepped
    dsimp only
    rw [hsome]
    by_cases hfind : (s.tables.find id).isSome = true
    · simp only [if_pos hfind]
      exact call_spec signedChar c h (Option.isSome_iff_exists.mp hfind)
    · simp only [if_neg hfind]
      exact ⟨s, rfl, h, rfl⟩
  | disconnect id walk =>
    unfold step View.Stepped
    dsimp only
    rw [hsome]
    by_cases hfind : (s.tables.find id).isSome = true
    · simp only [if_pos hfind]
      obtain ⟨s', channels, hrun, hinv, hperm, hview⟩ := freeClient_spec h (Option.isSome_iff_exists.mp hfind) walk
      exact ⟨s', hrun, hinv, channels, hperm, hview⟩
    · simp only [if_neg hfind]
      exact ⟨s, rfl, h, rfl⟩

theorem run_spec (signedChar : Bool) : ∀ (steps : List Step) {s : Server}, Inv s [] →
    ∃ s', run signedChar steps s = some s' ∧ Inv s' [] ∧ View.Run signedChar steps (view s) (view s')
  | [], s, h => ⟨s, rfl, h, rfl⟩
  | x :: steps, s, h => by
    obtain ⟨s1, hrun1, h1, hstep⟩ := step_spec signedChar h x
    obtain ⟨s2, hrun2, h2, hsteps⟩ := run_spec signedChar steps h1
    refine ⟨s2, ?_, h2, _, hstep, hsteps⟩
    rw [run, hrun1, Option.bind_some]
    exact hrun2

theorem inv_init : Inv initServer [] :=
  ⟨⟨fun _ => rfl, nofun⟩, List.nodup_nil, nofun, List.nodup_nil, nofun, fun _ _ => ⟨nofun, nofun⟩, List.nodup_nil, fun _ _ => ⟨nofun, nofun⟩⟩

/-! ### What the mirrored tables say -/

theorem count_of_nodup {ε : Type} [BEq ε] [LawfulBEq ε] {l : List ε} {e : ε} {p : Prop} [Decidable p] (h : l.Nodup) (hp : e ∈ l ↔ p) :
    l.count e = if p then 1 else 0 := by
  split
  · rename_i hyes
    exact List.count_eq_one_of_mem h (hp.mpr hyes)
  · rename_i hno
    exact List.count_eq_zero_of_not_mem fun hin => hno (hp.mp hin)

variable {t : Tables Sds}

/-- The channels of a client are the lists that it is in. -/
theorem channelsOf_perm (h : t.Mirror) (id : ℕ) : (t.channelsOf id).Perm ((t.channels.filter fun e => decide (id ∈ e.2)).map Prod.fst) := by
  have hown : (t.channelsOf id).Nodup := by
    unfold Tables.channelsOf
    cases hfind : t.find id with
    | none => exact List.nodup_nil
    | some c => exact (h.own c (Keyed.of_find hfind).1).1
  refine (List.perm_ext_iff_of_nodup hown (h.names.sublist (List.filter_sublist.map _))).mpr fun channel => ?_
  rw [← h.listed, List.mem_map]
  constructor
  · intro hin
    cases hlist : Keyed.find Prod.fst t.channels channel with
    | none =>
      rw [Tables.listeners, hlist] at hin
      cases hin
    | some e =>
      rw [Tables.listeners_eq hlist] at hin
      obtain ⟨he, hname⟩ := Keyed.of_find hlist
      exact ⟨e, List.mem_filter.mpr ⟨he, decide_eq_true hin⟩, hname⟩
  · rintro ⟨e, he, hname⟩
    obtain ⟨he, hin⟩ := List.mem_filter.mp he
    rw [Tables.listeners_eq ((Keyed.find_eq_some_iff h.names).mpr ⟨he, hname⟩)]
    exact of_decide_eq_true hin

theorem patternsOf_perm (h : t.Mirror) (id : ℕ) : (t.patternsOf id).Perm ((t.patterns.filter fun p => decide (p.1 = id)).map Prod.snd) := by
  have hown : (t.patternsOf id).Nodup := by
    unfold Tables.patternsOf
    cases hfind : t.find id with
    | none => exact List.nodup_nil
    | some c => exact (h.own c (Keyed.of_find hfind).1).2
  have hnodup : ((t.patterns.filter fun p => decide (p.1 = id)).map Prod.snd).Nodup := by
    refine (h.patterns.filter _).map_on fun p hp q hq heq => Prod.ext ?_ heq
    rw [of_decide_eq_true (List.mem_filter.mp hp).2, of_decide_eq_true (List.mem_filter.mp hq).2]
  refine (List.perm_ext_iff_of_nodup hown hnodup).mpr fun pattern => ?_
  rw [← h.patterned, List.mem_map]
  constructor
  · exact fun hin => ⟨(id, pattern), List.mem_filter.mpr ⟨hin, decide_eq_true rfl⟩, rfl⟩
  · rintro ⟨p, hp, rfl⟩
    obtain ⟨hp, hid⟩ := List.mem_filter.mp hp
    rw [← of_decide_eq_true hid]
    exact hp

/-- The count that a client is sent is the number of its places in the server's tables. -/
theorem count_eq (h : t.Mirror) (id : ℕ) :
    t.count id = (t.channels.filter fun e => decide (id ∈ e.2)).length + (t.patterns.filter fun p => decide (p.1 = id)).length := by
  rw [Tables.count, (channelsOf_perm h id).length_eq, (patternsOf_perm h id).length_eq, List.length_map, List.length_map]

theorem nodup_deliveries (signedChar : Bool) (h : t.Mirror) (channel message : Sds) : (deliveries signedChar t channel message).Nodup := by
  refine List.nodup_append.mpr ⟨(Tables.nodup_listeners h channel).map fun a b hab => (Prod.mk.inj hab).1,
    (h.patterns.filter _).map fun p q hpq => ?_, ?_⟩
  · obtain ⟨hid, hpat⟩ := Prod.mk.inj hpq
    exact Prod.ext hid (Reply.pmessage.inj hpat).1
  · rintro x hx y hy rfl
    obtain ⟨id, -, rfl⟩ := List.mem_map.mp hx
    obtain ⟨p, -, hp⟩ := List.mem_map.mp hy
    cases (Prod.mk.inj hp).2

theorem mem_deliveries (signedChar : Bool) (h : t.Mirror) (channel message : Sds) (id : ℕ) (r : Reply) :
    (id, r) ∈ deliveries signedChar t channel message ↔ (r = .message channel message ∧ channel ∈ t.channelsOf id) ∨
      ∃ pattern, r = .pmessage pattern channel message ∧ pattern ∈ t.patternsOf id ∧ Util.stringmatchlen signedChar false pattern channel = true := by
  rw [deliveries, List.mem_append, List.mem_map, List.mem_map]
  refine or_congr ⟨?_, ?_⟩ ⟨?_, ?_⟩
  · rintro ⟨id', hin, heq⟩
    obtain ⟨rfl, rfl⟩ := Prod.mk.inj heq
    exact ⟨rfl, (h.listed id' channel).mp hin⟩
  · rintro ⟨rfl, hin⟩
    exact ⟨id, (h.listed id channel).mpr hin, rfl⟩
  · rintro ⟨p, hp, heq⟩
    obtain ⟨rfl, rfl⟩ := Prod.mk.inj heq
    obtain ⟨hp, hmatch⟩ := List.mem_filter.mp hp
    exact ⟨p.2, rfl, (h.patterned p.1 p.2).mp hp, hmatch⟩
  · rintro ⟨pattern, rfl, hin, hmatch⟩
    exact ⟨(id, pattern), List.mem_filter.mpr ⟨(h.patterned id pattern).mpr hin, hmatch⟩, rfl⟩

/-- **The tables of subscriptions mirror each other.** Whatever the clients do, no command fails, and the state is what
the commands mean. A client is in the list of a channel once if the channel is its own and not at all otherwise,
and so for the patterns; no list is empty; the number that a client is sent is that of its places
in the tables. A message goes to exactly the subscriptions that it matches, once to each, and their number is the reply. -/
theorem tables_mirror (signedChar : Bool) (steps : List Step) :
    ∃ s, run signedChar steps initServer = some s ∧ View.Run signedChar steps ⟨⟨[], [], []⟩, []⟩ (view s) ∧
      (∀ id channel, ((names s).listeners channel).count id = if channel ∈ (names s).channelsOf id then 1 else 0) ∧
      ((names s).channels.map Prod.fst).Nodup ∧ (∀ e ∈ (names s).channels, e.2 ≠ []) ∧
      (∀ id, ((names s).channelsOf id).Nodup ∧ ((names s).patternsOf id).Nodup) ∧
      (∀ id pattern, (names s).patterns.count (id, pattern) = if pattern ∈ (names s).patternsOf id then 1 else 0) ∧
      (∀ id, (names s).count id = ((names s).channels.filter fun e => decide (id ∈ e.2)).length +
        ((names s).patterns.filter fun p => decide (p.1 = id)).length) ∧
      ∀ id channel message, (∃ c, s.tables.find id = some c) →
        ∃ s', call signedChar s id (.publish channel message) = some s' ∧ names s' = names s ∧
          s'.out = s.out ++ deliveries signedChar (names s) channel message ++
            [(id, .integer (deliveries signedChar (names s) channel message).length)] ∧
          (deliveries signedChar (names s) channel message).Nodup ∧
          ∀ id' r, (id', r) ∈ deliveries signedChar (names s) channel message ↔
            (r = .message channel message ∧ channel ∈ (names s).channelsOf id') ∨
            ∃ pattern, r = .pmessage pattern channel message ∧ pattern ∈ (names s).patternsOf id' ∧
              Util.stringmatchlen signedChar false pattern channel = true := by
  obtain ⟨s, hrun, h, hview⟩ := run_spec signedChar steps inv_init
  have hm := h.mirror
  refine ⟨s, hrun, hview, fun id channel => count_of_nodup (Tables.nodup_listeners hm channel) (hm.listed id channel), hm.names,
    fun e he => (hm.lists e he).1, fun id => ⟨?_, ?_⟩, fun id pattern => count_of_nodup hm.patterns (hm.patterned id pattern), count_eq hm,
    fun id channel message hfind => ?_⟩
  · exact ((channelsOf_perm hm id).nodup_iff).mpr (hm.names.sublist (List.filter_sublist.map _))
  · unfold Tables.patternsOf
    cases hfind : (names s).find id with
    | none => exact List.nodup_nil
    | some c => exact (hm.own c (Keyed.of_find hfind).1).2
  · obtain ⟨s', hcall, -, hcalled⟩ := call_spec signedChar (.publish channel message) h hfind
    have hcalled' : view s' = ((view s).publish signedChar channel message).send id
        (.integer (deliveries signedChar (view s).tables channel message).length) := hcalled
    exact ⟨s', hcall, congrArg View.tables hcalled', congrArg View.out hcalled', nodup_deliveries signedChar hm channel message,
      fun id' r => mem_deliveries signedChar hm channel message id' r⟩

end RedisZk.Pubsub
