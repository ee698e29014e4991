/-
# What the listpacks of a stream hold

A node is a master entry and entries, each of which is written with the fields of the
master entry or with its own; the listpack of a node is `Node.eles`. `Represents` says
that the radix tree of a stream holds the listpacks of some nodes, each with an entry that is
not deleted, and that these are in increasing order of their IDs. Nothing is said of the order of
the deleted ones: XSETID may go back behind them.

Key definitions: `Entry`, `Node`, `Node.eles`, `Node.pos`, `Represents`, `content`.
Key theorems: `add_delta`, `Represents.sorted`, `Represents.key_le`.
-/
import RedisZk.Streams.Cursor
import RedisZk.Streams.Items

namespace RedisZk.Streams

open Stepwise

/-! ### Entries -/

structure Entry where
  id : StreamID
  fields : List (Sds × Sds)
  /-- It has the fields of the master entry, and they are left out. -/
  same : Bool
  deleted : Bool := false
deriving DecidableEq

namespace Entry

def flags (e : Entry) : ℕ := (if e.deleted then 1 else 0) + if e.same then 2 else 0

/-- What is between the ID and the count. -/
def body (e : Entry) : List Sds :=
  if e.same then e.fields.map Prod.snd else ll2string e.fields.length :: e.fields.flatMap fun fv => [fv.1, fv.2]

def eles (master : StreamID) (e : Entry) : List Sds :=
  ll2string e.flags :: ll2string (toInt64 (e.id.ms - master.ms)) :: ll2string (toInt64 (e.id.seq - master.seq)) ::
    (e.body ++ [ll2string (3 + e.body.length : ℕ)])

/-- Where the first field or value stands in the entry. -/
def skip (e : Entry) : ℕ := if e.same then 3 else 4

theorem flatMap_pair_length (l : List (Sds × Sds)) : (l.flatMap fun fv => [fv.1, fv.2]).length = l.length * 2 := by
  induction l with
  | nil => rfl
  | cons fv l ih =>
    rw [List.flatMap_cons, List.length_append, ih, List.length_cons, List.length_cons, List.length_cons, List.length_nil]
    omega

theorem body_length (e : Entry) : e.body.length = if e.same then e.fields.length else e.fields.length * 2 + 1 := by
  unfold body
  split
  · rw [List.length_map]
  · rw [List.length_cons, flatMap_pair_length]

theorem eles_length (master : StreamID) (e : Entry) : (e.eles master).length = e.body.length + 4 := by
  simp [eles]

theorem hasFlag_deleted (e : Entry) : hasFlag e.flags STREAM_ITEM_FLAG_DELETED = e.deleted := by
  unfold flags
  cases e.deleted
  · cases e.same <;> decide
  · cases e.same <;> decide

theorem hasFlag_same (e : Entry) : hasFlag e.flags STREAM_ITEM_FLAG_SAMEFIELDS = e.same := by
  unfold flags
  cases e.deleted
  · cases e.same <;> decide
  · cases e.same <;> decide

theorem setFlag_deleted (e : Entry) : setFlag e.flags STREAM_ITEM_FLAG_DELETED = ({ e with deleted := true } : Entry).flags := by
  unfold flags
  cases e.deleted
  · cases e.same <;> simp [setFlag, STREAM_ITEM_FLAG_DELETED]
  · cases e.same <;> simp [setFlag, STREAM_ITEM_FLAG_DELETED]

theorem flags_lt (e : Entry) : e.flags < 2 ^ 63 := by
  unfold flags
  split_ifs <;> omega

end Entry

theorem toInt64_isInt64 (x : U64) : IsInt64 (toInt64 x) := by
  have hx := x.isLt
  unfold toInt64 INT64_MAX
  constructor
  · split_ifs <;> omega
  · split_ifs <;> omega

theorem toUInt64_toInt64 (x : U64) : toUInt64 (toInt64 x) = x := by
  have hx := x.isLt
  have hmod : ((toInt64 x) % 2 ^ 64).toNat = x.val := by
    unfold toInt64 INT64_MAX
    split_ifs <;> omega
  rw [toUInt64, hmod]
  apply Fin.ext
  rw [Fin.val_ofNat]
  exact Nat.mod_eq_of_lt hx

theorem add_delta (a b : U64) : b + toUInt64 (toInt64 (a - b)) = a := by
  rw [toUInt64_toInt64]
  have ha := a.isLt
  have hb := b.isLt
  apply Fin.ext
  rw [Fin.val_add, Fin.val_sub]
  omega

/-! ### Nodes -/

/-- The entries that are not deleted. -/
def live (es : List Entry) : List Entry := es.filter fun e => !e.deleted

theorem mem_live {es : List Entry} {e : Entry} : e ∈ live es ↔ e ∈ es ∧ e.deleted = false := by
  rw [live, List.mem_filter, Bool.not_eq_true']

theorem live_append (es es' : List Entry) : live (es ++ es') = live es ++ live es' := List.filter_append ..

theorem live_cons_deleted {e : Entry} (h : e.deleted = true) (es : List Entry) : live (e :: es) = live es :=
  List.filter_cons_of_neg (by simp [h])

theorem live_cons_live {e : Entry} (h : e.deleted = false) (es : List Entry) : live (e :: es) = e :: live es :=
  List.filter_cons_of_pos (by simp [h])

structure Node where
  /-- The key of the node. -/
  master : StreamID
  /-- The fields of the master entry. -/
  names : List Sds
  entries : List Entry

namespace Node

/-- The entries that are not deleted. -/
def valid (n : Node) : ℕ := n.entries.countP fun e => !e.deleted

def deleted (n : Node) : ℕ := n.entries.countP fun e => e.deleted

/-- The master entry. -/
def header (n : Node) : List Sds :=
  ll2string n.valid :: ll2string n.deleted :: ll2string n.names.length :: (n.names ++ [ll2string 0])

def eles (n : Node) : Listpack := n.header ++ n.entries.flatMap (Entry.eles n.master)

/-- The node in the tree. -/
def binding (n : Node) : StreamID × Listpack := (n.master, n.eles)

/-- Where the entry after the entries `es` starts. -/
def pos (n : Node) (es : List Entry) : ℕ := 4 + n.names.length + (es.flatMap (Entry.eles n.master)).length

/-- What holds of a node of a stream; deleted entries may have any IDs from the key of the node on. -/
structure Ok (n : Node) : Prop where
  nonempty : 0 < n.valid
  fits : lpBytes n.eles ≤ UINT32_MAX
  above : ∀ e ∈ n.entries, n.master ≤ e.id
  sorted : (live n.entries).Pairwise fun e e' => e.id < e'.id
  same : ∀ e ∈ n.entries, e.same = true → e.fields.map Prod.fst = n.names

variable {n : Node} {es es' : List Entry} {e : Entry}

theorem valid_eq (n : Node) : n.valid = (live n.entries).length := List.countP_eq_length_filter

theorem Ok.exists_live (h : n.Ok) : ∃ e, e ∈ live n.entries := by
  have hlive := h.nonempty
  rw [valid_eq] at hlive
  exact List.exists_mem_of_length_pos hlive

theorem header_length (n : Node) : n.header.length = 4 + n.names.length := by
  simp [header]
  omega

theorem pos_append : n.pos (es ++ [e]) = n.pos es + e.body.length + 4 := by
  simp only [pos, List.flatMap_append, List.length_append, List.flatMap_cons, List.flatMap_nil, List.append_nil,
    Entry.eles_length]
  omega

/-- The listpack around an entry. -/
theorem eles_split (h : n.entries = es ++ e :: es') :
    n.eles = (n.header ++ es.flatMap (Entry.eles n.master)) ++ (e.eles n.master ++ es'.flatMap (Entry.eles n.master)) := by
  simp only [eles, h, List.flatMap_append, List.flatMap_cons, List.append_assoc]

theorem pos_eq (n : Node) (es : List Entry) : n.pos es = (n.header ++ es.flatMap (Entry.eles n.master)).length := by
  rw [pos, List.length_append, header_length]

theorem length_eq (h : n.entries = es ++ es') : n.eles.length = n.pos es + (es'.flatMap (Entry.eles n.master)).length := by
  simp only [eles, h, List.flatMap_append, List.length_append, header_length, pos]
  omega

theorem length_split (h : n.entries = es ++ e :: es') :
    n.eles.length = n.pos es + e.body.length + 4 + (es'.flatMap (Entry.eles n.master)).length := by
  rw [eles_split h, List.length_append, ← pos_eq, List.length_append, Entry.eles_length]
  omega

/-- The element `i` of an entry. -/
theorem eles_getElem (h : n.entries = es ++ e :: es') {i : ℕ} {pre post : List Sds} {x : Sds}
    (he : e.eles n.master = pre ++ x :: post) (hi : i = pre.length) :
    ∃ pre' post', n.eles = pre' ++ x :: post' ∧ n.pos es + i = pre'.length := by
  refine ⟨(n.header ++ es.flatMap (Entry.eles n.master)) ++ pre, post ++ es'.flatMap (Entry.eles n.master), ?_, ?_⟩
  · rw [eles_split h, he]
    simp only [List.append_assoc, List.cons_append]
  · rw [List.length_append, ← pos_eq, hi]

end Node

/-! ### Streams -/

/-- The tree of the stream holds the listpacks of the nodes. -/
structure Represents (s : Stream) (ns : List Node) : Prop where
  rax : s.rax.entries = ns.map Node.binding
  length : s.length = (ns.map Node.valid).sum
  ok : ∀ n ∈ ns, n.Ok
  before : ns.Pairwise fun m n => ∀ e ∈ live m.entries, e.id < n.master
  last : ∀ n ∈ ns, ∀ e ∈ live n.entries, e.id ≤ s.last_id

/-- The live entries of the nodes, in order. -/
def content (ns : List Node) : List Entry := live (ns.flatMap Node.entries)

theorem content_cons (n : Node) (ns : List Node) : content (n :: ns) = live n.entries ++ content ns := by
  simp only [content, List.flatMap_cons, live_append]

theorem content_append (ns ms : List Node) : content (ns ++ ms) = content ns ++ content ms := by
  simp only [content, List.flatMap_append, live_append]

theorem mem_content {ns : List Node} {e : Entry} : e ∈ content ns ↔ ∃ n ∈ ns, e ∈ live n.entries := by
  simp only [content, mem_live, List.mem_flatMap]
  constructor
  · rintro ⟨⟨n, hn, he⟩, hd⟩
    exact ⟨n, hn, he, hd⟩
  · rintro ⟨n, hn, he, hd⟩
    exact ⟨⟨n, hn, he⟩, hd⟩

theorem length_content (ns : List Node) : (content ns).length = (ns.map Node.valid).sum := by
  induction ns with
  | nil => rfl
  | cons n ns ih => rw [content_cons, List.length_append, ih, List.map_cons, List.sum_cons, Node.valid_eq]

namespace Represents

variable {s : Stream} {ns : List Node}

/-- The live entries are in increasing order of their IDs. -/
theorem sorted (h : Represents s ns) : (content ns).Pairwise fun e e' => e.id < e'.id := by
  have hok := h.ok
  have hbefore := h.before
  clear h
  induction ns with
  | nil => exact .nil
  | cons n ns ih =>
    obtain ⟨hn, hns⟩ := List.pairwise_cons.mp hbefore
    rw [content_cons, List.pairwise_append]
    refine ⟨(hok n List.mem_cons_self).sorted, ih (fun m hm => hok m (List.mem_cons_of_mem _ hm)) hns, ?_⟩
    intro e he e' he'
    obtain ⟨m, hm, hem⟩ := mem_content.mp he'
    exact lt_of_lt_of_le (hn m hm e he) ((hok m (List.mem_cons_of_mem _ hm)).above e' (mem_live.mp hem).1)

theorem last_id (h : Represents s ns) : ∀ e ∈ content ns, e.id ≤ s.last_id := by
  intro e he
  obtain ⟨n, hn, hen⟩ := mem_content.mp he
  exact h.last n hn e hen

theorem length_eq (h : Represents s ns) : s.length = (content ns).length := by
  rw [h.length, length_content]

/-- The last ID is not before the key of a node, as the node has a live entry. -/
theorem key_le (h : Represents s ns) : ∀ n ∈ ns, n.master ≤ s.last_id := by
  intro n hn
  obtain ⟨e, he⟩ := (h.ok n hn).exists_live
  exact ((h.ok n hn).above e (mem_live.mp he).1).trans (h.last n hn e he)

end Represents

end RedisZk.Streams
