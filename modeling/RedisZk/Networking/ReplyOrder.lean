/-
# Replies reach the socket in order

The text of a client is the bytes in its buffer and in its blocks, with a hole for each
length that is still open. A reply call adds its bytes at the end of the text, a deferred
length fills the hole it has left, wherever the bytes around it are kept, and a write takes
bytes from the front, from where `sentlen` stands. What is on the socket and what is queued
are then together what the commands have said.

Key definitions: `Call.bytes`, `Replies.said`, `Client.text`, `Client.Ok`, `Adds`.
Key theorems: `setDeferredMultiBulkLength_fills`, `Replies.run_adds`,
`writeToClient_spec`, `replies_in_order`.
-/
import Mathlib
import RedisZk.Networking.Reply

namespace RedisZk.Networking

open Streams (Sds ll2string)

/-! ### What a command says -/

/-- The bytes of a reply. -/
def Call.bytes : Call → Sds
  | .addReply obj => obj.ptr
  | .addReplyString s => s
  | .addReplyErrorLength s => (if s.head? ≠ some 45 then sds "-ERR " else []) ++ s ++ crlf
  | .addReplyErrorFormat s =>
    let s := s.map fun ch => if ch = 13 ∨ ch = 10 then 32 else ch
    (if s.head? ≠ some 45 then sds "-ERR " else []) ++ s ++ crlf
  | .addReplyStatusLength s => sds "+" ++ s ++ crlf
  | .addReplyLongLong ll => 58 :: ll2string ll ++ crlf
  | .addReplyMultiBulkLen length => 42 :: ll2string length ++ crlf
  | .addReplyBulk obj => 36 :: ll2string obj.ptr.length ++ crlf ++ obj.ptr ++ crlf
  | .addReplyBulkCBuffer p => 36 :: ll2string p.length ++ crlf ++ p ++ crlf
  | .addReplyBulkCString none => sds "$-1\r\n"
  | .addReplyBulkCString (some s) => 36 :: ll2string s.length ++ crlf ++ s ++ crlf
  | .addReplyBulkLongLong ll => 36 :: ll2string (ll2string ll).length ++ crlf ++ ll2string ll ++ crlf

/-- All the replies of a command, each deferred length where it was opened. -/
def Replies.bytes : Replies → Sds
  | .done => []
  | .call k rest => k.bytes ++ rest.bytes
  | .deferred body length rest => lenstr length ++ body.bytes ++ rest.bytes
  | .become _ rest => rest.bytes

/-- The flags that a command leaves its client with. -/
def Replies.flagsAfter : Replies → Flags → Flags
  | .done, f => f
  | .call _ rest, f => rest.flagsAfter f
  | .deferred body _ rest, f => rest.flagsAfter (body.flagsAfter f)
  | .become f rest, _ => rest.flagsAfter f

/-- The replies of a command that its client is to receive: none while
`prepareClientToWrite` refuses them, and only the deferred lengths once the client is to be
closed after its reply. -/
def Replies.said (fd : ℤ) : Replies → Flags → Sds
  | .done, _ => []
  | .call k rest, f => (if takesReplies fd f && !f.closeAfterReply then k.bytes else []) ++ rest.said fd f
  | .deferred body length rest, f =>
    (if takesReplies fd f then lenstr length else []) ++ body.said fd f ++ rest.said fd (body.flagsAfter f)
  | .become f rest, _ => rest.said fd f

/-- What the commands of a list of events say to a client. -/
def saidBy (fd : ℤ) : List Event → Flags → Sds
  | [], _ => []
  | .command r :: es, f => r.said fd f ++ saidBy fd es (r.flagsAfter f)
  | .writeToClient _ :: es, f => saidBy fd es f

/-- All the replies of the commands of a list of events. -/
def allBytes : List Event → Sds
  | [] => []
  | .command r :: es => r.bytes ++ allBytes es
  | .writeToClient _ :: es => allBytes es

/-! ### The text of a client -/

/-- A byte, or the hole that a placeholder is. -/
abbrev Mark := Fin 256 ⊕ ℕ

def marks (s : Sds) : List Mark := s.map Sum.inl

def ReplyNode.text : ReplyNode → List Mark
  | ⟨addr, none⟩ => [.inr addr]
  | ⟨_, some b⟩ => marks b.used

/-- The buffer, and the blocks and the holes after it. -/
def Client.text (c : Client) : List Mark := marks c.buf ++ c.reply.flatMap ReplyNode.text

def ReplyNode.bytes (n : ReplyNode) : Sds := (n.value.map Block.used).getD []

/-- The bytes that wait to be sent. -/
def Client.queued (c : Client) : Sds := (c.buf ++ c.reply.flatMap ReplyNode.bytes).drop c.sentlen

def ReplyNode.size (n : ReplyNode) : ℕ := (n.value.map Block.size).getD 0

/-- The sum of the sizes of the queued blocks. -/
def Client.blockBytes (c : Client) : ℕ := (c.reply.map ReplyNode.size).sum

/-- No length is open. -/
def Client.Closed (c : Client) : Prop := ∀ n ∈ c.reply, n.value ≠ none

/-- What is sent first: the buffer, or the first block. -/
def Client.first (c : Client) : Sds :=
  if c.buf ≠ [] then c.buf else ((c.reply.head?).map ReplyNode.bytes).getD []

/-- The state of the buffers between two calls. -/
structure Client.Ok (c : Client) : Prop where
  sentlen : c.sentlen ≤ c.first.length
  replyBytes : c.replyBytes = c.blockBytes
  addr : ∀ n ∈ c.reply, n.addr < c.mallocs
  nodup : (c.reply.map ReplyNode.addr).Nodup

/-- Marks are added at the end of the text of a client, and nothing is sent. -/
structure Adds (c c' : Client) (t : List Mark) : Prop where
  text : c'.text = c.text ++ t
  ok : c.Ok → c'.Ok
  fd : c'.fd = c.fd
  sentlen : c'.sentlen = c.sentlen
  mallocs : c.mallocs ≤ c'.mallocs

@[simp]
theorem marks_nil : marks [] = [] := rfl

@[simp]
theorem marks_append (s s' : Sds) : marks (s ++ s') = marks s ++ marks s' := List.map_append

theorem marks_injective : Function.Injective marks := List.map_injective_iff.mpr Sum.inl_injective

theorem inr_notMem_marks (addr : ℕ) (s : Sds) : Sum.inr addr ∉ marks s := by
  simp [marks]

variable {addr : ℕ}

/-- Only a placeholder has its address in the text. -/
theorem eq_of_inr_mem {n : ReplyNode} (h : Sum.inr addr ∈ n.text) : n = ⟨addr, none⟩ := by
  obtain ⟨a, v⟩ := n
  cases v with
  | none =>
    rw [ReplyNode.text, List.mem_singleton, Sum.inr.injEq] at h
    rw [h]
  | some b => exact absurd h (inr_notMem_marks addr _)

theorem Adds.refl (c : Client) : Adds c c [] := ⟨by simp, id, rfl, rfl, le_rfl⟩

theorem Adds.trans {c c' c'' : Client} {t t' : List Mark} (h : Adds c c' t) (h' : Adds c' c'' t') :
    Adds c c'' (t ++ t') where
  text := by rw [h'.text, h.text, List.append_assoc]
  ok := fun hok => h'.ok (h.ok hok)
  fd := h'.fd.trans h.fd
  sentlen := h'.sentlen.trans h.sentlen
  mallocs := h.mallocs.trans h'.mallocs

variable {c' : Client}

/-- The fields that a client is only scheduled or stopped with are not in its text. -/
theorem Adds.of_eq (h1 : c'.buf = c.buf) (h2 : c'.reply = c.reply) (h3 : c'.fd = c.fd)
    (h4 : c'.sentlen = c.sentlen) (h5 : c'.replyBytes = c.replyBytes) (h6 : c'.mallocs = c.mallocs) :
    Adds c c' [] where
  text := by rw [List.append_nil, Client.text, Client.text, h1, h2]
  ok := fun h => ⟨by rw [h4, Client.first, h1, h2]; exact h.sentlen,
    by rw [h5, Client.blockBytes, h2]; exact h.replyBytes, by rw [h2, h6]; exact h.addr, by rw [h2]; exact h.nodup⟩
  fd := h3
  sentlen := h4
  mallocs := h6.ge

/-! ### Adding bytes -/

/-- More nodes at the end of the list. -/
theorem Client.Ok.append {c c' : Client} {l : List ReplyNode} (h : c.Ok) (hbuf : c'.buf = c.buf)
    (hreply : c'.reply = c.reply ++ l) (hsent : c'.sentlen = c.sentlen)
    (hbytes : c'.replyBytes = c.replyBytes + (l.map ReplyNode.size).sum) (hle : c.mallocs ≤ c'.mallocs)
    (haddr : ∀ n ∈ l, c.mallocs ≤ n.addr ∧ n.addr < c'.mallocs) (hnodup : (l.map ReplyNode.addr).Nodup) : c'.Ok where
  sentlen := by
    have hs := h.sentlen
    rw [hsent]
    rw [Client.first] at hs ⊢
    rw [hbuf, hreply]
    split
    · rw [if_pos ‹_›] at hs
      exact hs
    · rw [if_neg ‹_›] at hs
      cases hr : c.reply with
      | nil =>
        rw [hr] at hs
        simp only [List.head?_nil, Option.map_none, Option.getD_none, List.length_nil] at hs
        omega
      | cons n r => rwa [hr] at hs
  replyBytes := by rw [hbytes, h.replyBytes, Client.blockBytes, Client.blockBytes, hreply, List.map_append, List.sum_append]
  addr := by
    intro n hn
    rw [hreply, List.mem_append] at hn
    rcases hn with hn | hn
    · exact (h.addr n hn).trans_le hle
    · exact (haddr n hn).2
  nodup := by
    rw [hreply, List.map_append, List.nodup_append]
    refine ⟨h.nodup, hnodup, ?_⟩
    intro a ha b hb heq
    obtain ⟨n, hn, rfl⟩ := List.mem_map.mp ha
    obtain ⟨m, hm, rfl⟩ := List.mem_map.mp hb
    have := h.addr n hn
    have := (haddr m hm).1
    omega

section Alloc

variable (slack : ℕ → ℕ)

theorem addReplyBlock_adds (c : Client) (s : Sds) : Adds c (addReplyBlock slack c s) (marks s) := by
  rw [addReplyBlock]
  split
  · rename_i hs
    rw [hs]
    exact .refl c
  · refine ⟨?_, fun h => h.append rfl rfl rfl ?_ (Nat.le_succ _) ?_ (List.nodup_singleton _), rfl, rfl, Nat.le_succ _⟩
    · simp [Client.text, ReplyNode.text]
    · simp [ReplyNode.size]
    · simp

/-- The last block takes what it has the room for. -/
theorem lastBlock_adds {c : Client} {tail : Block} (h : c.reply.getLast? = some ⟨addr, some tail⟩)
    (s : Sds) :
    Adds c { c with reply := c.reply.dropLast ++ [⟨addr, some (tail.take s)⟩] }
      (marks (s.take (tail.size - tail.used.length))) := by
  have heq : c.reply.dropLast ++ [⟨addr, some tail⟩] = c.reply := List.dropLast_append_getLast? _ h
  obtain ⟨l, hl⟩ : ∃ l, l = c.reply.dropLast := ⟨_, rfl⟩
  rw [← hl] at heq ⊢
  refine ⟨?_, fun h => ⟨?_, ?_, ?_, ?_⟩, rfl, rfl, le_rfl⟩
  · simp [Client.text, ← heq, ReplyNode.text, Block.take]
  · have hs := h.sentlen
    rw [Client.first] at hs ⊢
    simp only [← heq] at hs
    show c.sentlen ≤ (if c.buf ≠ [] then _ else _ : Sds).length
    split
    · rwa [if_pos ‹_›] at hs
    · rw [if_neg ‹_›] at hs
      cases l with
      | nil =>
        simp only [ReplyNode.bytes, Block.take, List.nil_append, List.head?_cons, Option.map_some, Option.getD_some,
          List.length_append] at hs ⊢
        omega
      | cons n l => exact hs
  · rw [h.replyBytes, Client.blockBytes, Client.blockBytes, ← heq]
    simp [ReplyNode.size, Block.take]
  · intro n hn
    rcases List.mem_append.mp hn with hn | hn
    · exact h.addr n (heq ▸ List.mem_append_left _ hn)
    · rw [List.mem_singleton.mp hn]
      exact h.addr ⟨addr, some tail⟩ (heq ▸ List.mem_append_right _ (List.mem_singleton_self _))
  · have hn := h.nodup
    rw [← heq] at hn
    simpa using hn

theorem addReplyStringToList_adds {c : Client} (h : c.flags.closeAfterReply = false) (s : Sds) :
    Adds c (addReplyStringToList slack c s) (marks s) := by
  rw [addReplyStringToList, if_neg (by simp [h])]
  split
  · rename_i addr tail hl
    have := (lastBlock_adds hl s).trans (addReplyBlock_adds slack _ (s.drop (tail.size - tail.used.length)))
    rwa [← marks_append, List.take_append_drop] at this
  · exact addReplyBlock_adds slack c s

theorem addReplyBlock_flags (c : Client) (s : Sds) : (addReplyBlock slack c s).flags = c.flags := by
  rw [addReplyBlock]
  split <;> rfl

theorem addReplyStringToList_flags (c : Client) (s : Sds) : (addReplyStringToList slack c s).flags = c.flags := by
  rw [addReplyStringToList]
  split
  · rfl
  · split <;> rw [addReplyBlock_flags]

theorem addReplyToBuffer_flags {s : Sds} (h : addReplyToBuffer c s = some c') :
    c'.flags = c.flags := by
  rw [addReplyToBuffer] at h
  split at h
  · cases h
    rfl
  · split at h
    · cases h
    · split at h
      · cases h
      · cases h
        rfl

theorem addReplyToBuffer_adds {s : Sds} (h : addReplyToBuffer c s = some c')
    (hclose : c.flags.closeAfterReply = false) : Adds c c' (marks s) := by
  rw [addReplyToBuffer, if_neg (by simp [hclose])] at h
  split at h
  · cases h
  · rename_i hr
    have hr := not_not.mp hr
    split at h
    · cases h
    · simp only [Option.some.injEq] at h
      subst h
      refine ⟨by simp [Client.text, hr], fun h => ⟨?_, ?_, h.addr, h.nodup⟩, rfl, rfl, le_rfl⟩
      · have hs := h.sentlen
        rw [Client.first, hr] at hs
        rw [Client.first]
        show c.sentlen ≤ (if c.buf ++ s ≠ [] then c.buf ++ s else _).length
        split
        · split at hs
          · rw [List.length_append]
            omega
          · simp only [List.head?_nil, Option.map_none, Option.getD_none, List.length_nil] at hs
            omega
        · rename_i hb
          rw [not_not, List.append_eq_nil_iff] at hb
          rw [if_neg (not_not.mpr hb.1)] at hs
          exact hs.trans (Nat.zero_le _)
      · exact h.replyBytes

theorem takesReplies_of_prepare (h : prepareClientToWrite c = some c') :
    takesReplies c.fd c.flags = true := by
  rw [prepareClientToWrite] at h
  split at h
  · rw [takesReplies, if_pos ‹_›]
  · split at h
    · cases h
    · simpa using ‹¬ (!takesReplies c.fd c.flags) = true›

theorem prepareClientToWrite_none {c : Client} : prepareClientToWrite c = none ↔ takesReplies c.fd c.flags = false := by
  constructor
  · intro h
    rw [prepareClientToWrite] at h
    split at h
    · cases h
    · split at h
      · simpa using ‹(!takesReplies c.fd c.flags) = true›
      · split at h <;> cases h
  · intro h
    have hm : ¬ (c.flags.lua || c.flags.fromModule) = true := by
      intro hm
      rw [takesReplies, if_pos hm] at h
      cases h
    rw [prepareClientToWrite, if_neg hm, if_pos (by rw [h]; rfl)]

/-- Nothing but the schedule of the client changes. -/
theorem prepareClientToWrite_adds (h : prepareClientToWrite c = some c') :
    Adds c c' [] ∧ c'.flags = c.flags ∧ c'.mallocs = c.mallocs := by
  have hsame : Adds c c [] ∧ c.flags = c.flags ∧ c.mallocs = c.mallocs := ⟨.refl c, rfl, rfl⟩
  have hmark : Adds c (clientInstallWriteHandler c) [] ∧ (clientInstallWriteHandler c).flags = c.flags ∧
      (clientInstallWriteHandler c).mallocs = c.mallocs := by
    rw [clientInstallWriteHandler]
    split
    · exact ⟨.of_eq rfl rfl rfl rfl rfl rfl, rfl, rfl⟩
    · exact hsame
  rw [prepareClientToWrite] at h
  split at h
  · cases h
    exact hsame
  · split at h
    · cases h
    · split at h
      · cases h
        exact hmark
      · cases h
        exact hsame

/-- A reply: its bytes are added if the client takes replies and is not to be closed. -/
def Says (c c' : Client) (s : Sds) : Prop :=
  Adds c c' (marks (if takesReplies c.fd c.flags && !c.flags.closeAfterReply then s else [])) ∧ c'.flags = c.flags

theorem Says.trans {c c' c'' : Client} {s s' : Sds} (h : Says c c' s) (h' : Says c' c'' s') :
    Says c c'' (s ++ s') := by
  refine ⟨?_, h'.2.trans h.2⟩
  have hadds := h.1.trans h'.1
  rw [h.2, h.1.fd] at hadds
  split at hadds
  · rwa [if_pos ‹_›, marks_append]
  · rwa [if_neg ‹_›]

theorem Says.refl (c : Client) : Says c c [] := by
  refine ⟨?_, rfl⟩
  rw [ite_self]
  exact .refl c

theorem addReplyString_said (c : Client) (s : Sds) : Says c (addReplyString slack c s) s := by
  rw [addReplyString]
  cases hp : prepareClientToWrite c with
  | none =>
    rw [prepareClientToWrite_none] at hp
    refine ⟨?_, rfl⟩
    rw [hp]
    exact .refl c
  | some c1 =>
    have htakes := takesReplies_of_prepare hp
    obtain ⟨hadds, hflags, -⟩ := prepareClientToWrite_adds hp
    rw [Says, htakes, Bool.true_and]
    cases hclose : c.flags.closeAfterReply with
    | true =>
      have hc1 : c1.flags.closeAfterReply = true := by rw [hflags, hclose]
      simp only [addReplyToBuffer, if_pos hc1]
      exact ⟨hadds, hflags⟩
    | false =>
      have hc1 : c1.flags.closeAfterReply = false := by rw [hflags, hclose]
      rw [← hclose, hclose, Bool.not_false, if_pos rfl]
      cases hb : addReplyToBuffer c1 s with
      | some c2 =>
        simp only [hb]
        refine ⟨by simpa using hadds.trans (addReplyToBuffer_adds hb hc1), ?_⟩
        rw [← hflags]
        exact addReplyToBuffer_flags hb
      | none =>
        simp only [hb]
        refine ⟨by simpa using hadds.trans (addReplyStringToList_adds slack hc1 s), ?_⟩
        rw [← hflags]
        exact addReplyStringToList_flags slack c1 s

/-! ### The reply calls -/

theorem addReplyErrorLength_said (c : Client) (s : Sds) :
    Says c (addReplyErrorLength slack c s) ((if s.head? ≠ some 45 then sds "-ERR " else []) ++ s ++ crlf) := by
  rw [addReplyErrorLength]
  refine .trans (.trans ?_ (addReplyString_said slack _ s)) (addReplyString_said slack _ crlf)
  split
  · exact addReplyString_said slack c _
  · exact .refl c

theorem addReplyLongLongWithPrefix_said (c : Client) (ll : ℤ) (pre : Fin 256) :
    Says c (addReplyLongLongWithPrefix slack c ll pre) (pre :: ll2string ll ++ crlf) := by
  rw [addReplyLongLongWithPrefix]
  split
  · rename_i h
    rw [h.1]
    exact addReplyString_said slack c _
  · split
    · rename_i h
      rw [h.1]
      exact addReplyString_said slack c _
    · exact addReplyString_said slack c _

theorem addReplyBulkCBuffer_said (c : Client) (p : Sds) :
    Says c (addReplyBulkCBuffer slack c p) (36 :: ll2string p.length ++ crlf ++ p ++ crlf) :=
  .trans (.trans (addReplyLongLongWithPrefix_said slack c _ 36) (addReplyString_said slack _ p))
    (addReplyString_said slack _ crlf)

theorem addReplyBulkLen_said (c : Client) (obj : Obj) :
    Says c (addReplyBulkLen slack c obj) (36 :: ll2string obj.ptr.length ++ crlf) := by
  rw [addReplyBulkLen]
  split
  · exact addReplyString_said slack c _
  · exact addReplyLongLongWithPrefix_said slack c _ 36

/-- Every reply call adds the bytes of its reply. -/
theorem Call.run_said (c : Client) (k : Call) : Says c (k.run slack c) k.bytes := by
  cases k with
  | addReply obj => exact addReplyString_said slack c _
  | addReplyString s => exact addReplyString_said slack c s
  | addReplyErrorLength s => exact addReplyErrorLength_said slack c s
  | addReplyErrorFormat s => exact addReplyErrorLength_said slack c _
  | addReplyStatusLength s =>
    exact .trans (.trans (addReplyString_said slack c _) (addReplyString_said slack _ s))
      (addReplyString_said slack _ crlf)
  | addReplyLongLong ll =>
    show Says c (Networking.addReplyLongLong slack c ll) (58 :: ll2string ll ++ crlf)
    rw [Networking.addReplyLongLong]
    split
    · rename_i h
      rw [h]
      exact addReplyString_said slack c _
    · split
      · rename_i h
        rw [h]
        exact addReplyString_said slack c _
      · exact addReplyLongLongWithPrefix_said slack c ll 58
  | addReplyMultiBulkLen length =>
    show Says c (Networking.addReplyMultiBulkLen slack c length) (42 :: ll2string length ++ crlf)
    rw [Networking.addReplyMultiBulkLen]
    split
    · exact addReplyString_said slack c _
    · exact addReplyLongLongWithPrefix_said slack c _ 42
  | addReplyBulk obj =>
    exact .trans (.trans (addReplyBulkLen_said slack c obj) (addReplyString_said slack _ obj.ptr))
      (addReplyString_said slack _ crlf)
  | addReplyBulkCBuffer p => exact addReplyBulkCBuffer_said slack c p
  | addReplyBulkCString s =>
    cases s with
    | none => exact addReplyString_said slack c _
    | some s => exact addReplyBulkCBuffer_said slack c s
  | addReplyBulkLongLong ll => exact addReplyBulkCBuffer_said slack c _

/-! ### Deferred lengths -/

/-- An opened length is a hole at the end of the text. -/
theorem addDeferredMultiBulkLength_adds (c : Client) :
    (takesReplies c.fd c.flags = false ∧ addDeferredMultiBulkLength c = (none, c)) ∨
    (takesReplies c.fd c.flags = true ∧ ∃ c', addDeferredMultiBulkLength c = (some c.mallocs, c') ∧
      Adds c c' [.inr c.mallocs] ∧ c'.flags = c.flags) := by
  rw [addDeferredMultiBulkLength]
  cases hp : prepareClientToWrite c with
  | none => exact .inl ⟨prepareClientToWrite_none.mp hp, rfl⟩
  | some c1 =>
    obtain ⟨hadds, hflags, hm⟩ := prepareClientToWrite_adds hp
    obtain ⟨c2, hc2⟩ : ∃ c2 : Client, c2 = { c1 with
      reply := c1.reply ++ [⟨c1.mallocs, none⟩]
      mallocs := c1.mallocs + 1 } := ⟨_, rfl⟩
    have hhole : Adds c1 c2 [.inr c1.mallocs] := by
      rw [hc2]
      refine ⟨?_, fun h => h.append rfl rfl rfl ?_ (Nat.le_succ _) ?_ (List.nodup_singleton _), rfl, rfl, Nat.le_succ _⟩
      · simp [Client.text, ReplyNode.text]
      · simp [ReplyNode.size]
      · simp
    refine .inr ⟨takesReplies_of_prepare hp, c2, ?_, by simpa [hm] using hadds.trans hhole, ?_⟩
    · rw [← hm, hc2]
    · rw [← hflags, hc2]

/-- A node with a mark in the text is in the list, and what is before and after it there
comes from what is before and after it in the list. -/
theorem exists_node {c : Client} (h : c.Ok) {p q : List Mark} (htext : c.text = p ++ .inr addr :: q) :
    ∃ before after, c.reply = before ++ ⟨addr, none⟩ :: after ∧
      p = marks c.buf ++ before.flatMap ReplyNode.text ∧ q = after.flatMap ReplyNode.text := by
  have hmem : Sum.inr addr ∈ c.text := by
    rw [htext]
    exact List.mem_append_right _ List.mem_cons_self
  rw [Client.text, List.mem_append, List.mem_flatMap] at hmem
  obtain ⟨n, hn, hin⟩ := hmem.resolve_left (inr_notMem_marks addr _)
  obtain rfl : n = ⟨addr, none⟩ := eq_of_inr_mem hin
  obtain ⟨before, after, hreply⟩ := List.append_of_mem hn
  have hnodup := h.nodup
  rw [hreply, List.map_append, List.map_cons, List.nodup_middle, List.nodup_cons, List.mem_append, not_or] at hnodup
  have hout : ∀ l : List ReplyNode, addr ∉ l.map ReplyNode.addr → Sum.inr addr ∉ l.flatMap ReplyNode.text := by
    intro l hl hmem
    obtain ⟨m, hm, hin⟩ := List.mem_flatMap.mp hmem
    rw [eq_of_inr_mem hin] at hm
    exact hl (List.mem_map.mpr ⟨_, hm, rfl⟩)
  refine ⟨before, after, hreply, ?_⟩
  have hsplit : (marks c.buf ++ before.flatMap ReplyNode.text) ++ Sum.inr addr :: after.flatMap ReplyNode.text =
      p ++ .inr addr :: q := by
    rw [← htext, Client.text, hreply]
    simp [ReplyNode.text]
  have hp : Sum.inr addr ∉ marks c.buf ++ before.flatMap ReplyNode.text := by
    rw [List.mem_append, not_or]
    exact ⟨inr_notMem_marks addr _, hout before hnodup.1.1⟩
  rw [List.append_cons_inj_of_notMem hp (hout after hnodup.1.2)] at hsplit
  exact ⟨hsplit.1.symm, hsplit.2.2.symm⟩

/-- The node of a hole becomes a block, or goes into the next one. -/
theorem Client.Ok.fill {c c' : Client} {before after rest : List ReplyNode} (h : c.Ok)
    (heq : c.reply = before ++ ⟨addr, none⟩ :: after) (hbuf : c'.buf = c.buf) (hreply : c'.reply = before ++ rest)
    (hsent : c'.sentlen = c.sentlen)
    (hbytes : c'.replyBytes + (after.map ReplyNode.size).sum = c.replyBytes + (rest.map ReplyNode.size).sum)
    (hle : c.mallocs ≤ c'.mallocs) (hsub : (rest.map ReplyNode.addr).Sublist (addr :: after.map ReplyNode.addr)) :
    c'.Ok where
  sentlen := by
    have hs := h.sentlen
    rw [Client.first] at hs ⊢
    rw [hsent, hbuf, hreply]
    rw [heq] at hs
    split
    · rwa [if_pos ‹_›] at hs
    · rw [if_neg ‹_›] at hs
      cases before with
      | nil =>
        simp only [List.nil_append, List.head?_cons, Option.map_some, Option.getD_some, ReplyNode.bytes, Option.map_none,
          Option.getD_none, List.length_nil] at hs
        omega
      | cons n before => exact hs
  replyBytes := by
    have hb := h.replyBytes
    simp only [Client.blockBytes, heq, hreply, List.map_append, List.map_cons, List.sum_append, List.sum_cons,
      ReplyNode.size, Option.map_none, Option.getD_none] at hb ⊢
    omega
  addr := by
    have hin : ∀ a ∈ c'.reply.map ReplyNode.addr, a ∈ c.reply.map ReplyNode.addr := by
      rw [hreply, heq, List.map_append, List.map_append]
      exact (List.Sublist.append (List.Sublist.refl _) hsub).subset
    intro n hn
    obtain ⟨m, hm, hmn⟩ := List.mem_map.mp (hin _ (List.mem_map.mpr ⟨n, hn, rfl⟩))
    rw [← hmn]
    exact (h.addr m hm).trans_le hle
  nodup := by
    have hn := h.nodup
    rw [heq, List.map_append] at hn
    rw [hreply, List.map_append]
    exact hn.sublist (List.Sublist.append (List.Sublist.refl _) hsub)

/-- A length that is set stands in the text where it was opened. -/
theorem setDeferredMultiBulkLength_fills {c : Client} (h : c.Ok) {p q : List Mark}
    (htext : c.text = p ++ .inr addr :: q) (length : ℤ) :
    ∃ c', setDeferredMultiBulkLength slack c (some addr) length = .ok c' ∧
      c'.text = p ++ marks (lenstr length) ++ q ∧ c'.Ok ∧ c'.fd = c.fd ∧ c'.sentlen = c.sentlen ∧
      c.mallocs ≤ c'.mallocs ∧ c'.flags = c.flags := by
  obtain ⟨before, after, hreply, rfl, rfl⟩ := exists_node h htext
  have hbefore : ∀ n ∈ before, decide (n.addr ≠ addr) = true := by
    have hnodup := h.nodup
    rw [hreply, List.map_append, List.map_cons, List.nodup_middle, List.nodup_cons, List.mem_append, not_or] at hnodup
    intro n hn
    rw [decide_eq_true_eq]
    rintro rfl
    exact hnodup.1.1 (List.mem_map.mpr ⟨n, hn, rfl⟩)
  have htake : c.reply.takeWhile (·.addr ≠ addr) = before := by
    rw [hreply, List.takeWhile_append_of_pos hbefore]
    simp
  have hdrop : c.reply.dropWhile (·.addr ≠ addr) = ⟨addr, none⟩ :: after := by
    rw [hreply, List.dropWhile_append_of_pos hbefore]
    simp
  have hnew : ∀ c', c' = { c with
        reply := before ++
          ReplyNode.mk addr (some ⟨(lenstr length).length + slack c.mallocs, lenstr length, by omega⟩) :: after
        replyBytes := c.replyBytes + ((lenstr length).length + slack c.mallocs)
        mallocs := c.mallocs + 1 } →
      c'.text = marks c.buf ++ before.flatMap ReplyNode.text ++ marks (lenstr length) ++ after.flatMap ReplyNode.text ∧
        c'.Ok ∧ c'.fd = c.fd ∧ c'.sentlen = c.sentlen ∧ c.mallocs ≤ c'.mallocs ∧ c'.flags = c.flags := by
    rintro c' rfl
    refine ⟨by simp [Client.text, ReplyNode.text], h.fill hreply rfl rfl rfl ?_ (Nat.le_succ _) ?_, rfl, rfl,
      Nat.le_succ _, rfl⟩
    · simp only [List.map_cons, List.sum_cons, ReplyNode.size, Option.map_some, Option.getD_some]
      omega
    · exact List.Sublist.refl _
  simp only [setDeferredMultiBulkLength, htake, hdrop]
  split
  · rename_i rest hglued
    split at hglued
    · rename_i addr' next after'
      obtain ⟨b, hb, rfl⟩ := Option.map_eq_some_iff.mp hglued
      rw [Block.glue] at hb
      split at hb
      · cases hb
        refine ⟨_, rfl, by simp [Client.text, ReplyNode.text], h.fill hreply rfl rfl rfl ?_ le_rfl ?_, rfl, rfl, le_rfl, rfl⟩
        · rfl
        · exact List.sublist_cons_self _ _
      · cases hb
    · cases hglued
  · exact ⟨_, rfl, hnew _ rfl⟩

/-- **A command adds what it says to its client at the end of the text**, each deferred
length in front of what came after it was opened. -/
theorem Replies.run_adds (r : Replies) : ∀ c : Client, c.Ok → ∃ c', r.run slack c = .ok c' ∧
    Adds c c' (marks (r.said c.fd c.flags)) ∧ c'.flags = r.flagsAfter c.flags := by
  induction r with
  | done => exact fun c _ => ⟨c, rfl, .refl c, rfl⟩
  | call k rest ih =>
    intro c hc
    obtain ⟨hadds, hflags⟩ := Call.run_said slack c k
    obtain ⟨c', hrun, hrest, hf⟩ := ih _ (hadds.ok hc)
    refine ⟨c', hrun, ?_, by rw [hf, hflags, Replies.flagsAfter]⟩
    rw [Replies.said, marks_append]
    rw [hflags, hadds.fd] at hrest
    exact hadds.trans hrest
  | deferred body length rest ihb ihr =>
    intro c hc
    rcases addDeferredMultiBulkLength_adds c with ⟨htakes, hopen⟩ | ⟨htakes, c1, hopen, hadds, hflags⟩
    · obtain ⟨c2, hbody, h2, hf2⟩ := ihb c hc
      obtain ⟨c3, hrest, h3, hf3⟩ := ihr c2 (h2.ok hc)
      refine ⟨c3, ?_, ?_, by rw [hf3, hf2, Replies.flagsAfter]⟩
      · rw [Replies.run, hopen]
        simp only [hbody, bind, Except.bind, setDeferredMultiBulkLength, hrest]
      · rw [Replies.said, htakes, if_neg Bool.false_ne_true, List.nil_append, marks_append]
        rw [hf2, h2.fd] at h3
        exact h2.trans h3
    · obtain ⟨c2, hbody, h2, hf2⟩ := ihb c1 (hadds.ok hc)
      have htext := (hadds.trans h2).text
      rw [List.singleton_append] at htext
      obtain ⟨c3, hset, htext3, hok3, hfd3, hsent3, hm3, hf3⟩ :=
        setDeferredMultiBulkLength_fills slack (h2.ok (hadds.ok hc)) htext length
      obtain ⟨c4, hrest, h4, hf4⟩ := ihr c3 hok3
      have h3 : Adds c c3 (marks (lenstr length ++ body.said c.fd c.flags)) := by
        refine ⟨?_, fun _ => hok3, ?_, ?_, ?_⟩
        · rw [htext3, hadds.fd, hflags, marks_append, List.append_assoc]
        · rw [hfd3, h2.fd, hadds.fd]
        · rw [hsent3, h2.sentlen, hadds.sentlen]
        · exact (hadds.mallocs.trans h2.mallocs).trans hm3
      refine ⟨c4, ?_, ?_, by rw [hf4, hf3, hf2, hflags, Replies.flagsAfter]⟩
      · rw [Replies.run, hopen]
        simp only [hbody, bind, Except.bind, hset, hrest]
      · rw [Replies.said, htakes, if_pos rfl, marks_append]
        rw [h3.fd, hf3, hf2, hflags] at h4
        exact h3.trans h4
  | become f rest ih =>
    intro c hc
    have hadds : Adds c { c with flags := f } [] := .of_eq rfl rfl rfl rfl rfl rfl
    obtain ⟨c', hrun, hrest, hf⟩ := ih { c with flags := f } (hadds.ok hc)
    exact ⟨c', hrun, hadds.trans hrest, hf⟩

end Alloc

/-! ### Writing -/

theorem ReplyNode.text_of_value {n : ReplyNode} (h : n.value ≠ none) : n.text = marks n.bytes := by
  obtain ⟨a, v⟩ := n
  cases v with
  | none => exact absurd rfl h
  | some b => rfl

variable {c : Client}

/-- A text without holes is what the client holds. -/
theorem closed_of_text {s : Sds} (h : c.text = marks s) :
    c.Closed ∧ c.buf ++ c.reply.flatMap ReplyNode.bytes = s := by
  have hclosed : c.Closed := by
    intro n hn hv
    have hmem : Sum.inr n.addr ∈ c.text := by
      rw [Client.text]
      refine List.mem_append_right _ (List.mem_flatMap.mpr ⟨n, hn, ?_⟩)
      obtain ⟨a, v⟩ := n
      obtain rfl : v = none := hv
      exact List.mem_singleton_self _
    rw [h] at hmem
    exact inr_notMem_marks _ _ hmem
  refine ⟨hclosed, marks_injective ?_⟩
  rw [← h, Client.text, marks_append]
  congr 1
  rw [marks, List.map_flatMap]
  exact (List.flatMap_congr fun n hn => ReplyNode.text_of_value (hclosed n hn)).symm

theorem Client.Closed.text_eq (h : c.Closed) :
    c.text = marks (c.buf ++ c.reply.flatMap ReplyNode.bytes) := by
  rw [Client.text, marks_append]
  congr 1
  rw [marks, List.map_flatMap]
  exact List.flatMap_congr fun n hn => ReplyNode.text_of_value (h n hn)

/-- What a part of `writeToClient` does to a client whose lengths are all set: `out` goes
from the front of what is queued to the socket. -/
structure Sends (c c' : Client) (out : Sds) : Prop where
  ok : c'.Ok
  closed : c'.Closed
  queued : c.queued = out ++ c'.queued
  fd : c'.fd = c.fd
  flags : c'.flags = c.flags

theorem Sends.refl (h : c.Ok) (hc : c.Closed) : Sends c c [] := ⟨h, hc, rfl, rfl, rfl⟩

theorem Sends.trans {c c' c'' : Client} {s s' : Sds} (h : Sends c c' s) (h' : Sends c' c'' s') :
    Sends c c'' (s ++ s') :=
  ⟨h'.ok, h'.closed, by rw [h.queued, h'.queued, List.append_assoc], h'.fd.trans h.fd, h'.flags.trans h.flags⟩

theorem freeEmpty_spec (l : List ReplyNode) (h : ∀ n ∈ l, n.value ≠ none) :
    ∃ l', freeEmpty l (l.map ReplyNode.size).sum = .ok (l', (l'.map ReplyNode.size).sum) ∧ l' <:+ l ∧
      l'.flatMap ReplyNode.bytes = l.flatMap ReplyNode.bytes ∧
      (l' = l ∨ ((l.head?).map ReplyNode.bytes).getD [] = []) := by
  induction l with
  | nil => exact ⟨[], rfl, List.suffix_refl _, rfl, .inl rfl⟩
  | cons n l ih =>
    obtain ⟨addr, v⟩ := n
    cases v with
    | none => exact absurd rfl (h _ List.mem_cons_self)
    | some o =>
      rw [freeEmpty]
      split
      · rename_i ho
        obtain ⟨l', hrun, hsuf, hbytes, -⟩ := ih fun n hn => h n (List.mem_cons_of_mem _ hn)
        refine ⟨l', ?_, hsuf.trans (List.suffix_cons _ _), ?_, .inr ho⟩
        · rw [← hrun]
          congr 1
          simp [ReplyNode.size]
        · rw [hbytes]
          simp [ReplyNode.bytes, ho]
      · exact ⟨_, rfl, List.suffix_refl _, rfl, .inl rfl⟩

theorem toHead_spec (h : c.Ok) (hc : c.Closed) : ∃ c', toHead c = .ok c' ∧ Sends c c' [] := by
  rw [toHead]
  split
  · exact ⟨c, rfl, .refl h hc⟩
  · rename_i hb
    rw [not_not] at hb
    obtain ⟨l, hrun, hsuf, hbytes, hfirst⟩ := freeEmpty_spec c.reply hc
    rw [← Client.blockBytes, ← h.replyBytes] at hrun
    rw [hrun]
    refine ⟨_, rfl, ⟨?_, rfl, fun n hn => h.addr n (hsuf.subset hn), ?_⟩, fun n hn => hc n (hsuf.subset hn), ?_, rfl, rfl⟩
    · have hs := h.sentlen
      rw [Client.first, if_neg (not_not.mpr hb)] at hs ⊢
      rcases hfirst with rfl | hfirst
      · exact hs
      · rw [hfirst] at hs
        exact hs.trans (Nat.zero_le _)
    · exact h.nodup.sublist (hsuf.sublist.map _)
    · simp only [Client.queued, hbytes, List.nil_append]

/-- Cutting `n` bytes off what is left of the first part of a text. -/
theorem drop_cut {b : Sds} {k : ℕ} (h : k ≤ b.length) (n : ℕ) (rest : Sds) :
    (b ++ rest).drop k = (b.drop k).take n ++ (b ++ rest).drop (k + ((b.drop k).take n).length) := by
  rw [← List.drop_drop, List.drop_append_of_le_length h]
  have hle : ((b.drop k).take n).length ≤ (b.drop k).length := List.length_take_le' _ _
  rw [List.drop_append_of_le_length hle, ← List.append_assoc, List.length_take, List.take_eq_take_min,
    List.take_append_drop]

theorem queued_of_block {o : Block} {reply : List ReplyNode} (hb : c.buf = [])
    (hr : c.reply = ⟨addr, some o⟩ :: reply) :
    c.queued = (o.used ++ reply.flatMap ReplyNode.bytes).drop c.sentlen := by
  rw [Client.queued, hb, hr]
  rfl

theorem writeHead_spec (h : c.Ok) (hc : c.Closed) (hpending : clientHasPendingReplies c = true) (n : ℕ) :
    ∃ c' out, writeHead c n = .ok (c', out) ∧ Sends c c' out := by
  have hs := h.sentlen
  rw [Client.first] at hs
  rw [writeHead]
  split
  · rename_i hb
    rw [if_pos hb] at hs
    have hcut := drop_cut hs n (c.reply.flatMap ReplyNode.bytes)
    have hlen : ((c.buf.drop c.sentlen).take n).length ≤ c.buf.length - c.sentlen := by
      rw [List.length_take, List.length_drop]
      exact Nat.min_le_right _ _
    dsimp only
    split
    · exact ⟨c, [], rfl, .refl h hc⟩
    · split
      · rename_i hend
        refine ⟨_, _, rfl, ⟨Nat.zero_le _, h.replyBytes, h.addr, h.nodup⟩, hc, ?_, rfl, rfl⟩
        rw [Client.queued, hcut, hend, List.drop_left]
        simp [Client.queued]
      · refine ⟨_, _, rfl, ⟨?_, h.replyBytes, h.addr, h.nodup⟩, hc, hcut, rfl, rfl⟩
        rw [Client.first]
        show c.sentlen + ((c.buf.drop c.sentlen).take n).length ≤ (if c.buf ≠ [] then c.buf else _).length
        rw [if_pos hb]
        omega
  · rename_i hb
    rw [not_not] at hb
    rw [if_neg (not_not.mpr hb)] at hs
    have hbytes := h.replyBytes
    have haddr := h.addr
    have hnodup := h.nodup
    have hclosed : ∀ n ∈ c.reply, n.value ≠ none := hc
    rw [Client.blockBytes] at hbytes
    split
    · rename_i addr o reply hr
      rw [hr] at hs hbytes haddr hnodup hclosed
      have hs : c.sentlen ≤ o.used.length := hs
      have hcut := drop_cut hs n (reply.flatMap ReplyNode.bytes)
      have hlen : ((o.used.drop c.sentlen).take n).length ≤ o.used.length - c.sentlen := by
        rw [List.length_take, List.length_drop]
        exact Nat.min_le_right _ _
      have hsum : c.replyBytes - o.size = (reply.map ReplyNode.size).sum := by
        rw [hbytes, List.map_cons, List.sum_cons]
        exact Nat.add_sub_cancel_left ..
      dsimp only
      split
      · exact ⟨c, [], rfl, .refl h hc⟩
      · split
        · rename_i hend
          rw [if_neg (by rintro ⟨rfl, h0⟩; exact h0 hsum)]
          refine ⟨_, _, rfl, ⟨Nat.zero_le _, hsum, fun n hn => haddr n (List.mem_cons_of_mem _ hn),
            (List.nodup_cons.mp hnodup).2⟩, fun n hn => hclosed n (List.mem_cons_of_mem _ hn), ?_, rfl, rfl⟩
          rw [queued_of_block hb hr, hcut, hend, List.drop_left]
          simp [Client.queued, hb]
        · refine ⟨_, _, rfl, ⟨?_, h.replyBytes, h.addr, h.nodup⟩, hc, ?_, rfl, rfl⟩
          · rw [Client.first, if_neg (not_not.mpr hb), hr]
            show c.sentlen + ((o.used.drop c.sentlen).take n).length ≤ o.used.length
            omega
          · have hq := queued_of_block (c := { c with
              sentlen := c.sentlen + ((o.used.drop c.sentlen).take n).length }) hb hr
            rw [queued_of_block hb hr, hcut, hq]
    · rename_i hno
      exfalso
      cases hr : c.reply with
      | nil => simp [clientHasPendingReplies, hb, hr] at hpending
      | cons n reply =>
        obtain ⟨addr, v⟩ := n
        cases v with
        | none => exact hclosed _ (hr ▸ List.mem_cons_self) rfl
        | some o => exact hno addr o reply hr

theorem writeLoop_spec (ws : List Write) : ∀ (tot : ℕ) (c : Client), c.Ok → c.Closed →
    ∃ c' out failed, writeLoop ws tot c = .ok (c', out, failed) ∧ Sends c c' out := by
  induction ws with
  | nil =>
    intro tot c h hc
    obtain ⟨c1, h1, hs1⟩ := toHead_spec h hc
    exact ⟨c1, [], false, by rw [writeLoop, h1]; rfl, hs1⟩
  | cons w ws ih =>
    intro tot c h hc
    obtain ⟨c1, h1, hs1⟩ := toHead_spec h hc
    rw [writeLoop, h1]
    simp only [bind, Except.bind]
    split
    · exact ⟨c1, [], false, rfl, hs1⟩
    · rename_i hp
      cases w.result with
      | again => exact ⟨c1, [], false, rfl, hs1⟩
      | failed => exact ⟨c1, [], true, rfl, hs1⟩
      | wrote n =>
        obtain ⟨c2, out, h2, hs2⟩ := writeHead_spec hs1.ok hs1.closed (by simpa using hp) n
        have hs := hs1.trans hs2
        simp only [h2]
        split
        · rename_i hout
          rw [hout] at hs
          exact ⟨c2, [], false, rfl, hs⟩
        · split
          · exact ⟨c2, out, false, rfl, hs⟩
          · obtain ⟨c3, more, failed, h3, hs3⟩ := ih (tot + out.length) c2 hs.ok hs.closed
            rw [h3]
            exact ⟨c3, out ++ more, failed, rfl, hs.trans hs3⟩

theorem queued_of_not_pending (h : clientHasPendingReplies c = false) : c.queued = [] := by
  rw [clientHasPendingReplies, Bool.or_eq_false_iff] at h
  have hb : c.buf = [] := by simpa using h.1
  have hr : c.reply = [] := by simpa using h.2
  rw [Client.queued, hb, hr, List.flatMap_nil, List.append_nil, List.drop_nil]

/-- `writeToClient` sends what is queued from its front, and never fails; a client that is
freed has been sent no more than that. -/
theorem writeToClient_spec (h : c.Ok) (hc : c.Closed) (ws : List Write) :
    (∃ c' out, writeToClient c ws = .ok (some c', out) ∧ Sends c c' out) ∨
    (∃ out, writeToClient c ws = .ok (none, out) ∧ out <+: c.queued) := by
  obtain ⟨c1, out, failed, h1, hs⟩ := writeLoop_spec ws 0 c h hc
  have hinit : out <+: c.queued := ⟨_, hs.queued.symm⟩
  rw [writeToClient, h1]
  simp only [bind, Except.bind]
  split
  · exact .inr ⟨out, rfl, hinit⟩
  · split
    · rename_i hp
      split
      · exact .inr ⟨out, rfl, hinit⟩
      · have hp : clientHasPendingReplies c1 = false := by simpa using hp
        refine .inl ⟨_, out, rfl, ⟨Nat.zero_le _, hs.ok.replyBytes, hs.ok.addr, hs.ok.nodup⟩, hs.closed, ?_, hs.fd, hs.flags⟩
        rw [hs.queued, queued_of_not_pending hp, queued_of_not_pending (c := { c1 with sentlen := 0 }) hp]
    · exact .inl ⟨c1, out, rfl, hs⟩

/-! ### Sessions -/

section Alloc

variable (slack : ℕ → ℕ)

theorem Replies.run_queues (r : Replies) (h : c.Ok) (hc : c.Closed) :
    ∃ c', r.run slack c = .ok c' ∧ c'.Ok ∧ c'.Closed ∧ c'.queued = c.queued ++ r.said c.fd c.flags ∧
      c'.fd = c.fd ∧ c'.flags = r.flagsAfter c.flags := by
  obtain ⟨c', hrun, hadds, hflags⟩ := Replies.run_adds slack r c h
  have htext := hadds.text
  rw [hc.text_eq, ← marks_append] at htext
  obtain ⟨hclosed, hbytes⟩ := closed_of_text htext
  refine ⟨c', hrun, hadds.ok h, hclosed, ?_, hadds.fd, hflags⟩
  have hle : c.sentlen ≤ (c.buf ++ c.reply.flatMap ReplyNode.bytes).length := by
    have hs := h.sentlen
    rw [Client.first] at hs
    split at hs
    · rw [List.length_append]
      omega
    · cases hr : c.reply with
      | nil =>
        rw [hr] at hs
        exact hs.trans (Nat.zero_le _)
      | cons n l =>
        rw [hr] at hs
        have hs : c.sentlen ≤ n.bytes.length := hs
        rw [List.flatMap_cons, List.length_append, List.length_append]
        omega
  rw [Client.queued, hbytes, hadds.sentlen, List.drop_append_of_le_length hle, Client.queued]

theorem serve_spec (es : List Event) : ∀ c : Client, c.Ok → c.Closed →
    (∃ c' sent, serve slack c es = .ok (some c', sent) ∧ c'.Ok ∧ c'.Closed ∧
      sent ++ c'.queued = c.queued ++ saidBy c.fd es c.flags) ∨
    (∃ sent, serve slack c es = .ok (none, sent) ∧ sent <+: c.queued ++ saidBy c.fd es c.flags) := by
  induction es with
  | nil => exact fun c h hc => .inl ⟨c, [], rfl, h, hc, by simp [saidBy]⟩
  | cons e es ih =>
    intro c h hc
    cases e with
    | command r =>
      obtain ⟨c1, hrun, h1, hc1, hq1, hfd1, hf1⟩ := Replies.run_queues slack r h hc
      have ih1 := ih c1 h1 hc1
      rw [hq1, hfd1, hf1, List.append_assoc] at ih1
      rw [serve, hrun]
      exact ih1
    | writeToClient ws =>
      rw [serve]
      rcases writeToClient_spec h hc ws with ⟨c1, out, hrun, hs⟩ | ⟨out, hrun, hinit⟩
      · simp only [hrun, bind, Except.bind]
        have ih1 := ih c1 hs.ok hs.closed
        rw [hs.fd, hs.flags] at ih1
        rw [saidBy, hs.queued]
        rcases ih1 with ⟨c2, sent, hserve, h2, hc2, heq⟩ | ⟨sent, hserve, hpre⟩
        · refine .inl ⟨c2, out ++ sent, by rw [hserve], h2, hc2, ?_⟩
          rw [List.append_assoc, heq, List.append_assoc]
        · refine .inr ⟨out ++ sent, by rw [hserve], ?_⟩
          rw [List.append_assoc]
          exact (List.prefix_append_right_inj out).mpr hpre
      · simp only [hrun, bind, Except.bind]
        exact .inr ⟨out, rfl, hinit.trans (List.prefix_append _ _)⟩

/-- **Replies keep their order.** For every sequence of commands, with any reply calls,
nested deferred lengths and changes of the flags of the client, and of writes that take any
number of bytes, no assertion fails; while the client is there, what has been written
followed by what is queued is what the commands have said to it, and `replyBytes` is the sum
of the sizes of the queued blocks. A client that is freed has been sent the start of it. -/
theorem replies_in_order (fd : ℤ) (flags : Flags) (es : List Event) :
    ∃ c sent, serve slack { fd := fd, flags := flags } es = .ok (c, sent) ∧
      (∀ c', c = some c' → sent ++ c'.queued = saidBy fd es flags ∧ c'.replyBytes = c'.blockBytes) ∧
      (c = none → sent <+: saidBy fd es flags) := by
  obtain ⟨c, hc⟩ : ∃ c : Client, c = { fd := fd, flags := flags } := ⟨_, rfl⟩
  have hreply : c.reply = [] := by rw [hc]
  have hok : c.Ok := by
    refine ⟨?_, ?_, by simp [hreply], by simp [hreply]⟩
    · rw [show c.sentlen = 0 by rw [hc]]
      exact Nat.zero_le _
    · rw [Client.blockBytes, hreply, hc]
      rfl
  have hclosed : c.Closed := by simp [Client.Closed, hreply]
  have hq : c.queued ++ saidBy c.fd es c.flags = saidBy fd es flags := by
    rw [hc, queued_of_not_pending rfl, List.nil_append]
  rw [← hc]
  have hserve := serve_spec slack es c hok hclosed
  rw [hq] at hserve
  rcases hserve with ⟨c', sent, hrun, hok, -, heq⟩ | ⟨sent, hrun, hpre⟩
  · refine ⟨some c', sent, hrun, ?_, fun h => (Option.some_ne_none c' h).elim⟩
    intro c1 h1
    rw [← Option.some.inj h1]
    exact ⟨heq, hok.replyBytes⟩
  · exact ⟨none, sent, hrun, fun c' h => (Option.some_ne_none c' h.symm).elim, fun _ => hpre⟩

end Alloc

/-- `EXEC` of `CLIENT KILL` of the client itself and of a command that replies with an array. -/
def closingSession : List Event :=
  [.command (.call (.addReplyMultiBulkLen 2) (.call (.addReplyLongLong 1) (.become { closeAfterReply := true }
    (.deferred (.call (.addReplyBulkCBuffer (sds "member")) .done) 1 .done))))]

/-- A client that is to be closed after its reply does not get every reply. -/
theorem closing_client_loses_replies : ¬ ∀ (slack : ℕ → ℕ) (fd : ℤ) (flags : Flags) (es : List Event) (c : Client)
    (sent : Sds), serve slack { fd := fd, flags := flags } es = .ok (some c, sent) →
      sent ++ c.queued = allBytes es := by
  intro h
  have hlost : (match serve (fun _ => 0) { fd := 7, flags := {} } closingSession with
      | .ok (some c, sent) => decide (sent ++ c.queued ≠ allBytes closingSession)
      | .ok (none, _) | .error _ => false) = true := by decide
  split at hlost
  · rename_i c sent hrun
    exact of_decide_eq_true hlost (h _ _ _ _ _ _ hrun)
  · cases hlost
  · cases hlost

end RedisZk.Networking
