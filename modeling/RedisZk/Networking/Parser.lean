/-
# The request parser, one step at a time

The parser of the query buffer as a machine: it holds the bytes that are not parsed yet, and
a step finds the type of a request, reads one line of it or one argument, and hands over the
command when it is complete. A step that is possible stays possible when more bytes are
there, except that a line without an end is refused once it is too long. The functions of
`Query` take such steps, whatever they do with the buffer.

Key definitions: `step`, `feed`, `ShortLine`, `QueryClient.trim`, `Wf`.
Key theorems: `lasting`, `processInputBuffer_spec`.
-/
import RedisZk.Lib.Incremental
import RedisZk.Lib.Run
import RedisZk.Networking.Query

namespace RedisZk.Networking

open Incremental
open Streams (Sds)

/-! ### Steps -/

/-- A client with the parsed bytes cut off. -/
def QueryClient.trim (c : QueryClient) : QueryClient := { c with querybuf := c.rest, qbPos := 0 }

/-- The next `n` bytes are parsed. -/
def QueryClient.cut (c : QueryClient) (n : ℕ) : QueryClient := { c with querybuf := c.querybuf.drop n }

variable (cfg : Config) (answer : List (List Sds) → After)

/-- A whole line of the inline protocol. -/
def lineStep (c : QueryClient) : Option QueryClient :=
  match strchr c.querybuf 10 with
  | none =>
    if PROTO_INLINE_MAX_SIZE < c.querybuf.length then some (c.fail (sds "Protocol error: too big inline request"))
    else none
  | some newline =>
    match sdssplitargs (c.querybuf.take (lineLen c.querybuf newline)) with
    | none => some (c.fail (sds "Protocol error: unbalanced quotes in request"))
    | some argv => some (runCommand answer { c.cut (newline + 1) with argv := argv })

/-- The number of arguments. -/
def countStep (c : QueryClient) : Option QueryClient :=
  match strchr c.querybuf 13 with
  | none =>
    if PROTO_INLINE_MAX_SIZE < c.querybuf.length then some (c.fail (sds "Protocol error: too big mbulk count string"))
    else none
  | some newline =>
    if c.querybuf.length < newline + 2 then none
    else
      match lineNumber c.querybuf newline with
      | none => some (c.fail (sds "Protocol error: invalid multibulk length"))
      | some ll =>
        if ll > 1024 * 1024 then some (c.fail (sds "Protocol error: invalid multibulk length"))
        else if ll ≤ 0 then some (runCommand answer (c.cut (newline + 2)))
        else some { c.cut (newline + 2) with multibulklen := ll.toNat }

/-- The length of an argument. -/
def bulkLenStep (c : QueryClient) : Option QueryClient :=
  match strchr c.querybuf 13 with
  | none =>
    if PROTO_INLINE_MAX_SIZE < c.querybuf.length then some (c.fail (sds "Protocol error: too big bulk count string"))
    else none
  | some newline =>
    if c.querybuf.length < newline + 2 then none
    else if c.querybuf.head? ≠ some 36 then
      some (c.fail (sds "Protocol error: expected '$', got '" ++ c.querybuf.take 1 ++ sds "'"))
    else
      match lineNumber c.querybuf newline with
      | none => some (c.fail (sds "Protocol error: invalid bulk length"))
      | some ll =>
        if ll < 0 ∨ ll > cfg.protoMaxBulkLen then some (c.fail (sds "Protocol error: invalid bulk length"))
        else some { c.cut (newline + 2) with bulklen := some ll.toNat }

/-- An argument. -/
def bulkStep (c : QueryClient) (len : ℕ) : Option QueryClient :=
  if c.querybuf.length < len + 2 then none
  else
    let c := { c.cut (len + 2) with
      argv := c.argv ++ [c.querybuf.take len]
      bulklen := none
      multibulklen := c.multibulklen - 1 }
    if c.multibulklen = 0 then some (runCommand answer c) else some c

/-- One step on a client whose bytes are all to be parsed. -/
def step (c : QueryClient) : Option QueryClient :=
  if c.closing || c.freed then none
  else
    match c.reqtype with
    | none =>
      if c.querybuf = [] then none
      else some { c with reqtype := some (if c.querybuf.head? = some 42 then .multibulk else .inline) }
    | some .inline => lineStep answer c
    | some .multibulk =>
      if c.multibulklen = 0 then countStep answer c
      else
        match c.bulklen with
        | none => bulkLenStep cfg c
        | some len => bulkStep answer c len

/-- More bytes are read. -/
def feed (v : Sds) (c : QueryClient) : QueryClient :=
  { c with
    querybuf := c.querybuf ++ v
    readReploff := if c.master then c.readReploff + v.length else c.readReploff }

/-- A line of an inline command or of a count that is to be parsed ends within
`PROTO_INLINE_MAX_SIZE` bytes, if it has an end. -/
def ShortLine (c : QueryClient) : Prop :=
  c.closing = false → c.freed = false →
  (c.reqtype = some .inline → ∀ k, strchr c.querybuf 10 = some k → k ≤ PROTO_INLINE_MAX_SIZE) ∧
  (c.reqtype = some .multibulk → c.multibulklen = 0 ∨ c.bulklen = none → ∀ k, strchr c.querybuf 13 = some k → k ≤ PROTO_INLINE_MAX_SIZE)

/-! ### More bytes -/

theorem strchr_append_some {s : Sds} {ch : Fin 256} {k : ℕ} (h : strchr s ch = some k) (v : Sds) :
    strchr (s ++ v) ch = some k := by
  induction s generalizing k with
  | nil => cases h
  | cons x s ih =>
    rw [strchr] at h
    rw [List.cons_append, strchr]
    split
    · rw [if_pos ‹_›] at h
      exact h
    · rw [if_neg ‹_›] at h
      split
      · rw [if_pos ‹_›] at h
        cases h
      · rw [if_neg ‹_›] at h
        obtain ⟨j, hj, rfl⟩ := Option.map_eq_some_iff.mp h
        rw [ih hj]
        rfl

theorem strchr_lt {s : Sds} {ch : Fin 256} {k : ℕ} (h : strchr s ch = some k) : k < s.length := by
  induction s generalizing k with
  | nil => cases h
  | cons x s ih =>
    rw [strchr] at h
    split at h
    · cases h
      exact Nat.zero_lt_succ _
    · split at h
      · cases h
      · obtain ⟨j, hj, rfl⟩ := Option.map_eq_some_iff.mp h
        exact Nat.succ_lt_succ (ih hj)

/-- A character that is found only with more bytes is among them. -/
theorem le_of_strchr_append {s v : Sds} {ch : Fin 256} {k : ℕ} (h : strchr s ch = none)
    (h' : strchr (s ++ v) ch = some k) : s.length ≤ k := by
  induction s generalizing k with
  | nil => exact Nat.zero_le _
  | cons x s ih =>
    rw [strchr] at h
    rw [List.cons_append, strchr] at h'
    split at h
    · cases h
    · rw [if_neg ‹_›] at h'
      split at h
      · rw [if_pos ‹_›] at h'
        cases h'
      · rw [if_neg ‹_›] at h'
        obtain ⟨j, hj, rfl⟩ := Option.map_eq_some_iff.mp h'
        exact Nat.succ_le_succ (ih (Option.map_eq_none_iff.mp h) hj)

/-- A line that is too long and has no end yet gets none within the limit. -/
theorem strchr_append_none {s v : Sds} {ch : Fin 256} (h : strchr s ch = none) (hlen : PROTO_INLINE_MAX_SIZE < s.length)
    (hshort : ∀ k, strchr (s ++ v) ch = some k → k ≤ PROTO_INLINE_MAX_SIZE) : strchr (s ++ v) ch = none := by
  cases h' : strchr (s ++ v) ch with
  | none => rfl
  | some k =>
    have := le_of_strchr_append h h'
    have := hshort k h'
    omega

theorem lineLen_append {s : Sds} {k : ℕ} (h : k ≤ s.length) (v : Sds) : lineLen (s ++ v) k = lineLen s k := by
  rw [lineLen, lineLen]
  by_cases h0 : k = 0
  · rw [if_neg (by simp [h0]), if_neg (by simp [h0])]
  · rw [List.getElem?_append_left (by omega)]

theorem lineLen_le (s : Sds) (k : ℕ) : lineLen s k ≤ k := by
  rw [lineLen]
  split
  · omega
  · exact le_rfl

variable {c : QueryClient}

theorem feed_cut (v : Sds) {n : ℕ} (h : n ≤ c.querybuf.length) :
    feed v (c.cut n) = (feed v c).cut n := by
  rw [feed, feed, QueryClient.cut, QueryClient.cut, List.drop_append_of_le_length h]

/-- The flag `CLIENT_MULTI` that a command leaves. -/
def multiLeft (c : QueryClient) : Bool :=
  if (answer (c.handed ++ [c.argv])).refused then c.multi else multiAfter c.multi c.argv

theorem runCommand_empty (h : c.argv = []) : runCommand answer c = resetClient c := if_pos h

theorem runCommand_quit (h : c.argv ≠ []) (hq : commandName c.argv = sds "quit") :
    runCommand answer c = { c with handed := c.handed ++ [c.argv], closing := true } := by
  rw [runCommand, if_neg h, processCommand]
  simp only [if_pos hq]

theorem runCommand_freed (h : c.argv ≠ []) (hq : commandName c.argv ≠ sds "quit")
    (hf : (answer (c.handed ++ [c.argv])).freed = true) :
    runCommand answer c = { c with handed := c.handed ++ [c.argv], freed := true } := by
  rw [runCommand, if_neg h, processCommand]
  simp only [if_neg hq, if_pos hf]

theorem runCommand_ok (h : c.argv ≠ []) (hq : commandName c.argv ≠ sds "quit")
    (hf : ¬ (answer (c.handed ++ [c.argv])).freed = true) :
    runCommand answer c = resetClient { c with
      handed := c.handed ++ [c.argv]
      closing := c.closing || (answer (c.handed ++ [c.argv])).closing
      multi := multiLeft answer c
      reploff := if c.master ∧ !multiLeft answer c then c.readReploff - c.querybuf.length + c.qbPos
        else c.reploff } := by
  rw [runCommand, if_neg h, processCommand]
  simp only [if_neg hq, if_neg hf]
  rfl

/-- The offset that is applied does not depend on what comes after the command. -/
theorem runCommand_feed (v : Sds) (c : QueryClient) :
    runCommand answer (feed v c) = feed v (runCommand answer c) := by
  by_cases h : c.argv = []
  · rw [runCommand_empty answer h, runCommand_empty answer (c := feed v c) h]
    rfl
  · by_cases hq : commandName c.argv = sds "quit"
    · rw [runCommand_quit answer h hq, runCommand_quit answer (c := feed v c) h hq]
      rfl
    · by_cases hf : (answer (c.handed ++ [c.argv])).freed = true
      · rw [runCommand_freed answer h hq hf, runCommand_freed answer (c := feed v c) h hq hf]
        rfl
      · rw [runCommand_ok answer h hq hf, runCommand_ok answer (c := feed v c) h hq hf]
        have hoff : (if (feed v c).master ∧ !multiLeft answer (feed v c) then
            (feed v c).readReploff - (feed v c).querybuf.length + (feed v c).qbPos else (feed v c).reploff) =
            if c.master ∧ !multiLeft answer c then c.readReploff - c.querybuf.length + c.qbPos else c.reploff := by
          have hm : multiLeft answer (feed v c) = multiLeft answer c := rfl
          rw [hm]
          by_cases hmaster : c.master ∧ !multiLeft answer c
          · rw [if_pos hmaster, if_pos (show (feed v c).master ∧ _ from hmaster)]
            simp only [feed, if_pos hmaster.1, List.length_append, Nat.cast_add]
            omega
          · rw [if_neg hmaster, if_neg (show ¬ ((feed v c).master ∧ _) from hmaster)]
            rfl
        rw [hoff]
        rfl

variable {c' : QueryClient}

theorem lineStep_feed {v : Sds} (h : lineStep answer c = some c')
    (hshort : ∀ k, strchr (c.querybuf ++ v) 10 = some k → k ≤ PROTO_INLINE_MAX_SIZE) :
    lineStep answer (feed v c) = some (feed v c') := by
  have hq : (feed v c).querybuf = c.querybuf ++ v := rfl
  rw [lineStep] at h
  rw [lineStep, hq]
  cases hs : strchr c.querybuf 10 with
  | none =>
    simp only [hs] at h
    split at h
    · rename_i hlen
      cases h
      rw [strchr_append_none hs hlen hshort, List.length_append]
      simp only
      rw [if_pos (by omega)]
      rfl
    · cases h
  | some k =>
    have hk := strchr_lt hs
    have hle := lineLen_le c.querybuf k
    simp only [hs] at h
    rw [strchr_append_some hs]
    simp only
    rw [lineLen_append hk.le, List.take_append_of_le_length (hle.trans hk.le)]
    split at h
    · cases h
      rfl
    · cases h
      rw [← runCommand_feed, ← feed_cut v hk]
      rfl

theorem lineNumber_append {s : Sds} {k : ℕ} (h : k ≤ s.length) (v : Sds) : lineNumber (s ++ v) k = lineNumber s k := by
  rw [lineNumber, lineNumber, List.take_append_of_le_length h]

theorem countStep_feed {v : Sds} (h : countStep answer c = some c')
    (hshort : ∀ k, strchr (c.querybuf ++ v) 13 = some k → k ≤ PROTO_INLINE_MAX_SIZE) :
    countStep answer (feed v c) = some (feed v c') := by
  have hq : (feed v c).querybuf = c.querybuf ++ v := rfl
  rw [countStep] at h
  rw [countStep, hq]
  cases hs : strchr c.querybuf 13 with
  | none =>
    simp only [hs] at h
    split at h
    · rename_i hlen
      cases h
      rw [strchr_append_none hs hlen hshort, List.length_append]
      simp only
      rw [if_pos (by omega)]
      rfl
    · cases h
  | some k =>
    have hk := strchr_lt hs
    simp only [hs] at h
    rw [strchr_append_some hs]
    simp only
    split at h
    · cases h
    · rename_i hlen
      rw [if_neg (by rw [List.length_append]; omega), lineNumber_append hk.le]
      split at h
      · cases h
        rfl
      · split at h
        · cases h
          rw [if_pos ‹_›]
          rfl
        · rw [if_neg ‹_›]
          split at h
          · cases h
            rw [if_pos ‹_›, ← runCommand_feed, ← feed_cut v (by omega)]
          · cases h
            rw [if_neg ‹_›, ← feed_cut v (by omega)]
            rfl

theorem bulkLenStep_feed {v : Sds} (h : bulkLenStep cfg c = some c')
    (hshort : ∀ k, strchr (c.querybuf ++ v) 13 = some k → k ≤ PROTO_INLINE_MAX_SIZE) :
    bulkLenStep cfg (feed v c) = some (feed v c') := by
  have hq : (feed v c).querybuf = c.querybuf ++ v := rfl
  rw [bulkLenStep] at h
  rw [bulkLenStep, hq]
  cases hs : strchr c.querybuf 13 with
  | none =>
    simp only [hs] at h
    split at h
    · rename_i hlen
      cases h
      rw [strchr_append_none hs hlen hshort, List.length_append]
      simp only
      rw [if_pos (by omega)]
      rfl
    · cases h
  | some k =>
    have hk := strchr_lt hs
    simp only [hs] at h
    rw [strchr_append_some hs]
    simp only
    split at h
    · cases h
    · rename_i hlen
      rw [if_neg (by rw [List.length_append]; omega), lineNumber_append hk.le,
        List.take_append_of_le_length (show 1 ≤ c.querybuf.length by omega), List.head?_append_of_ne_nil _ (by
          intro hnil
          rw [hnil] at hk
          exact absurd hk (Nat.not_lt_zero _))]
      split at h
      · cases h
        rw [if_pos ‹_›]
        rfl
      · rw [if_neg ‹_›]
        split at h
        · cases h
          rfl
        · split at h
          · cases h
            rw [if_pos ‹_›]
            rfl
          · cases h
            rw [if_neg ‹_›, ← feed_cut v (by omega)]
            rfl

theorem bulkStep_feed {v : Sds} {len : ℕ} (h : bulkStep answer c len = some c') :
    bulkStep answer (feed v c) len = some (feed v c') := by
  have hq : (feed v c).querybuf = c.querybuf ++ v := rfl
  rw [bulkStep] at h
  rw [bulkStep, hq]
  split at h
  · cases h
  · rename_i hlen
    rw [if_neg (by rw [List.length_append]; omega), List.take_append_of_le_length (by omega),
      ← feed_cut v (by omega)]
    simp only at h ⊢
    split at h
    · rename_i hn
      cases h
      rw [if_pos (by exact hn), ← runCommand_feed]
      rfl
    · rename_i hn
      cases h
      rw [if_neg (by exact hn)]
      rfl

/-- More bytes keep every step, where lines end within the limit. -/
theorem lasting : Lasting (step cfg answer) feed ShortLine := by
  intro c c' v h hshort
  rw [step] at h
  rw [step]
  split at h
  · cases h
  · rename_i hclosing
    have hopen : c.closing = false ∧ c.freed = false := by simpa using hclosing
    obtain ⟨hline, hcount⟩ := hshort hopen.1 hopen.2
    rw [if_neg (show ¬ ((feed v c).closing || (feed v c).freed) = true from hclosing)]
    have hreq : (feed v c).reqtype = c.reqtype := rfl
    rw [hreq] at hline hcount ⊢
    cases hr : c.reqtype with
    | none =>
      simp only [hr] at h ⊢
      split at h
      · cases h
      · rename_i hq
        cases h
        have hq' : (feed v c).querybuf = c.querybuf ++ v := rfl
        rw [if_neg (by rw [hq', List.append_eq_nil_iff]; exact fun h => hq h.1), hq', List.head?_append_of_ne_nil _ hq]
        rfl
    | some r =>
      cases r with
      | inline =>
        simp only [hr] at h ⊢
        exact lineStep_feed answer h (hline hr)
      | multibulk =>
        simp only [hr] at h ⊢
        have hm : (feed v c).multibulklen = c.multibulklen := rfl
        have hb : (feed v c).bulklen = c.bulklen := rfl
        rw [hm, hb] at hcount
        rw [hm, hb]
        split at h
        · rw [if_pos ‹_›]
          exact countStep_feed answer h (hcount hr (.inl ‹_›))
        · rw [if_neg ‹_›]
          cases hlen : c.bulklen with
          | none =>
            simp only [hlen] at h ⊢
            exact bulkLenStep_feed cfg h (hcount hr (.inr hlen))
          | some len =>
            simp only [hlen] at h ⊢
            exact bulkStep_feed answer h

/-! ### The steps that the functions take -/

@[simp]
theorem rest_trim (c : QueryClient) : c.trim.rest = c.rest := List.drop_zero

@[simp]
theorem trim_trim (c : QueryClient) : c.trim.trim = c.trim := by
  rw [QueryClient.trim, rest_trim]
  rfl

theorem step_of_closing (h : c.closing = true) : step cfg answer c = none := by
  rw [step, if_pos (by rw [h]; rfl)]

/-- A client that takes requests, and a request of a known type. -/
structure Live (c : QueryClient) (r : ReqType) : Prop where
  closing : c.closing = false
  freed : c.freed = false
  qbPos : c.qbPos ≤ c.querybuf.length
  reqtype : c.reqtype = some r

theorem step_inline (h : Live c .inline) : step cfg answer c.trim = lineStep answer c.trim := by
  have hr : c.trim.reqtype = some .inline := h.reqtype
  rw [step, if_neg (by
    show ¬ (c.closing || c.freed) = true
    simp [h.closing, h.freed]), hr]

theorem step_of_multibulk (hc : c.closing = false) (hf : c.freed = false)
    (hr : c.reqtype = some .multibulk) :
    step cfg answer c =
      if c.multibulklen = 0 then countStep answer c
      else
        match c.bulklen with
        | none => bulkLenStep cfg c
        | some len => bulkStep answer c len := by
  rw [step, if_neg (by simp [hc, hf]), hr]

theorem step_multibulk (h : Live c .multibulk) :
    step cfg answer c.trim =
      if c.multibulklen = 0 then countStep answer c.trim
      else
        match c.bulklen with
        | none => bulkLenStep cfg c.trim
        | some len => bulkStep answer c.trim len :=
  step_of_multibulk cfg answer (c := c.trim) h.closing h.freed h.reqtype

/-- The offset that is applied does not depend on where the parsed bytes are. -/
theorem runCommand_trim (hle : c.qbPos ≤ c.querybuf.length) :
    (runCommand answer c).trim = runCommand answer c.trim := by
  by_cases h : c.argv = []
  · rw [runCommand_empty answer h, runCommand_empty answer (c := c.trim) h]
    rfl
  · by_cases hq : commandName c.argv = sds "quit"
    · rw [runCommand_quit answer h hq, runCommand_quit answer (c := c.trim) h hq]
      rfl
    · by_cases hf : (answer (c.handed ++ [c.argv])).freed = true
      · rw [runCommand_freed answer h hq hf, runCommand_freed answer (c := c.trim) h hq hf]
        rfl
      · rw [runCommand_ok answer h hq hf, runCommand_ok answer (c := c.trim) h hq hf]
        have hoff : c.trim.readReploff - c.trim.querybuf.length + c.trim.qbPos =
            c.readReploff - c.querybuf.length + c.qbPos := by
          show c.readReploff - (c.querybuf.drop c.qbPos).length + (0 : ℕ) = _
          rw [List.length_drop]
          omega
        rw [hoff]
        rfl

theorem runCommand_buffer (c : QueryClient) :
    (runCommand answer c).querybuf = c.querybuf ∧ (runCommand answer c).qbPos = c.qbPos := by
  by_cases h : c.argv = []
  · rw [runCommand_empty answer h]
    exact ⟨rfl, rfl⟩
  · by_cases hq : commandName c.argv = sds "quit"
    · rw [runCommand_quit answer h hq]
      exact ⟨rfl, rfl⟩
    · by_cases hf : (answer (c.handed ++ [c.argv])).freed = true
      · rw [runCommand_freed answer h hq hf]
        exact ⟨rfl, rfl⟩
      · rw [runCommand_ok answer h hq hf]
        exact ⟨rfl, rfl⟩

/-- What a function that looks for a command does: it gets stuck, or it finds one. -/
def Turn (c : QueryClient) : Status × QueryClient → Prop
  | (.err, c') => Reaches (step cfg answer) c.trim c'.trim ∧ step cfg answer c'.trim = none ∧
      c'.qbPos ≤ c'.querybuf.length
  | (.ok, c') => Reaches (step cfg answer) c.trim (runCommand answer c').trim ∧ c'.rest.length < c.rest.length ∧
      c'.qbPos ≤ c'.querybuf.length

theorem Turn.fail (err : Sds) (hq : c.qbPos ≤ c.querybuf.length)
    (h : step cfg answer c.trim = some (c.trim.fail err)) : Turn cfg answer c (.err, c.fail err) :=
  ⟨.single h, step_of_closing cfg answer rfl, hq⟩

theorem Turn.wait (hq : c.qbPos ≤ c.querybuf.length) (h : step cfg answer c.trim = none) :
    Turn cfg answer c (.err, c) := ⟨.refl _, h, hq⟩

theorem Turn.head {c c1 : QueryClient} {r : Status × QueryClient} (h : step cfg answer c.trim = some c1.trim)
    (hle : c1.rest.length ≤ c.rest.length) (hr : Turn cfg answer c1 r) : Turn cfg answer c r := by
  obtain ⟨status, c'⟩ := r
  cases status with
  | err => exact ⟨.head h hr.1, hr.2⟩
  | ok => exact ⟨.head h hr.1, hr.2.1.trans_le hle, hr.2.2⟩

theorem processInlineBuffer_turn (h : Live c .inline) :
    Turn cfg answer c (processInlineBuffer c) := by
  have hstep := step_inline cfg answer h
  have hq : c.trim.querybuf = c.rest := rfl
  rw [lineStep, hq] at hstep
  rw [processInlineBuffer]
  cases hs : strchr c.rest 10 with
  | none =>
    simp only [hs] at hstep ⊢
    split
    · rw [if_pos ‹_›] at hstep
      exact .fail cfg answer _ h.qbPos hstep
    · rw [if_neg ‹_›] at hstep
      exact .wait cfg answer h.qbPos hstep
  | some newline =>
    have hlt := strchr_lt hs
    rw [QueryClient.rest, List.length_drop] at hlt
    simp only [hs] at hstep ⊢
    cases hsplit : sdssplitargs (c.rest.take (lineLen c.rest newline)) with
    | none =>
      simp only [hsplit] at hstep ⊢
      exact .fail cfg answer _ h.qbPos hstep
    | some argv =>
      simp only [hsplit] at hstep ⊢
      have hle : c.qbPos + (newline + 1) ≤ c.querybuf.length := by omega
      refine ⟨.single ?_, ?_, hle⟩
      · rw [hstep, runCommand_trim answer hle, QueryClient.trim, QueryClient.cut]
        simp only [QueryClient.rest, QueryClient.trim, List.drop_drop]
      · rw [QueryClient.rest, QueryClient.rest, List.length_drop, List.length_drop]
        show c.querybuf.length - (c.qbPos + (newline + 1)) < c.querybuf.length - c.qbPos
        omega

/-! ### Multi bulk requests -/

/-- The header of an argument. -/
theorem readBulkLen_turn (h : Live c .multibulk) (hm : c.multibulklen ≠ 0) (hb : c.bulklen = none) :
    match readBulkLen cfg c with
    | .stop status c' => Turn cfg answer c (status, c') ∧ status = .err
    | .more c' => step cfg answer c.trim = some c'.trim ∧ c'.rest.length ≤ c.rest.length ∧ Live c' .multibulk ∧
        c'.multibulklen = c.multibulklen ∧ ∃ len, c'.bulklen = some len := by
  have hstep := step_multibulk cfg answer h
  have hq : c.trim.querybuf = c.rest := rfl
  rw [if_neg hm, hb] at hstep
  simp only at hstep
  rw [bulkLenStep, hq] at hstep
  rw [readBulkLen]
  cases hs : strchr c.rest 13 with
  | none =>
    simp only [hs] at hstep ⊢
    split at hstep
    · rw [if_pos ‹_›]
      exact ⟨.fail cfg answer _ h.qbPos hstep, rfl⟩
    · rw [if_neg ‹_›]
      exact ⟨.wait cfg answer h.qbPos hstep, rfl⟩
  | some newline =>
    have hlt := strchr_lt hs
    have hlen : c.rest.length = c.querybuf.length - c.qbPos := by rw [QueryClient.rest, List.length_drop]
    simp only [hs] at hstep ⊢
    split at hstep
    · rw [if_pos ‹_›]
      exact ⟨.wait cfg answer h.qbPos hstep, rfl⟩
    · rename_i henough
      rw [if_neg henough]
      split at hstep
      · rw [if_pos ‹_›]
        exact ⟨.fail cfg answer _ h.qbPos hstep, rfl⟩
      · rw [if_neg ‹_›]
        cases hn : lineNumber c.rest newline with
        | none =>
          simp only [hn] at hstep ⊢
          exact ⟨.fail cfg answer _ h.qbPos hstep, trivial⟩
        | some ll =>
          simp only [hn] at hstep ⊢
          split at hstep
          · rw [if_pos ‹_›]
            exact ⟨.fail cfg answer _ h.qbPos hstep, rfl⟩
          · rw [if_neg ‹_›]
            obtain ⟨c1, hc1⟩ : ∃ c1, c1 = { c with qbPos := c.qbPos + (newline + 2), bulklen := some ll.toNat } :=
              ⟨_, rfl⟩
            have hle : c1.qbPos ≤ c1.querybuf.length := by
              rw [hc1]
              show c.qbPos + (newline + 2) ≤ c.querybuf.length
              omega
            have htrim : step cfg answer c.trim = some c1.trim := by
              rw [hstep, hc1]
              simp only [QueryClient.trim, QueryClient.cut, QueryClient.rest, List.drop_drop]
            have hrest : c1.rest.length ≤ c.rest.length := by
              rw [QueryClient.rest, QueryClient.rest, List.length_drop, List.length_drop, hc1]
              show c.querybuf.length - (c.qbPos + (newline + 2)) ≤ c.querybuf.length - c.qbPos
              omega
            have hl1 : Live c1 .multibulk := ⟨by rw [hc1]; exact h.closing, by rw [hc1]; exact h.freed, hle,
              by rw [hc1]; exact h.reqtype⟩
            have hm1 : c1.multibulklen = c.multibulklen := by rw [hc1]
            have hb1 : c1.bulklen = some ll.toNat := by rw [hc1]
            rw [← hc1]
            by_cases hbig : PROTO_MBULK_BIG_ARG ≤ ll.toNat ∧
                c.querybuf.length - (c.qbPos + (newline + 2)) ≤ ll.toNat + 2
            · rw [if_pos hbig]
              have hmore : step cfg answer c.trim = some c1.trim.trim ∧ c1.trim.rest.length ≤ c.rest.length ∧
                  Live c1.trim .multibulk ∧ c1.trim.multibulklen = c.multibulklen ∧
                  ∃ len, c1.trim.bulklen = some len :=
                ⟨by rw [trim_trim, htrim], by rw [rest_trim]; exact hrest,
                  ⟨hl1.closing, hl1.freed, Nat.zero_le _, hl1.reqtype⟩, hm1, _, hb1⟩
              rw [hc1] at hmore ⊢
              exact hmore
            · rw [if_neg hbig]
              exact ⟨htrim, hrest, hl1, hm1, _, hb1⟩

/-- An argument that is there, however it leaves the buffer. -/
theorem readBulk_trim {len : ℕ} (hlen : len + 2 ≤ c.rest.length) (n : ℕ) :
    { readBulk c len with multibulklen := n }.trim =
        { c.trim.cut (len + 2) with argv := c.argv ++ [c.rest.take len], bulklen := none, multibulklen := n } ∧
      { readBulk c len with multibulklen := n }.qbPos ≤ { readBulk c len with multibulklen := n }.querybuf.length := by
  rw [QueryClient.rest, List.length_drop] at hlen
  rw [readBulk]
  split
  · rename_i halone
    obtain ⟨h0, -, hall⟩ := halone
    refine ⟨?_, by rw [h0]; exact Nat.zero_le _⟩
    simp only [QueryClient.trim, QueryClient.cut, QueryClient.rest, h0, List.drop_zero]
    rw [List.drop_eq_nil_of_le (show c.querybuf.length ≤ len + 2 by omega)]
  · refine ⟨?_, ?_⟩
    · simp only [QueryClient.trim, QueryClient.cut, QueryClient.rest, List.drop_drop]
    · show c.qbPos + (len + 2) ≤ c.querybuf.length
      omega

/-- The argument whose length is known, and the arguments after it. -/
theorem readArgs_known {n : ℕ} {len : ℕ} (h : Live c .multibulk) (hm : c.multibulklen = n + 1)
    (hb : c.bulklen = some len)
    (hmore : ∀ c' : QueryClient, n ≠ 0 → Live c' .multibulk → c'.multibulklen = n → Turn cfg answer c' (readArgs cfg n c')) :
    Turn cfg answer c
      (if c.rest.length < len + 2 then (.err, c) else readArgs cfg n { readBulk c len with multibulklen := n }) := by
  have hstep := step_multibulk cfg answer h
  have hq : c.trim.querybuf = c.rest := rfl
  rw [if_neg (by omega), hb] at hstep
  simp only at hstep
  rw [bulkStep, hq] at hstep
  split
  · rename_i hshort
    rw [if_pos hshort] at hstep
    exact .wait cfg answer h.qbPos hstep
  · rename_i hlen
    rw [if_neg hlen] at hstep
    obtain ⟨htrim, hle⟩ := readBulk_trim (Nat.le_of_not_lt hlen) n
    obtain ⟨c1, hc1⟩ : ∃ c1, c1 = { readBulk c len with multibulklen := n } := ⟨_, rfl⟩
    rw [← hc1] at htrim hle ⊢
    have hpred : c.trim.multibulklen - 1 = n := by
      show c.multibulklen - 1 = n
      omega
    simp only [hpred] at hstep
    have hrest : c1.rest.length + (len + 2) = c.rest.length := by
      have hr : c1.rest = c.rest.drop (len + 2) := congrArg QueryClient.querybuf htrim
      rw [hr, List.length_drop]
      omega
    by_cases hn : n = 0
    · subst hn
      rw [if_pos rfl] at hstep
      refine ⟨.single ?_, by omega, hle⟩
      rw [hstep, runCommand_trim answer hle, htrim]
      rfl
    · rw [if_neg hn] at hstep
      have hl1 : Live c1 .multibulk := by
        have hfields : c1.trim.closing = c.closing ∧ c1.trim.freed = c.freed ∧ c1.trim.reqtype = c.reqtype := by
          rw [htrim]
          exact ⟨rfl, rfl, rfl⟩
        exact ⟨hfields.1.trans h.closing, hfields.2.1.trans h.freed, hle, hfields.2.2.trans h.reqtype⟩
      refine .head cfg answer ?_ (by omega) (hmore c1 hn hl1 (by rw [hc1]))
      rw [hstep, htrim]
      rfl

theorem readArgs_one {n : ℕ} (h : Live c .multibulk) (hm : c.multibulklen = n + 1)
    (hmore : ∀ c' : QueryClient, n ≠ 0 → Live c' .multibulk → c'.multibulklen = n → Turn cfg answer c' (readArgs cfg n c')) :
    Turn cfg answer c (readArgs cfg (n + 1) c) := by
  rw [readArgs]
  cases hb : c.bulklen with
  | some len =>
    rw [if_neg (by simp)]
    simp only [hb]
    exact readArgs_known cfg answer h hm hb hmore
  | none =>
    have hlen := readBulkLen_turn cfg answer h (by omega) hb
    rw [if_pos rfl]
    cases hr : readBulkLen cfg c with
    | stop status c1 =>
      rw [hr] at hlen
      exact hlen.1
    | more c1 =>
      rw [hr] at hlen
      obtain ⟨hstep, hle, hl1, hm1, len, hb1⟩ := hlen
      simp only [hb1]
      exact .head cfg answer hstep hle (readArgs_known cfg answer hl1 (hm1.trans hm) hb1 hmore)

theorem readArgs_turn (n : ℕ) : ∀ {c : QueryClient}, Live c .multibulk → c.multibulklen = n + 1 →
    Turn cfg answer c (readArgs cfg (n + 1) c) := by
  induction n with
  | zero =>
    intro c h hm
    exact readArgs_one cfg answer h hm fun _ h0 => absurd rfl h0
  | succ n ih => exact fun h hm => readArgs_one cfg answer h hm fun c' _ h' hm' => ih h' hm'

/-- What is known of a client between two steps: no part of a command is left where none has
begun, and a count is read from a line that starts with an asterisk. -/
structure Wf (c : QueryClient) : Prop where
  start : c.reqtype = none → c.closing = false → c.freed = false → c.argv = [] ∧ c.multibulklen = 0
  count : c.reqtype = some .multibulk → c.closing = false → c.freed = false → c.multibulklen = 0 →
    c.argv = [] ∧ c.querybuf.head? = some 42

theorem Wf.of_closing (h : c.closing = true) : Wf c :=
  ⟨fun _ hc => (Bool.false_ne_true (hc.symm.trans h)).elim, fun _ hc => (Bool.false_ne_true (hc.symm.trans h)).elim⟩

theorem Wf.of_freed (h : c.freed = true) : Wf c :=
  ⟨fun _ _ hf => (Bool.false_ne_true (hf.symm.trans h)).elim,
    fun _ _ hf => (Bool.false_ne_true (hf.symm.trans h)).elim⟩

theorem Wf.resetClient (c : QueryClient) : Wf (resetClient c) :=
  ⟨fun _ _ _ => ⟨rfl, rfl⟩, fun hr => by cases hr⟩

theorem Wf.runCommand (c : QueryClient) : Wf (runCommand answer c) := by
  by_cases h : c.argv = []
  · rw [runCommand_empty answer h]
    exact .resetClient c
  · by_cases hq : commandName c.argv = sds "quit"
    · rw [runCommand_quit answer h hq]
      exact .of_closing rfl
    · by_cases hf : (answer (c.handed ++ [c.argv])).freed = true
      · rw [runCommand_freed answer h hq hf]
        exact .of_freed rfl
      · rw [runCommand_ok answer h hq hf]
        exact .resetClient _

theorem Wf.of_busy (hr : c.reqtype = some .multibulk) (hm : c.multibulklen ≠ 0) : Wf c :=
  ⟨fun h => (Option.some_ne_none _ (hr.symm.trans h)).elim, fun _ _ _ h0 => absurd h0 hm⟩

/-- What a step does: it finds the type of a request, it refuses the request, it reads a part
of a command, or it reads the rest of one and runs it. -/
inductive Effect (c : QueryClient) : QueryClient → Prop
  | kind (h : c.reqtype = none) :
    Effect c { c with reqtype := some (if c.querybuf.head? = some 42 then .multibulk else .inline) }
  | fail (err : Sds) : Effect c (c.fail err)
  | part (n : ℕ) (argv : List Sds) (m : ℕ) (bulklen : Option ℕ) (hr : c.reqtype = some .multibulk) (hm : m ≠ 0)
    (hn : n ≤ c.querybuf.length) :
    Effect c { c.cut n with argv := argv, multibulklen := m, bulklen := bulklen }
  | command (n : ℕ) (argv : List Sds) (m : ℕ) (bulklen : Option ℕ) (hn : n ≤ c.querybuf.length) :
    Effect c (runCommand answer { c.cut n with argv := argv, multibulklen := m, bulklen := bulklen })

theorem lineStep_effect (h : lineStep answer c = some c') : Effect answer c c' := by
  rw [lineStep] at h
  split at h
  · split at h
    · cases h
      exact .fail _
    · cases h
  · rename_i newline hs
    split at h
    · cases h
      exact .fail _
    · cases h
      exact .command _ _ c.multibulklen c.bulklen (strchr_lt hs)

theorem countStep_effect (hr : c.reqtype = some .multibulk) (h : countStep answer c = some c') :
    Effect answer c c' := by
  rw [countStep] at h
  split at h
  · split at h
    · cases h
      exact .fail _
    · cases h
  · split at h
    · cases h
    · rename_i hlen
      have hlen := Nat.le_of_not_lt hlen
      split at h
      · cases h
        exact .fail _
      · split at h
        · cases h
          exact .fail _
        · split at h
          · cases h
            exact .command _ c.argv c.multibulklen c.bulklen hlen
          · cases h
            exact .part _ c.argv _ c.bulklen hr (by omega) hlen

theorem bulkLenStep_effect (hr : c.reqtype = some .multibulk) (hm : c.multibulklen ≠ 0)
    (h : bulkLenStep cfg c = some c') : Effect answer c c' := by
  rw [bulkLenStep] at h
  split at h
  · split at h
    · cases h
      exact .fail _
    · cases h
  · split at h
    · cases h
    · rename_i hlen
      have hlen := Nat.le_of_not_lt hlen
      split at h
      · cases h
        exact .fail _
      · split at h
        · cases h
          exact .fail _
        · split at h
          · cases h
            exact .fail _
          · cases h
            exact .part _ c.argv c.multibulklen _ hr hm hlen

theorem bulkStep_effect {len : ℕ} (hr : c.reqtype = some .multibulk)
    (h : bulkStep answer c len = some c') : Effect answer c c' := by
  rw [bulkStep] at h
  split at h
  · cases h
  · rename_i hlen
    have hlen := Nat.le_of_not_lt hlen
    simp only at h
    split at h
    · cases h
      exact .command _ _ _ _ hlen
    · cases h
      exact .part _ _ _ _ hr ‹_› hlen

theorem step_effect (h : step cfg answer c = some c') :
    c.closing = false ∧ c.freed = false ∧ Effect answer c c' := by
  rw [step] at h
  split at h
  · cases h
  · rename_i hclosing
    rw [Bool.or_eq_true, not_or, Bool.not_eq_true, Bool.not_eq_true] at hclosing
    refine ⟨hclosing.1, hclosing.2, ?_⟩
    cases hr : c.reqtype with
    | none =>
      simp only [hr] at h
      split at h
      · cases h
      · cases h
        exact .kind hr
    | some r =>
      cases r with
      | inline =>
        simp only [hr] at h
        exact lineStep_effect answer h
      | multibulk =>
        simp only [hr] at h
        split at h
        · exact countStep_effect answer hr h
        · rename_i hm
          split at h
          · exact bulkLenStep_effect cfg answer hr hm h
          · exact bulkStep_effect answer hr h

theorem Wf.step (h : step cfg answer c = some c') (hc : Wf c) : Wf c' := by
  obtain ⟨hclosing, hfreed, heff⟩ := step_effect cfg answer h
  cases heff with
  | kind hr =>
    obtain ⟨hargv, hm⟩ := hc.start hr hclosing hfreed
    refine ⟨fun h => (Option.some_ne_none _ h).elim, fun hreq _ _ _ => ⟨hargv, ?_⟩⟩
    by_contra hhead
    rw [if_neg hhead] at hreq
    cases hreq
  | fail err => exact .of_closing rfl
  | part n argv m bulklen hr hm hn => exact .of_busy hr hm
  | command n argv m bulklen hn => exact .runCommand answer _

/-- The commands handed over are those before, and the one that is run. -/
theorem runCommand_handed (c : QueryClient) :
    (runCommand answer c).handed = if c.argv = [] then c.handed else c.handed ++ [c.argv] := by
  by_cases h : c.argv = []
  · rw [runCommand_empty answer h, if_pos h]
    rfl
  · rw [if_neg h]
    by_cases hq : commandName c.argv = sds "quit"
    · rw [runCommand_quit answer h hq]
    · by_cases hf : (answer (c.handed ++ [c.argv])).freed = true
      · rw [runCommand_freed answer h hq hf]
      · rw [runCommand_ok answer h hq hf]
        rfl

theorem handed_step (h : Networking.step cfg answer c = some c') : c.handed <+: c'.handed := by
  obtain ⟨-, -, heff⟩ := step_effect cfg answer h
  cases heff with
  | kind hr => exact List.prefix_rfl
  | fail err => exact List.prefix_rfl
  | part n argv m bulklen hr hm hn => exact List.prefix_rfl
  | command n argv m bulklen hn =>
    rw [runCommand_handed]
    split
    · exact List.prefix_rfl
    · exact List.prefix_append _ _

theorem Wf.feed (h : Wf c) (v : Sds) : Wf (feed v c) := by
  refine ⟨h.start, fun hr hc hf hm => ?_⟩
  obtain ⟨hargv, hhead⟩ := h.count hr hc hf hm
  refine ⟨hargv, ?_⟩
  show (c.querybuf ++ v).head? = some 42
  rw [List.head?_append_of_ne_nil _ (by
    intro hnil
    rw [hnil] at hhead
    cases hhead), hhead]

theorem processMultibulkBuffer_turn {c : QueryClient} (h : Live c .multibulk) (hwf : Wf c.trim) :
    ∃ r, processMultibulkBuffer cfg c = .ok r ∧ Turn cfg answer c r := by
  rw [processMultibulkBuffer]
  by_cases hm : c.multibulklen = 0
  · rw [if_pos hm]
    have hstep := step_multibulk cfg answer h
    have hq : c.trim.querybuf = c.rest := rfl
    rw [if_pos hm, countStep, hq] at hstep
    obtain ⟨hargv, hhead⟩ : c.argv = [] ∧ c.rest.head? = some 42 := hwf.count h.reqtype h.closing h.freed hm
    rw [readCount, if_neg (not_not.mpr hargv)]
    cases hs : strchr c.rest 13 with
    | none =>
      simp only [hs] at hstep ⊢
      split at hstep
      · rw [if_pos ‹_›]
        exact ⟨_, rfl, .fail cfg answer _ h.qbPos hstep⟩
      · rw [if_neg ‹_›]
        exact ⟨_, rfl, .wait cfg answer h.qbPos hstep⟩
    | some newline =>
      have hlt := strchr_lt hs
      have hlen : c.rest.length = c.querybuf.length - c.qbPos := by rw [QueryClient.rest, List.length_drop]
      simp only [hs] at hstep ⊢
      split at hstep
      · rw [if_pos ‹_›]
        exact ⟨_, rfl, .wait cfg answer h.qbPos hstep⟩
      · rename_i henough
        rw [if_neg henough, if_neg (not_not.mpr hhead)]
        cases hn : lineNumber c.rest newline with
        | none =>
          simp only [hn] at hstep ⊢
          exact ⟨_, rfl, .fail cfg answer _ h.qbPos hstep⟩
        | some ll =>
          simp only [hn] at hstep ⊢
          split at hstep
          · rw [if_pos ‹_›]
            exact ⟨_, rfl, .fail cfg answer _ h.qbPos hstep⟩
          · rw [if_neg ‹_›]
            have hle : c.qbPos + (newline + 2) ≤ c.querybuf.length := by omega
            split at hstep
            · rw [if_pos ‹_›]
              refine ⟨_, rfl, .single ?_, ?_, hle⟩
              · rw [hstep, runCommand_trim answer hle, QueryClient.trim, QueryClient.cut]
                simp only [QueryClient.rest, QueryClient.trim, List.drop_drop]
              · rw [QueryClient.rest, List.length_drop]
                show c.querybuf.length - (c.qbPos + (newline + 2)) < c.rest.length
                omega
            · rename_i hpos
              rw [if_neg hpos]
              obtain ⟨c1, hc1⟩ : ∃ c1, c1 = { c with
                qbPos := c.qbPos + (newline + 2)
                multibulklen := ll.toNat } := ⟨_, rfl⟩
              obtain ⟨n, hn⟩ : ∃ n, ll.toNat = n + 1 := ⟨ll.toNat - 1, by omega⟩
              have hl1 : Live c1 .multibulk :=
                ⟨by rw [hc1]; exact h.closing, by rw [hc1]; exact h.freed, by rw [hc1]; exact hle,
                  by rw [hc1]; exact h.reqtype⟩
              have hm1 : c1.multibulklen = n + 1 := by rw [hc1, hn]
              have hturn := readArgs_turn cfg answer n hl1 hm1
              rw [← hc1]
              refine ⟨_, rfl, ?_⟩
              rw [hm1]
              refine hturn.head cfg answer ?_ ?_
              · rw [hstep, hc1]
                simp only [QueryClient.trim, QueryClient.cut, QueryClient.rest, List.drop_drop]
              · rw [QueryClient.rest, List.length_drop, hc1]
                show c.querybuf.length - (c.qbPos + (newline + 2)) ≤ c.rest.length
                omega
  · rw [if_neg hm]
    obtain ⟨n, hn⟩ : ∃ n, c.multibulklen = n + 1 := ⟨c.multibulklen - 1, by omega⟩
    refine ⟨_, rfl, ?_⟩
    rw [hn]
    exact readArgs_turn cfg answer n h hn

/-! ### The loop -/

theorem step_of_empty (h : c.querybuf = []) : step cfg answer c = none := by
  rw [step]
  split
  · rfl
  · cases c.reqtype with
    | none => simp only
    | some r =>
      cases r with
      | inline =>
        rw [lineStep, h]
        rfl
      | multibulk =>
        simp only
        split
        · rw [countStep, h]
          rfl
        · cases c.bulklen with
          | none =>
            simp only
            rw [bulkLenStep, h]
            rfl
          | some len =>
            simp only
            rw [bulkStep, h, if_pos]
            rw [List.length_nil]
            omega

theorem processInputLoop_spec (n : ℕ) : ∀ c : QueryClient, c.qbPos ≤ c.querybuf.length → Wf c.trim →
    c.freed = false → ∃ c', processInputLoop cfg answer n c = .ok c' ∧ Reaches (step cfg answer) c.trim c'.trim ∧
      c'.qbPos ≤ c'.querybuf.length ∧ (c.rest.length < n → step cfg answer c'.trim = none) := by
  induction n with
  | zero => exact fun c hq _ _ => ⟨c, rfl, .refl _, hq, fun h => absurd h (Nat.not_lt_zero _)⟩
  | succ n ih =>
    intro c hq hwf hfreed
    rw [processInputLoop]
    split
    · rename_i hend
      refine ⟨c, rfl, .refl _, hq, fun _ => step_of_empty cfg answer ?_⟩
      exact List.drop_eq_nil_of_le hend
    · rename_i hmore
      split
      · rename_i hclosing
        exact ⟨c, rfl, .refl _, hq, fun _ => step_of_closing cfg answer hclosing⟩
      · rename_i hclosing
        have hclosing : c.closing = false := by simpa using hclosing
        obtain ⟨r, hr⟩ : ∃ r, r = c.reqtype.getD (if c.rest.head? = some 42 then .multibulk else .inline) := ⟨_, rfl⟩
        obtain ⟨c1, hc1⟩ : ∃ c1, c1 = { c with reqtype := some r } := ⟨_, rfl⟩
        have hrest : c1.rest = c.rest := by rw [hc1]; rfl
        have hl1 : Live c1 r := by
          rw [hc1]
          exact ⟨hclosing, hfreed, hq, rfl⟩
        have hfirst : Reaches (step cfg answer) c.trim c1.trim := by
          cases hreq : c.reqtype with
          | some r' =>
            have : c1 = c := by rw [hc1, hr, hreq, Option.getD_some, ← hreq]
            rw [this]
            exact .refl _
          | none =>
            rw [hreq, Option.getD_none] at hr
            refine .single ?_
            have hne : c.trim.querybuf ≠ [] := by
              show c.rest ≠ []
              intro hnil
              have := congrArg List.length hnil
              rw [QueryClient.rest, List.length_drop, List.length_nil] at this
              omega
            rw [step, if_neg (by
              show ¬ (c.closing || c.freed) = true
              simp [hclosing, hfreed]), show c.trim.reqtype = none from hreq]
            simp only
            rw [if_neg hne, hc1, hr]
            rfl
        have hwf1 : Wf c1.trim := hfirst.keeps (fun _ _ h hs => hs.step cfg answer h) hwf
        have hturn : ∃ res, processRequest cfg c1 r = .ok res ∧ Turn cfg answer c1 res := by
          cases r with
          | inline => exact ⟨_, rfl, processInlineBuffer_turn cfg answer hl1⟩
          | multibulk => exact processMultibulkBuffer_turn cfg answer hl1 hwf1
        obtain ⟨⟨status, c2⟩, hres, hturn⟩ := hturn
        simp only [← hr, ← hc1, hres, bind, Except.bind]
        cases status with
        | err =>
          obtain ⟨h2, hstuck, hq2⟩ := hturn
          rw [if_pos rfl]
          exact ⟨c2, rfl, hfirst.trans h2, hq2, fun _ => hstuck⟩
        | ok =>
          obtain ⟨h2, hlt, hq2⟩ := hturn
          rw [if_neg (by simp)]
          obtain ⟨hb, hp⟩ := runCommand_buffer answer c2
          have hq3 : (runCommand answer c2).qbPos ≤ (runCommand answer c2).querybuf.length := by
            rw [hb, hp]
            exact hq2
          split
          · rename_i hf
            refine ⟨_, rfl, hfirst.trans h2, hq3, fun _ => ?_⟩
            rw [step, if_pos]
            show (_ || (runCommand answer c2).freed) = true
            rw [hf, Bool.or_true]
          · rename_i hf
            have hreach := hfirst.trans h2
            have hrest3 : (runCommand answer c2).rest = c2.rest := by
              rw [QueryClient.rest, hb, hp]
              rfl
            obtain ⟨c4, hrun, h4, hq4, hstuck⟩ := ih (runCommand answer c2) hq3
              (hreach.keeps (fun _ _ h hs => hs.step cfg answer h) hwf) (by simpa using hf)
            refine ⟨c4, hrun, hreach.trans h4, hq4, fun hlen => hstuck ?_⟩
            rw [hrest3]
            rw [hrest] at hlt
            omega

/-- `processInputBuffer` takes steps, and all that are possible when it is not put off. -/
theorem processInputBuffer_spec (turns : Option ℕ) (hq : c.qbPos ≤ c.querybuf.length)
    (hwf : Wf c.trim) (hfreed : c.freed = false) :
    ∃ c', processInputBuffer cfg answer turns c = .ok c' ∧ Reaches (step cfg answer) c.trim c'.trim ∧
      (c'.freed = false → c'.qbPos = 0) ∧ c'.qbPos ≤ c'.querybuf.length ∧
      (turns = none → step cfg answer c'.trim = none) := by
  obtain ⟨c1, hrun, hreach, hq1, hstuck⟩ :=
    processInputLoop_spec cfg answer (turns.getD (c.rest.length + 1)) c hq hwf hfreed
  rw [processInputBuffer, hrun]
  have hstuck : turns = none → step cfg answer c1.trim = none := by
    rintro rfl
    exact hstuck (Nat.lt_succ_self _)
  simp only [bind, Except.bind]
  split
  · rename_i hf
    exact ⟨c1, rfl, hreach, fun h => (Bool.false_ne_true (h.symm.trans hf)).elim, hq1, hstuck⟩
  · have htrim : c1.trim.trim = c1.trim := trim_trim c1
    exact ⟨c1.trim, rfl, htrim ▸ hreach, fun _ => rfl, Nat.zero_le _, fun h => htrim.symm ▸ hstuck h⟩

end RedisZk.Networking
