/-
# A replica forwards what it applies

The stream of a master is made of commands, as multi bulk requests or as lines. The offset
`reploff` of the master's client moves to the end of a command when it leaves the replica
outside of a transaction, and the bytes up to there go to the backlog and the sub-replicas.
A connection that is lost is cached with that offset, and `PSYNC` asks for the stream from
there on.

Key definitions: `Frame`, `inMulti`, `Forwarded`, `replicationCacheMaster`, `psyncOffset`,
`Link`, `relay`.
Key theorems: `path_frame`, `Forwarded.frame`, `progress`, `replica_forwards_applied`.
-/
import RedisZk.Networking.Chunks

namespace RedisZk.Networking

open Incremental
open Streams (Sds ll2string)

/-! ### Commands of the stream -/

/-- A command as a master writes it: a multi bulk request, or a line. -/
inductive Frame
  | request (argv : List Sds)
  | line (s : Sds)

def Frame.bytes : Frame → Sds
  | .request argv => encode argv
  | .line s => s ++ [10]

/-- The arguments of a line, up to the carriage return. -/
def lineArgv (s : Sds) : Option (List Sds) := sdssplitargs (s.take (lineLen s s.length))

def Frame.argv : Frame → List Sds
  | .request argv => argv
  | .line s => (lineArgv s).getD []

/-- A command within the limits of the configuration. A line has no newline and no null
character in it, does not start like a multi bulk request, and its quotes are balanced. -/
def Frame.Complete (cfg : Config) : Frame → Prop
  | .request argv => argv.length ≤ 1024 * 1024 ∧ ∀ arg ∈ argv, arg.length ≤ cfg.protoMaxBulkLen
  | .line s => (∀ x ∈ s, x ≠ 10 ∧ x ≠ 0) ∧ s.head? ≠ some 42 ∧ s.length ≤ PROTO_INLINE_MAX_SIZE ∧
    (lineArgv s).isSome

instance (cfg : Config) : DecidablePred (Frame.Complete cfg) := fun f => by
  cases f <;> unfold Frame.Complete <;> infer_instance

/-- The argument vectors that are not empty. -/
def commands (fs : List Frame) : List (List Sds) := (fs.map Frame.argv).filter (· ≠ [])

/-- The bytes of commands. -/
def bytes (fs : List Frame) : Sds := fs.flatMap Frame.bytes

@[simp] theorem commands_nil : commands [] = [] := rfl

@[simp] theorem commands_append (fs gs : List Frame) : commands (fs ++ gs) = commands fs ++ commands gs := by
  simp [commands]

@[simp] theorem bytes_nil : bytes [] = [] := rfl

@[simp] theorem bytes_append (fs gs : List Frame) : bytes (fs ++ gs) = bytes fs ++ bytes gs := by
  simp [bytes]

@[simp] theorem bytes_cons (f : Frame) (fs : List Frame) : bytes (f :: fs) = f.bytes ++ bytes fs := rfl

theorem commands_singleton (f : Frame) : commands [f] = if f.argv = [] then [] else [f.argv] := by
  by_cases h : f.argv = [] <;> simp [commands, h]

theorem lineLen_newline (s v : Sds) : lineLen (s ++ 10 :: v) s.length = lineLen s s.length :=
  lineLen_append (Nat.le_refl _) _

variable {cfg : Config} (answer : List (List Sds) → After) {c : QueryClient}

/-- A command that is there is parsed and run, and no other before. -/
theorem path_frame {f : Frame} {v : Sds} (h : Between c) (hq : c.querybuf = f.bytes ++ v)
    (hf : f.Complete cfg) :
    ∃ r, Path cfg answer c (runCommand answer { c with querybuf := v, reqtype := r, argv := f.argv }) := by
  cases f with
  | request argv => exact ⟨_, path_command answer h hq hf.1 hf.2⟩
  | line s =>
    obtain ⟨hchars, hhead, hlen, hsplit⟩ := hf
    obtain ⟨argv, hargv⟩ := Option.isSome_iff_exists.mp hsplit
    obtain ⟨c1, hc1⟩ : ∃ c1, c1 = { c with reqtype := some ReqType.inline } := ⟨_, rfl⟩
    have hq : c.querybuf = s ++ 10 :: v := by
      rw [hq, Frame.bytes]
      simp
    have hfirst : step cfg answer c = some c1 := by
      rw [step, if_neg (by simp [h.closing, h.freed]), h.reqtype]
      have hstar : ¬ c.querybuf.head? = some 42 := by
        rw [hq]
        cases s with
        | nil => simp
        | cons x s => exact hhead
      simp only
      rw [if_neg (by rw [hq]; simp), if_neg hstar, hc1]
    have hstr : strchr c1.querybuf 10 = some s.length := by
      rw [hc1, ← strchr_of_notMem hchars v]
      exact congrArg (strchr · 10) hq
    have hline : step cfg answer c1 =
        some (runCommand answer { c with querybuf := v, reqtype := some .inline, argv := argv }) := by
      have hdrop : c.querybuf.drop (s.length + 1) = v := by
        rw [hq, show s ++ 10 :: v = (s ++ [10]) ++ v by simp]
        exact List.drop_left' (by simp)
      have htake : c1.querybuf.take (lineLen c1.querybuf s.length) = s.take (lineLen s s.length) := by
        rw [hc1]
        show c.querybuf.take (lineLen c.querybuf s.length) = _
        rw [hq, lineLen_newline, List.take_append_of_le_length (lineLen_le s _)]
      rw [lineArgv, ← htake] at hargv
      have hnext : step cfg answer c1 = lineStep answer c1 := by
        rw [step, if_neg (by rw [hc1]; simp [h.closing, h.freed]), hc1]
      rw [hnext, lineStep]
      simp only [hstr, hargv]
      rw [hc1]
      simp only [QueryClient.cut, hdrop]
    refine ⟨some .inline, ?_⟩
    rw [Frame.argv, hargv, Option.getD_some]
    refine (Path.single hfirst h.shortLine).trans (by rw [hc1]; exact ⟨rfl, rfl, rfl, rfl, rfl⟩)
      (.single hline fun _ _ => ⟨fun _ k hk => ?_, fun hr => ?_⟩)
    · rw [hstr] at hk
      cases hk
      exact hlen
    · rw [hc1] at hr
      cases hr

/-! ### What is applied -/

/-- The flag `CLIENT_MULTI` after commands: a transaction is open when its `MULTI` was taken,
and no `EXEC` or `DISCARD` after it. -/
def inMulti : List (List Sds) → Bool → List (List Sds) → Bool
  | _, multi, [] => multi
  | handed, multi, argv :: cmds =>
    inMulti (handed ++ [argv]) (if (answer (handed ++ [argv])).refused then multi else multiAfter multi argv) cmds

theorem inMulti_append (cmds cmds' : List (List Sds)) : ∀ (handed : List (List Sds)) (multi : Bool),
    inMulti answer handed multi (cmds ++ cmds') =
      inMulti answer (handed ++ cmds) (inMulti answer handed multi cmds) cmds' := by
  induction cmds with
  | nil => simp [inMulti]
  | cons argv cmds ih =>
    intro handed multi
    simp only [List.cons_append, inMulti]
    rw [ih]
    simp

/-- A client has applied the commands `fed`, to which its offset has moved from `o`, and has
been handed those of `left`, which are in a transaction, but for a last one that had the
client closed. -/
structure Forwarded (h0 : List (List Sds)) (o : ℤ) (c : QueryClient) (fed left : List Frame) : Prop where
  handed : c.handed = h0 ++ commands (fed ++ left)
  reploff : c.reploff = o + (bytes fed).length
  outside : inMulti answer h0 false (commands fed) = false
  inside : ∀ t u, commands left = t ++ u → t ≠ [] →
    inMulti answer h0 false (commands fed ++ t) = true ∨ u = [] ∧ (c.closing || c.freed) = true
  multi : (c.closing || c.freed) = false → c.multi = inMulti answer h0 false (commands (fed ++ left))

variable {answer} {o : ℤ} {h0 : List (List Sds)}

theorem Forwarded.same {c c' : QueryClient} {fed left : List Frame}
    (h : Forwarded answer h0 o c fed left) (hs : Same c c') : Forwarded answer h0 o c' fed left := by
  refine ⟨by rw [hs.handed, h.handed], by rw [hs.reploff, h.reploff], h.outside, ?_, ?_⟩
  · rw [hs.closing, hs.freed]
    exact h.inside
  · rw [hs.closing, hs.freed, hs.multi]
    exact h.multi

/-- One more command in the transaction. -/
theorem Forwarded.inside_snoc {fed left : List Frame} {argv : List Sds}
    (h : Forwarded answer h0 o c fed left) (hopen : (c.closing || c.freed) = false) {closed : Prop}
    (hlast : inMulti answer h0 false (commands fed ++ (commands left ++ [argv])) = true ∨ closed) (t u : List (List Sds))
    (htu : commands left ++ [argv] = t ++ u) (ht : t ≠ []) :
    inMulti answer h0 false (commands fed ++ t) = true ∨ u = [] ∧ closed := by
  rcases List.eq_nil_or_concat u with rfl | ⟨u, x, rfl⟩
  · rw [List.append_nil] at htu
    rw [← htu]
    exact hlast.imp id fun hc => ⟨rfl, hc⟩
  · rw [List.concat_eq_append, ← List.append_assoc] at htu
    obtain ⟨hleft, -⟩ := List.append_inj' htu rfl
    rcases h.inside t u hleft ht with hin | ⟨-, hc⟩
    · exact .inl hin
    · rw [hopen] at hc
      cases hc

/-- A client is between two commands, with the bytes `v` to be parsed. -/
structure Ready (o : ℤ) (c : QueryClient) (read : ℕ) (v : Sds) : Prop where
  between : Between c
  master : c.master = true
  qbPos : c.qbPos = 0
  querybuf : c.querybuf = v
  readReploff : c.readReploff = o + read + v.length

/-- **One more command.** The offset moves to its end if it leaves the client outside of a
transaction. -/
theorem Forwarded.frame {f : Frame} {fed left : List Frame} {v : Sds}
    (h : Forwarded answer h0 o c fed left) (hc : Ready o c (bytes (fed ++ left)).length (f.bytes ++ v))
    (r : Option ReqType) : ∃ c' fed' left',
      c' = runCommand answer { c with querybuf := v, reqtype := r, argv := f.argv } ∧
      fed' ++ left' = fed ++ left ++ [f] ∧ Forwarded answer h0 o c' fed' left' ∧
      ((c'.closing || c'.freed) = false → Ready o c' (bytes (fed' ++ left')).length v) := by
  obtain ⟨c1, hc1⟩ : ∃ c1, c1 = { c with querybuf := v, reqtype := r, argv := f.argv } := ⟨_, rfl⟩
  have hopen : (c.closing || c.freed) = false := by simp [hc.between.closing, hc.between.freed]
  have hread : c.readReploff = o + (bytes (fed ++ left ++ [f])).length + v.length := by
    rw [hc.readReploff]
    simp
    omega
  have hhanded : c1.handed = h0 ++ commands (fed ++ left) := by rw [hc1, ← h.handed]
  have hreploff : c1.reploff = o + (bytes fed).length := by rw [hc1, ← h.reploff]
  have hmulti : c1.multi = inMulti answer h0 false (commands (fed ++ left)) := by
    rw [hc1]
    exact h.multi hopen
  by_cases hnil : f.argv = []
  · have hcmds : commands (left ++ [f]) = commands left := by simp [commands_singleton, hnil]
    refine ⟨resetClient c1, fed, left ++ [f], ?_, by simp, ⟨?_, hreploff, h.outside, ?_, ?_⟩, fun _ => ?_⟩
    · rw [← hc1, runCommand_empty answer (by rw [hc1]; exact hnil)]
    · rw [commands_append, hcmds, ← commands_append]
      exact hhanded
    · rw [hcmds, hc1]
      exact h.inside
    · rw [commands_append, hcmds, ← commands_append]
      exact fun _ => hmulti
    · rw [hc1, ← List.append_assoc]
      exact ⟨⟨hc.between.closing, hc.between.freed, rfl, rfl, rfl, rfl⟩, hc.master, hc.qbPos, rfl, hread⟩
  · have hcmds : commands (left ++ [f]) = commands left ++ [f.argv] := by simp [commands_singleton, hnil]
    have hall : commands (fed ++ left) ++ [f.argv] = commands (fed ++ (left ++ [f])) := by
      rw [commands_append, commands_append, hcmds, List.append_assoc]
    have hargv : c1.argv = f.argv := by rw [hc1]
    have hne : c1.argv ≠ [] := by rw [hargv]; exact hnil
    have hnext : c1.handed ++ [c1.argv] = h0 ++ commands (fed ++ (left ++ [f])) := by
      rw [hhanded, hargv, List.append_assoc, hall]
    obtain ⟨c2, hrun⟩ : ∃ c2, c2 = runCommand answer { c with querybuf := v, reqtype := r, argv := f.argv } := ⟨_, rfl⟩
    have hc2 := hrun
    rw [← hc1] at hc2
    by_cases hquit : commandName c1.argv = sds "quit"
    · rw [runCommand_quit answer hne hquit] at hc2
      have hcl : (c2.closing || c2.freed) = true := by rw [hc2, Bool.true_or]
      refine ⟨c2, fed, left ++ [f], hrun, by simp, ⟨by rw [hc2]; exact hnext, by rw [hc2]; exact hreploff, h.outside,
        ?_, fun hop => ?_⟩, fun hop => ?_⟩
      · rw [hcmds]
        exact h.inside_snoc hopen (.inr hcl)
      · exact (Bool.false_ne_true (hop.symm.trans hcl)).elim
      · exact (Bool.false_ne_true (hop.symm.trans hcl)).elim
    · by_cases hf : (answer (c1.handed ++ [c1.argv])).freed = true
      · rw [runCommand_freed answer hne hquit hf] at hc2
        have hcl : (c2.closing || c2.freed) = true := by rw [hc2, Bool.or_true]
        refine ⟨c2, fed, left ++ [f], hrun, by simp, ⟨by rw [hc2]; exact hnext, by rw [hc2]; exact hreploff, h.outside,
          ?_, fun hop => ?_⟩, fun hop => ?_⟩
        · rw [hcmds]
          exact h.inside_snoc hopen (.inr hcl)
        · exact (Bool.false_ne_true (hop.symm.trans hcl)).elim
        · exact (Bool.false_ne_true (hop.symm.trans hcl)).elim
      · rw [runCommand_ok answer hne hquit hf] at hc2
        have hready : (c2.closing || c2.freed) = false → Ready o c2 (bytes (fed ++ left ++ [f])).length v := by
          intro hcl
          rw [Bool.or_eq_false_iff] at hcl
          have hb : Between c2 := ⟨hcl.1, hcl.2, by rw [hc2]; rfl, by rw [hc2]; rfl, by rw [hc2]; rfl, by rw [hc2]; rfl⟩
          refine ⟨hb, ?_, ?_, ?_, ?_⟩
          · rw [hc2, hc1]
            exact hc.master
          · rw [hc2, hc1]
            exact hc.qbPos
          · rw [hc2, hc1]
            rfl
          · rw [hc2, hc1]
            exact hread
        have hleft : multiLeft answer c1 = inMulti answer h0 false (commands (fed ++ (left ++ [f]))) := by
          rw [← hall, inMulti_append, ← hmulti, ← hhanded, multiLeft, hargv]
          rfl
        have hmulti2 : c2.multi = multiLeft answer c1 := by rw [hc2]; rfl
        have hhanded2 : c2.handed = c1.handed ++ [c1.argv] := by rw [hc2]; rfl
        have hmaster : c1.master = true := by rw [hc1]; exact hc.master
        by_cases hm : multiLeft answer c1 = true
        · have hreploff2 : c2.reploff = c1.reploff := by
            rw [hc2]
            show (if c1.master ∧ !multiLeft answer c1 then _ else c1.reploff) = _
            rw [if_neg (by simp [hm])]
          refine ⟨c2, fed, left ++ [f], hrun, by simp,
            ⟨hhanded2.trans hnext, hreploff2.trans hreploff, h.outside, ?_, fun _ => hmulti2.trans hleft⟩, ?_⟩
          · rw [hcmds]
            refine h.inside_snoc hopen (.inl ?_)
            rw [← hcmds, ← commands_append, ← hleft]
            exact hm
          · rw [← List.append_assoc]
            exact hready
        · have hreploff2 : c2.reploff = o + (bytes (fed ++ left ++ [f])).length := by
            rw [hc2]
            show (if c1.master ∧ !multiLeft answer c1 then c1.readReploff - c1.querybuf.length + c1.qbPos else _) = _
            rw [if_pos ⟨hmaster, by simpa using hm⟩, hc1]
            show c.readReploff - v.length + c.qbPos = _
            rw [hread, hc.qbPos]
            omega
          refine ⟨c2, fed ++ left ++ [f], [], hrun, by simp,
            ⟨?_, hreploff2, ?_, ?_, ?_⟩, ?_⟩
          · rw [List.append_nil, List.append_assoc]
            exact hhanded2.trans hnext
          · rw [List.append_assoc, ← hleft]
            simpa using hm
          · intro t u htu ht
            exact absurd (List.append_eq_nil_iff.mp htu.symm).1 ht
          · rw [List.append_nil, List.append_assoc]
            exact fun _ => hmulti2.trans hleft
          · rw [List.append_nil]
            exact hready

/-- Wherever the parser is in the stream, what is applied is known, and the lines are short. -/
theorem progress : ∀ (rest : List Frame) {c : QueryClient} {fed left : List Frame},
    Forwarded answer h0 o c fed left → Ready o c (bytes (fed ++ left)).length (bytes rest) →
    (∀ f ∈ rest, f.Complete cfg) → ∀ q, Reaches (step cfg answer) c q →
    ShortLine q ∧ ∃ fed' left' rest', fed' ++ left' ++ rest' = fed ++ left ++ rest ∧ Forwarded answer h0 o q fed' left'
  | [], c, fed, left, h, hc, _, q, hq => by
    rw [hq.eq_of_stuck (step_of_empty cfg answer hc.querybuf)]
    exact ⟨hc.between.shortLine, fed, left, [], rfl, h⟩
  | f :: rest, c, fed, left, h, hc, hok, q, hq => by
    obtain ⟨r, hpath⟩ := path_frame answer (v := bytes rest) hc.between hc.querybuf (hok f List.mem_cons_self)
    obtain ⟨c', fed', left', hrun, hsplit, hc', hready⟩ := h.frame (v := bytes rest) hc r
    rw [← hrun] at hpath
    have hall : fed' ++ left' ++ rest = fed ++ left ++ f :: rest := by simp [hsplit]
    rcases hpath.2 q hq with ⟨hsame, hshort⟩ | hq
    · exact ⟨hshort, fed, left, f :: rest, rfl, h.same hsame⟩
    · by_cases hopen : (c'.closing || c'.freed) = false
      · rw [← hall]
        exact progress rest hc' (hready hopen) (fun g hg => hok g (List.mem_cons_of_mem _ hg)) q hq
      · have hclosed : (c'.closing || c'.freed) = true := Bool.eq_true_of_not_eq_false hopen
        have hstuck : step cfg answer c' = none := by rw [step, if_pos hclosed]
        rw [hq.eq_of_stuck hstuck]
        exact ⟨shortLine_of_closed hclosed, fed', left', rest, hall, hc'⟩

/-! ### The offset and the buffers -/

/-- The offset is within what was read and is parsed. -/
structure Low (c : QueryClient) : Prop where
  qbPos : c.qbPos = 0
  reploff : c.reploff ≤ c.readReploff - c.querybuf.length

/-- A client is further in the same stream. -/
structure Ahead (c c' : QueryClient) : Prop where
  low : Low c'
  master : c'.master = c.master
  readReploff : c'.readReploff = c.readReploff
  reploff : c.reploff ≤ c'.reploff

theorem Ahead.trans {a b c : QueryClient} (h : Ahead a b) (h' : Ahead b c) : Ahead a c :=
  ⟨h'.low, h'.master.trans h.master, h'.readReploff.trans h.readReploff, h.reploff.trans h'.reploff⟩

theorem runCommand_ahead (answer : List (List Sds) → After) (h : Low c) :
    Ahead c (runCommand answer c) := by
  have hlow := h.reploff
  by_cases hnil : c.argv = []
  · rw [runCommand_empty answer hnil]
    exact ⟨⟨h.qbPos, hlow⟩, rfl, rfl, le_refl _⟩
  · by_cases hquit : commandName c.argv = sds "quit"
    · rw [runCommand_quit answer hnil hquit]
      exact ⟨⟨h.qbPos, hlow⟩, rfl, rfl, le_refl _⟩
    · by_cases hf : (answer (c.handed ++ [c.argv])).freed = true
      · rw [runCommand_freed answer hnil hquit hf]
        exact ⟨⟨h.qbPos, hlow⟩, rfl, rfl, le_refl _⟩
      · rw [runCommand_ok answer hnil hquit hf]
        have hend : c.readReploff - c.querybuf.length + c.qbPos = c.readReploff - c.querybuf.length := by
          rw [h.qbPos]
          omega
        refine ⟨⟨h.qbPos, ?_⟩, rfl, rfl, ?_⟩
        · show (if _ then _ else _) ≤ c.readReploff - c.querybuf.length
          split
          · exact hend.le
          · exact hlow
        · show c.reploff ≤ if _ then _ else _
          split
          · exact hlow.trans hend.ge
          · exact le_refl _

theorem Low.cut (h : Low c) (n : ℕ) (argv : List Sds) (m : ℕ) (bulklen : Option ℕ) :
    Low { c.cut n with argv := argv, multibulklen := m, bulklen := bulklen } := by
  refine ⟨h.qbPos, ?_⟩
  have := h.reploff
  show c.reploff ≤ c.readReploff - (c.querybuf.drop n).length
  rw [List.length_drop]
  omega

theorem Ahead.step {c c' : QueryClient} (hs : Networking.step cfg answer c = some c') (h : Low c) : Ahead c c' := by
  obtain ⟨-, -, heff⟩ := step_effect cfg answer hs
  cases heff with
  | kind hr => exact ⟨⟨h.qbPos, h.reploff⟩, rfl, rfl, le_refl _⟩
  | fail err => exact ⟨⟨h.qbPos, h.reploff⟩, rfl, rfl, le_refl _⟩
  | part n argv m bulklen hr hm hn => exact ⟨h.cut n argv m bulklen, rfl, rfl, le_refl _⟩
  | command n argv m bulklen hn =>
    have hrun := runCommand_ahead answer (h.cut n argv m bulklen)
    exact ⟨hrun.low, hrun.master, hrun.readReploff, hrun.reploff⟩

theorem Ahead.reaches {c c' : QueryClient} (hr : Reaches (Networking.step cfg answer) c c') (h : Low c) : Ahead c c' :=
  hr.keeps (P := Ahead c) (fun _ _ hs ha => ha.trans (.step hs ha.low)) ⟨h, rfl, rfl, le_refl _⟩

/-- What the backlog and the sub-replicas get in two pieces. -/
theorem replicationFeed_append (s : Repl) (u v : Sds) :
    replicationFeedSlavesFromMasterStream (replicationFeedSlavesFromMasterStream s u) v =
      replicationFeedSlavesFromMasterStream s (u ++ v) := by
  have hslaves : ∀ slave : SubReplica,
      (fun slave : SubReplica => if slave.waiting then slave else { slave with received := slave.received ++ v })
        (if slave.waiting then slave else { slave with received := slave.received ++ u }) =
      if slave.waiting then slave else { slave with received := slave.received ++ (u ++ v) } := by
    intro slave
    cases hw : slave.waiting <;> simp [hw]
  cases hb : s.replBacklog <;>
    simp [replicationFeedSlavesFromMasterStream, feedReplicationBacklog, hb, add_assoc] <;>
    exact fun slave _ => hslaves slave

theorem replicationFeed_nil (s : Repl) : replicationFeedSlavesFromMasterStream s [] = s := by
  obtain ⟨replBacklog, slaves, offset⟩ := s
  cases replBacklog <;> simp [replicationFeedSlavesFromMasterStream, feedReplicationBacklog]

/-- How a connection, which began at `o`, and the server stand to the stream: what is read
and not applied is pending, and what is applied was fed. -/
structure Fed (o : ℤ) (repl : Repl) (stream : Sds) (k : Conn) : Prop where
  low : Low k.client.trim
  master : k.client.master = true
  start : o ≤ k.client.reploff
  read : ∃ u, u ++ k.incoming = stream ∧ k.client.readReploff = o + u.length ∧
    k.pendingQuerybuf = u.drop (k.client.reploff - o).toNat
  repl : k.repl = replicationFeedSlavesFromMasterStream repl (stream.take (k.client.reploff - o).toNat)

variable {k : Conn} {repl : Repl}

theorem Fed.bound {stream : Sds} (h : Fed o repl stream k) :
    k.client.reploff ≤ k.client.readReploff := by
  have hlow : k.client.reploff ≤ k.client.readReploff - k.client.rest.length := h.low.reploff
  omega

variable (cfg answer) in
theorem Fed.process {stream : Sds} (h : Fed o repl stream k) (turns : Option ℕ)
    (hq : k.client.qbPos = 0) (hwf : Wf k.client.trim) (hfreed : k.client.freed = false) :
    ∃ k', processInputBufferAndReplicate cfg answer turns k = .ok k' ∧ Fed o repl stream k' := by
  obtain ⟨c, hrun, hreach, -⟩ := processInputBuffer_spec cfg answer turns (hq.trans_le (Nat.zero_le _)) hwf hfreed
  have hahead := Ahead.reaches hreach h.low
  have hmaster : c.master = true := hahead.master.trans h.master
  have hread : c.readReploff = k.client.readReploff := hahead.readReploff
  have hmono : k.client.reploff ≤ c.reploff := hahead.reploff
  have hbound : c.reploff ≤ c.readReploff := by
    have hlow : c.reploff ≤ c.readReploff - c.rest.length := hahead.low.reploff
    omega
  obtain ⟨u, hstream, hu, hpending⟩ := h.read
  have hstart := h.start
  rw [processInputBufferAndReplicate, hrun, h.master]
  simp only [Bool.not_true, Bool.false_eq_true, if_false, bind, Except.bind]
  split
  · rename_i hzero
    have hsame : c.reploff = k.client.reploff := by omega
    refine ⟨_, rfl, hahead.low, hmaster, hsame ▸ hstart, ⟨u, hstream, hread.trans hu, ?_⟩, ?_⟩
    · show k.pendingQuerybuf = u.drop (c.reploff - o).toNat
      rw [hsame, hpending]
    · show k.repl = replicationFeedSlavesFromMasterStream repl (stream.take (c.reploff - o).toNat)
      rw [hsame, h.repl]
  · obtain ⟨n, hn⟩ : ∃ n, n = (c.reploff - k.client.reploff).toNat := ⟨_, rfl⟩
    obtain ⟨a, ha⟩ : ∃ a, a = (k.client.reploff - o).toNat := ⟨_, rfl⟩
    have hsum : (c.reploff - o).toNat = a + n := by omega
    have hle : a + n ≤ u.length := by omega
    refine ⟨_, rfl, hahead.low, hmaster, hstart.trans hmono, ⟨u, hstream, hread.trans hu, ?_⟩, ?_⟩
    · show k.pendingQuerybuf.drop (c.reploff - k.client.reploff).toNat = u.drop (c.reploff - o).toNat
      rw [hsum, hpending, ← ha, ← hn, List.drop_drop]
    · show replicationFeedSlavesFromMasterStream k.repl (k.pendingQuerybuf.take (c.reploff - k.client.reploff).toNat) =
        replicationFeedSlavesFromMasterStream repl (stream.take (c.reploff - o).toNat)
      have htake : ∀ m ≤ u.length, stream.take m = u.take m := by
        intro m hm
        rw [← hstream, List.take_append_of_le_length hm]
      rw [hsum, h.repl, hpending, ← ha, ← hn, replicationFeed_append, htake a (by omega), htake (a + n) hle, List.take_add]

variable {start : QueryClient}

theorem Fed.arrive {stream : Sds} (h : Fed o repl stream k)
    (ht : Tracks cfg answer start k) (e : Arrival) :
    ∃ k', Networking.arrive cfg answer k e = .ok k' ∧ Fed o repl stream k' := by
  unfold Networking.arrive
  split
  · exact ⟨k, rfl, h⟩
  · rename_i hgone
    rw [Bool.or_eq_true, not_or, Bool.not_eq_true, Bool.not_eq_true] at hgone
    have hq := ht.qbPos hgone.2
    cases e with
    | resume turns => exact h.process cfg answer turns hq ht.wf hgone.2
    | read n turns =>
      obtain ⟨data, hdata⟩ : ∃ data, data = k.incoming.take (min n (readlen k.client)) := ⟨_, rfl⟩
      simp only [readQueryFromClient]
      rw [← hdata]
      split
      · exact ⟨k, rfl, h⟩
      · obtain ⟨k1, hk1⟩ : ∃ k1 : Conn, k1 = { k with
          client := feed data k.client
          pendingQuerybuf := if k.client.master then k.pendingQuerybuf ++ data else k.pendingQuerybuf
          incoming := k.incoming.drop data.length } := ⟨_, rfl⟩
        have htrim : k1.client.trim = feed data k.client.trim := by
          rw [hk1, trim_eq hq]
          exact trim_eq hq
        have hsplit : data ++ k.incoming.drop data.length = k.incoming := by
          obtain ⟨r, hr⟩ : data <+: k.incoming := hdata ▸ List.take_prefix _ _
          rw [← hr, List.drop_left]
        have hread1 : k1.client.readReploff = k.client.readReploff + data.length := by
          rw [hk1]
          show (if k.client.master then _ else _) = _
          rw [if_pos h.master]
        have hfed : Fed o repl stream k1 := by
          obtain ⟨u, hstream, hu, hpending⟩ := h.read
          have hbound := h.bound
          have hstart := h.start
          refine ⟨?_, by rw [hk1]; exact h.master, by rw [hk1]; exact h.start, ⟨u ++ data, ?_, ?_, ?_⟩, ?_⟩
          · rw [htrim]
            refine ⟨rfl, ?_⟩
            have hlow := h.low.reploff
            have hmaster : k.client.trim.master = true := h.master
            simp only [feed, hmaster, if_true, List.length_append, Nat.cast_add]
            omega
          · rw [hk1]
            show u ++ data ++ k.incoming.drop data.length = stream
            rw [List.append_assoc, hsplit, hstream]
          · rw [hread1, hu, List.length_append]
            omega
          · rw [hk1]
            show (if k.client.master then _ else _) = (u ++ data).drop (k.client.reploff - o).toNat
            rw [if_pos h.master, hpending, List.drop_append_of_le_length (by omega)]
          · rw [hk1]
            exact h.repl
        split
        · exact ⟨{ k1 with limited := true }, by rw [hk1]; rfl, hfed.low, hfed.master, hfed.start, hfed.read, hfed.repl⟩
        · obtain ⟨k', hrun, hk'⟩ := hfed.process cfg answer turns (by rw [hk1]; exact hq)
            (by rw [htrim]; exact ht.wf.feed data) (by rw [hk1]; exact hgone.2)
          exact ⟨k', by rw [← hrun, hk1]; rfl, hk'⟩

/-! ### Lost connections -/

/-- The client of a master whose connection is lost is kept, without what is not applied. -/
def replicationCacheMaster (k : Conn) : Conn :=
  { k with
    client := resetClient { k.client with querybuf := [], readReploff := k.client.reploff, multi := false }
    pendingQuerybuf := [] }

/-- The offset of `PSYNC`, of the first byte that is asked for. -/
def psyncOffset (cached : Conn) : ℤ := cached.client.reploff + 1

/-- The stream from an offset on; `o` is the offset of the last byte before the stream. -/
def streamFrom (o : ℤ) (stream : Sds) (offset : ℤ) : Sds := stream.drop (offset - 1 - o).toNat

/-- The cached client on a new connection. -/
def replicationResurrectCachedMaster (incoming : Sds) (k : Conn) : Conn :=
  { k with client := { k.client with closing := false }, incoming := incoming, limited := false }

/-- The connection is lost, and the master continues the stream from the offset that it is
asked for. A client that is to be closed is not cached. -/
def reconnect (o : ℤ) (stream : Sds) (k : Conn) : Conn :=
  if k.client.closing || k.client.freed then k
  else
    let k := replicationCacheMaster k
    replicationResurrectCachedMaster (streamFrom o stream (psyncOffset k)) k

inductive LinkEvent
  | arrival (e : Arrival)
  | lost
deriving DecidableEq

/-- The link to a master that writes `stream`. -/
def relay (cfg : Config) (answer : List (List Sds) → After) (o : ℤ) (stream : Sds) :
    Conn → List LinkEvent → Except Abort Conn
  | k, [] => .ok k
  | k, .arrival e :: es => do
    let k ← arrive cfg answer k e
    relay cfg answer o stream k es
  | k, .lost :: es => relay cfg answer o stream (reconnect o stream k) es

/-- No command that opens or closes a transaction is refused. -/
def TransactionsTaken (answer : List (List Sds) → After) : Prop :=
  ∀ handed argv multi, (answer (handed ++ [argv])).refused = true → multiAfter multi argv = multi

theorem inMulti_of_taken (h : TransactionsTaken answer) (cmds : List (List Sds)) :
    ∀ handed multi, inMulti answer handed multi cmds = cmds.foldl multiAfter multi := by
  induction cmds with
  | nil => exact fun _ _ => rfl
  | cons argv cmds ih =>
    intro handed multi
    rw [inMulti, ih, List.foldl_cons]
    split
    · rename_i hr
      rw [h handed argv multi hr]
    · rfl

/-- A link on which the commands `before` were applied over connections that are lost, and
the present one goes on with those of `rest`. -/
structure Relaying (cfg : Config) (answer : List (List Sds) → After) (o : ℤ) (repl : Repl) (k : Conn)
    (before rest : List Frame) (start : QueryClient) : Prop where
  ready : Ready (o + (bytes before).length) start 0 (bytes rest)
  multi : start.multi = false
  reploff : start.reploff = o + (bytes before).length
  blocks : TransactionsTaken answer → (commands before).foldl multiAfter false = false
  tracks : Tracks cfg answer start k
  fed : Fed (o + (bytes before).length) (replicationFeedSlavesFromMasterStream repl (bytes before)) (bytes rest) k

variable {before rest : List Frame}

theorem Relaying.forwarded
    (h : Relaying cfg answer o repl k before rest start) :
    Forwarded answer start.handed (o + (bytes before).length) start [] [] := by
  refine ⟨by simp, by simp [h.reploff], rfl, ?_, fun _ => h.multi⟩
  intro t u htu ht
  exact absurd (List.append_eq_nil_iff.mp htu.symm).1 ht

/-- What was applied of the present connection. -/
theorem Relaying.applied
    (h : Relaying cfg answer o repl k before rest start) (hok : ∀ f ∈ rest, f.Complete cfg) :
    ∃ fed left rest', rest = fed ++ left ++ rest' ∧
      Forwarded answer start.handed (o + (bytes before).length) k.client fed left := by
  obtain ⟨v, -, hreach⟩ := h.tracks.reaches
  obtain ⟨-, fed, left, rest', hsplit, hq⟩ := progress rest h.forwarded h.ready hok _ hreach
  exact ⟨fed, left, rest', hsplit.symm, hq.same ⟨rfl, rfl, rfl, rfl, rfl⟩⟩

theorem Relaying.arrive
    (h : Relaying cfg answer o repl k before rest start) (hok : ∀ f ∈ rest, f.Complete cfg) (e : Arrival) :
    ∃ k', Networking.arrive cfg answer k e = .ok k' ∧ Relaying cfg answer o repl k' before rest start := by
  have hsafe := fun q hq => (progress rest h.forwarded h.ready hok q hq).1
  obtain ⟨k', hrun, htracks, -⟩ := h.tracks.arrive hsafe e
  obtain ⟨k1, hrun1, hfed⟩ := h.fed.arrive h.tracks e
  rw [hrun] at hrun1
  cases hrun1
  exact ⟨k', hrun, h.ready, h.multi, h.reploff, h.blocks, htracks, hfed⟩

/-- The stream is taken up at the first byte that is not applied. -/
theorem streamFrom_psyncOffset {applied : List Frame} (rest : List Frame)
    (h : k.client.reploff = o + (bytes applied).length) :
    streamFrom o (bytes (applied ++ rest)) (psyncOffset (replicationCacheMaster k)) = bytes rest := by
  have hoff : (psyncOffset (replicationCacheMaster k) - 1 - o).toNat = (bytes applied).length := by
    show (k.client.reploff + 1 - 1 - o).toNat = _
    omega
  rw [streamFrom, hoff, bytes_append, List.drop_left]

theorem Relaying.reconnect
    (h : Relaying cfg answer o repl k before rest start) (hok : ∀ f ∈ rest, f.Complete cfg) :
    ∃ before' rest' start', before' ++ rest' = before ++ rest ∧
      Relaying cfg answer o repl (Networking.reconnect o (bytes (before ++ rest)) k) before' rest' start' := by
  rw [Networking.reconnect]
  split
  · exact ⟨before, rest, start, rfl, h⟩
  · rename_i hopen
    rw [Bool.or_eq_true, not_or, Bool.not_eq_true, Bool.not_eq_true] at hopen
    obtain ⟨fed, left, rest', rfl, hfor⟩ := h.applied hok
    have hreploff : k.client.reploff = o + (bytes (before ++ fed)).length := by
      rw [hfor.reploff, bytes_append, List.length_append]
      omega
    have hq := h.tracks.qbPos hopen.2
    have hstream := streamFrom_psyncOffset (left ++ rest') hreploff
    obtain ⟨k', hk'⟩ : ∃ k', k' = replicationResurrectCachedMaster (bytes (left ++ rest')) (replicationCacheMaster k) :=
      ⟨_, rfl⟩
    have hall : before ++ fed ++ (left ++ rest') = before ++ (fed ++ left ++ rest') := by simp
    rw [hall] at hstream
    simp only [hstream]
    rw [← hk']
    have hmaster : k'.client.master = true := by rw [hk']; exact h.fed.master
    have hbetween : Between k'.client := by rw [hk']; exact ⟨rfl, hopen.2, rfl, rfl, rfl, rfl⟩
    have hreploff' : k'.client.reploff = o + (bytes (before ++ fed)).length := by rw [hk']; exact hreploff
    have hread' : k'.client.readReploff = o + (bytes (before ++ fed)).length := by rw [hk']; exact hreploff
    have hq' : k'.client.qbPos = 0 := by rw [hk']; exact hq
    have hbuf : k'.client.querybuf = [] := by rw [hk']; rfl
    have hmulti : k'.client.multi = false := by rw [hk']; rfl
    have hinc : k'.incoming = bytes (left ++ rest') := by rw [hk']; rfl
    refine ⟨before ++ fed, left ++ rest', feed (bytes (left ++ rest')) k'.client, hall,
      ⟨⟨hbetween.closing, hbetween.freed, hbetween.reqtype, hbetween.argv, hbetween.multibulklen, hbetween.bulklen⟩,
        hmaster, hq', ?_, ?_⟩, hmulti, hreploff', ?_, ⟨⟨_, fun _ => hinc.symm, ?_⟩, ?_, fun _ => hq'⟩,
      ⟨?_, hmaster, hreploff'.ge, ⟨[], hinc, ?_, ?_⟩, ?_⟩⟩
    · rw [feed, hbuf]
      rfl
    · show (if k'.client.master then _ else _) = _
      rw [if_pos hmaster, hread']
      omega
    · intro ht
      rw [commands_append, List.foldl_append, h.blocks ht, ← inMulti_of_taken ht]
      exact hfor.outside
    · rw [trim_eq hq']
      exact .refl _
    · rw [trim_eq hq']
      exact ⟨fun _ _ _ => ⟨hbetween.argv, hbetween.multibulklen⟩, fun hr => by rw [hbetween.reqtype] at hr; cases hr⟩
    · rw [trim_eq hq']
      exact ⟨hq', by rw [hreploff', hread', hbuf]; simp⟩
    · rw [hread']
      simp
    · rw [hk', List.drop_nil]
      rfl
    · rw [hreploff', Int.sub_self]
      show k'.repl = replicationFeedSlavesFromMasterStream _ []
      rw [replicationFeed_nil, hk']
      show k.repl = _
      have hoff : (k.client.reploff - (o + (bytes before).length)).toNat = (bytes fed).length := by
        rw [hfor.reploff]
        omega
      rw [h.fed.repl, hoff, replicationFeed_append, bytes_append, bytes_append, List.append_assoc, List.take_left,
        bytes_append]

theorem Relaying.relay {frames : List Frame} (hok : ∀ f ∈ frames, f.Complete cfg) :
    ∀ (es : List LinkEvent) {k : Conn} {before rest : List Frame} {start : QueryClient}, before ++ rest = frames →
    Relaying cfg answer o repl k before rest start →
    ∃ k' before' rest' start', Networking.relay cfg answer o (bytes frames) k es = .ok k' ∧ before' ++ rest' = frames ∧
      Relaying cfg answer o repl k' before' rest' start'
  | [], k, before, rest, start, hsplit, h => ⟨k, before, rest, start, rfl, hsplit, h⟩
  | .arrival e :: es, k, before, rest, start, hsplit, h => by
    obtain ⟨k1, hrun, h1⟩ := h.arrive (fun f hf => hok f (hsplit ▸ List.mem_append_right _ hf)) e
    obtain ⟨k', before', rest', start', hrun', hk'⟩ := Relaying.relay hok es hsplit h1
    refine ⟨k', before', rest', start', ?_, hk'⟩
    rw [Networking.relay, hrun]
    exact hrun'
  | .lost :: es, k, before, rest, start, hsplit, h => by
    obtain ⟨before1, rest1, start1, hsplit1, h1⟩ := h.reconnect fun f hf => hok f (hsplit ▸ List.mem_append_right _ hf)
    rw [hsplit] at hsplit1 h1
    exact Relaying.relay hok es hsplit1 h1

variable (answer) in
theorem connect_relaying (repl : Repl) (frames : List Frame) :
    Relaying cfg answer o repl (connect true o repl (bytes frames)) [] frames
      (feed (bytes frames) (newClient true o)) := by
  have hb := newClient_between true o (bytes frames)
  refine ⟨⟨hb, rfl, rfl, rfl, ?_⟩, rfl, by simp [feed, newClient], fun _ => rfl, connect_tracks true o repl _,
    ⟨⟨rfl, by simp [connect, newClient, QueryClient.trim, QueryClient.rest]⟩, rfl, by simp [connect, newClient],
      ⟨[], rfl, by simp [connect, newClient], List.drop_nil.symm⟩, ?_⟩⟩
  · simp [feed, newClient]
  · have hoff : ((connect true o repl (bytes frames)).client.reploff - (o + (bytes []).length)).toNat = 0 := by
      simp [connect, newClient]
    rw [hoff, List.take_zero, bytes_nil, replicationFeed_nil, replicationFeed_nil]
    rfl

/-- **A replica forwards what it applies.** For every stream of complete commands, every way
to read it, and connections that are lost anywhere: the backlog and the sub-replicas got the
stream up to `reploff`, by which the offset of the replica has advanced; this is the end of a
command that leaves the replica outside of a transaction, and what was handed over after it
is in one; and `PSYNC` asks for the stream from there on. -/
theorem replica_forwards_applied (cfg : Config) (answer : List (List Sds) → After) (o : ℤ) (backlog : Sds)
    (slaves : List SubReplica) (offset : ℤ) (frames : List Frame) (hok : ∀ f ∈ frames, f.Complete cfg)
    (es : List LinkEvent) :
    ∃ k, relay cfg answer o (bytes frames) (connect true o ⟨some backlog, slaves, offset⟩ (bytes frames)) es = .ok k ∧
      (k.client.freed = false → ∃ before fed left rest h0,
        frames = before ++ fed ++ left ++ rest ∧
        Forwarded answer h0 (o + (bytes before).length) k.client fed left ∧
        (TransactionsTaken answer → (commands (before ++ fed)).foldl multiAfter false = false) ∧
        (bytes frames).take (k.client.reploff - o).toNat = bytes (before ++ fed) ∧
        k.client.reploff = o + (bytes (before ++ fed)).length ∧
        k.repl.replBacklog = some (backlog ++ (bytes frames).take (k.client.reploff - o).toNat) ∧
        k.repl.masterReplOffset = offset + (k.client.reploff - o) ∧
        (k.repl.slaves = slaves.map fun slave => if slave.waiting then slave else
          { slave with received := slave.received ++ (bytes frames).take (k.client.reploff - o).toNat }) ∧
        streamFrom o (bytes frames) (psyncOffset (replicationCacheMaster k)) = bytes (left ++ rest)) := by
  obtain ⟨k, before, rest, start, hrun, hsplit, h⟩ :=
    Relaying.relay hok es (List.nil_append frames) (connect_relaying answer ⟨some backlog, slaves, offset⟩ frames)
  refine ⟨k, hrun, fun _ => ?_⟩
  obtain ⟨fed, left, rest', rfl, hfor⟩ := h.applied fun f hf => hok f (hsplit ▸ List.mem_append_right _ hf)
  have hall : frames = before ++ fed ++ (left ++ rest') := by rw [← hsplit]; simp
  have hreploff : k.client.reploff = o + (bytes (before ++ fed)).length := by
    rw [hfor.reploff, bytes_append, List.length_append]
    omega
  have hsent : (bytes frames).take (k.client.reploff - o).toNat = bytes (before ++ fed) := by
    have hoff : (k.client.reploff - o).toNat = (bytes (before ++ fed)).length := by omega
    rw [hoff, hall, bytes_append _ (left ++ rest'), List.take_left]
  have hrepl : k.repl = replicationFeedSlavesFromMasterStream ⟨some backlog, slaves, offset⟩ (bytes (before ++ fed)) := by
    have hoff : (k.client.reploff - (o + (bytes before).length)).toNat = (bytes fed).length := by
      rw [hfor.reploff]
      omega
    rw [h.fed.repl, hoff, replicationFeed_append, bytes_append, bytes_append, List.append_assoc, List.take_left,
      bytes_append]
  refine ⟨before, fed, left, rest', start.handed, by rw [hall]; simp, hfor, ?_, hsent, hreploff, ?_, ?_, ?_, ?_⟩
  · intro ht
    rw [commands_append, List.foldl_append, h.blocks ht, ← inMulti_of_taken ht]
    exact hfor.outside
  · rw [hrepl, hsent]
    rfl
  · rw [hrepl]
    show offset + (bytes (before ++ fed)).length = _
    omega
  · rw [hrepl, hsent]
    rfl
  · rw [hall]
    exact streamFrom_psyncOffset _ hreploff

/-- A transaction between two commands, and an empty line. -/
def transactionStream : List Frame :=
  [.line [], .request [sds "INCR", sds "a"], .request [sds "MULTI"], .request [sds "INCR", sds "b"],
    .request [sds "EXEC"], .request [sds "PING"]]

/-- A connection that is lost in a transaction, with one command applied. -/
theorem replica_forwards_applied_lost : ∃ k,
    relay ⟨512, 1024, by decide⟩ (fun _ => {}) 100 (bytes transactionStream)
      (connect true 100 ⟨some [], [⟨false, []⟩], 100⟩ (bytes transactionStream))
      [.arrival (.read 40 none), .lost, .arrival (.read 30 none)] = .ok k ∧
    k.client.reploff = 122 ∧ k.repl.replBacklog = some ((bytes transactionStream).take 22) := by
  obtain ⟨k, hrun, hk⟩ := replica_forwards_applied ⟨512, 1024, by decide⟩ (fun _ => {}) 100 [] [⟨false, []⟩] 100
    transactionStream (by decide +kernel) [.arrival (.read 40 none), .lost, .arrival (.read 30 none)]
  have hlost : (match relay ⟨512, 1024, by decide⟩ (fun _ => {}) 100 (bytes transactionStream)
      (connect true 100 ⟨some [], [⟨false, []⟩], 100⟩ (bytes transactionStream))
      [.arrival (.read 40 none), .lost, .arrival (.read 30 none)] with
    | .ok k => decide (k.client.freed = false ∧ k.client.reploff = 122)
    | .error _ => false) = true := by decide
  rw [hrun] at hlost
  obtain ⟨hfreed, hreploff⟩ := of_decide_eq_true hlost
  obtain ⟨_, _, _, _, _, -, -, -, -, -, hbacklog, -⟩ := hk hfreed
  refine ⟨k, hrun, hreploff, ?_⟩
  rw [hbacklog, hreploff]
  rfl

end RedisZk.Networking
