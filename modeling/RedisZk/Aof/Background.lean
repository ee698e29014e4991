/-
# Where the bytes of a rewrite are

Of what is fed after the fork every byte is in one place: in the blocks, in the pipe, with the
child, or in the new file. In order they follow what the child writes for the data. After the
parent has agreed to stop nothing goes into the pipe, so that the child leaves nothing there.

A file that is loaded gives the data that the commands in it make, unless a transaction is
left open in it. What is written for a command does what the command does, in the file and in
the rewrite alike.

Key definitions: `Dataset.Lawful`, `Rewriting`, `Holds`, `Advances`.
Key theorems: `load_commands_data`, `aofRewriteBufferAppend_flatten`, `writeDiff_flatten`,
`Rewriting.turn`, `run_written`, `Advances.step`.
-/
import RedisZk.Aof.Rewrite

namespace RedisZk.Aof

open Streams (Sds ll2string)
open Networking (sds encode encodeArg commandName Abort)

variable {D : Type} {k : Dataset D}

/-! ### Loading gives the data -/

/-- What is relied on: a dump is read back and cannot be read in part, and commands that are written
for the data make it, without transactions. -/
structure Dataset.Lawful (k : Dataset D) : Prop where
  magic : ∀ d, (k.rdbSaveRio d).take 5 = sds "REDIS"
  dump : ∀ d v, k.rdbLoadRio (k.rdbSaveRio d ++ v) = some (d, v)
  cut : ∀ d j, j < (k.rdbSaveRio d).length → k.rdbLoadRio ((k.rdbSaveRio d).take j) = none
  complete : ∀ d, ∀ argv ∈ k.rewriteAppendOnlyFileRio d, Complete argv
  plain : ∀ d, ∀ argv ∈ k.rewriteAppendOnlyFileRio d, commandName argv ≠ sds "multi" ∧ commandName argv ≠ sds "exec"
  rewrite : ∀ d, ((k.rewriteAppendOnlyFileRio d).foldl k.run (0, k.empty)).2 = d

/-- What a file begins with, and the data it stands for. -/
def Origin (k : Dataset D) (p : Sds) (start : D) : Prop :=
  p = [] ∧ start = k.empty ∨ p = k.rdbSaveRio start

theorem Origin.begins (hk : k.Lawful) {p : Sds} {start : D} (h : Origin k p start) :
    Begins (fun s => (k.rdbLoadRio s).map Prod.snd) p := by
  rcases h with ⟨rfl, -⟩ | rfl
  · exact .inl rfl
  · refine .inr ⟨hk.magic start, fun v => ?_, fun j hj => ?_⟩
    · rw [hk.dump]
      rfl
    · rw [hk.cut start j hj]
      rfl

/-- The loader has the data of the commands that it has executed and queued. -/
structure Loaded (k : Dataset D) (c : ℕ × D) (l : Loading) (c' : ℕ × D) (multi : Bool) : Prop where
  data : (l.memory.executed ++ l.queued).foldl k.run c = c'
  multi : l.multi = multi
  queued : l.multi = false → l.queued = []

theorem run_multi {argv : List Sds} (h : commandName argv = sds "multi" ∨ commandName argv = sds "exec") (c : ℕ × D) :
    k.run c argv = c := by
  have hselect : commandName argv ≠ sds "select" := by
    rcases h with h | h <;>
    · rw [h]
      decide
  rw [Dataset.run, if_neg hselect, if_pos h]

theorem Loaded.command {c c' : ℕ × D} {l : Loading} {multi : Bool} (h : Loaded k c l c' multi) (argv : List Sds) (u : ℕ) :
    Loaded k c { loadCommand argv l with validUpTo := u } (k.run c' argv)
      (if commandName argv = sds "multi" then true else if commandName argv = sds "exec" then false else multi) := by
  obtain ⟨hdata, rfl, hq⟩ := h
  have hne : sds "exec" ≠ sds "multi" := by decide
  by_cases hm : commandName argv = sds "multi"
  · rw [run_multi (.inl hm), if_pos hm]
    have he : commandName argv ≠ sds "exec" := fun he => hne (he.symm.trans hm)
    cases hmulti : l.multi with
    | true =>
      refine ⟨?_, by simp [loadCommand, hmulti, hm, hne.symm], by simp [loadCommand, hmulti, hm, hne.symm]⟩
      rw [← hdata]
      simp [loadCommand, hmulti, hm, hne.symm, run_multi (.inl hm)]
    | false =>
      refine ⟨?_, by simp [loadCommand, hmulti, hm], by simp [loadCommand, hmulti, hm]⟩
      rw [← hdata]
      simp [loadCommand, hmulti, hm]
  · rw [if_neg hm]
    by_cases he : commandName argv = sds "exec"
    · rw [run_multi (.inr he), if_pos he]
      cases hmulti : l.multi with
      | true =>
        refine ⟨?_, by simp [loadCommand, hmulti, he, hne], by simp [loadCommand, hmulti, he, hne]⟩
        rw [← hdata]
        simp [loadCommand, hmulti, he, hne, Memory.execute]
      | false =>
        refine ⟨?_, by simp [loadCommand, hmulti, he, hne], by simpa [loadCommand, hmulti, he, hne] using hq hmulti⟩
        rw [← hdata]
        simp [loadCommand, hmulti, he, hne]
    · rw [if_neg he]
      cases hmulti : l.multi with
      | true =>
        refine ⟨?_, by simp [loadCommand, hmulti, he, hm], by simp [loadCommand, hmulti, he, hm]⟩
        rw [← hdata]
        simp [loadCommand, hmulti, he, hm]
      | false =>
        have hnil := hq hmulti
        refine ⟨?_, by simp [loadCommand, hmulti, he, hm], by simpa [loadCommand, hmulti, he, hm] using hnil⟩
        rw [← hdata]
        simp [loadCommand, hmulti, he, hm, hnil, Memory.execute]

theorem Loaded.commands (cmds : List (List Sds)) : ∀ {c c' : ℕ × D} {l : Loading} {multi : Bool} (_ : Loaded k c l c' multi)
    (offset : ℕ), Loaded k c (loadCommands offset cmds l) (cmds.foldl k.run c')
      (cmds.foldl (fun o argv => if commandName argv = sds "multi" then true else if commandName argv = sds "exec" then false
        else o) multi) := by
  induction cmds with
  | nil => exact fun h _ => h
  | cons argv cmds ih => exact fun h offset => ih (h.command argv _) _

theorem loadCommands_preamble (cmds : List (List Sds)) : ∀ (offset : ℕ) (l : Loading),
    (loadCommands offset cmds l).memory.preamble = l.memory.preamble := by
  have hone : ∀ (argv : List Sds) (l : Loading), (loadCommand argv l).memory.preamble = l.memory.preamble := by
    intro argv l
    simp only [loadCommand]
    split_ifs <;> rfl
  induction cmds with
  | nil => exact fun _ _ => rfl
  | cons argv cmds ih =>
    intro offset l
    rw [loadCommands, ih]
    exact hone argv l

variable {cmds : List (List Sds)}

/-- A file of commands in which no transaction is open is loaded, and gives what they make. -/
theorem load_commands_data (hk : k.Lawful) {p : Sds} {start : D} (hp : Origin k p start)
    (hok : ∀ argv ∈ cmds, Complete argv) (hopen : opened cmds = false) :
    k.load (p ++ bytes cmds) = some ((cmds.foldl k.run (0, start)).2, p ++ bytes cmds) := by
  have h0 : Loaded k (0, start) { memory := base p } (0, start) false := ⟨rfl, rfl, fun _ => rfl⟩
  have hl := h0.commands cmds p.length
  have hmulti : (loadCommands p.length cmds { memory := base p }).multi = false := hl.multi.trans hopen
  have hdata := hl.data
  rw [hl.queued hmulti, List.append_nil] at hdata
  rw [Dataset.load, load_whole (hp.begins hk) hok, finish, hmulti]
  simp only [Bool.not_false, if_true, Option.map_some, loadCommands_preamble]
  have hstart : (if (base p).preamble then ((k.rdbLoadRio (p ++ bytes cmds)).map Prod.fst).getD k.empty else k.empty) = start := by
    rcases hp with ⟨rfl, rfl⟩ | rfl
    · rfl
    · have hne : k.rdbSaveRio start ≠ [] := by
        intro hnil
        have := hk.magic start
        rw [hnil] at this
        exact absurd this (by decide)
      rw [if_pos (by simp [base, hne]), hk.dump]
      rfl
  rw [hstart, hdata]

/-! ### Blocks and the pipe -/

theorem fillLast_flatten (blocks : List Sds) (s : Sds) :
    (fillLast blocks s).1.flatten ++ (fillLast blocks s).2 = blocks.flatten ++ s := by
  rw [fillLast]
  cases hlast : blocks.getLast? with
  | none => rfl
  | some block =>
    have hblocks := List.dropLast_append_getLast? block hlast
    conv_rhs => rw [← hblocks]
    simp

theorem fillLast_length (blocks : List Sds) (s : Sds) : (fillLast blocks s).2.length ≤ s.length := by
  rw [fillLast]
  split
  · exact le_rfl
  · rw [List.length_drop]
    exact Nat.sub_le _ _

/-- Every turn after the first has an empty block to fill. -/
theorem appendLoop_flatten : ∀ (n : ℕ) (blocks : List Sds) (s : Sds), s.length ≤ n →
    (appendLoop n (blocks ++ [[]]) s).flatten = blocks.flatten ++ s := by
  intro n
  induction n with
  | zero =>
    intro blocks s h
    have hs := List.eq_nil_of_length_eq_zero (Nat.le_zero.mp h)
    simp [hs, appendLoop]
  | succ n ih =>
    intro blocks s h
    rw [appendLoop]
    split
    · rename_i hs
      simp [hs]
    · rename_i hs
      have hpos := List.length_pos_iff.mpr hs
      have hflat := fillLast_flatten (blocks ++ [[]]) s
      have hlen : (fillLast (blocks ++ [[]]) s).2.length ≤ n := by
        have hsize : AOF_RW_BUF_BLOCK_SIZE = 10485760 := rfl
        rw [fillLast, List.getLast?_concat]
        simp only [List.length_nil, List.length_drop]
        omega
      simp only
      split
      · rename_i hrest
        rw [hrest, List.append_nil] at hflat
        rw [hflat]
        simp
      · rw [ih _ _ hlen, hflat]
        simp

theorem aofRewriteBufferAppend_flatten (blocks : List Sds) (s : Sds) :
    (aofRewriteBufferAppend blocks s).flatten = blocks.flatten ++ s := by
  have hflat := fillLast_flatten blocks s
  rw [aofRewriteBufferAppend, appendLoop]
  split
  · rename_i hs
    simp [hs]
  · simp only
    split
    · rename_i hrest
      rw [hrest, List.append_nil] at hflat
      exact hflat
    · rw [appendLoop_flatten _ _ _ (fillLast_length blocks s), hflat]

theorem flatten_dropWhile (blocks : List Sds) : (blocks.dropWhile (· = [])).flatten = blocks.flatten := by
  induction blocks with
  | nil => rfl
  | cons block blocks ih =>
    rw [List.dropWhile_cons]
    split
    · rename_i hnil
      rw [ih, List.flatten_cons, of_decide_eq_true hnil, List.nil_append]
    · rfl

/-- What leaves the blocks is in the pipe. -/
theorem writeDiff_flatten (stop : Bool) : ∀ (writes : List ℕ) (blocks : List Sds) (data : Sds),
    (writeDiff stop writes blocks data).2.2 ++ (writeDiff stop writes blocks data).2.1.flatten = data ++ blocks.flatten := by
  intro writes
  induction writes with
  | nil =>
    intro blocks data
    rw [writeDiff]
    split
    · rfl
    · rw [flatten_dropWhile]
  | cons nwritten writes ih =>
    intro blocks data
    have hdrop := flatten_dropWhile blocks
    rw [writeDiff]
    split
    · rfl
    · split
      · rename_i hnil
        rw [hnil] at hdrop
        rw [← hdrop]
      · rename_i block rest hcons
        rw [hcons] at hdrop
        split
        · rw [← hdrop]
        · rw [ih, ← hdrop, List.flatten_cons, List.flatten_cons, List.append_assoc, ← List.append_assoc (block.take _),
            List.take_append_drop]

/-- Nothing more goes into the pipe. -/
theorem writeDiff_stop (writes : List ℕ) (blocks : List Sds) (data : Sds) : (writeDiff true writes blocks data).2.2 = data := by
  cases writes <;> rfl

theorem aofRewriteBufferWrite_some {whole : Sds → Bool} : ∀ {blocks : List Sds} {diff : Sds},
    aofRewriteBufferWrite whole blocks = some diff → diff = blocks.flatten := by
  intro blocks
  induction blocks with
  | nil =>
    intro diff h
    exact (Option.some.inj h).symm
  | cons block blocks ih =>
    intro diff h
    rw [aofRewriteBufferWrite] at h
    split at h
    · obtain ⟨rest, hrest, rfl⟩ := Option.map_eq_some_iff.mp h
      rw [ih hrest, List.flatten_cons]
    · cases h

/-- The parent has agreed to stop where the child knows of it, which has then nothing left to read when
it has ended. -/
def Answered (r : Rewrite) : Prop :=
  (r.toChild ≠ [] → r.stop = true) ∧
    match r.process with
    | .agreed _ _ => r.stop = true
    | .exited (some _) => r.stop = true ∧ r.data = []
    | _ => True

/-- The bytes of a rewrite that has not failed, in the order of the new file. -/
def Carries (r : Rewrite) (blocks : List Sds) (b : Sds) : Prop :=
  match r.process with
  | .saving image diff | .asked image diff | .agreed image diff => image ++ diff ++ r.data ++ blocks.flatten = b
  | .exited (some tmpfile) => tmpfile ++ blocks.flatten = b
  | .exited none => True

/-- A child is there, and the new file is going to be `b`. -/
def Rewriting (s : Server D) (b : Sds) : Prop :=
  ∃ r, s.child = some r ∧ Answered r ∧ Carries r s.aof_rewrite_buf_blocks b

theorem Carries.append {r : Rewrite} {blocks blocks' : List Sds} {b v : Sds} (h : Carries r blocks b)
    (hflat : blocks'.flatten = blocks.flatten ++ v) : Carries r blocks' (b ++ v) := by
  obtain ⟨process, data, toParent, toChild, stop, writeHandler, readHandler⟩ := r
  cases process with
  | exited tmpfile =>
    cases tmpfile with
    | none => trivial
    | some tmpfile =>
      show tmpfile ++ blocks'.flatten = b ++ v
      rw [hflat, ← List.append_assoc, show tmpfile ++ blocks.flatten = b from h]
  | saving image diff | asked image diff | agreed image diff =>
    show image ++ diff ++ data ++ blocks'.flatten = b ++ v
    rw [hflat, ← List.append_assoc, show image ++ diff ++ data ++ blocks.flatten = b from h]

theorem Rewriting.writable {s : Server D} {r : Rewrite} {b : Sds} (hr : s.child = some r) (h : Rewriting s b)
    (writes : List ℕ) : Rewriting (aofChildWriteDiffData writes r s) b := by
  obtain ⟨r', hr', ⟨hstop, hans⟩, hb⟩ := h
  obtain rfl := Option.some.inj (hr.symm.trans hr')
  have hflat := writeDiff_flatten r.stop writes s.aof_rewrite_buf_blocks r.data
  refine ⟨_, rfl, ⟨hstop, ?_⟩, ?_⟩
  · show match r.process with
      | .agreed _ _ => r.stop = true
      | .exited (some _) => r.stop = true ∧ (writeDiff r.stop writes s.aof_rewrite_buf_blocks r.data).2.2 = []
      | _ => True
    split at hans
    · exact hans
    · refine ⟨hans.1, ?_⟩
      rw [hans.1, writeDiff_stop, hans.2]
    · trivial
  · obtain ⟨process, data, toParent, toChild, stop, writeHandler, readHandler⟩ := r
    cases process with
    | exited tmpfile =>
      cases tmpfile with
      | none => trivial
      | some tmpfile =>
        obtain ⟨hst, hdata⟩ := hans
        have hst : stop = true := hst
        have hdata : data = [] := hdata
        subst hst hdata
        have hnil := writeDiff_stop writes s.aof_rewrite_buf_blocks []
        simp only at hflat
        rw [hnil, List.nil_append, List.nil_append] at hflat
        show tmpfile ++ (writeDiff true writes s.aof_rewrite_buf_blocks []).2.1.flatten = b
        rw [hflat]
        exact hb
    | saving image diff | asked image diff | agreed image diff =>
      show image ++ diff ++ (writeDiff stop writes s.aof_rewrite_buf_blocks data).2.2 ++
        (writeDiff stop writes s.aof_rewrite_buf_blocks data).2.1.flatten = b
      rw [List.append_assoc, hflat, ← List.append_assoc]
      exact hb

theorem Rewriting.readable {s : Server D} {r r' : Rewrite} {b : Sds} (hr : s.child = some r) (h : Rewriting s b)
    {answered : Bool} (hr' : aofChildPipeReadable answered r = some r') : Rewriting { s with child := some r' } b := by
  obtain ⟨r1, hr1, ⟨hstop, hans⟩, hb⟩ := h
  obtain rfl := Option.some.inj (hr.symm.trans hr1)
  rw [aofChildPipeReadable] at hr'
  split at hr'
  · cases hr'
  · split at hr'
    · cases hr'
    · simp only at hr'
      split at hr'
      · cases hr'
        refine ⟨_, rfl, ⟨fun _ => rfl, ?_⟩, hb⟩
        show match r.process with
          | .agreed _ _ => true = true
          | .exited (some _) => true = true ∧ r.data = []
          | _ => True
        split at hans
        · rfl
        · exact ⟨rfl, hans.2⟩
        · trivial
      · cases hr'
        exact ⟨_, rfl, ⟨hstop, hans⟩, hb⟩

theorem Rewriting.turn {s : Server D} {r r' : Rewrite} {b : Sds} (hr : s.child = some r) (h : Rewriting s b) {t : Turn}
    (hr' : rewriteAppendOnlyFile r t = some r') : Rewriting { s with child := some r' } b := by
  obtain ⟨r1, hr1, ⟨hstop, hans⟩, hb⟩ := h
  obtain rfl := Option.some.inj (hr.symm.trans hr1)
  obtain ⟨process, data, toParent, toChild, stop, writeHandler, readHandler⟩ := r
  cases t with
  | read n =>
    simp only [rewriteAppendOnlyFile] at hr'
    split at hr'
    · cases hr'
    · have hmove : ∀ image diff : Sds, image ++ diff ++ data ++ s.aof_rewrite_buf_blocks.flatten =
          image ++ (diff ++ data.take n) ++ data.drop n ++ s.aof_rewrite_buf_blocks.flatten := by
        intro image diff
        simp
      cases process with
      | saving image diff =>
        cases hr'
        exact ⟨_, rfl, ⟨hstop, trivial⟩, (hmove image diff).symm.trans hb⟩
      | agreed image diff =>
        cases hr'
        exact ⟨_, rfl, ⟨hstop, hans⟩, (hmove image diff).symm.trans hb⟩
      | asked image diff => cases hr'
      | exited tmpfile => cases hr'
  | ask =>
    cases process with
    | saving image diff =>
      cases hr'
      exact ⟨_, rfl, ⟨hstop, trivial⟩, hb⟩
    | _ => cases hr'
  | answer =>
    cases process with
    | asked image diff =>
      cases toChild with
      | nil => cases hr'
      | cons c rest =>
        have hst : stop = true := hstop (List.cons_ne_nil _ _)
        simp only [rewriteAppendOnlyFile] at hr'
        split at hr'
        · cases hr'
          exact ⟨_, rfl, ⟨fun _ => hst, hst⟩, hb⟩
        · cases hr'
          exact ⟨_, rfl, ⟨fun _ => hst, trivial⟩, trivial⟩
    | _ => cases hr'
  | finish =>
    cases process with
    | agreed image diff =>
      simp only [rewriteAppendOnlyFile] at hr'
      split at hr'
      · rename_i hdata
        subst hdata
        cases hr'
        refine ⟨_, rfl, ⟨hstop, hans, rfl⟩, ?_⟩
        show image ++ diff ++ s.aof_rewrite_buf_blocks.flatten = b
        have hb : image ++ diff ++ [] ++ s.aof_rewrite_buf_blocks.flatten = b := hb
        rwa [List.append_nil] at hb
      · cases hr'
    | _ => cases hr'
  | fail =>
    cases process with
    | exited tmpfile => cases hr'
    | _ =>
      cases hr'
      exact ⟨_, rfl, ⟨hstop, trivial⟩, trivial⟩

/-! ### What is fed -/

/-- A command that can be fed: what is written for it is complete, and none of it is a command that
is never propagated. -/
def Fed.Sound (f : Fed) : Prop :=
  f.dictid < 2 ^ 31 ∧ ∀ argv ∈ (translate f).toOption.getD [],
    Complete argv ∧ commandName argv ≠ sds "select" ∧ commandName argv ≠ sds "discard"

instance (f : Fed) : Decidable f.Sound := inferInstanceAs (Decidable (_ ∧ _))

theorem complete_select {n : ℕ} (h : n < 2 ^ 31) : Complete [sds "SELECT", ll2string n] := by
  have hlen := Networking.ll2string_length (n := n) (by omega)
  refine ⟨by simp, by simp, ?_, ?_⟩
  · intro arg harg
    rcases List.mem_cons.mp harg with rfl | harg
    · decide
    · rw [List.mem_singleton.mp harg]
      omega
  · show lookupCommand (sds "SELECT" :: [ll2string n]) = true
    rw [lookupCommand, show commandName (sds "SELECT" :: [ll2string n]) = commandName [sds "SELECT"] from rfl]
    decide

theorem run_select {n : ℕ} (h : n < 2 ^ 31) (c : ℕ × D) : k.run c [sds "SELECT", ll2string n] = (n, c.2) := by
  have hname : commandName [sds "SELECT", ll2string n] = sds "select" := by
    rw [show commandName [sds "SELECT", ll2string n] = commandName [sds "SELECT"] from rfl]
    decide
  have hnum : strtol (ll2string n) = n := by
    have hn := strtol_digits (v := []) (fun x hx => ll2string_digit hx) (ll2string_ne_nil n) (by simp)
    have hmax : LONG_MAX = 2 ^ 63 - 1 := rfl
    rw [List.append_nil, value_ll2string] at hn
    omega
  rw [Dataset.run, if_pos hname]
  show ((strtol (ll2string n)).toNat, c.2) = (n, c.2)
  rw [hnum, Int.toNat_natCast]

theorem run_dictid (h : ∀ argv ∈ cmds, commandName argv ≠ sds "select") (n : ℕ) (d : D) :
    (cmds.foldl k.run (n, d)).1 = n := by
  induction cmds generalizing d with
  | nil => rfl
  | cons argv cmds ih =>
    have hrun : (k.run (n, d) argv).1 = n := by
      rw [Dataset.run, if_neg (h argv List.mem_cons_self)]
      split <;> rfl
    rw [List.foldl_cons, ← Prod.mk.eta (p := k.run (n, d) argv), hrun]
    exact ih (fun a ha => h a (List.mem_cons_of_mem _ ha)) _

/-- What is written for a command does what the command does. -/
theorem run_written {sel : Option ℕ} {f : Fed} (hf : f.Sound) (hw : written sel f = .ok cmds)
    {c : ℕ × D} (hsel : ∀ n, sel = some n → c.1 = n) {d : D} (hd : k.call f c.2 = .ok d) :
    (∀ argv ∈ cmds, Complete argv) ∧ cmds.foldl k.run c = (f.dictid, d) := by
  obtain ⟨hdict, hcmds⟩ := hf
  cases ht : translate f with
  | error e => simp [written, ht, bind, Except.bind] at hw
  | ok tcmds =>
    rw [ht] at hcmds
    simp only [written, ht, bind, Except.bind] at hw
    simp only [Dataset.call, ht, bind, Except.bind] at hd
    have hcmds : ∀ argv ∈ tcmds, Complete argv ∧ commandName argv ≠ sds "select" ∧ commandName argv ≠ sds "discard" := hcmds
    have hrun : tcmds.foldl k.run (f.dictid, c.2) = (f.dictid, d) := by
      have h1 := run_dictid (k := k) (fun argv h => (hcmds argv h).2.1) f.dictid c.2
      have h2 := Except.ok.inj hd
      rw [← h2, ← Prod.mk.eta (p := tcmds.foldl k.run (f.dictid, c.2)), h1]
    have hw := Except.ok.inj hw
    split at hw
    · rename_i hs
      subst hw
      refine ⟨fun argv h => (hcmds argv h).1, ?_⟩
      rw [← Prod.mk.eta (p := c), hsel _ hs]
      exact hrun
    · subst hw
      refine ⟨?_, ?_⟩
      · intro argv h
        rcases List.mem_cons.mp h with rfl | h
        · exact complete_select hdict
        · exact (hcmds argv h).1
      · rw [List.foldl_cons, run_select hdict]
        exact hrun

/-- The file `b` holds the data: it is what the commands in it make, the last of which are executed in
the selected database. -/
def Holds (k : Dataset D) (b : Sds) (sel : Option ℕ) (d : D) : Prop :=
  ∃ p start cmds, Origin k p start ∧ b = p ++ bytes cmds ∧ (∀ argv ∈ cmds, Complete argv) ∧
    (cmds.foldl k.run (0, start)).2 = d ∧ ∀ n, sel = some n → (cmds.foldl k.run (0, start)).1 = n

theorem Holds.fed {b : Sds} {sel : Option ℕ} {d d' : D} (h : Holds k b sel d) {f : Fed} (hf : f.Sound)
    (hw : written sel f = .ok cmds) (hd : k.call f d = .ok d') :
    Holds k (b ++ bytes cmds) (some f.dictid) d' := by
  obtain ⟨p, start, cmds0, hp, rfl, hok, rfl, hsel⟩ := h
  obtain ⟨hcmds, hrun⟩ := run_written hf hw hsel hd
  refine ⟨p, start, cmds0 ++ cmds, hp, by rw [bytes_append, List.append_assoc], ?_, ?_, ?_⟩
  · intro argv h
    rcases List.mem_append.mp h with h | h
    · exact hok argv h
    · exact hcmds argv h
  · rw [List.foldl_append, hrun]
  · rintro n ⟨⟩
    rw [List.foldl_append, hrun]

theorem Holds.unselected {b : Sds} {sel : Option ℕ} {d : D} (h : Holds k b sel d) : Holds k b none d := by
  obtain ⟨p, start, cmds, hp, hb, hok, hd, -⟩ := h
  exact ⟨p, start, cmds, hp, hb, hok, hd, nofun⟩

/-- The child writes the data. -/
theorem Holds.image (hk : k.Lawful) (s : Server D) : Holds k (s.image k) none s.data := by
  rw [Server.image]
  split
  · exact ⟨k.rdbSaveRio s.data, s.data, [], .inr rfl, (List.append_nil _).symm, nofun, rfl, nofun⟩
  · exact ⟨[], k.empty, k.rewriteAppendOnlyFileRio s.data, .inl ⟨rfl, rfl⟩, rfl, hk.complete s.data, hk.rewrite s.data, nofun⟩

/-! ### What an event does -/

/-- The commands that are executed at an event. -/
def Event.fed : Event D → List Fed
  | .call f => [f]
  | _ => []

def Event.Sound : Event D → Prop
  | .call f => f.Sound
  | _ => True

/-- The size that is known is that of the file. -/
def Sized (s : Server D) : Prop := s.aof_state = .on → s.aof_current_size = s.file.length

/-- From `s` to `s'` the commands `fs` were executed and `cmds` written for them, to all of the places
where they belong. -/
structure Advances (k : Dataset D) (s : Server D) (fs : List Fed) (s' : Server D) (cmds : List (List Sds)) : Prop where
  state : s'.aof_state = s.aof_state
  rewriting : ∀ b, Rewriting s b → Rewriting s' (b ++ bytes cmds)
  sized : Sized s → Sized s'
  log : s.aof_state = .on → Sized s → s'.file ++ s'.aof.buf = s.file ++ s.aof.buf ++ bytes cmds
  holds : ∀ b, Holds k b s.aof.selectedDb s.data → Holds k (b ++ bytes cmds) s'.aof.selectedDb s'.data
  writes : ∀ fs' rest, writtenAll s'.aof.selectedDb fs' = .ok rest →
    writtenAll s.aof.selectedDb (fs ++ fs') = .ok (cmds ++ rest)

theorem Advances.refl (s : Server D) : Advances k s [] s [] where
  state := rfl
  rewriting b h := by rwa [bytes_nil, List.append_nil]
  sized := id
  log _ _ := by rw [bytes_nil, List.append_nil]
  holds b h := by rwa [bytes_nil, List.append_nil]
  writes _ _ h := h

theorem Advances.trans {s s' s'' : Server D} {fs fs' : List Fed} {cmds cmds' : List (List Sds)}
    (h : Advances k s fs s' cmds) (h' : Advances k s' fs' s'' cmds') : Advances k s (fs ++ fs') s'' (cmds ++ cmds') where
  state := h'.state.trans h.state
  rewriting b hb := by
    rw [bytes_append, ← List.append_assoc]
    exact h'.rewriting _ (h.rewriting b hb)
  sized hs := h'.sized (h.sized hs)
  log hon hs := by
    rw [h'.log (h.state.trans hon) (h.sized hs), h.log hon hs, bytes_append, List.append_assoc _ (bytes cmds)]
  holds b hb := by
    rw [bytes_append, ← List.append_assoc]
    exact h'.holds _ (h.holds b hb)
  writes fs'' rest hw := by
    rw [List.append_assoc, List.append_assoc]
    exact h.writes _ _ (h'.writes _ _ hw)

variable {s s' : Server D}

/-- Only the pipe, the blocks and the child change. -/
theorem Advances.ofRewriting (hfile : s'.file = s.file) (hsize : s'.aof_current_size = s.aof_current_size)
    (haof : s'.aof = s.aof) (hstate : s'.aof_state = s.aof_state) (hdata : s'.data = s.data)
    (h : ∀ b, Rewriting s b → Rewriting s' b) : Advances k s [] s' [] where
  state := hstate
  rewriting b hb := by
    rw [bytes_nil, List.append_nil]
    exact h b hb
  sized hs hon := by
    rw [hsize, hfile]
    exact hs (hstate ▸ hon)
  log _ _ := by rw [hfile, haof, bytes_nil, List.append_nil]
  holds b hb := by
    rw [haof, hdata, bytes_nil, List.append_nil]
    exact hb
  writes _ _ hw := by
    rw [haof] at hw
    exact hw

theorem Advances.call {f : Fed} (hf : f.Sound) (hs : s.call k f = .ok s') (hon : s.aof_state ≠ .off) :
    ∃ cmds, Advances k s [f] s' cmds := by
  cases hd : k.call f s.data with
  | error e => simp [Server.call, hd, bind, Except.bind] at hs
  | ok d =>
    simp only [Server.call, hd, bind, Except.bind, if_neg hon] at hs
    cases hw : written s.aof.selectedDb f with
    | error e => simp [Server.feedAppendOnlyFile, hw, bind, Except.bind] at hs
    | ok cmds =>
      simp only [Server.feedAppendOnlyFile, hw, bind, Except.bind] at hs
      -- The two cases have the file in common.
      have hcommon : s'.aof_state = s.aof_state ∧ s'.file = s.file ∧ s'.aof_current_size = s.aof_current_size ∧
          s'.data = d ∧ s'.aof.selectedDb = some f.dictid ∧
          s'.aof.buf = if s.aof_state = AofState.on then s.aof.buf ++ bytes cmds else s.aof.buf := by
        split at hs <;>
        · cases hs
          exact ⟨rfl, rfl, rfl, rfl, rfl, rfl⟩
      obtain ⟨hstate, hfile, hsize, hdata, hsel, hbuf⟩ := hcommon
      refine ⟨cmds, hstate, ?_, ?_, ?_, ?_, ?_⟩
      · rintro b ⟨r, hr, hans, hb⟩
        simp only [hr] at hs
        cases hs
        refine ⟨_, rfl, hans, ?_⟩
        exact Carries.append (r := r) hb (aofRewriteBufferAppend_flatten _ _)
      · intro hsized hst
        rw [hsize, hfile]
        exact hsized (hstate ▸ hst)
      · intro hst _
        rw [hfile, hbuf, if_pos hst, List.append_assoc]
      · intro b hb
        rw [hsel, hdata]
        exact hb.fed hf hw hd
      · intro fs' rest hrest
        rw [hsel] at hrest
        simp only [List.singleton_append, writtenAll, hw, hrest, bind, Except.bind]

theorem ftruncate_append {file v : Sds} : ftruncate (file ++ v) file.length = file := by
  rw [ftruncate, List.take_left, List.length_append, Nat.sub_eq_zero_of_le (Nat.le_add_right _ _)]
  exact List.append_nil _

theorem Advances.flush {w : Written} (hs : flushAppendOnlyFile w s = some s') : Advances k s [] s' [] := by
  -- What is in the file and the buffer changes its place at most.
  have hcommon : s'.aof_state = s.aof_state ∧ s'.data = s.data ∧ s'.aof.selectedDb = s.aof.selectedDb ∧
      s'.child = s.child ∧ s'.aof_rewrite_buf_blocks = s.aof_rewrite_buf_blocks ∧
      (s.aof_state = .on → s.aof_current_size = s.file.length →
        s'.file ++ s'.aof.buf = s.file ++ s.aof.buf ∧ s'.aof_current_size = s'.file.length) := by
    rw [flushAppendOnlyFile] at hs
    generalize (if s.aof_state = .off then 0 else w.nwritten) = n at hs
    simp only at hs
    split at hs
    · cases hs
      exact ⟨rfl, rfl, rfl, rfl, rfl, fun _ h => ⟨rfl, h⟩⟩
    · split at hs
      · cases hs
        refine ⟨rfl, rfl, rfl, rfl, rfl, fun _ h => ⟨List.append_nil _, ?_⟩⟩
        show s.aof_current_size + s.aof.buf.length = (s.file ++ s.aof.buf).length
        rw [List.length_append, h]
      · rename_i hshort
        split at hs
        · cases hs
        · split at hs
          · cases hs
            exact ⟨rfl, rfl, rfl, rfl, rfl, fun _ h => ⟨rfl, h⟩⟩
          · split at hs
            · cases hs
              refine ⟨rfl, rfl, rfl, rfl, rfl, fun _ h => ?_⟩
              simp only [h, ftruncate_append, and_self]
            · cases hs
              refine ⟨rfl, rfl, rfl, rfl, rfl, fun hon h => ⟨?_, ?_⟩⟩
              · simp
              · have hle : n ≤ s.aof.buf.length := by omega
                simp only [List.length_append, List.length_take, h]
                rw [Nat.min_eq_left hle]
  obtain ⟨hstate, hdata, hsel, hchild, hblocks, hlog⟩ := hcommon
  refine ⟨hstate, ?_, ?_, ?_, ?_, ?_⟩
  · rintro b ⟨r, hr, hans, hb⟩
    rw [bytes_nil, List.append_nil]
    exact ⟨r, hchild.trans hr, hans, hblocks ▸ hb⟩
  · exact fun h hon => (hlog (hstate ▸ hon) (h (hstate ▸ hon))).2
  · intro hon h
    rw [bytes_nil, List.append_nil]
    exact (hlog hon (h hon)).1
  · intro b hb
    rw [hsel, hdata, bytes_nil, List.append_nil]
    exact hb
  · intro fs' rest hw
    rw [hsel] at hw
    exact hw

/-- An event at which no rewrite begins or ends. -/
def Event.Inner : Event D → Prop
  | .call _ | .replaced _ | .rdbChild _ | .flush _ | .writable _ | .readable _ | .child _ => True
  | _ => False

theorem Advances.step {e : Event D} (he : e.Inner) (hsound : e.Sound) (hon : s.aof_state ≠ .off)
    (hs : step k s e = some s') : ∃ cmds, Advances k s e.fed s' cmds := by
  cases e with
  | call f =>
    have hs : (s.call k f).toOption = some s' := hs
    cases hc : s.call k f with
    | error e =>
      rw [hc] at hs
      cases hs
    | ok s1 =>
      rw [hc] at hs
      obtain rfl := Option.some.inj hs
      exact Advances.call hsound hc hon
  | replaced d =>
    rw [Aof.step, if_neg hon] at hs
    cases hs
  | rdbChild running =>
    rw [Aof.step] at hs
    split at hs
    · cases hs
    · cases hs
      exact ⟨[], .ofRewriting rfl rfl rfl rfl rfl fun b hb => hb⟩
  | flush w => exact ⟨[], .flush hs⟩
  | writable writes =>
    rw [Aof.step] at hs
    split at hs
    · rename_i r hr
      split at hs
      · cases hs
        exact ⟨[], .ofRewriting rfl rfl rfl rfl rfl fun b hb => hb.writable hr writes⟩
      · cases hs
    · cases hs
  | readable answered =>
    rw [Aof.step] at hs
    cases hr : s.child with
    | none => simp [hr] at hs
    | some r =>
      cases hr' : aofChildPipeReadable answered r with
      | none => simp [hr, hr'] at hs
      | some r' =>
        simp only [hr, hr', bind, Option.bind] at hs
        cases hs
        exact ⟨[], .ofRewriting rfl rfl rfl rfl rfl fun b hb => hb.readable hr hr'⟩
  | child t =>
    rw [Aof.step] at hs
    cases hr : s.child with
    | none => simp [hr] at hs
    | some r =>
      cases hr' : rewriteAppendOnlyFile r t with
      | none => simp [hr, hr'] at hs
      | some r' =>
        simp only [hr, hr', bind, Option.bind] at hs
        cases hs
        exact ⟨[], .ofRewriting rfl rfl rfl rfl rfl fun b hb => hb.turn hr hr'⟩
  | rewrite => exact he.elim
  | start => exact he.elim
  | stop w => exact he.elim
  | done o => exact he.elim

end RedisZk.Aof
