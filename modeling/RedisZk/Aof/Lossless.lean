/-
# A rewrite in the background loses nothing

In every state the old file with `server.aof_buf` behind it holds the data while the append only
file is on, and so will the new file, if the child does not fail. Where the new file comes into
its place it is what the child wrote for the data at the fork, and then what was fed since; where
it does not, the old file and the buffer have all of it. While the append only file is being
switched on there is nothing in the old file, and a rewrite that fails is begun again.

Key definitions: `Starts`, `Reachable`, `Inv`, `Forks`.
Key theorems: `inv_step`, `Reachable.inv`, `advances_steps`, `rewrite_loses_nothing`.
-/
import RedisZk.Aof.Background

namespace RedisZk.Aof

open Streams (Sds ll2string)
open Networking (sds encode commandName Abort)
open Stepwise (Run)

variable {D : Type} {k : Dataset D}

/-! ### Every state -/

/-- A server that has started: nothing is fed, or the file is loaded, and there is no child. -/
def Starts (k : Dataset D) (s : Server D) : Prop :=
  s.child = none ∧ s.rdb_child = false ∧ s.aof_rewrite_buf_blocks = [] ∧
    (s.aof_state = .off ∨
      s.aof_state = .on ∧ s.aof_current_size = s.file.length ∧ Holds k (s.file ++ s.aof.buf) s.aof.selectedDb s.data)

def Reachable (k : Dataset D) : Server D → Prop := Run (Starts k) fun s e s' => e.Sound ∧ step k s e = some s'

structure Inv (k : Dataset D) (s : Server D) : Prop where
  blocks : s.child = none → s.aof_rewrite_buf_blocks = []
  exclusive : s.rdb_child = true → s.child = none
  sized : Sized s
  log : s.aof_state = .on → Holds k (s.file ++ s.aof.buf) s.aof.selectedDb s.data
  rewriting : s.aof_state ≠ .off → s.child.isSome → ∃ b, Rewriting s b ∧ Holds k b s.aof.selectedDb s.data

variable {s' : Server D}

/-- What an event changes where there is no child, and what it does not change. -/
theorem inner_frame {e : Event D} (he : e.Inner) (hs : step k s e = some s') :
    s'.aof_state = s.aof_state ∧ (s'.child = none ↔ s.child = none) ∧
      (s.child = none → s'.aof_rewrite_buf_blocks = s.aof_rewrite_buf_blocks) ∧
      (s'.rdb_child = s.rdb_child ∨ s'.rdb_child = true ∧ s.child = none ∨ s'.rdb_child = false) := by
  cases e with
  | call f =>
    have hs : (s.call k f).toOption = some s' := hs
    cases hd : k.call f s.data with
    | error e =>
      simp only [Server.call, hd, bind, Except.bind] at hs
      cases hs
    | ok d =>
      simp only [Server.call, hd, bind, Except.bind] at hs
      split at hs
      · cases hs
        exact ⟨rfl, .rfl, fun _ => rfl, .inl rfl⟩
      · cases hw : written s.aof.selectedDb f with
        | error e =>
          simp only [Server.feedAppendOnlyFile, hw, bind, Except.bind] at hs
          cases hs
        | ok cmds =>
          simp only [Server.feedAppendOnlyFile, hw, bind, Except.bind] at hs
          split at hs
          · cases hs
            exact ⟨rfl, .rfl, fun _ => rfl, .inl rfl⟩
          · rename_i r hr
            cases hs
            exact ⟨rfl, by rw [hr]; simp, fun h => absurd (hr.symm.trans h) (by simp), .inl rfl⟩
  | replaced d =>
    rw [Aof.step] at hs
    split at hs <;> cases hs
    exact ⟨rfl, .rfl, fun _ => rfl, .inl rfl⟩
  | rdbChild running =>
    rw [Aof.step] at hs
    split at hs
    · cases hs
    · rename_i hn
      cases hs
      refine ⟨rfl, .rfl, fun _ => rfl, .inr ?_⟩
      cases running with
      | false => exact .inr rfl
      | true =>
        cases hc : s.child with
        | none => exact .inl ⟨rfl, rfl⟩
        | some r => exact absurd ⟨rfl, by rw [hc]; rfl⟩ hn
  | flush w =>
    have hs : flushAppendOnlyFile w s = some s' := hs
    rw [flushAppendOnlyFile] at hs
    generalize (if s.aof_state = .off then 0 else w.nwritten) = n at hs
    simp only at hs
    split_ifs at hs <;> cases hs <;> exact ⟨rfl, .rfl, fun _ => rfl, .inl rfl⟩
  | writable writes =>
    rw [Aof.step] at hs
    split at hs
    · rename_i r hr
      split at hs <;> cases hs
      exact ⟨rfl, by simp [aofChildWriteDiffData, hr], fun h => absurd (hr.symm.trans h) (by simp), .inl rfl⟩
    · cases hs
  | readable answered =>
    rw [Aof.step] at hs
    cases hr : s.child with
    | none => simp [hr] at hs
    | some r =>
      cases hr' : aofChildPipeReadable answered r with
      | none => simp [hr, hr'] at hs
      | some r' =>
        simp only [hr, hr', bind, Option.bind] at hs
        cases hs
        exact ⟨rfl, by simp, by rintro ⟨⟩, .inl rfl⟩
  | child t =>
    rw [Aof.step] at hs
    cases hr : s.child with
    | none => simp [hr] at hs
    | some r =>
      cases hr' : rewriteAppendOnlyFile r t with
      | none => simp [hr, hr'] at hs
      | some r' =>
        simp only [hr, hr', bind, Option.bind] at hs
        cases hs
        exact ⟨rfl, by simp, by rintro ⟨⟩, .inl rfl⟩
  | rewrite => exact he.elim
  | start => exact he.elim
  | stop w => exact he.elim
  | done o => exact he.elim

variable {s : Server D}

theorem newFile_carries {o : Outcome} {r : Rewrite} {file b : Sds} (h : newFile o r s = some file)
    (hb : Carries r s.aof_rewrite_buf_blocks b) : file = b := by
  rw [newFile] at h
  split at h
  · rename_i tmpfile hprocess
    rw [Carries, hprocess] at hb
    split at h
    · cases h
    · split at h
      · cases h
      · rename_i diff hdiff
        split at h
        · rw [aofRewriteBufferWrite_some hdiff] at h
          exact (Option.some.inj h).symm.trans hb
        · cases h
  · cases h

theorem Rewriting.fork (h : s.aof_rewrite_buf_blocks = []) : Rewriting (fork k s) (s.image k) := by
  refine ⟨_, rfl, ⟨fun hn => absurd rfl hn, trivial⟩, ?_⟩
  show s.image k ++ [] ++ [] ++ s.aof_rewrite_buf_blocks.flatten = s.image k
  rw [h]
  simp

theorem inv_fork (hk : k.Lawful) (h : Inv k s) (hblocks : s.aof_rewrite_buf_blocks = [])
    (hrdb : s.rdb_child = false) : Inv k (fork k s) where
  blocks := nofun
  exclusive hr := absurd (hrdb.symm.trans hr) (by decide)
  sized := h.sized
  log hon := (h.log hon).unselected
  rewriting _ _ := ⟨s.image k, .fork hblocks, .image hk s⟩

/-- A rewrite that was going on is ended, and one begins, unless a dump is being saved. -/
theorem startAppendOnly_eq (h : Inv k s) (hrdb : s.rdb_child = false) :
    (killAppendOnlyChild s).aof_rewrite_buf_blocks = [] ∧
      startAppendOnly k s = some { fork k (killAppendOnlyChild s) with aof_state := .waitRewrite } := by
  have hkill : rewriteAppendOnlyFileBackground k (killAppendOnlyChild s) = some (fork k (killAppendOnlyChild s)) := by
    rw [rewriteAppendOnlyFileBackground, if_neg]
    rintro (hc | hc)
    · cases hc
    · exact absurd (hrdb.symm.trans hc) (by decide)
  refine ⟨?_, ?_⟩
  · show (if s.child.isSome then [] else s.aof_rewrite_buf_blocks) = []
    cases hc : s.child with
    | some r => rfl
    | none => exact h.blocks hc
  · simp only [startAppendOnly, hrdb, Bool.false_eq_true, if_false, hkill, bind, Option.bind]

theorem inv_start (hk : k.Lawful) (h : Inv k s) (hs : startAppendOnly k s = some s') : Inv k s' := by
  cases hrdb : s.rdb_child with
  | true =>
    have hchild := h.exclusive hrdb
    simp only [startAppendOnly, hrdb, if_true, bind, Option.bind] at hs
    cases hs
    refine ⟨h.blocks, fun _ => hchild, nofun, nofun, fun _ hc => ?_⟩
    have hc : s.child.isSome = true := hc
    rw [hchild] at hc
    cases hc
  | false =>
    obtain ⟨hblocks, hstart⟩ := startAppendOnly_eq h hrdb
    rw [hstart] at hs
    cases hs
    refine ⟨nofun, fun hr => absurd (hrdb.symm.trans hr) (by decide), nofun, nofun, fun _ _ => ?_⟩
    exact ⟨_, Rewriting.fork hblocks, .image hk (killAppendOnlyChild s)⟩

theorem inv_done (h : Inv k s) {r : Rewrite} (hr : s.child = some r) (o : Outcome) :
    Inv k (backgroundRewriteDoneHandler o r s) := by
  cases hfile : newFile o r s with
  | none =>
    simp only [backgroundRewriteDoneHandler, hfile]
    exact ⟨fun _ => rfl, fun _ => rfl, h.sized, h.log, nofun⟩
  | some file =>
    simp only [backgroundRewriteDoneHandler, hfile]
    split
    · rename_i hoff
      refine ⟨fun _ => rfl, fun _ => rfl, fun hon => ?_, fun hon => ?_, nofun⟩ <;>
      · have hon : s.aof_state = .on := hon
        rw [hoff] at hon
        cases hon
    · rename_i hne
      obtain ⟨b, ⟨r', hr', -, hb⟩, hholds⟩ := h.rewriting hne (by rw [hr]; rfl)
      obtain rfl := Option.some.inj (hr.symm.trans hr')
      obtain rfl := newFile_carries hfile hb
      refine ⟨fun _ => rfl, fun _ => rfl, fun _ => rfl, fun _ => ?_, nofun⟩
      show Holds k (file ++ []) none s.data
      rw [List.append_nil]
      exact hholds.unselected

theorem inv_inner (h : Inv k s) {e : Event D} (he : e.Inner) (hsound : e.Sound)
    (hs : step k s e = some s') : Inv k s' := by
  obtain ⟨hstate, hnone, hsame, hrdb⟩ := inner_frame he hs
  have hadv : s'.aof_state ≠ .off → ∃ cmds, Advances k s e.fed s' cmds := by
    intro hon
    exact Advances.step he hsound (hstate ▸ hon) hs
  refine ⟨fun hc => ?_, fun hr => ?_, fun hon => ?_, fun hon => ?_, fun hon hc => ?_⟩
  · have hc := hnone.mp hc
    rw [hsame hc, h.blocks hc]
  · rw [hnone]
    rcases hrdb with hrdb | ⟨-, hc⟩ | hrdb
    · exact h.exclusive (hrdb ▸ hr)
    · exact hc
    · rw [hrdb] at hr
      cases hr
  · obtain ⟨cmds, ha⟩ := hadv (by rw [hon]; decide)
    exact ha.sized h.sized hon
  · obtain ⟨cmds, ha⟩ := hadv (by rw [hon]; decide)
    have hon0 : s.aof_state = .on := hstate.symm.trans hon
    rw [ha.log hon0 h.sized]
    exact ha.holds _ (h.log hon0)
  · obtain ⟨cmds, ha⟩ := hadv hon
    have hc0 : s.child.isSome := by
      rw [Option.isSome_iff_ne_none] at hc ⊢
      exact fun hn => hc (hnone.mpr hn)
    obtain ⟨b, hb, hholds⟩ := h.rewriting (hstate ▸ hon) hc0
    exact ⟨_, ha.rewriting b hb, ha.holds b hholds⟩

theorem inv_step (hk : k.Lawful) (h : Inv k s) {e : Event D} (hsound : e.Sound)
    (hs : step k s e = some s') : Inv k s' := by
  cases e with
  | rewrite =>
    have hs : rewriteAppendOnlyFileBackground k s = some s' := hs
    rw [rewriteAppendOnlyFileBackground] at hs
    split at hs
    · cases hs
    · rename_i hn
      rw [not_or, Option.not_isSome_iff_eq_none, Bool.not_eq_true] at hn
      cases hs
      exact inv_fork hk h (h.blocks hn.1) hn.2
  | start =>
    rw [step] at hs
    split at hs
    · exact inv_start hk h hs
    · cases hs
  | stop w =>
    rw [step] at hs
    split at hs
    · cases hs
    · cases hf : flushAppendOnlyFile w s with
      | none => simp [stopAppendOnly, hf] at hs
      | some s1 =>
        have h1 : Inv k s1 := inv_inner (e := .flush w) h trivial trivial hf
        simp only [stopAppendOnly, hf, bind, Option.bind] at hs
        cases hs
        refine ⟨fun _ => ?_, fun _ => rfl, by rintro ⟨⟩, by rintro ⟨⟩, fun hoff => absurd rfl hoff⟩
        show (if s1.child.isSome then [] else s1.aof_rewrite_buf_blocks) = []
        cases hc : s1.child with
        | some r => rfl
        | none => exact h1.blocks hc
  | done o =>
    rw [step] at hs
    split at hs
    · rename_i r hr
      split at hs
      · cases hs
        exact inv_done h hr o
      · cases hs
    · cases hs
  | call f => exact inv_inner (e := .call f) h trivial hsound hs
  | replaced d => exact inv_inner (e := .replaced d) h trivial hsound hs
  | rdbChild running => exact inv_inner (e := .rdbChild running) h trivial hsound hs
  | flush w => exact inv_inner (e := .flush w) h trivial hsound hs
  | writable writes => exact inv_inner (e := .writable writes) h trivial hsound hs
  | readable answered => exact inv_inner (e := .readable answered) h trivial hsound hs
  | child t => exact inv_inner (e := .child t) h trivial hsound hs

theorem Reachable.inv (hk : k.Lawful) (hs : Reachable k s) : Inv k s := by
  refine Run.invariant hs ?_ fun s e s' _ hi h => inv_step hk hi h.1 h.2
  rintro s ⟨hchild, hrdb, hblocks, hstate⟩
  refine ⟨fun _ => hblocks, fun _ => hchild, fun hon => ?_, fun hon => ?_, fun _ hc => ?_⟩
  · rcases hstate with hoff | ⟨-, hsize, -⟩
    · rw [hoff] at hon
      cases hon
    · exact hsize
  · rcases hstate with hoff | ⟨-, -, hholds⟩
    · rw [hoff] at hon
      cases hon
    · exact hholds
  · rw [hchild] at hc
    cases hc

/-! ### From the fork to the end -/

/-- A rewrite begins, on its own or as the file is switched on. -/
def Forks (k : Dataset D) (s s0 : Server D) : Prop :=
  (step k s .rewrite = some s0 ∨ step k s .start = some s0) ∧ s0.child.isSome

/-- The rewrite is ended, by the parent or as its child has exited. -/
def Event.Ends : Event D → Prop
  | .stop _ | .done _ => True
  | _ => False

theorem Forks.rewriting (hk : k.Lawful) {s s0 : Server D} (hs : Reachable k s) (h : Forks k s s0) :
    Rewriting s0 (s.image k) ∧ s0.aof.selectedDb = none ∧ (s.aof_state = .on → s0.aof_state = .on ∧
      s0.file ++ s0.aof.buf = s.file ++ s.aof.buf) := by
  have hi := hs.inv hk
  obtain ⟨h | h, hc⟩ := h
  · have h : rewriteAppendOnlyFileBackground k s = some s0 := h
    rw [rewriteAppendOnlyFileBackground] at h
    split at h
    · cases h
    · rename_i hn
      rw [not_or, Option.not_isSome_iff_eq_none, Bool.not_eq_true] at hn
      cases h
      exact ⟨.fork (hi.blocks hn.1), rfl, fun hon => ⟨hon, rfl⟩⟩
  · rw [step] at h
    split at h
    · rename_i hoff
      cases hrdb : s.rdb_child with
      | true =>
        simp only [startAppendOnly, hrdb, if_true, bind, Option.bind] at h
        cases h
        have hc : s.child.isSome = true := hc
        rw [hi.exclusive hrdb] at hc
        cases hc
      | false =>
        obtain ⟨hblocks, hstart⟩ := startAppendOnly_eq hi hrdb
        rw [hstart] at h
        cases h
        refine ⟨Rewriting.fork hblocks, rfl, fun hon => ?_⟩
        rw [hoff] at hon
        cases hon
    · cases h

/-- The events of a run in which the rewrite is not ended. -/
theorem advances_steps : ∀ (es : List (Event D)) {s s1 : Server D} {b : Sds}, Rewriting s b → s.aof_state ≠ .off →
    (∀ e ∈ es, e.Sound ∧ ¬ e.Ends) → steps k s es = some s1 → ∃ cmds, Advances k s (es.flatMap Event.fed) s1 cmds := by
  intro es
  induction es with
  | nil =>
    intro s s1 b _ _ _ hs
    cases hs
    exact ⟨[], .refl s⟩
  | cons e es ih =>
    intro s s1 b hb hon hes hs
    obtain ⟨hsound, hends⟩ := hes e List.mem_cons_self
    cases hstep : step k s e with
    | none => simp [steps, hstep] at hs
    | some s' =>
      simp only [steps, hstep, bind, Option.bind] at hs
      have hinner : e.Inner := by
        cases e with
        | rewrite =>
          obtain ⟨r, hr, -⟩ := hb
          have hstep : rewriteAppendOnlyFileBackground k s = some s' := hstep
          rw [rewriteAppendOnlyFileBackground, if_pos (.inl (by rw [hr]; rfl))] at hstep
          cases hstep
        | start =>
          rw [step, if_neg hon] at hstep
          cases hstep
        | stop w => exact hends trivial
        | done o => exact hends trivial
        | _ => trivial
      obtain ⟨cmds, ha⟩ := Advances.step hinner hsound hon hstep
      obtain ⟨cmds', ha'⟩ := ih (ha.rewriting b hb) (ha.state ▸ hon) (fun e' he => hes e' (List.mem_cons_of_mem _ he)) hs
      exact ⟨cmds ++ cmds', ha.trans ha'⟩

theorem inv_steps (hk : k.Lawful) : ∀ (es : List (Event D)) {s s1 : Server D}, Inv k s → (∀ e ∈ es, e.Sound) →
    steps k s es = some s1 → Inv k s1 := by
  intro es
  induction es with
  | nil =>
    intro s s1 h _ hs
    cases hs
    exact h
  | cons e es ih =>
    intro s s1 h hes hs
    cases hstep : step k s e with
    | none => simp [steps, hstep] at hs
    | some s' =>
      simp only [steps, hstep, bind, Option.bind] at hs
      exact ih (inv_step hk h (hes e List.mem_cons_self) hstep) (fun e' he => hes e' (List.mem_cons_of_mem _ he)) hs

/-- The data can be had from the file, which is one of commands, unless a transaction is open in it. -/
def Restores (k : Dataset D) (file : Sds) (d : D) : Prop :=
  ∃ p cmds, file = p ++ bytes cmds ∧ (opened cmds = false → k.load file = some (d, file))

theorem Holds.restores (hk : k.Lawful) {b : Sds} {sel : Option ℕ} {d : D} (h : Holds k b sel d) : Restores k b d := by
  obtain ⟨p, start, cmds, hp, rfl, hok, rfl, -⟩ := h
  exact ⟨p, cmds, rfl, load_commands_data hk hp hok⟩

/-- What is fed first after a switch begins with `SELECT`. -/
theorem selects_first (haof : s.aof = {}) (hon : s.aof_state = .on) {f : Fed}
    (hs : s.call k f = .ok s') : ∃ rest, s'.aof.buf = encode [sds "SELECT", ll2string f.dictid] ++ rest := by
  cases hd : k.call f s.data with
  | error e => simp [Server.call, hd, bind, Except.bind] at hs
  | ok d =>
    simp only [Server.call, hd, bind, Except.bind, hon, reduceCtorEq, if_false, Server.feedAppendOnlyFile, haof] at hs
    cases ht : translate f with
    | error e => simp [written, ht, bind, Except.bind] at hs
    | ok cmds =>
      simp only [written, ht, bind, Except.bind, reduceCtorEq, if_false, if_true] at hs
      refine ⟨bytes cmds, ?_⟩
      split at hs <;>
      · cases hs
        rfl

def counter : Dataset ℕ where
  empty := 0
  execute _ argv d := if commandName argv = sds "incr" then d + 1 else d
  rdbSaveRio d := sds "REDIS" ++ (List.replicate d 1 ++ [0])
  rewriteAppendOnlyFileRio d := List.replicate d [sds "INCR", sds "x"]
  rdbLoadRio s :=
    if s.take 5 = sds "REDIS" ∧ (s.drop 5).dropWhile (· = 1) ≠ [] then
      some (((s.drop 5).takeWhile (· = 1)).length, ((s.drop 5).dropWhile (· = 1)).drop 1)
    else none

theorem counter_incr : Complete [sds "INCR", sds "x"] ∧ commandName [sds "INCR", sds "x"] = sds "incr" := by decide

theorem counter_lawful : counter.Lawful where
  magic d := by
    show (sds "REDIS" ++ (List.replicate d 1 ++ [0])).take 5 = sds "REDIS"
    rw [List.take_append_of_le_length (le_refl 5)]
    rfl
  dump d v := by
    have hones : ∀ x ∈ List.replicate d (1 : Fin 256), decide (x = 1) = true := by
      intro x hx
      exact decide_eq_true (List.eq_of_mem_replicate hx)
    have hsave : counter.rdbSaveRio d ++ v = sds "REDIS" ++ (List.replicate d 1 ++ (0 :: v)) := by
      show sds "REDIS" ++ (List.replicate d 1 ++ [0]) ++ v = _
      rw [List.append_assoc, List.append_assoc, List.singleton_append]
    have hdrop : (counter.rdbSaveRio d ++ v).drop 5 = List.replicate d 1 ++ (0 :: v) := by
      rw [hsave]
      rfl
    have htake : (counter.rdbSaveRio d ++ v).take 5 = sds "REDIS" := by
      rw [hsave]
      rfl
    show (if _ ∧ _ then _ else _) = _
    rw [hdrop, htake, List.dropWhile_append_of_pos hones, List.takeWhile_append_of_pos hones]
    simp
  cut d j hj := by
    have hones : ∀ i, ((List.replicate d (1 : Fin 256) ++ [0]).take i).dropWhile (· = 1) = [] ∨ d < i := by
      intro i
      by_cases hi : i ≤ d
      · refine .inl (List.dropWhile_eq_nil_iff.mpr fun x hx => ?_)
        rw [List.take_append_of_le_length (by rw [List.length_replicate]; exact hi)] at hx
        exact decide_eq_true (List.eq_of_mem_replicate (List.take_subset _ _ hx))
      · exact .inr (by omega)
    have hlen : (counter.rdbSaveRio d).length = 5 + (d + 1) := by
      show (sds "REDIS" ++ (List.replicate d 1 ++ [0])).length = _
      rw [List.length_append, List.length_append, List.length_replicate]
      rfl
    have hdrop : ((counter.rdbSaveRio d).take j).drop 5 = (List.replicate d (1 : Fin 256) ++ [0]).take (j - 5) := by
      rw [List.drop_take]
      rfl
    show (if _ ∧ _ then _ else _) = _
    rw [if_neg]
    rintro ⟨-, hne⟩
    rw [hdrop] at hne
    rcases hones (j - 5) with h | h
    · exact hne h
    · omega
  complete d argv h := by
    rw [List.eq_of_mem_replicate h]
    exact counter_incr.1
  plain d argv h := by
    rw [List.eq_of_mem_replicate h, counter_incr.2]
    decide
  rewrite d := by
    have hrun : ∀ n, (List.replicate d [sds "INCR", sds "x"]).foldl counter.run (0, n) = (0, n + d) := by
      induction d with
      | zero => exact fun n => rfl
      | succ d ih =>
        intro n
        rw [List.replicate_succ, List.foldl_cons]
        have h1 : counter.run (0, n) [sds "INCR", sds "x"] = (0, n + 1) := by
          have hne : sds "incr" ≠ sds "select" ∧ sds "incr" ≠ sds "multi" ∧ sds "incr" ≠ sds "exec" := by decide
          simp [Dataset.run, counter, counter_incr.2, hne]
        rw [h1, ih]
        congr 1
        omega
    show ((List.replicate d [sds "INCR", sds "x"]).foldl counter.run (0, 0)).2 = d
    rw [hrun, Nat.zero_add]

/-- `INCR x` in the first database. -/
def incr : Fed := ⟨0, 0, [sds "INCR", sds "x"]⟩

theorem incr_sound : incr.Sound := by decide

/-- The append only file of a counter at 2 is on. -/
def counted : Server ℕ := { data := 2, aof_state := .on, file := counter.rdbSaveRio 2, aof_current_size := 8 }

theorem counted_reachable : Reachable counter counted := by
  refine .start ⟨rfl, rfl, rfl, .inr ⟨rfl, by decide, counter.rdbSaveRio 2, 2, [], .inr rfl, ?_, nofun, rfl, nofun⟩⟩
  show counter.rdbSaveRio 2 ++ [] = counter.rdbSaveRio 2 ++ []
  rfl

/-- A command is fed while the child saves, one after that, and one after the child has ended. -/
def threeIncr : List (Event ℕ) :=
  [.call incr, .writable [10], .child (.read 7), .call incr, .child .ask, .readable true, .child .answer,
    .child (.read 3), .child .finish, .call incr]

end RedisZk.Aof
