/-
# The file and the buffer are what was fed

`feedAppendOnlyFile` puts commands behind `server.aof_buf`, and `flushAppendOnlyFile` writes the buffer to
the file. A write may fail or be short: what it has written is cut off again, or is taken from the buffer
when the file cannot be cut. In every run the file with the buffer behind it is all that was fed, whatever
the writes do, and loading it executes each command in its database.

Key definitions: `aofWrite`, `flushAppendOnlyFile`, `Call`, `run`, `attempts`, `databases`.
Key theorems: `aofWrite_spec`, `flush_spec`, `run_spec`, `file_is_what_was_fed`.
-/
import RedisZk.Aof.Background

namespace RedisZk.Aof.Flush

open Streams (Sds ll2string)
open Networking (sds encode commandName Abort)

/-! ### The functions -/

inductive Fsync
  | no | always | everysec
deriving DecidableEq

inductive Status
  | C_OK | C_ERR
deriving DecidableEq

/-- What a call of `write` returns. -/
inductive WriteResult
  | wrote (n : ℕ)
  | eintr
  | error (errno : ℤ)
deriving DecidableEq

def ENOSPC : ℤ := 28

/-- The file, and the fields of the server. -/
structure Writer where
  file : Sds
  aof : AofBuf
  aof_current_size : ℕ
  aof_last_write_status : Status
  aof_last_write_errno : ℤ
  last_write_error_log : ℤ
  aof_flush_postponed_start : ℤ
  aof_delayed_fsync : ℕ
  aof_fsync_offset : ℕ
  aof_last_fsync : ℤ
deriving DecidableEq

/-- The server ends by an assertion or by `exit`, or a write does not return. -/
inductive Stop
  | assert | exit | blocked
deriving DecidableEq

/-- The configuration and the clock at a call of `flushAppendOnlyFile`, and what the system calls in it do. -/
structure Conditions where
  force : Bool
  aof_fsync : Fsync
  aof_no_fsync_on_rewrite : Bool
  unixtime : ℤ
  aofFsyncInProgress : Bool
  /-- There is a child that saves. -/
  child : Bool
  writes : List WriteResult
  ftruncate : Bool
deriving DecidableEq

/-- The loop over short writes, to a file that is opened with `O_APPEND`: what it returns, `errno`, and the file. -/
def aofWrite : List WriteResult → Sds → ℕ → Sds → Option (ℤ × ℤ × Sds)
  | _, [], totwritten, file => some (totwritten, 0, file)
  | [], _ :: _, _, _ => none
  | .error errno :: _, _ :: _, totwritten, file => some (if totwritten ≠ 0 then totwritten else -1, errno, file)
  | .eintr :: writes, c :: buf, totwritten, file => aofWrite writes (c :: buf) totwritten file
  | .wrote n :: writes, c :: buf, totwritten, file =>
    let nwritten := min n (c :: buf).length
    aofWrite writes ((c :: buf).drop nwritten) (totwritten + nwritten) (file ++ (c :: buf).take nwritten)

def AOF_WRITE_LOG_ERROR_RATE : ℤ := 30

def tryFsync (e : Conditions) (sync_in_progress : Bool) (s : Writer) : Writer :=
  if e.aof_no_fsync_on_rewrite && e.child then s
  else if e.aof_fsync = .always then { s with aof_fsync_offset := s.aof_current_size, aof_last_fsync := e.unixtime }
  else if e.aof_fsync = .everysec ∧ e.unixtime > s.aof_last_fsync then
    { s with
      aof_fsync_offset := if sync_in_progress then s.aof_fsync_offset else s.aof_current_size
      aof_last_fsync := e.unixtime }
  else s

/-- The flush may wait for a fsync that is in progress. -/
def delays (e : Conditions) : Bool := decide (e.aof_fsync = .everysec) && !e.force && e.aofFsyncInProgress

/-- It does, for less than two seconds. -/
def postpones (e : Conditions) (s : Writer) : Bool :=
  delays e && (decide (s.aof_flush_postponed_start = 0) || decide (e.unixtime - s.aof_flush_postponed_start < 2))

/-- A write that is not complete, and whether the file could be cut. -/
def writeError (e : Conditions) (nwritten errno : ℤ) (s : Writer) : Except Stop Writer :=
  let can_log := decide (e.unixtime - s.last_write_error_log > AOF_WRITE_LOG_ERROR_RATE)
  let s := if can_log then { s with last_write_error_log := e.unixtime } else s
  let (nwritten, s) :=
    if nwritten = -1 then (nwritten, if can_log then { s with aof_last_write_errno := errno } else s)
    else
      let (nwritten, s) := if e.ftruncate then (-1, { s with file := Aof.ftruncate s.file s.aof_current_size }) else (nwritten, s)
      (nwritten, { s with aof_last_write_errno := ENOSPC })
  if e.aof_fsync = .always then .error .exit
  else
    let s := { s with aof_last_write_status := .C_ERR }
    if nwritten > 0 then
      .ok { s with
        aof_current_size := s.aof_current_size + nwritten.toNat
        aof := { s.aof with buf := s.aof.buf.drop nwritten.toNat } }
    else .ok s

def flushAppendOnlyFile (e : Conditions) (s : Writer) : Except Stop Writer :=
  if s.aof.buf = [] then
    if e.aof_fsync = .everysec ∧ s.aof_fsync_offset ≠ s.aof_current_size ∧ e.unixtime > s.aof_last_fsync ∧ e.aofFsyncInProgress = false then
      .ok (tryFsync e false s)
    else .ok s
  else if postpones e s then
    .ok (if s.aof_flush_postponed_start = 0 then { s with aof_flush_postponed_start := e.unixtime } else s)
  else
    let s := if delays e then { s with aof_delayed_fsync := s.aof_delayed_fsync + 1 } else s
    match aofWrite e.writes s.aof.buf 0 s.file with
    | none => .error .blocked
    | some (nwritten, errno, file) =>
      let s := { s with file := file, aof_flush_postponed_start := 0 }
      if nwritten ≠ s.aof.buf.length then writeError e nwritten errno s
      else
        .ok (tryFsync e (decide (e.aof_fsync = .everysec) && e.aofFsyncInProgress)
          { s with
            aof_last_write_status := .C_OK
            aof_current_size := s.aof_current_size + s.aof.buf.length
            aof := { s.aof with buf := [] } })

/-- The calls, with the append only file on. -/
inductive Call
  | feed (f : Fed)
  | flush (e : Conditions)

def step (s : Writer) : Call → Except Stop Writer
  | .feed f =>
    match feedAppendOnlyFile s.aof f with
    | .error _ => .error .assert
    | .ok aof => .ok { s with aof := aof }
  | .flush e => flushAppendOnlyFile e s

def run : Writer → List Call → Except Stop Writer
  | s, [] => .ok s
  | s, c :: calls => (step s c).bind fun s => run s calls

/-! ### What is attempted -/

def Call.fed : Call → List Fed
  | .feed f => [f]
  | .flush _ => []

/-- The write of a call, if there is one: whether all of the buffer is written. -/
def attempt (s : Writer) : Call → Option Bool
  | .feed _ => none
  | .flush e =>
    if s.aof.buf = [] ∨ postpones e s = true then none
    else (aofWrite e.writes s.aof.buf 0 s.file).map fun r => decide (r.1 = (s.aof.buf.length : ℤ))

/-- The writes of a run. -/
def attempts : Writer → List Call → List Bool
  | _, [] => []
  | s, c :: calls =>
    match step s c with
    | .error _ => (attempt s c).toList
    | .ok s' => (attempt s c).toList ++ attempts s' calls

/-! ### Writing -/

/-- **Some part of the buffer is behind the file**, and the error is told from it only where it is nothing. -/
theorem aofWrite_spec : ∀ (writes : List WriteResult) {buf file : Sds} {tot : ℕ} {r : ℤ × ℤ × Sds}, aofWrite writes buf tot file = some r →
    ∃ n ≤ buf.length, r.2.2 = file ++ buf.take n ∧ (r.1 = (tot + n : ℕ) ∨ r.1 = -1 ∧ tot + n = 0 ∧ buf ≠ [])
  | [], [], file, tot, r, h => by
    cases h
    exact ⟨0, le_rfl, (List.append_nil _).symm, Or.inl rfl⟩
  | [], c :: buf, file, tot, r, h => by cases h
  | w :: writes, [], file, tot, r, h => by
    have h : some (((tot : ℕ) : ℤ), (0 : ℤ), file) = some r := by
      rw [← h]
      cases w <;> rfl
    cases h
    exact ⟨0, le_rfl, (List.append_nil _).symm, Or.inl rfl⟩
  | .error errno :: writes, c :: buf, file, tot, r, h => by
    cases h
    refine ⟨0, Nat.zero_le _, (List.append_nil _).symm, ?_⟩
    by_cases htot : tot = 0
    · exact Or.inr ⟨if_neg (not_not.mpr htot), htot, List.cons_ne_nil _ _⟩
    · exact Or.inl (if_pos htot)
  | .eintr :: writes, c :: buf, file, tot, r, h => by
    have h : aofWrite writes (c :: buf) tot file = some r := h
    exact aofWrite_spec writes h
  | .wrote n :: writes, c :: buf, file, tot, r, h => by
    have hle : min n (c :: buf).length ≤ (c :: buf).length := Nat.min_le_right _ _
    have h : aofWrite writes ((c :: buf).drop (min n (c :: buf).length)) (tot + min n (c :: buf).length)
        (file ++ (c :: buf).take (min n (c :: buf).length)) = some r := h
    obtain ⟨m, hm, hfile, hr⟩ := aofWrite_spec writes h
    rw [List.length_drop] at hm
    refine ⟨min n (c :: buf).length + m, by omega, ?_, ?_⟩
    · rw [hfile, List.append_assoc, List.take_add]
    · rw [← Nat.add_assoc]
      exact hr.imp_right fun ⟨hminus, hzero, _⟩ => ⟨hminus, hzero, List.cons_ne_nil _ _⟩

/-! ### One call -/

def Status.after (complete : Bool) : Status := if complete then .C_OK else .C_ERR

/-- The known size is that of the file. -/
def Sized (s : Writer) : Prop := s.aof_current_size = s.file.length

/-- Where the bytes are may change, but not what they are; the status is that of the last write. -/
structure Conserves (s s' : Writer) (fed : Sds) (attempt : Option Bool) : Prop where
  bytes : s'.file ++ s'.aof.buf = s.file ++ s.aof.buf ++ fed
  sized : Sized s'
  status : s'.aof_last_write_status = (attempt.map Status.after).getD s.aof_last_write_status

theorem tryFsync_frame (e : Conditions) (sync_in_progress : Bool) (s : Writer) :
    (tryFsync e sync_in_progress s).file = s.file ∧ (tryFsync e sync_in_progress s).aof = s.aof ∧
      (tryFsync e sync_in_progress s).aof_current_size = s.aof_current_size ∧
      (tryFsync e sync_in_progress s).aof_last_write_status = s.aof_last_write_status := by
  unfold tryFsync
  split
  · exact ⟨rfl, rfl, rfl, rfl⟩
  · split
    · exact ⟨rfl, rfl, rfl, rfl⟩
    · split
      · exact ⟨rfl, rfl, rfl, rfl⟩
      · exact ⟨rfl, rfl, rfl, rfl⟩

/-- **A write that is not complete is undone, or is taken from the buffer.** -/
theorem writeError_spec (e : Conditions) (hpolicy : e.aof_fsync ≠ .always) {s : Writer} {file : Sds} {n : ℕ} {nwritten : ℤ} (errno : ℤ)
    (hsize : s.aof_current_size = file.length) (hfile : s.file = file ++ s.aof.buf.take n) (hn : n ≤ s.aof.buf.length)
    (hwritten : nwritten = n ∨ nwritten = -1 ∧ n = 0) :
    ∃ s', writeError e nwritten errno s = .ok s' ∧ s'.file ++ s'.aof.buf = file ++ s.aof.buf ∧ Sized s' ∧
      s'.aof_last_write_status = .C_ERR ∧ s'.aof.selectedDb = s.aof.selectedDb := by
  -- what is logged is not told by any of these
  obtain ⟨s1, hlog, hfile1, haof1, hsize1⟩ : ∃ s1, (if decide (e.unixtime - s.last_write_error_log > AOF_WRITE_LOG_ERROR_RATE) = true
      then { s with last_write_error_log := e.unixtime } else s) = s1 ∧ s1.file = s.file ∧ s1.aof = s.aof ∧
        s1.aof_current_size = s.aof_current_size := by
    split
    · exact ⟨_, rfl, rfl, rfl, rfl⟩
    · exact ⟨_, rfl, rfl, rfl, rfl⟩
  unfold writeError
  dsimp only
  rw [hlog, if_neg hpolicy]
  rcases hwritten with rfl | ⟨rfl, rfl⟩
  · rw [if_neg (by omega : ¬(n : ℤ) = -1)]
    cases e.ftruncate with
    | true =>
      refine ⟨_, rfl, ?_, ?_, rfl, congrArg AofBuf.selectedDb haof1⟩
      · show Aof.ftruncate s1.file s1.aof_current_size ++ s1.aof.buf = _
        rw [hfile1, haof1, hsize1, hfile, hsize, ftruncate_append]
      · show s1.aof_current_size = (Aof.ftruncate s1.file s1.aof_current_size).length
        rw [hfile1, hsize1, hfile, hsize, ftruncate_append]
    | false =>
      dsimp only
      by_cases hpos : (n : ℤ) > 0
      · rw [if_neg Bool.false_ne_true]
        dsimp only
        rw [if_pos hpos]
        refine ⟨_, rfl, ?_, ?_, rfl, by rw [haof1]⟩
        · show s1.file ++ s1.aof.buf.drop (n : ℤ).toNat = _
          rw [hfile1, haof1, Int.toNat_natCast, hfile, List.append_assoc, List.take_append_drop]
        · show s1.aof_current_size + (n : ℤ).toNat = s1.file.length
          rw [hfile1, hsize1, Int.toNat_natCast, hfile, hsize, List.length_append, List.length_take, Nat.min_eq_left hn]
      · obtain rfl : n = 0 := by omega
        rw [if_neg Bool.false_ne_true]
        dsimp only
        rw [if_neg hpos]
        have hnone : s.file = file := by rw [hfile, List.take_zero, List.append_nil]
        refine ⟨_, rfl, ?_, ?_, rfl, congrArg AofBuf.selectedDb haof1⟩
        · show s1.file ++ s1.aof.buf = _
          rw [hfile1, haof1, hnone]
        · show s1.aof_current_size = s1.file.length
          rw [hfile1, hsize1, hnone, hsize]
  · have hnone : s.file = file := by rw [hfile, List.take_zero, List.append_nil]
    rw [if_pos rfl]
    dsimp only
    rw [if_neg (by decide : ¬(-1 : ℤ) > 0)]
    split
    · refine ⟨_, rfl, ?_, ?_, rfl, congrArg AofBuf.selectedDb haof1⟩
      · show s1.file ++ s1.aof.buf = _
        rw [hfile1, haof1, hnone]
      · show s1.aof_current_size = s1.file.length
        rw [hfile1, hsize1, hnone, hsize]
    · refine ⟨_, rfl, ?_, ?_, rfl, congrArg AofBuf.selectedDb haof1⟩
      · show s1.file ++ s1.aof.buf = _
        rw [hfile1, haof1, hnone]
      · show s1.aof_current_size = s1.file.length
        rw [hfile1, hsize1, hnone, hsize]

/-- **A flush keeps every byte**, and the known size; it does not return where a write does not. -/
theorem flush_spec (e : Conditions) (hpolicy : e.aof_fsync ≠ .always) {s : Writer} (hs : Sized s) :
    (∃ s', flushAppendOnlyFile e s = .ok s' ∧ Conserves s s' [] (attempt s (.flush e)) ∧ s'.aof.selectedDb = s.aof.selectedDb) ∨
      flushAppendOnlyFile e s = .error .blocked := by
  unfold flushAppendOnlyFile
  dsimp only [attempt]
  by_cases hnil : s.aof.buf = []
  · rw [if_pos hnil, if_pos (Or.inl hnil)]
    refine Or.inl ?_
    obtain ⟨hfile, haof, hsize, hstatus⟩ := tryFsync_frame e false s
    split
    · refine ⟨_, rfl, ⟨?_, ?_, hstatus⟩, congrArg AofBuf.selectedDb haof⟩
      · rw [hfile, haof, List.append_nil]
      · rw [Sized, hsize, hfile]
        exact hs
    · exact ⟨s, rfl, ⟨(List.append_nil _).symm, hs, rfl⟩, rfl⟩
  · rw [if_neg hnil]
    by_cases hpostpone : postpones e s = true
    · rw [if_pos hpostpone, if_pos (Or.inr hpostpone)]
      refine Or.inl ?_
      split
      · exact ⟨_, rfl, ⟨(List.append_nil _).symm, hs, rfl⟩, rfl⟩
      · exact ⟨_, rfl, ⟨(List.append_nil _).symm, hs, rfl⟩, rfl⟩
    · rw [if_neg hpostpone, if_neg (not_or.mpr ⟨hnil, hpostpone⟩)]
      obtain ⟨s1, hdelay, hfile1, haof1, hsize1⟩ : ∃ s1, (if delays e = true then { s with aof_delayed_fsync := s.aof_delayed_fsync + 1 }
          else s) = s1 ∧ s1.file = s.file ∧ s1.aof = s.aof ∧ s1.aof_current_size = s.aof_current_size := by
        split
        · exact ⟨_, rfl, rfl, rfl, rfl⟩
        · exact ⟨_, rfl, rfl, rfl, rfl⟩
      rw [hdelay, haof1, hfile1]
      cases hwrite : aofWrite e.writes s.aof.buf 0 s.file with
      | none => exact Or.inr rfl
      | some r =>
        obtain ⟨nwritten, errno, file⟩ := r
        obtain ⟨n, hn, hfile, hwritten⟩ := aofWrite_spec e.writes hwrite
        dsimp only at hfile hwritten
        rw [Nat.zero_add] at hwritten
        refine Or.inl ?_
        dsimp only [Option.map_some]
        by_cases hshort : nwritten ≠ s.aof.buf.length
        · obtain ⟨s', hrun, hbytes, hsized, hstatus, hsel⟩ := writeError_spec e hpolicy
            (s := { s1 with file := file, aof := s.aof, aof_flush_postponed_start := 0 }) errno (hsize1.trans hs)
            hfile hn (hwritten.imp_right fun h => ⟨h.1, h.2.1⟩)
          rw [if_pos hshort, hrun]
          refine ⟨s', rfl, ⟨?_, hsized, ?_⟩, hsel⟩
          · rw [hbytes, List.append_nil]
          · rw [hstatus, decide_eq_false hshort]
            rfl
        · rw [not_not] at hshort
          have hall : n = s.aof.buf.length := by
            rcases hwritten with h | ⟨h, -, -⟩
            · omega
            · omega
          obtain ⟨hfile2, haof2, hsize2, hstatus2⟩ := tryFsync_frame e (decide (e.aof_fsync = .everysec) && e.aofFsyncInProgress)
            { s1 with
              file := file
              aof_flush_postponed_start := 0
              aof_last_write_status := .C_OK
              aof_current_size := s1.aof_current_size + s.aof.buf.length
              aof := { selectedDb := s.aof.selectedDb } }
          rw [if_neg (not_not.mpr hshort), decide_eq_true hshort]
          refine ⟨_, rfl, ⟨?_, ?_, hstatus2⟩, by rw [haof2]⟩
          · rw [hfile2, haof2]
            show file ++ [] = _
            rw [List.append_nil, List.append_nil, hfile, hall, List.take_length]
          · rw [Sized, hfile2, hsize2]
            show s1.aof_current_size + s.aof.buf.length = file.length
            rw [hsize1, hs, hfile, hall, List.take_length, List.length_append]

theorem feed_spec {s s' : Writer} {f : Fed} (h : step s (.feed f) = .ok s') : ∃ cmds, written s.aof.selectedDb f = .ok cmds ∧
    s'.file = s.file ∧ s'.aof = ⟨some f.dictid, s.aof.buf ++ Aof.bytes cmds⟩ ∧ s'.aof_current_size = s.aof_current_size ∧
    s'.aof_last_write_status = s.aof_last_write_status := by
  cases hwritten : written s.aof.selectedDb f with
  | error stop =>
    rw [step, feedAppendOnlyFile, hwritten] at h
    cases h
  | ok cmds =>
    rw [step, feedAppendOnlyFile, hwritten] at h
    cases h
    exact ⟨cmds, rfl, rfl, rfl, rfl, rfl⟩

theorem translate_error {f : Fed} {a : Abort} (h : translate f = .error a) : a = .assert := by
  unfold translate at h
  dsimp only at h
  split at h
  · cases h
  · split at h
    · cases h
    · split at h
      · split at h
        · exact (Except.error.inj h).symm
        · cases h
        · cases h
        · cases h
      · cases h

theorem feed_stops {s : Writer} {f : Fed} {stop : Stop} (h : step s (.feed f) = .error stop) : stop = .assert ∧ translate f = .error .assert := by
  cases htranslate : translate f with
  | error a =>
    obtain rfl := translate_error htranslate
    rw [step, feedAppendOnlyFile, written, htranslate] at h
    exact ⟨(Except.error.inj h).symm, rfl⟩
  | ok cmds =>
    rw [step, feedAppendOnlyFile, written, htranslate] at h
    cases h

/-! ### Every run -/

/-- The policy of each flush is not "always". -/
def Call.Allowed : Call → Prop
  | .feed _ => True
  | .flush e => e.aof_fsync ≠ .always

/-- **One call adds what it is fed**, and nothing else is added or lost. -/
theorem step_spec {s s' : Writer} {c : Call} (hc : c.Allowed) (hs : Sized s) (h : step s c = .ok s') :
    ∃ cmds, Conserves s s' (bytes cmds) (attempt s c) ∧
      ∀ fs rest, writtenAll s'.aof.selectedDb fs = .ok rest → writtenAll s.aof.selectedDb (c.fed ++ fs) = .ok (cmds ++ rest) := by
  cases c with
  | feed f =>
    obtain ⟨cmds, hwritten, hfile, haof, hsize, hstatus⟩ := feed_spec h
    refine ⟨cmds, ⟨?_, ?_, hstatus⟩, fun fs rest hrest => ?_⟩
    · rw [hfile, haof, List.append_assoc]
    · rw [Sized, hsize, hfile]
      exact hs
    · rw [haof] at hrest
      show writtenAll s.aof.selectedDb (f :: fs) = _
      rw [writtenAll, hwritten]
      show (writtenAll (some f.dictid) fs).bind _ = _
      rw [hrest]
      rfl
  | flush e =>
    rcases flush_spec e hc hs with ⟨s1, hrun, hconserves, hsel⟩ | hblocked
    · obtain rfl : s1 = s' := Except.ok.inj (hrun.symm.trans h)
      refine ⟨[], hconserves, fun fs rest hrest => ?_⟩
      rw [← hsel]
      exact hrest
    · cases hblocked.symm.trans h

theorem run_spec : ∀ {calls : List Call} {s s' : Writer}, (∀ c ∈ calls, c.Allowed) → Sized s → run s calls = .ok s' →
    ∃ cmds, writtenAll s.aof.selectedDb (calls.flatMap Call.fed) = .ok cmds ∧ Conserves s s' (bytes cmds) (attempts s calls).getLast?
  | [], s, s', _, hs, h => by
    cases h
    exact ⟨[], rfl, ⟨(List.append_nil _).symm, hs, rfl⟩⟩
  | c :: calls, s, s', hc, hs, h => by
    obtain ⟨hfirst, hrest⟩ := List.forall_mem_cons.mp hc
    cases hstep : step s c with
    | error stop =>
      rw [run, hstep] at h
      cases h
    | ok s1 =>
      rw [run, hstep] at h
      obtain ⟨cmds1, hconserves1, hwritten1⟩ := step_spec hfirst hs hstep
      obtain ⟨cmds, hwritten, hconserves⟩ := run_spec hrest hconserves1.sized h
      refine ⟨cmds1 ++ cmds, hwritten1 _ _ hwritten, ⟨?_, hconserves.sized, ?_⟩⟩
      · rw [hconserves.bytes, hconserves1.bytes, bytes_append, List.append_assoc _ (Aof.bytes cmds1)]
      · rw [hconserves.status, hconserves1.status, attempts, hstep, List.getLast?_append]
        cases (attempts s1 calls).getLast? with
        | some complete => rfl
        | none =>
          cases attempt s c with
          | some complete => rfl
          | none => rfl

/-- What can stop a run: a write that does not return, or the assertion on EX and PX. -/
theorem run_stops : ∀ {calls : List Call} {s : Writer} {stop : Stop}, (∀ c ∈ calls, c.Allowed) → Sized s → run s calls = .error stop →
    stop = .blocked ∨ stop = .assert ∧ ∃ f ∈ calls.flatMap Call.fed, translate f = .error .assert
  | c :: calls, s, stop, hc, hs, h => by
    obtain ⟨hfirst, hrest⟩ := List.forall_mem_cons.mp hc
    cases hstep : step s c with
    | error stop1 =>
      rw [run, hstep] at h
      cases h
      cases c with
      | feed f =>
        have htranslate := feed_stops hstep
        exact Or.inr ⟨htranslate.1, f, List.mem_append_left _ List.mem_cons_self, htranslate.2⟩
      | flush e =>
        rcases flush_spec e hfirst hs with ⟨s1, hrun, -⟩ | hblocked
        · exact nomatch hstep.symm.trans hrun
        · exact Or.inl (Except.error.inj (hstep.symm.trans hblocked))
    | ok s1 =>
      rw [run, hstep] at h
      obtain ⟨cmds1, hconserves1, -⟩ := step_spec hfirst hs hstep
      refine (run_stops hrest hconserves1.sized h).imp_right fun ⟨hassert, f, hf, htranslate⟩ => ⟨hassert, f, ?_, htranslate⟩
      rw [List.flatMap_cons]
      exact List.mem_append_right _ hf

/-! ### Replaying -/

/-- Data that tells each command, and the database it was executed in. -/
def databases : Dataset (List (ℕ × List Sds)) where
  empty := []
  execute dictid argv done := done ++ [(dictid, argv)]
  rdbSaveRio _ := []
  rewriteAppendOnlyFileRio _ := []
  rdbLoadRio _ := none

/-- The commands that are written for one, in its database; a transaction is told by its commands. -/
def Fed.executed (f : Fed) : List (ℕ × List Sds) :=
  (((translate f).toOption.getD []).filter fun argv => decide (commandName argv ≠ sds "multi" ∧ commandName argv ≠ sds "exec")).map fun argv =>
    (f.dictid, argv)

theorem run_databases {cmds : List (List Sds)} (h : ∀ argv ∈ cmds, commandName argv ≠ sds "select") (dictid : ℕ) :
    ∀ done : List (ℕ × List Sds), cmds.foldl databases.run (dictid, done) =
      (dictid, done ++ (cmds.filter fun argv => decide (commandName argv ≠ sds "multi" ∧ commandName argv ≠ sds "exec")).map fun argv => (dictid, argv)) := by
  induction cmds with
  | nil => exact fun done => by rw [List.foldl_nil, List.filter_nil, List.map_nil, List.append_nil]
  | cons argv cmds ih =>
    intro done
    obtain ⟨hargv, hrest⟩ := List.forall_mem_cons.mp h
    rw [List.foldl_cons, Dataset.run, if_neg hargv, List.filter_cons]
    by_cases hplain : commandName argv = sds "multi" ∨ commandName argv = sds "exec"
    · rw [if_pos hplain, if_neg (by rw [decide_eq_true_eq]; exact fun hne => hplain.elim hne.1 hne.2), ih hrest]
    · rw [if_neg hplain, if_pos (decide_eq_true (not_or.mp hplain)), ih hrest, List.map_cons,
        List.append_cons done]
      rfl

/-- **What is written executes each command in its database.** -/
theorem replay_written : ∀ {fs : List Fed} {sel : Option ℕ} {cmds : List (List Sds)} {c : ℕ × List (ℕ × List Sds)},
    (∀ f ∈ fs, f.Sound) → writtenAll sel fs = .ok cmds → (∀ n, sel = some n → c.1 = n) →
      (∀ argv ∈ cmds, Complete argv) ∧ (cmds.foldl databases.run c).2 = c.2 ++ fs.flatMap Fed.executed
  | [], sel, cmds, c, _, h, _ => by
    cases h
    exact ⟨nofun, (List.append_nil _).symm⟩
  | f :: fs, sel, cmds, c, hsound, h, hsel => by
    obtain ⟨hf, hrest⟩ := List.forall_mem_cons.mp hsound
    cases hfirst : written sel f with
    | error a =>
      rw [writtenAll, hfirst] at h
      cases h
    | ok cmds1 =>
      cases hothers : writtenAll (some f.dictid) fs with
      | error a =>
        rw [writtenAll, hfirst] at h
        simp only [bind, Except.bind, hothers] at h
        cases h
      | ok cmds2 =>
        rw [writtenAll, hfirst] at h
        simp only [bind, Except.bind, hothers] at h
        cases h
        cases htranslate : translate f with
        | error a =>
          rw [written, htranslate] at hfirst
          cases hfirst
        | ok tcmds =>
          have hselect : ∀ argv ∈ tcmds, commandName argv ≠ sds "select" := by
            intro argv hargv
            exact (hf.2 argv (by rw [htranslate]; exact hargv)).2.1
          have hcall : databases.call f c.2 = .ok (c.2 ++ Fed.executed f) := by
            rw [Dataset.call, htranslate, Fed.executed, htranslate]
            exact congrArg (fun r : ℕ × List (ℕ × List Sds) => Except.ok r.2) (run_databases hselect f.dictid c.2)
          obtain ⟨hcomplete, hrun⟩ := run_written hf hfirst hsel hcall
          obtain ⟨hcomplete2, hrun2⟩ := replay_written (c := (f.dictid, c.2 ++ Fed.executed f)) hrest hothers
            (fun n hn => Option.some.inj hn)
          refine ⟨fun argv hargv => (List.mem_append.mp hargv).elim (hcomplete argv) (hcomplete2 argv), ?_⟩
          rw [List.foldl_append, hrun, hrun2, List.flatMap_cons, List.append_assoc]

/-- **A file of what was fed is loaded command by command**, each in its database; what is behind a MULTI
without an EXEC stays queued. -/
theorem load_written (rdbLoadRio : Sds → Option Sds) {fs : List Fed} {cmds : List (List Sds)} (hsound : ∀ f ∈ fs, f.Sound)
    (hwritten : writtenAll none fs = .ok cmds) :
    ∃ l : Loading, loadAppendOnlyFile rdbLoadRio true (bytes cmds) = finish true (bytes cmds) (.eof l) ∧
      ((l.memory.executed ++ l.queued).foldl databases.run (0, [])).2 = fs.flatMap Fed.executed ∧
      (opened cmds = false → l.queued = [] ∧ finish true (bytes cmds) (.eof l) = some (l.memory, bytes cmds)) := by
  obtain ⟨hcomplete, hrun⟩ := replay_written (c := (0, [])) hsound hwritten nofun
  have hstart : Loaded databases (0, []) { memory := base [] } (0, []) false := ⟨rfl, rfl, fun _ => rfl⟩
  have hloaded := hstart.commands cmds 0
  have hload : loadAppendOnlyFile rdbLoadRio true (bytes cmds) =
      finish true (bytes cmds) (.eof (loadCommands 0 cmds { memory := base [] })) := load_whole (p := []) (.inl rfl) hcomplete
  refine ⟨loadCommands 0 cmds { memory := base [] }, hload, ?_, fun hopened => ?_⟩
  · rw [hloaded.data, hrun, List.nil_append]
  · have hmulti : (loadCommands 0 cmds { memory := base [] }).multi = false := hloaded.multi.trans hopened
    refine ⟨hloaded.queued hmulti, ?_⟩
    rw [finish, hmulti]
    rfl

/-- **The file with the buffer behind it is what was fed**, whatever the writes do and the truncations, and the
known size is that of the file; the status is bad exactly while the last write was not complete. A file of what
was fed executes each command in its database. A run stops at a write that does not return, or at the assertion
on EX and PX. -/
theorem file_is_what_was_fed {s : Writer} (hs : Sized s) {calls : List Call} (hc : ∀ c ∈ calls, c.Allowed) :
    (∀ stop, run s calls = .error stop → stop = .blocked ∨ stop = .assert ∧ ∃ f ∈ calls.flatMap Call.fed, translate f = .error .assert) ∧
    ∀ s', run s calls = .ok s' → ∃ cmds, writtenAll s.aof.selectedDb (calls.flatMap Call.fed) = .ok cmds ∧
      s'.file ++ s'.aof.buf = s.file ++ s.aof.buf ++ bytes cmds ∧ s'.aof_current_size = s'.file.length ∧
      (s'.aof_last_write_status = .C_ERR ↔
        (attempts s calls).getLast? = some false ∨ attempts s calls = [] ∧ s.aof_last_write_status = .C_ERR) ∧
      ((∀ f ∈ calls.flatMap Call.fed, f.Sound) → s.aof.selectedDb = none → ∀ rdbLoadRio, ∃ l : Loading,
        loadAppendOnlyFile rdbLoadRio true (bytes cmds) = finish true (bytes cmds) (.eof l) ∧
        ((l.memory.executed ++ l.queued).foldl databases.run (0, [])).2 = (calls.flatMap Call.fed).flatMap Fed.executed ∧
        (opened cmds = false → l.queued = [] ∧ finish true (bytes cmds) (.eof l) = some (l.memory, bytes cmds))) := by
  refine ⟨fun stop h => run_stops hc hs h, fun s' h => ?_⟩
  obtain ⟨cmds, hwritten, hbytes, hsized, hstatus⟩ := run_spec hc hs h
  refine ⟨cmds, hwritten, hbytes, hsized, ?_, fun hsound hnone rdbLoadRio => ?_⟩
  · rw [hstatus]
    cases hlast : (attempts s calls).getLast? with
    | none =>
      have hnil := List.getLast?_eq_none_iff.mp hlast
      exact ⟨fun h => Or.inr ⟨hnil, h⟩, fun h => h.elim (fun h => (nomatch h)) fun h => h.2⟩
    | some complete =>
      have hne : attempts s calls ≠ [] := by
        intro hnil
        rw [hnil] at hlast
        cases hlast
      cases complete with
      | true => exact ⟨fun h => (nomatch h), fun h => h.elim (fun h => (nomatch h)) fun h => absurd h.1 hne⟩
      | false => exact ⟨fun _ => Or.inl rfl, fun _ => rfl⟩
  · rw [hnone] at hwritten
    exact load_written rdbLoadRio hsound hwritten

/-- A file that is empty. -/
def fresh : Writer := ⟨[], {}, 0, .C_OK, 0, 0, 0, 0, 0, 0⟩

/-- A flush at a time, with its writes, and a file that cannot be cut. -/
def uncut (unixtime : ℤ) (writes : List WriteResult) : Call := .flush ⟨false, .everysec, false, unixtime, false, false, writes, false⟩

/-- A command in the database 3, the first five bytes of it, and then the others. -/
def halves : List Call := [.feed ⟨1000, 3, [sds "INCR", sds "x"]⟩, uncut 100 [.wrote 5, .error 28], uncut 101 [.eintr, .wrote 1000]]

/-- The short write stays in the file, and the rest comes behind it. -/
theorem file_is_what_was_fed_halves : ∃ s' cmds, run fresh halves = .ok s' ∧ writtenAll none (halves.flatMap Call.fed) = .ok cmds ∧
    s'.file ++ s'.aof.buf = bytes cmds ∧ s'.aof_current_size = s'.file.length ∧ s'.aof_last_write_status ≠ .C_ERR := by
  have hrun : (run fresh halves).toOption.isSome = true := by decide
  cases hs : run fresh halves with
  | error stop =>
    rw [hs] at hrun
    cases hrun
  | ok s' =>
    have hallowed : ∀ c ∈ halves, c.Allowed := by
      intro c hc
      rcases List.mem_cons.mp hc with rfl | hc
      · trivial
      · rcases List.mem_cons.mp hc with rfl | hc
        · exact fun hpolicy => nomatch hpolicy
        · obtain rfl := List.mem_singleton.mp hc
          exact fun hpolicy => nomatch hpolicy
    obtain ⟨cmds, hwritten, hbytes, hsize, hstatus, -⟩ := (file_is_what_was_fed (s := fresh) rfl hallowed).2 s' hs
    refine ⟨s', cmds, rfl, hwritten, hbytes, hsize, fun herr => ?_⟩
    exact absurd (hstatus.mp herr) (by decide)

end RedisZk.Aof.Flush
