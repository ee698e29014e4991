/-
# The replication backlog is a window of the stream

A master keeps the end of its replication stream in a circular buffer, so that a
replica that was away for a while can go on where it stopped. Four counters say what
is in it: where the next byte goes, how many bytes there are, the offset of the first
of them and the size. Whatever is fed, and however often the buffer is replaced by one
of another size, it has the last bytes of the stream, and what a replica is sent from
an offset on is what the stream has from there.

No stream has `2^63` bytes, so the offsets do not wrap.

Key definitions: `feedReplicationBacklog`, `resizeReplicationBacklog`, `addReplyReplicationBacklog`,
`masterTryPartialResynchronization`, `Window`.
Key theorems: `feedReplicationBacklog_window`, `backlog_is_window`.
-/
import RedisZk.Lib.Ring
import RedisZk.Migrate.Command
import RedisZk.Util.Numbers

namespace RedisZk.Replication

open Memory (put)
open Migrate (cstring)
open Networking (sds tolower crlf)
open Streams (Sds)

def CONFIG_DEFAULT_REPL_BACKLOG_SIZE : ℕ := 1024 * 1024
def CONFIG_REPL_BACKLOG_MIN_SIZE : ℕ := 1024 * 16

/-! ### The buffer -/

/-- What replication keeps of the stream; no buffer is NULL. -/
structure Server where
  master_repl_offset : ℤ := 0
  repl_backlog : Option Sds := none
  repl_backlog_size : ℕ := CONFIG_DEFAULT_REPL_BACKLOG_SIZE
  repl_backlog_histlen : ℕ := 0
  repl_backlog_idx : ℕ := 0
  repl_backlog_off : ℤ := 0
  replid : Sds := []
  replid2 : Sds := []
  second_replid_offset : ℤ := -1
deriving DecidableEq

section Fresh

-- The bytes of memory that is newly allocated.
variable (fresh : ℕ → Fin 256)

/-- An empty buffer: "virtually the first byte we have is the next byte that will be generated". -/
def emptyBacklog (s : Server) : Server :=
  { s with
    repl_backlog := some ((List.range s.repl_backlog_size).map fresh)
    repl_backlog_histlen := 0
    repl_backlog_idx := 0
    repl_backlog_off := s.master_repl_offset + 1 }

def createReplicationBacklog (s : Server) : Option Server :=
  match s.repl_backlog with
  | some _ => none
  | none => some (emptyBacklog fresh s)

def resizeReplicationBacklog (s : Server) (newsize : ℤ) : Server :=
  let newsize := if newsize < CONFIG_REPL_BACKLOG_MIN_SIZE then CONFIG_REPL_BACKLOG_MIN_SIZE else newsize.toNat
  if s.repl_backlog_size = newsize then s
  else
    let s := { s with repl_backlog_size := newsize }
    match s.repl_backlog with
    | some _ => emptyBacklog fresh s
    | none => s

end Fresh

def freeReplicationBacklog (s : Server) : Server := { s with repl_backlog := none }

/-- "Write as much data we can at every iteration and rewind the "idx" index if we reach the limit." -/
def feedLoop : ℕ → Server → Sds → Option Server
  | _, s, [] => some s
  | 0, _, _ :: _ => none
  | fuel + 1, s, c :: p => do
    let thislen := min (s.repl_backlog_size - s.repl_backlog_idx) (c :: p).length
    let ring ← s.repl_backlog
    let ring ← put ring s.repl_backlog_idx ((c :: p).take thislen)
    let idx := s.repl_backlog_idx + thislen
    feedLoop fuel
      { s with
        repl_backlog := some ring
        repl_backlog_idx := if idx = s.repl_backlog_size then 0 else idx
        repl_backlog_histlen := s.repl_backlog_histlen + thislen }
      ((c :: p).drop thislen)

def feedReplicationBacklog (s : Server) (p : Sds) : Option Server := do
  let s ← feedLoop p.length { s with master_repl_offset := s.master_repl_offset + p.length } p
  let s := { s with repl_backlog_histlen := min s.repl_backlog_histlen s.repl_backlog_size }
  some { s with repl_backlog_off := s.master_repl_offset - s.repl_backlog_histlen + 1 }

/-! ### Partial resynchronization -/

/-- "Since it is a circular buffer we have to split the reply in two parts if we are cross-boundary." -/
def sendLoop (ring : Sds) (size : ℕ) : ℕ → ℕ → ℕ → Option (List Sds)
  | _, _, 0 => some []
  | 0, _, _ + 1 => none
  | fuel + 1, j, len => do
    let thislen := if size - j < len then size - j else len
    if j + thislen ≤ ring.length then
      let rest ← sendLoop ring size fuel 0 (len - thislen)
      some ((ring.drop j).take thislen :: rest)
    else none

/-- The replies that are added, and the count of bytes. -/
def addReplyReplicationBacklog (s : Server) (offset : ℤ) : Option (List Sds × ℤ) :=
  if s.repl_backlog_histlen = 0 then some ([], 0)
  else do
    let skip := offset - s.repl_backlog_off
    let j := ((s.repl_backlog_idx : ℤ) + (s.repl_backlog_size - s.repl_backlog_histlen)).tmod s.repl_backlog_size
    let j := (j + skip).tmod s.repl_backlog_size
    let len := s.repl_backlog_histlen - skip
    let ring ← s.repl_backlog
    if j < 0 ∨ len < 0 then none
    else
      let replies ← sendLoop ring s.repl_backlog_size len.toNat j.toNat len.toNat
      some (replies, s.repl_backlog_histlen - skip)

def strcasecmp (a b : Sds) : Bool := (cstring a).map tolower = (cstring b).map tolower

inductive Psync
  /-- `goto need_full_resync` -/
  | full
  /-- The write of the first line failed, and the client is freed. -/
  | lost
  | continued (line : Sds) (replies : List Sds) (psync_len : ℤ)

/-- `capa` is whether the replica has `SLAVE_CAPA_PSYNC2`, `written` whether the first line is written. -/
def masterTryPartialResynchronization (s : Server) (master_replid offset : Sds) (capa written : Bool) : Option Psync :=
  match Util.string2ll offset with
  | none => some .full
  | some psync_offset =>
    if strcasecmp master_replid s.replid = false ∧
        (strcasecmp master_replid s.replid2 = false ∨ psync_offset > s.second_replid_offset) then some .full
    else if s.repl_backlog = none ∨ psync_offset < s.repl_backlog_off ∨
        psync_offset > s.repl_backlog_off + s.repl_backlog_histlen then some .full
    else if written then do
      let (replies, psync_len) ← addReplyReplicationBacklog s psync_offset
      some (.continued (if capa then sds "+CONTINUE " ++ s.replid ++ crlf else sds "+CONTINUE" ++ crlf) replies psync_len)
    else some .lost

/-! ### Runs -/

inductive Event
  | create
  | free
  | resize (newsize : ℤ)
  | feed (p : Sds)

def stepEvent (fresh : ℕ → Fin 256) (s : Server) : Event → Option Server
  | .create => createReplicationBacklog fresh s
  | .free => some (freeReplicationBacklog s)
  | .resize newsize => some (resizeReplicationBacklog fresh s newsize)
  | .feed p => feedReplicationBacklog s p

def runEvents (fresh : ℕ → Fin 256) (s : Server) (es : List Event) : Option Server := es.foldlM (stepEvent fresh) s

/-- The bytes of the replication stream. -/
def streamOf (es : List Event) : Sds :=
  es.flatMap fun
    | .feed p => p
    | _ => []

/-! ### The window -/

/-- The bytes of the backlog, from the oldest on. -/
def held (s : Server) (ring : Sds) : Sds :=
  Ring.round ring ((s.repl_backlog_idx + (s.repl_backlog_size - s.repl_backlog_histlen)) % s.repl_backlog_size)
    s.repl_backlog_histlen

/-- The buffer has the end of the stream, whose first byte has the offset `base + 1`. -/
structure Window (base : ℤ) (stream : Sds) (s : Server) (ring : Sds) : Prop where
  size : ring.length = s.repl_backlog_size
  idx : s.repl_backlog_idx < s.repl_backlog_size
  fits : s.repl_backlog_histlen ≤ s.repl_backlog_size
  histlen : s.repl_backlog_histlen ≤ stream.length
  off : s.repl_backlog_off = s.master_repl_offset - s.repl_backlog_histlen + 1
  bytes : Ring.Holds ring s.repl_backlog_idx s.repl_backlog_histlen stream

/-- What holds of the server after a stream. -/
structure Feeds (base : ℤ) (stream : Sds) (s : Server) : Prop where
  offset : s.master_repl_offset = base + stream.length
  size : 0 < s.repl_backlog_size
  window : ∀ ring, s.repl_backlog = some ring → Window base stream s ring

variable {fresh : ℕ → Fin 256} {base : ℤ} {stream : Sds} {s s' : Server} {ring : Sds}

theorem Feeds.empty (h : s.master_repl_offset = base + stream.length) (hsize : 0 < s.repl_backlog_size) :
    Feeds base stream (emptyBacklog fresh s) where
  offset := h
  size := hsize
  window := by
    intro ring hring
    rw [← Option.some.inj hring]
    exact ⟨by rw [List.length_map, List.length_range]; rfl, hsize, Nat.zero_le _, Nat.zero_le _,
      by simp [emptyBacklog], Ring.Holds.zero⟩

theorem Feeds.create (h : Feeds base stream s) (hs : createReplicationBacklog fresh s = some s') : Feeds base stream s' := by
  unfold createReplicationBacklog at hs
  split at hs
  · cases hs
  · rw [← Option.some.inj hs]
    exact Feeds.empty h.offset h.size

theorem Feeds.free (h : Feeds base stream s) : Feeds base stream (freeReplicationBacklog s) :=
  ⟨h.offset, h.size, fun _ hring => by cases hring⟩

theorem Feeds.resize (h : Feeds base stream s) (newsize : ℤ) : Feeds base stream (resizeReplicationBacklog fresh s newsize) := by
  obtain ⟨n, hn⟩ : ∃ n, n = if newsize < CONFIG_REPL_BACKLOG_MIN_SIZE then CONFIG_REPL_BACKLOG_MIN_SIZE else newsize.toNat :=
    ⟨_, rfl⟩
  have hmin : CONFIG_REPL_BACKLOG_MIN_SIZE = 16384 := rfl
  have hpos : 0 < n := by
    rw [hn]
    split
    · omega
    · omega
  unfold resizeReplicationBacklog
  dsimp only
  rw [← hn]
  split
  · exact h
  · cases hring : s.repl_backlog with
    | some ring => exact Feeds.empty h.offset hpos
    | none => exact ⟨h.offset, hpos, fun ring hsome => by cases hsome⟩

/-- The loop writes the bytes behind those that are there; the count of bytes may go beyond the size. -/
theorem feedLoop_spec (fuel : ℕ) : ∀ {s : Server} {ring stream p : Sds}, p.length ≤ fuel → s.repl_backlog = some ring →
    ring.length = s.repl_backlog_size → s.repl_backlog_idx < s.repl_backlog_size → s.repl_backlog_histlen ≤ stream.length →
    Ring.Holds ring s.repl_backlog_idx s.repl_backlog_histlen stream →
    ∃ ring' idx', feedLoop fuel s p = some { s with
        repl_backlog := some ring', repl_backlog_idx := idx', repl_backlog_histlen := s.repl_backlog_histlen + p.length } ∧
      ring'.length = s.repl_backlog_size ∧ idx' < s.repl_backlog_size ∧
      Ring.Holds ring' idx' (s.repl_backlog_histlen + p.length) (stream ++ p) := by
  induction fuel with
  | zero =>
    intro s ring stream p hfuel hring hlen hidx hhist hholds
    obtain rfl : p = [] := List.length_eq_zero_iff.mp (by omega)
    refine ⟨ring, s.repl_backlog_idx, ?_, hlen, hidx, by rwa [List.append_nil]⟩
    rw [feedLoop, ← hring]
    rfl
  | succ fuel ih =>
    intro s ring stream p hfuel hring hlen hidx hhist hholds
    cases p with
    | nil =>
      refine ⟨ring, s.repl_backlog_idx, ?_, hlen, hidx, by rwa [List.append_nil]⟩
      rw [feedLoop, ← hring]
      rfl
    | cons c p =>
      obtain ⟨q, hq⟩ : ∃ q, q = c :: p := ⟨_, rfl⟩
      obtain ⟨t, ht⟩ : ∃ t, t = min (s.repl_backlog_size - s.repl_backlog_idx) q.length := ⟨_, rfl⟩
      have hqpos : 0 < q.length := by rw [hq]; exact Nat.succ_pos _
      have hpiece : (q.take t).length = t := by rw [List.length_take]; omega
      have hfit : s.repl_backlog_idx + (q.take t).length ≤ ring.length := by rw [hpiece]; omega
      obtain ⟨ring1, hput, hlen1⟩ := Memory.put_of_le hfit
      have hwrite := hholds.write hhist hfit hput
      rw [hpiece, hlen] at hwrite
      obtain ⟨ring', idx', hrec, hlen', hidx', hholds'⟩ := @ih
        { s with
          repl_backlog := some ring1
          repl_backlog_idx := if s.repl_backlog_idx + t = s.repl_backlog_size then 0 else s.repl_backlog_idx + t
          repl_backlog_histlen := s.repl_backlog_histlen + t }
        ring1 (stream ++ q.take t) (q.drop t) (by rw [List.length_drop, hq, List.length_cons] at *; omega) rfl
        (by rw [hlen1, hlen]) (by dsimp only; split <;> omega)
        (by dsimp only; rw [List.length_append, hpiece]; omega) hwrite
      have hcount : s.repl_backlog_histlen + t + (q.drop t).length = s.repl_backlog_histlen + q.length := by
        rw [List.length_drop]
        omega
      refine ⟨ring', idx', ?_, hlen', hidx', ?_⟩
      · rw [feedLoop, ← hq]
        dsimp only
        rw [← ht, hring, some_bind, hput, some_bind, hrec]
        dsimp only
        rw [hcount]
      · rw [← hq]
        dsimp only at hholds'
        rwa [hcount, List.append_assoc, List.take_append_drop] at hholds'

/-- Feeding a buffer that has the end of a stream. -/
theorem feedReplicationBacklog_window (h : Feeds base stream s) (hring : s.repl_backlog = some ring) (p : Sds) :
    ∃ s', feedReplicationBacklog s p = some s' ∧ Feeds base (stream ++ p) s' := by
  have hw := h.window ring hring
  obtain ⟨ring', idx', hloop, hlen, hidx, hholds⟩ := feedLoop_spec p.length
    (s := { s with master_repl_offset := s.master_repl_offset + p.length }) le_rfl hring hw.size hw.idx hw.histlen hw.bytes
  obtain ⟨histlen, hhistlen⟩ : ∃ n, n = min (s.repl_backlog_histlen + p.length) s.repl_backlog_size := ⟨_, rfl⟩
  refine ⟨{ s with
    master_repl_offset := s.master_repl_offset + p.length
    repl_backlog := some ring'
    repl_backlog_idx := idx'
    repl_backlog_histlen := histlen
    repl_backlog_off := s.master_repl_offset + p.length - histlen + 1 }, ?_, ?_⟩
  · unfold feedReplicationBacklog
    rw [hloop, hhistlen]
    rfl
  · refine ⟨?_, h.size, ?_⟩
    · dsimp only
      rw [h.offset, List.length_append]
      push_cast
      omega
    · intro ring1 hring1
      obtain rfl : ring' = ring1 := Option.some.inj hring1
      have hhist := hw.histlen
      refine ⟨hlen, hidx, ?_, ?_, rfl, hholds.mono ?_⟩
      · dsimp only
        omega
      · dsimp only
        rw [List.length_append]
        omega
      · dsimp only
        omega

theorem Feeds.feed (h : Feeds base stream s) {p : Sds} (hs : feedReplicationBacklog s p = some s') :
    Feeds base (stream ++ p) s' := by
  cases hring : s.repl_backlog with
  | some ring =>
    obtain ⟨s1, hs1, hfeeds⟩ := feedReplicationBacklog_window h hring p
    obtain rfl := Option.some.inj (hs.symm.trans hs1)
    exact hfeeds
  | none =>
    cases p with
    | nil =>
      rw [List.append_nil]
      unfold feedReplicationBacklog feedLoop at hs
      rw [← Option.some.inj hs]
      exact ⟨by simpa using h.offset, h.size, fun ring hsome => by simp [hring] at hsome⟩
    | cons c p =>
      unfold feedReplicationBacklog at hs
      rw [List.length_cons, feedLoop] at hs
      simp [hring] at hs

theorem Feeds.step (h : Feeds base stream s) {e : Event} (hs : stepEvent fresh s e = some s') :
    Feeds base (stream ++ streamOf [e]) s' := by
  cases e with
  | create => exact (List.append_nil stream).symm ▸ h.create hs
  | free => exact (List.append_nil stream).symm ▸ Option.some.inj hs ▸ h.free
  | resize newsize => exact (List.append_nil stream).symm ▸ Option.some.inj hs ▸ h.resize newsize
  | feed p =>
    rw [streamOf, List.flatMap_singleton]
    exact h.feed hs

theorem Feeds.run (es : List Event) : ∀ {s : Server} {stream : Sds}, Feeds base stream s → runEvents fresh s es = some s' →
    Feeds base (stream ++ streamOf es) s' := by
  induction es with
  | nil =>
    intro s stream h hs
    obtain rfl : s = s' := Option.some.inj hs
    exact (List.append_nil stream).symm ▸ h
  | cons e es ih =>
    intro s stream h hs
    rw [runEvents, List.foldlM_cons, Option.bind_eq_bind, Option.bind_eq_some_iff] at hs
    obtain ⟨s1, hs1, hrun⟩ := hs
    have hrest := ih (h.step hs1) hrun
    have hsplit : streamOf (e :: es) = streamOf [e] ++ streamOf es := by
      rw [streamOf, streamOf, streamOf, List.flatMap_cons, List.flatMap_singleton]
    rwa [hsplit, ← List.append_assoc]

/-! ### What is held, and what is sent -/

theorem Window.held_eq (h : Window base stream s ring) :
    held s ring = stream.drop (stream.length - s.repl_backlog_histlen) := by
  unfold held
  by_cases hzero : s.repl_backlog_histlen = 0
  · rw [hzero, Nat.sub_zero, Nat.sub_zero, List.drop_length, Ring.round, if_pos (Nat.zero_le _), List.take_zero]
  · have hsize := h.size
    have hread := h.bytes.read (by rw [hsize]; exact h.idx) h.histlen (by rw [hsize]; exact h.fits) (Nat.pos_of_ne_zero hzero)
    rw [Ring.place, Nat.add_zero, Nat.add_zero, Nat.sub_zero, hsize] at hread
    exact hread

theorem sendLoop_succ (ring : Sds) (size fuel j len : ℕ) : sendLoop ring size (fuel + 1) j (len + 1) = (do
    let thislen := if size - j < len + 1 then size - j else len + 1
    if j + thislen ≤ ring.length then
      let rest ← sendLoop ring size fuel 0 (len + 1 - thislen)
      some ((ring.drop j).take thislen :: rest)
    else none) := rfl

theorem sendLoop_zero (ring : Sds) (size fuel j : ℕ) : sendLoop ring size fuel j 0 = some [] := by
  cases fuel with
  | zero => rfl
  | succ fuel => rfl

/-- An index that is not below 0, in C's arithmetic. -/
theorem tmod_natCast (a n : ℕ) : (a : ℤ).tmod n = ((a % n : ℕ) : ℤ) := by
  rw [Int.tmod_eq_emod_of_nonneg (Int.natCast_nonneg a)]
  rfl

/-- At most two replies, which have what is read round the end. -/
theorem sendLoop_round {size j len : ℕ} (hsize : ring.length = size) (hj : j < size) (hlen : len ≤ size) :
    ∃ replies, sendLoop ring size len j len = some replies ∧ replies.flatten = Ring.round ring j len := by
  cases len with
  | zero =>
    refine ⟨[], sendLoop_zero ring size 0 j, ?_⟩
    rw [Ring.round, if_pos (Nat.zero_le _), List.take_zero]
    rfl
  | succ len =>
    unfold Ring.round
    rw [sendLoop_succ, hsize]
    by_cases hcross : size - j < len + 1
    · obtain ⟨k, hk⟩ : ∃ k, len = k + 1 := ⟨len - 1, by omega⟩
      obtain ⟨r, hr⟩ : ∃ r, len + 1 - (size - j) = r + 1 := ⟨len + 1 - (size - j) - 1, by omega⟩
      have hsecond : sendLoop ring size len 0 (r + 1) = some [ring.take (r + 1)] := by
        have hthis : (if size - 0 < r + 1 then size - 0 else r + 1) = r + 1 := if_neg (by omega)
        rw [hk, sendLoop_succ, hthis, if_pos (by omega), Nat.sub_self, sendLoop_zero]
        rfl
      rw [if_pos hcross, if_pos (by omega), if_neg (by omega), hr, hsecond]
      refine ⟨_, rfl, ?_⟩
      rw [List.take_of_length_le (by rw [List.length_drop]; omega)]
      simp
    · rw [if_neg hcross, if_pos (by omega), if_pos (by omega), Nat.sub_self, sendLoop_zero]
      exact ⟨_, rfl, by simp⟩

/-- From an offset in the window on, the bytes of the stream are sent. -/
theorem addReplyReplicationBacklog_spec (h : Window base stream s ring) (hring : s.repl_backlog = some ring) {offset : ℤ}
    (hlo : s.repl_backlog_off ≤ offset) (hhi : offset ≤ s.repl_backlog_off + s.repl_backlog_histlen) :
    ∃ replies, addReplyReplicationBacklog s offset =
        some (replies, s.repl_backlog_histlen - (offset - s.repl_backlog_off)) ∧
      replies.flatten = stream.drop (stream.length - s.repl_backlog_histlen + (offset - s.repl_backlog_off).toNat) := by
  unfold addReplyReplicationBacklog
  have hfits := h.fits
  have hidx := h.idx
  by_cases hzero : s.repl_backlog_histlen = 0
  · rw [if_pos hzero]
    have hoffset : offset - s.repl_backlog_off = 0 := by omega
    refine ⟨[], by rw [hoffset, hzero]; rfl, ?_⟩
    rw [hoffset, hzero, List.drop_eq_nil_of_le (by omega)]
    rfl
  · obtain ⟨skip, hskip⟩ := Int.eq_ofNat_of_zero_le (show 0 ≤ offset - s.repl_backlog_off by omega)
    have hle : skip ≤ s.repl_backlog_histlen := by omega
    obtain ⟨j, hj⟩ : ∃ j, j = Ring.place ring.length s.repl_backlog_idx s.repl_backlog_histlen skip := ⟨_, rfl⟩
    have hjlt : j < s.repl_backlog_size := by
      rw [hj, ← h.size]
      exact Nat.mod_lt _ (by rw [h.size]; omega)
    have hindex : ((((s.repl_backlog_idx : ℤ) + (s.repl_backlog_size - s.repl_backlog_histlen)).tmod s.repl_backlog_size) + skip).tmod
        s.repl_backlog_size = (j : ℤ) := by
      rw [show (s.repl_backlog_size : ℤ) - s.repl_backlog_histlen = ((s.repl_backlog_size - s.repl_backlog_histlen : ℕ) : ℤ) by
        omega, ← Nat.cast_add, tmod_natCast, ← Nat.cast_add, tmod_natCast, Nat.mod_add_mod, hj, Ring.place, h.size]
    obtain ⟨replies, hsend, hflat⟩ := sendLoop_round h.size hjlt
      (show s.repl_backlog_histlen - skip ≤ s.repl_backlog_size by omega)
    have hlen : (s.repl_backlog_histlen : ℤ) - skip = ((s.repl_backlog_histlen - skip : ℕ) : ℤ) := by omega
    refine ⟨replies, ?_, ?_⟩
    · rw [if_neg hzero, hskip]
      dsimp only
      rw [hindex, hring, hlen, some_bind, if_neg (by omega), Int.toNat_natCast, Int.toNat_natCast, hsend]
      rfl
    · rw [hflat, hskip, Int.toNat_natCast]
      by_cases hall : skip = s.repl_backlog_histlen
      · have hhist := h.histlen
        rw [hall, Nat.sub_self, Ring.round, if_pos (Nat.zero_le _), List.take_zero, List.drop_eq_nil_of_le (by omega)]
      · rw [hj]
        exact h.bytes.read (by rw [h.size]; exact hidx) h.histlen (by rw [h.size]; exact hfits) (by omega)

/-- **The backlog is a window of the stream.** After any calls, the offset of the master is that of the last
byte of the stream; the buffer, if there is one, has the last bytes of the stream, and the offset of the first
of them; feeding it does not fail; and a replica that asks for an offset is told to resynchronize, or is sent
the bytes of the stream from the offset to that of the master. -/
theorem backlog_is_window (fresh : ℕ → Fin 256) {s0 s : Server} {es : List Event} (hnull : s0.repl_backlog = none)
    (hsize : 0 < s0.repl_backlog_size) (hrun : runEvents fresh s0 es = some s) :
    s.master_repl_offset = s0.master_repl_offset + (streamOf es).length ∧
    (∀ ring, s.repl_backlog = some ring →
      s.repl_backlog_histlen ≤ s.repl_backlog_size ∧ s.repl_backlog_histlen ≤ (streamOf es).length ∧
      held s ring = (streamOf es).drop ((streamOf es).length - s.repl_backlog_histlen) ∧
      s.repl_backlog_off = s.master_repl_offset - s.repl_backlog_histlen + 1 ∧
      ∀ p, (feedReplicationBacklog s p).isSome = true) ∧
    ∀ master_replid offset capa written,
      match masterTryPartialResynchronization s master_replid offset capa written with
      | none => False
      | some (.continued _ replies psync_len) => ∃ psync_offset, Util.string2ll offset = some psync_offset ∧
          s0.master_repl_offset < psync_offset ∧ psync_offset ≤ s.master_repl_offset + 1 ∧
          replies.flatten = (streamOf es).drop (psync_offset - s0.master_repl_offset - 1).toNat ∧
          psync_len = replies.flatten.length
      | some _ => True := by
  have hstart : Feeds s0.master_repl_offset [] s0 := ⟨by simp, hsize, fun ring hring => by rw [hnull] at hring; cases hring⟩
  have h := hstart.run es hrun
  rw [List.nil_append] at h
  refine ⟨h.offset, ?_, ?_⟩
  · intro ring hring
    have hw := h.window ring hring
    refine ⟨hw.fits, hw.histlen, hw.held_eq, hw.off, fun p => ?_⟩
    obtain ⟨s', hs', -⟩ := feedReplicationBacklog_window h hring p
    rw [hs']
    rfl
  · intro master_replid offset capa written
    unfold masterTryPartialResynchronization
    cases hparse : Util.string2ll offset with
    | none => trivial
    | some psync_offset =>
      dsimp only
      by_cases hid : strcasecmp master_replid s.replid = false ∧
          (strcasecmp master_replid s.replid2 = false ∨ psync_offset > s.second_replid_offset)
      · rw [if_pos hid]
        trivial
      rw [if_neg hid]
      by_cases hrange : s.repl_backlog = none ∨ psync_offset < s.repl_backlog_off ∨
          psync_offset > s.repl_backlog_off + s.repl_backlog_histlen
      · rw [if_pos hrange]
        trivial
      rw [if_neg hrange]
      cases written with
      | false => trivial
      | true =>
        push Not at hrange
        obtain ⟨hsome, hlo, hhi⟩ := hrange
        obtain ⟨ring, hring⟩ := Option.ne_none_iff_exists'.mp hsome
        have hw := h.window ring hring
        obtain ⟨replies, hreplies, hflat⟩ := addReplyReplicationBacklog_spec hw hring hlo hhi
        have hoffset := h.offset
        have hoff := hw.off
        have hhist := hw.histlen
        rw [if_pos rfl, hreplies]
        refine ⟨psync_offset, rfl, by omega, by omega, ?_, ?_⟩
        · rw [hflat]
          congr 1
          omega
        · rw [hflat, List.length_drop]
          omega

/-- The server after six bytes in a buffer of four. -/
def wrapped : Server :=
  { master_repl_offset := 6
    repl_backlog := some [5, 6, 3, 4]
    repl_backlog_size := 4
    repl_backlog_histlen := 4
    repl_backlog_idx := 2
    repl_backlog_off := 3 }

theorem backlog_is_window_wrapped :
    runEvents (fun _ => 0) { repl_backlog_size := 4 } [.create, .feed [1, 2, 3], .feed [4, 5, 6]] = some wrapped ∧
      held wrapped [5, 6, 3, 4] = [3, 4, 5, 6] := by
  have hrun : runEvents (fun _ => 0) { repl_backlog_size := 4 } [.create, .feed [1, 2, 3], .feed [4, 5, 6]] = some wrapped := by
    decide
  obtain ⟨-, hring, -⟩ := @backlog_is_window (fun _ => 0) { repl_backlog_size := 4 } wrapped _ rfl (by decide) hrun
  obtain ⟨-, -, hheld, -⟩ := hring [5, 6, 3, 4] rfl
  exact ⟨hrun, hheld⟩

end RedisZk.Replication
