/-
# Requests do not depend on how they arrive

A connection reads a stream in some pieces, and the server may put off the client in
between. Whatever has been done, fed with the rest of the stream, is on the way of the parser
through the whole stream; so at the end the commands handed over, the protocol error and the
place where it is found are those of the stream that is there at once. The encoding of a
list of commands is parsed to these commands, up to the one that has the client closed.

Key definitions: `connect`, `ShortLines`, `Tracks`, `encode`, `untilClosed`.
Key theorems: `receive_tracks`, `parse_encoded`, `parsing_ignores_chunking`.
-/
import RedisZk.Networking.Parser
import RedisZk.Streams.Cursor

namespace RedisZk.Networking

open Incremental
open Streams (Sds ll2string)

/-- A client with nothing read, at an offset of the stream of its master. -/
def newClient (master : Bool) (reploff : ℤ) : QueryClient :=
  { master := master, reploff := reploff, readReploff := reploff }

/-- A new connection, and the stream that is to come. -/
def connect (master : Bool) (reploff : ℤ) (repl : Repl) (stream : Sds) : Conn :=
  { client := newClient master reploff, incoming := stream, repl := repl }

variable (cfg : Config) (answer : List (List Sds) → After)

/-- The lines that the parser looks for in a stream are short. -/
def ShortLines (c : QueryClient) (stream : Sds) : Prop :=
  ∀ p, Reaches (step cfg answer) (feed stream c) p → ShortLine p

/-- Every client that was put off was taken up again. -/
def Undelayed (es : List Arrival) : Prop :=
  (∀ e ∈ es, (∃ n, e = .read n none) ∨ e = .resume none) ∨ ∃ es', es = es' ++ [.resume none]

/-! ### On the way through the stream -/

theorem feed_nil (c : QueryClient) : feed [] c = c := by
  rw [feed, List.append_nil]
  simp

theorem feed_feed (u v : Sds) (c : QueryClient) : feed v (feed u c) = feed (u ++ v) c := by
  rw [feed, feed, feed]
  simp only [List.append_assoc, List.length_append]
  cases c.master with
  | false => rfl
  | true => simp only [if_true, Nat.cast_add, add_assoc]

variable {c : QueryClient}

theorem trim_eq (h : c.qbPos = 0) : c.trim = c := by
  rw [QueryClient.trim, QueryClient.rest, h, List.drop_zero, ← h]

/-- A connection on the way of the parser from `start` through the whole stream: fed with
what is still to come it is where the parser comes by. -/
structure Tracks (start : QueryClient) (k : Conn) : Prop where
  reaches : ∃ v, (k.limited = false → v = k.incoming) ∧ Reaches (step cfg answer) start (feed v k.client.trim)
  wf : Wf k.client.trim
  qbPos : k.client.freed = false → k.client.qbPos = 0

theorem processInputBufferAndReplicate_spec (turns : Option ℕ) {k : Conn} (hq : k.client.qbPos = 0)
    (hwf : Wf k.client.trim) (hfreed : k.client.freed = false) :
    ∃ k', processInputBufferAndReplicate cfg answer turns k = .ok k' ∧
      Reaches (step cfg answer) k.client.trim k'.client.trim ∧ k'.incoming = k.incoming ∧ k'.limited = k.limited ∧
      (k'.client.freed = false → k'.client.qbPos = 0) ∧ (turns = none → step cfg answer k'.client.trim = none) := by
  obtain ⟨c, hrun, hreach, hqb, -, hstuck⟩ :=
    processInputBuffer_spec cfg answer turns (hq.trans_le (Nat.zero_le _)) hwf hfreed
  rw [processInputBufferAndReplicate, hrun]
  split
  · exact ⟨_, rfl, hreach, rfl, rfl, hqb, hstuck⟩
  · simp only [bind, Except.bind]
    split
    · exact ⟨_, rfl, hreach, rfl, rfl, hqb, hstuck⟩
    · exact ⟨_, rfl, hreach, rfl, rfl, hqb, hstuck⟩

variable {cfg answer} {start : QueryClient}

/-- A step of the way. -/
theorem Tracks.process (hsafe : ∀ p, Reaches (step cfg answer) start p → ShortLine p)
    {k : Conn} (h : Tracks cfg answer start k) (hlim : k.limited = false) (hfreed : k.client.freed = false)
    (turns : Option ℕ) :
    ∃ k', processInputBufferAndReplicate cfg answer turns k = .ok k' ∧ Tracks cfg answer start k' ∧
      (turns = none → step cfg answer k'.client.trim = none) := by
  obtain ⟨k', hrun, hreach, hinc, hlim', hqb, hstuck⟩ :=
    processInputBufferAndReplicate_spec cfg answer turns (h.qbPos hfreed) h.wf hfreed
  obtain ⟨v, hv, hstart⟩ := h.reaches
  refine ⟨k', hrun, ⟨⟨v, ?_, ?_⟩, hreach.keeps (fun _ _ hs hw => hw.step cfg answer hs) h.wf, hqb⟩, hstuck⟩
  · intro _
    rw [hv hlim, hinc]
  · exact hstart.trans (hreach.fed (lasting cfg answer) v fun p hp => hsafe p (hstart.trans hp))

theorem Tracks.arrive (hsafe : ∀ p, Reaches (step cfg answer) start p → ShortLine p)
    {k : Conn} (h : Tracks cfg answer start k) (e : Arrival) :
    ∃ k', Networking.arrive cfg answer k e = .ok k' ∧ Tracks cfg answer start k' ∧
      (k'.limited = false → (∀ n, e = .read n none → step cfg answer k.client.trim = none →
        step cfg answer k'.client.trim = none) ∧ (e = .resume none → step cfg answer k'.client.trim = none)) := by
  unfold Networking.arrive
  split
  · rename_i hgone
    refine ⟨k, rfl, h, fun hlim => ⟨fun _ _ hs => hs, fun _ => ?_⟩⟩
    rw [hlim, Bool.false_or] at hgone
    rw [step, if_pos]
    show (k.client.closing || k.client.freed) = true
    rw [hgone, Bool.or_true]
  · rename_i hgone
    rw [Bool.or_eq_true, not_or, Bool.not_eq_true, Bool.not_eq_true] at hgone
    obtain ⟨hlim, hfreed⟩ := hgone
    cases e with
    | resume turns =>
      obtain ⟨k', hrun, hk', hstuck⟩ := h.process hsafe hlim hfreed turns
      refine ⟨k', hrun, hk', fun _ => ⟨fun _ he => (by cases he), ?_⟩⟩
      rintro ⟨⟩
      exact hstuck rfl
    | read n turns =>
      obtain ⟨data, hdata⟩ : ∃ data, data = k.incoming.take (min n (readlen k.client)) := ⟨_, rfl⟩
      simp only [readQueryFromClient]
      rw [← hdata]
      split
      · exact ⟨k, rfl, h, fun _ => ⟨fun _ _ hs => hs, fun he => by cases he⟩⟩
      · obtain ⟨k1, hk1⟩ : ∃ k1 : Conn, k1 = { k with
          client := feed data k.client
          pendingQuerybuf := if k.client.master then k.pendingQuerybuf ++ data else k.pendingQuerybuf
          incoming := k.incoming.drop data.length } := ⟨_, rfl⟩
        have hq : k.client.qbPos = 0 := h.qbPos hfreed
        have htrim : k1.client.trim = feed data k.client.trim := by
          rw [hk1, trim_eq hq]
          exact trim_eq hq
        have hsplit : k.incoming = data ++ k.incoming.drop data.length := by
          have hpre : data <+: k.incoming := hdata ▸ List.take_prefix _ _
          obtain ⟨r, hr⟩ := hpre
          rw [← hr, List.drop_left]
        have htracks : Tracks cfg answer start k1 := by
          obtain ⟨v, hv, hstart⟩ := h.reaches
          refine ⟨⟨k1.incoming, fun _ => rfl, ?_⟩, ?_, fun _ => ?_⟩
          · rw [htrim, feed_feed, hk1]
            show Reaches _ start (feed (data ++ k.incoming.drop data.length) k.client.trim)
            rw [← hsplit, ← hv hlim]
            exact hstart
          · rw [htrim]
            exact h.wf.feed data
          · rw [hk1]
            exact hq
        have hlim1 : k1.limited = false := by rw [hk1]; exact hlim
        have hfreed1 : k1.client.freed = false := by rw [hk1]; exact hfreed
        split
        · obtain ⟨v, hv, hstart⟩ := htracks.reaches
          refine ⟨{ k1 with limited := true }, by rw [hk1]; rfl, ⟨⟨v, fun hf => (by cases hf), hstart⟩, htracks.wf,
            htracks.qbPos⟩, fun hf => by cases hf⟩
        · obtain ⟨k', hrun, hk', hstuck⟩ := htracks.process hsafe hlim1 hfreed1 turns
          refine ⟨k', by rw [← hrun, hk1]; rfl, hk', fun _ => ⟨?_, fun he => by cases he⟩⟩
          rintro _ ⟨⟩ _
          exact hstuck rfl

theorem receive_append (k : Conn) (es es' : List Arrival) :
    receive cfg answer k (es ++ es') = (receive cfg answer k es >>= fun k => receive cfg answer k es') := by
  induction es generalizing k with
  | nil => rfl
  | cons e es ih =>
    rw [List.cons_append, receive, receive]
    cases arrive cfg answer k e with
    | error => rfl
    | ok k1 => exact ih k1

/-- Arrivals keep a connection on the way. -/
theorem receive_tracks (hsafe : ∀ p, Reaches (step cfg answer) start p → ShortLine p)
    (es : List Arrival) : ∀ {k : Conn}, Tracks cfg answer start k →
    ∃ k', receive cfg answer k es = .ok k' ∧ Tracks cfg answer start k' := by
  induction es with
  | nil => exact fun {k} h => ⟨k, rfl, h⟩
  | cons e es ih =>
    intro k h
    obtain ⟨k1, hrun, h1, -⟩ := h.arrive hsafe e
    obtain ⟨k', hrun', h'⟩ := ih h1
    refine ⟨k', ?_, h'⟩
    rw [receive, hrun]
    exact hrun'

/-! ### At the end of the stream -/

/-- What is handed over on the way is handed over by the end. -/
theorem handed_prefix {a b c : QueryClient} (hb : Reaches (step cfg answer) a b) (hc : Reaches (step cfg answer) a c)
    (hstuck : step cfg answer c = none) : b.handed <+: c.handed := by
  rcases hb.linear hc with h | h
  · exact h.keeps (P := fun p => b.handed <+: p.handed) (fun _ _ hs hp => hp.trans (handed_step cfg answer hs)) List.prefix_rfl
  · rw [h.eq_of_stuck hstuck]

theorem newClient_wf (master : Bool) (o : ℤ) : Wf (newClient master o) :=
  ⟨fun _ _ _ => ⟨rfl, rfl⟩, fun h => by cases h⟩

theorem connect_tracks (master : Bool) (o : ℤ) (repl : Repl) (stream : Sds) :
    Tracks cfg answer (feed stream (newClient master o)) (connect master o repl stream) :=
  ⟨⟨stream, fun _ => rfl, .refl _⟩, newClient_wf master o, fun _ => rfl⟩

/-- A client that is not put off any more has done all that it can. -/
theorem receive_undelayed (hsafe : ∀ p, Reaches (step cfg answer) start p → ShortLine p)
    {k k' : Conn} {es : List Arrival} (h : Tracks cfg answer start k) (hstuck : step cfg answer k.client.trim = none)
    (hes : Undelayed es) (hrun : receive cfg answer k es = .ok k') (hlim : k'.limited = false) :
    step cfg answer k'.client.trim = none := by
  rcases hes with hall | ⟨es', rfl⟩
  · induction es generalizing k with
    | nil =>
      cases hrun
      exact hstuck
    | cons e es ih =>
      obtain ⟨k1, h1, htracks, hk1⟩ := h.arrive hsafe e
      rw [receive, h1] at hrun
      have hlim1 : k1.limited = false := by
        by_contra hl
        have hl : k1.limited = true := by simpa using hl
        have hsame : ∀ es, receive cfg answer k1 es = .ok k1 := by
          intro es
          induction es with
          | nil => rfl
          | cons e es ih =>
            rw [receive]
            have : arrive cfg answer k1 e = .ok k1 := by
              unfold arrive
              rw [if_pos (by rw [hl]; rfl)]
            rw [this]
            exact ih
        have heq := (hsame es).symm.trans hrun
        cases heq
        rw [hl] at hlim
        cases hlim
      refine ih htracks ?_ hrun fun e he => hall e (List.mem_cons_of_mem _ he)
      obtain ⟨hread, hresume⟩ := hk1 hlim1
      rcases hall e List.mem_cons_self with ⟨n, he⟩ | he
      · exact hread n he hstuck
      · exact hresume he
  · rw [receive_append] at hrun
    obtain ⟨k1, h1, htracks⟩ := receive_tracks hsafe es' h
    obtain ⟨k2, h2, -, hk2⟩ := htracks.arrive hsafe (.resume none)
    rw [h1] at hrun
    have heq : receive cfg answer k1 [.resume none] = .ok k2 := by
      rw [receive, h2]
      rfl
    have : (Except.ok k2 : Except Abort Conn) = .ok k' := heq.symm.trans hrun
    cases this
    exact (hk2 hlim).2 rfl

/-! ### Encoded commands -/

/-- An argument as a bulk string. -/
def encodeArg (arg : Sds) : Sds := 36 :: ll2string arg.length ++ crlf ++ arg ++ crlf

/-- A command as a multi bulk request. -/
def encode (argv : List Sds) : Sds := 42 :: ll2string argv.length ++ crlf ++ argv.flatMap encodeArg

/-- The client is not read any more after a command. -/
def closes (answer : List (List Sds) → After) (handed : List (List Sds)) (argv : List Sds) : Bool :=
  decide (commandName argv = sds "quit") || (answer (handed ++ [argv])).freed || (answer (handed ++ [argv])).closing

/-- The commands handed over of a list of commands, up to one that closes the client. An
empty command is none. -/
def untilClosed (answer : List (List Sds) → After) (handed : List (List Sds)) : List (List Sds) → List (List Sds)
  | [] => handed
  | argv :: cmds =>
    if argv = [] then untilClosed answer handed cmds
    else if closes answer handed argv then handed ++ [argv]
    else untilClosed answer (handed ++ [argv]) cmds

theorem strchr_of_notMem {s : Sds} {ch : Fin 256} (h : ∀ x ∈ s, x ≠ ch ∧ x ≠ 0) (v : Sds) :
    strchr (s ++ ch :: v) ch = some s.length := by
  induction s with
  | nil =>
    rw [List.nil_append, strchr, if_pos rfl]
    rfl
  | cons x s ih =>
    obtain ⟨hx, h0⟩ := h x List.mem_cons_self
    rw [List.cons_append, strchr, if_neg hx, if_neg h0, ih fun y hy => h y (List.mem_cons_of_mem _ hy)]
    rfl

theorem ll2string_char {n : ℕ} {x : Fin 256} (h : x ∈ ll2string n) : x ≠ 13 ∧ x ≠ 0 := by
  have hdigit : Decimal.Digit x := by
    rw [ll2string] at h
    split at h
    · rw [List.mem_singleton.mp h]
      decide
    · rw [if_neg (by omega)] at h
      exact Decimal.text_digit h
  constructor
  · rintro rfl
    exact absurd hdigit (by decide)
  · rintro rfl
    exact absurd hdigit (by decide)

theorem ll2string_length {n : ℕ} (h : n < 2 ^ 63) : (ll2string n).length ≤ 20 := by
  rw [ll2string]
  split
  · simp
  · rw [if_neg (by omega), Decimal.text, List.length_map, List.length_reverse, Int.natAbs_natCast,
      Nat.digits_length_le_iff (by norm_num)]
    exact h.trans (by norm_num)

/-- The line that starts with `h` and holds a number. -/
theorem headed_line {n : ℕ} (hn : n < 2 ^ 63) {h : Fin 256} (hh : h ≠ 13 ∧ h ≠ 0) (v : Sds) :
    ∃ k, strchr (h :: ll2string n ++ crlf ++ v) 13 = some k ∧ k ≤ 21 ∧
      (h :: ll2string n ++ crlf ++ v).length = k + 2 + v.length ∧
      lineNumber (h :: ll2string n ++ crlf ++ v) k = some (n : ℤ) ∧
      (h :: ll2string n ++ crlf ++ v).drop (k + 2) = v := by
  have hlen := ll2string_length hn
  refine ⟨(ll2string n).length + 1, ?_, by omega, ?_, ?_, ?_⟩
  · have hline : ∀ x ∈ h :: ll2string n, x ≠ 13 ∧ x ≠ 0 := by
      intro x hx
      rcases List.mem_cons.mp hx with rfl | hx
      · exact hh
      · exact ll2string_char hx
    have hs := strchr_of_notMem hline (10 :: v)
    rw [List.length_cons] at hs
    rw [← hs]
    simp [crlf]
  · simp only [crlf, List.length_append, List.length_cons, List.length_nil]
  · rw [lineNumber, string2ll, List.append_assoc, List.take_left' (by simp)]
    exact Streams.lpStringToInt64_ll2string (Streams.IsInt64.ofNat hn)
  · exact List.drop_left' (by simp [crlf])

variable (cfg answer)

/-- What a client has been told, up to where it has applied the stream of its master, is as
it was. -/
structure Same (c c' : QueryClient) : Prop where
  handed : c'.handed = c.handed
  multi : c'.multi = c.multi
  reploff : c'.reploff = c.reploff
  closing : c'.closing = c.closing
  freed : c'.freed = c.freed

/-- A stretch of the way on which lines are short and no command is run before its end. -/
def Path (a b : QueryClient) : Prop :=
  Reaches (step cfg answer) a b ∧
    ∀ q, Reaches (step cfg answer) a q → (Same a q ∧ ShortLine q) ∨ Reaches (step cfg answer) b q

variable {cfg answer}

theorem Same.refl (c : QueryClient) : Same c c := ⟨rfl, rfl, rfl, rfl, rfl⟩

theorem Same.trans {a b c : QueryClient} (h : Same a b) (h' : Same b c) : Same a c :=
  ⟨h'.handed.trans h.handed, h'.multi.trans h.multi, h'.reploff.trans h.reploff, h'.closing.trans h.closing,
    h'.freed.trans h.freed⟩

theorem Path.trans {a b c : QueryClient} (h : Path cfg answer a b) (hs : Same a b) (h' : Path cfg answer b c) :
    Path cfg answer a c := by
  refine ⟨h.1.trans h'.1, fun q hq => ?_⟩
  rcases h.2 q hq with hq | hq
  · exact .inl hq
  · rcases h'.2 q hq with hq | hq
    · exact .inl ⟨hs.trans hq.1, hq.2⟩
    · exact .inr hq

theorem Path.single {a b : QueryClient} (h : step cfg answer a = some b) (ha : ShortLine a) : Path cfg answer a b := by
  refine ⟨.single h, fun q hq => ?_⟩
  rcases Relation.ReflTransGen.cases_head hq with rfl | ⟨b', hb', hq⟩
  · exact .inl ⟨.refl _, ha⟩
  · rw [h] at hb'
    cases hb'
    exact .inr hq

theorem Path.shortLine {a b : QueryClient} (h : Path cfg answer a b)
    (hb : ∀ q, Reaches (step cfg answer) b q → ShortLine q) : ∀ q, Reaches (step cfg answer) a q → ShortLine q := by
  intro q hq
  rcases h.2 q hq with hq | hq
  · exact hq.2
  · exact hb q hq

variable (answer)

theorem bulkLenStep_encoded {d : QueryClient} {arg v : Sds} (hq : d.querybuf = encodeArg arg ++ v)
    (hlen : arg.length ≤ cfg.protoMaxBulkLen) :
    bulkLenStep cfg d = some { d with querybuf := arg ++ crlf ++ v, bulklen := some arg.length } ∧
      ∀ k, strchr d.querybuf 13 = some k → k ≤ PROTO_INLINE_MAX_SIZE := by
  obtain ⟨k, hs, hk, htotal, hn, hdrop⟩ :=
    headed_line (hlen.trans_lt cfg.fits) (h := 36) (by decide) (arg ++ crlf ++ v)
  have hq' : d.querybuf = 36 :: ll2string arg.length ++ crlf ++ (arg ++ crlf ++ v) := by
    rw [hq, encodeArg]
    simp
  rw [← hq'] at hs htotal hn hdrop
  constructor
  · rw [bulkLenStep]
    simp only [hs, hn]
    rw [if_neg (by omega), if_neg (by rw [hq']; simp), if_neg (by omega)]
    simp only [QueryClient.cut, hdrop, Int.toNat_natCast]
  · intro j hj
    rw [hs] at hj
    cases hj
    exact hk.trans (by decide)

theorem bulkStep_encoded {d : QueryClient} {arg v : Sds} (hq : d.querybuf = arg ++ crlf ++ v) :
    bulkStep answer d arg.length = some (
      let e := { d with querybuf := v, argv := d.argv ++ [arg], multibulklen := d.multibulklen - 1, bulklen := none }
      if d.multibulklen - 1 = 0 then runCommand answer e else e) := by
  have hcut : d.querybuf.drop (arg.length + 2) = v := by
    rw [hq]
    exact List.drop_left' (by simp [crlf])
  have htake : d.querybuf.take arg.length = arg := by
    rw [hq, List.append_assoc]
    exact List.take_left' rfl
  rw [bulkStep, if_neg (by rw [hq]; simp [crlf])]
  simp only [QueryClient.cut, hcut, htake]
  split <;> rfl

/-- An encoded argument is parsed, and the command is run after the last one. -/
theorem path_arg {d : QueryClient} {arg v : Sds} {n : ℕ} (hc : d.closing = false) (hf : d.freed = false)
    (hr : d.reqtype = some .multibulk) (hm : d.multibulklen = n + 1) (hb : d.bulklen = none)
    (hq : d.querybuf = encodeArg arg ++ v) (hlen : arg.length ≤ cfg.protoMaxBulkLen) :
    Path cfg answer d (
      let e := { d with querybuf := v, argv := d.argv ++ [arg], multibulklen := n, bulklen := none }
      if n = 0 then runCommand answer e else e) := by
  obtain ⟨hstep, hshort⟩ := bulkLenStep_encoded hq hlen
  obtain ⟨d1, hd1⟩ : ∃ d1, d1 = { d with querybuf := arg ++ crlf ++ v, bulklen := some arg.length } := ⟨_, rfl⟩
  rw [← hd1] at hstep
  have hfirst : step cfg answer d = some d1 := by
    rw [step_of_multibulk cfg answer hc hf hr, if_neg (by omega), hb]
    exact hstep
  have hsecond := bulkStep_encoded answer (show d1.querybuf = arg ++ crlf ++ v by rw [hd1])
  have hb1 : d1.bulklen = some arg.length := by rw [hd1]
  have hm1 : d1.multibulklen = n + 1 := by rw [hd1]; exact hm
  have hnext : step cfg answer d1 = some (
      let e := { d with querybuf := v, argv := d.argv ++ [arg], multibulklen := n, bulklen := none }
      if n = 0 then runCommand answer e else e) := by
    rw [step_of_multibulk cfg answer (by rw [hd1]; exact hc) (by rw [hd1]; exact hf) (by rw [hd1]; exact hr),
      if_neg (by omega), hb1]
    simp only
    rw [hsecond, hm1, hd1]
    rfl
  refine (Path.single hfirst fun _ _ => ⟨fun h => ?_, fun _ _ => hshort⟩).trans
    (by rw [hd1]; exact ⟨rfl, rfl, rfl, rfl, rfl⟩) (.single hnext fun _ _ => ⟨fun h => ?_, fun _ h => ?_⟩)
  · rw [hr] at h
    cases h
  · rw [hd1] at h
    rw [show d.reqtype = some ReqType.inline from h] at hr
    cases hr
  · rw [hm1, hb1] at h
    rcases h with h | h
    · omega
    · cases h

/-- The arguments of a command are parsed, and the command is run. -/
theorem path_args : ∀ (args : List Sds) {d : QueryClient} {v : Sds}, d.closing = false → d.freed = false →
    d.reqtype = some .multibulk → d.multibulklen = args.length → d.bulklen = none → args ≠ [] →
    d.querybuf = args.flatMap encodeArg ++ v → (∀ arg ∈ args, arg.length ≤ cfg.protoMaxBulkLen) →
    Path cfg answer d
      (runCommand answer { d with querybuf := v, argv := d.argv ++ args, multibulklen := 0, bulklen := none })
  | [], _, _, _, _, _, _, _, hne, _, _ => absurd rfl hne
  | [arg], d, v, hc, hf, hr, hm, hb, _, hq, hlen => by
    refine path_arg answer (n := 0) hc hf hr hm hb ?_ (hlen arg List.mem_cons_self)
    rw [hq]
    simp
  | arg :: arg' :: args, d, v, hc, hf, hr, hm, hb, _, hq, hlen => by
    have hfirst := path_arg answer (n := (arg' :: args).length) (v := (arg' :: args).flatMap encodeArg ++ v)
      hc hf hr hm hb (by rw [hq, List.flatMap_cons, List.append_assoc]) (hlen arg List.mem_cons_self)
    obtain ⟨e, he⟩ : ∃ e, e = { d with
      querybuf := (arg' :: args).flatMap encodeArg ++ v
      argv := d.argv ++ [arg]
      multibulklen := (arg' :: args).length
      bulklen := none } := ⟨_, rfl⟩
    simp only at hfirst
    rw [if_neg (by simp), ← he] at hfirst
    have hrest := path_args (arg' :: args) (d := e) (v := v) (by rw [he]; exact hc)
      (by rw [he]; exact hf) (by rw [he]; exact hr) (by rw [he]) (by rw [he]) (by simp) (by rw [he])
      fun a ha => hlen a (List.mem_cons_of_mem _ ha)
    have hargv : e.argv ++ arg' :: args = d.argv ++ arg :: arg' :: args := by rw [he]; simp
    rw [hargv, he] at hrest
    rw [he] at hfirst
    exact hfirst.trans ⟨rfl, rfl, rfl, rfl, rfl⟩ hrest

/-- A client between two requests. -/
structure Between (c : QueryClient) : Prop where
  closing : c.closing = false
  freed : c.freed = false
  reqtype : c.reqtype = none
  argv : c.argv = []
  multibulklen : c.multibulklen = 0
  bulklen : c.bulklen = none

theorem Between.shortLine (h : Between c) : ShortLine c := by
  intro _ _
  rw [h.reqtype]
  exact ⟨fun hr => (Option.some_ne_none _ hr.symm).elim, fun hr => (Option.some_ne_none _ hr.symm).elim⟩

/-- An encoded command is parsed and run. -/
theorem path_command {argv : List Sds} {v : Sds} (h : Between c)
    (hq : c.querybuf = encode argv ++ v) (hargs : argv.length ≤ 1024 * 1024)
    (hlen : ∀ arg ∈ argv, arg.length ≤ cfg.protoMaxBulkLen) :
    Path cfg answer c
      (runCommand answer { c with querybuf := v, reqtype := some .multibulk, argv := argv }) := by
  obtain ⟨k, hs, hk, htotal, hn, hdrop⟩ := headed_line (show argv.length < 2 ^ 63 by omega) (h := 42) (by decide)
    (argv.flatMap encodeArg ++ v)
  obtain ⟨c1, hc1⟩ : ∃ c1, c1 = { c with reqtype := some ReqType.multibulk } := ⟨_, rfl⟩
  have hq' : c1.querybuf = 42 :: ll2string argv.length ++ crlf ++ (argv.flatMap encodeArg ++ v) := by
    rw [hc1]
    show c.querybuf = _
    rw [hq, encode]
    simp
  rw [← hq'] at hs htotal hn hdrop
  have hfirst : step cfg answer c = some c1 := by
    rw [step, if_neg (by simp [h.closing, h.freed]), h.reqtype]
    simp only
    have hhead : c.querybuf.head? = some 42 := by
      rw [hq, encode]
      simp
    rw [if_neg (by
      intro hnil
      rw [hnil] at hhead
      cases hhead), hhead, if_pos rfl, hc1]
  have hpath : Path cfg answer c c1 :=
    .single hfirst h.shortLine
  have hshort : ShortLine c1 := by
    refine fun _ _ => ⟨fun hr => ?_, fun _ _ j hj => ?_⟩
    · rw [hc1] at hr
      cases hr
    · rw [hs] at hj
      cases hj
      exact hk.trans (by decide)
  have hclosing : c1.closing = false := by rw [hc1]; exact h.closing
  have hfreed : c1.freed = false := by rw [hc1]; exact h.freed
  have hreq : c1.reqtype = some .multibulk := by rw [hc1]
  have hm : c1.multibulklen = 0 := by rw [hc1]; exact h.multibulklen
  have hcount : step cfg answer c1 = countStep answer c1 := by
    rw [step_of_multibulk cfg answer hclosing hfreed hreq, if_pos hm]
  refine hpath.trans (by rw [hc1]; exact ⟨rfl, rfl, rfl, rfl, rfl⟩) ?_
  rw [countStep] at hcount
  simp only [hs, hn] at hcount
  rw [if_neg (by omega), if_neg (by omega)] at hcount
  by_cases hne : argv = []
  · subst hne
    rw [if_pos (by simp), QueryClient.cut, hdrop] at hcount
    refine .single ?_ hshort
    rw [hcount, hc1]
    simp only [List.flatMap_nil, List.nil_append, h.argv]
  · have hpos : ¬ (argv.length : ℤ) ≤ 0 := by
      have := List.length_pos_iff.mpr hne
      omega
    rw [if_neg hpos, QueryClient.cut, hdrop, Int.toNat_natCast] at hcount
    obtain ⟨c2, hc2⟩ : ∃ c2, c2 = { c1 with
      querybuf := argv.flatMap encodeArg ++ v
      multibulklen := argv.length } := ⟨_, rfl⟩
    have hargs := path_args answer argv (d := c2) (v := v) (by rw [hc2]; exact hclosing)
      (by rw [hc2]; exact hfreed) (by rw [hc2]; exact hreq) (by rw [hc2]) (by rw [hc2, hc1]; exact h.bulklen) hne
      (by rw [hc2]) hlen
    refine (Path.single (hcount.trans (congrArg some hc2.symm)) hshort).trans
      (by rw [hc2]; exact ⟨rfl, rfl, rfl, rfl, rfl⟩) ?_
    have hresult : { c2 with querybuf := v, argv := c2.argv ++ argv, multibulklen := 0, bulklen := none } =
        { c with querybuf := v, reqtype := some ReqType.multibulk, argv := argv } := by
      rw [hc2, hc1]
      simp only [h.argv, h.multibulklen, h.bulklen, List.nil_append]
    rw [hresult] at hargs
    exact hargs

theorem shortLine_of_closed (h : (c.closing || c.freed) = true) : ShortLine c := by
  intro hc hf
  rw [hc, hf] at h
  cases h

/-- Encoded commands are parsed to these commands, up to one that has the client closed. -/
theorem parse_encoded : ∀ (cmds : List (List Sds)) {c : QueryClient}, Between c → c.querybuf = cmds.flatMap encode →
    (∀ argv ∈ cmds, argv.length ≤ 1024 * 1024 ∧ ∀ arg ∈ argv, arg.length ≤ cfg.protoMaxBulkLen) →
    ∃ d, Reaches (step cfg answer) c d ∧ step cfg answer d = none ∧
      (∀ q, Reaches (step cfg answer) c q → ShortLine q) ∧
      d.handed = untilClosed answer c.handed cmds ∧ d.errors = c.errors
  | [], c, h, hq, _ => by
    have hstuck := step_of_empty cfg answer hq
    refine ⟨c, .refl c, hstuck, fun q hq => ?_, rfl, rfl⟩
    rw [hq.eq_of_stuck hstuck]
    exact h.shortLine
  | argv :: cmds, c, h, hq, hlen => by
    obtain ⟨hargs, harg⟩ := hlen argv List.mem_cons_self
    have hpath := path_command answer (v := cmds.flatMap encode) h (by rw [hq, List.flatMap_cons]) hargs harg
    obtain ⟨c1, hc1⟩ : ∃ c1, c1 = { c with
      querybuf := cmds.flatMap encode
      reqtype := some ReqType.multibulk
      argv := argv } := ⟨_, rfl⟩
    rw [← hc1] at hpath
    have hargv : c1.argv = argv := by rw [hc1]
    have hhanded : c1.handed = c.handed := by rw [hc1]
    have hrest := fun {d : QueryClient} (hd : Between d) (hqd : d.querybuf = cmds.flatMap encode) =>
      parse_encoded cmds hd hqd fun a ha => hlen a (List.mem_cons_of_mem _ ha)
    have hstop : ∀ {d : QueryClient}, (d.closing || d.freed) = true →
        step cfg answer d = none ∧ ∀ q, Reaches (step cfg answer) d q → ShortLine q := by
      intro d hd
      have hstuck : step cfg answer d = none := by rw [step, if_pos hd]
      refine ⟨hstuck, fun q hq => ?_⟩
      rw [hq.eq_of_stuck hstuck]
      exact shortLine_of_closed hd
    by_cases hempty : argv = []
    · rw [runCommand_empty answer (hargv.trans hempty)] at hpath
      obtain ⟨d, hd, hstuck, hshort, hd1, hd2⟩ := hrest (d := resetClient c1)
        ⟨by rw [hc1]; exact h.closing, by rw [hc1]; exact h.freed, rfl, rfl, rfl, rfl⟩ (by rw [hc1]; rfl)
      refine ⟨d, hpath.1.trans hd, hstuck, hpath.shortLine hshort, ?_, ?_⟩
      · rw [hd1, untilClosed, if_pos hempty]
        exact congrArg (fun h => untilClosed answer h cmds) hhanded
      · rw [hd2, hc1]
        rfl
    · have hne : c1.argv ≠ [] := hargv ▸ hempty
      rw [untilClosed, if_neg hempty]
      by_cases hquit : commandName argv = sds "quit"
      · rw [runCommand_quit answer hne (hargv ▸ hquit)] at hpath
        refine ⟨_, hpath.1, (hstop rfl).1, hpath.shortLine (hstop rfl).2, ?_, by rw [hc1]⟩
        rw [if_pos (show closes answer c.handed argv = true by rw [closes, decide_eq_true hquit]; rfl)]
        show c1.handed ++ [c1.argv] = _
        rw [hargv, hhanded]
      · by_cases hf : (answer (c.handed ++ [argv])).freed = true
        · rw [runCommand_freed answer hne (hargv ▸ hquit) (by rw [hargv, hhanded]; exact hf)] at hpath
          refine ⟨_, hpath.1, (hstop (by simp)).1, hpath.shortLine (hstop (by simp)).2, ?_, by rw [hc1]⟩
          rw [if_pos (show closes answer c.handed argv = true by rw [closes, hf]; simp)]
          show c1.handed ++ [c1.argv] = _
          rw [hargv, hhanded]
        · rw [runCommand_ok answer hne (hargv ▸ hquit) (by rw [hargv, hhanded]; exact hf)] at hpath
          by_cases hclose : (answer (c.handed ++ [argv])).closing = true
          · have hclosed : ((c1.closing || (answer (c1.handed ++ [c1.argv])).closing) || c1.freed) = true := by
              rw [hargv, hhanded, hclose, Bool.or_true, Bool.true_or]
            generalize hd0 : resetClient _ = d0 at hpath
            have hd : (d0.closing || d0.freed) = true := by rw [← hd0]; exact hclosed
            refine ⟨d0, hpath.1, (hstop hd).1, hpath.shortLine (hstop hd).2, ?_, by rw [← hd0, hc1]; rfl⟩
            rw [if_pos (show closes answer c.handed argv = true by rw [closes, hclose]; simp), ← hd0]
            show c1.handed ++ [c1.argv] = _
            rw [hargv, hhanded]
          · have hopen : (c1.closing || (answer (c1.handed ++ [c1.argv])).closing) = false := by
              rw [hargv, hhanded]
              rw [Bool.not_eq_true] at hclose
              rw [hclose, hc1]
              simpa using h.closing
            have hnot : ¬ closes answer c.handed argv = true := by
              rw [closes, decide_eq_false hquit]
              simp [hf, hclose]
            rw [if_neg hnot]
            generalize hd0 : resetClient _ = d0 at hpath
            have hfreed : c1.freed = false := by rw [hc1]; exact h.freed
            have hbuf : c1.querybuf = cmds.flatMap encode := by rw [hc1]
            have herr : c1.errors = c.errors := by rw [hc1]
            obtain ⟨d, hd, hstuck, hshort, hd1, hd2⟩ := hrest (d := d0)
              (by rw [← hd0]; exact ⟨hopen, hfreed, rfl, rfl, rfl, rfl⟩) (by rw [← hd0]; exact hbuf)
            refine ⟨d, hpath.1.trans hd, hstuck, hpath.shortLine hshort, ?_, ?_⟩
            · rw [hd1, ← hd0]
              show untilClosed answer (c1.handed ++ [c1.argv]) cmds = _
              rw [hargv, hhanded]
            · rw [hd2, ← hd0]
              exact herr

/-! ### Chunks do not matter -/

theorem newClient_between (master : Bool) (o : ℤ) (stream : Sds) : Between (feed stream (newClient master o)) :=
  ⟨rfl, rfl, rfl, rfl, rfl, rfl⟩

/-- The lines of an encoding are short. -/
theorem encoded_shortLines (master : Bool) (o : ℤ) {cmds : List (List Sds)}
    (hlen : ∀ argv ∈ cmds, argv.length ≤ 1024 * 1024 ∧ ∀ arg ∈ argv, arg.length ≤ cfg.protoMaxBulkLen) :
    ShortLines cfg answer (newClient master o) (cmds.flatMap encode) := by
  obtain ⟨-, -, -, hshort, -, -⟩ :=
    parse_encoded answer cmds (newClient_between master o (cmds.flatMap encode)) rfl hlen
  exact hshort

/-- A stream that is no longer than a line may be has short lines. -/
theorem shortLines_of_length (c : QueryClient) {stream : Sds} (hc : c.querybuf = [])
    (h : stream.length ≤ PROTO_INLINE_MAX_SIZE) : ShortLines cfg answer c stream := by
  intro p hp
  have hlen : p.querybuf.length ≤ stream.length := by
    refine hp.keeps (P := fun p => p.querybuf.length ≤ stream.length) ?_ ?_
    · intro s s' hs hle
      obtain ⟨-, -, heff⟩ := step_effect cfg answer hs
      cases heff with
      | kind hr => exact hle
      | fail err => exact hle
      | part n argv m bulklen hr hm hn =>
        show (s.querybuf.drop n).length ≤ _
        rw [List.length_drop]
        omega
      | command n argv m bulklen hn =>
        rw [(runCommand_buffer answer _).1]
        show (s.querybuf.drop n).length ≤ _
        rw [List.length_drop]
        omega
    · show (c.querybuf ++ stream).length ≤ stream.length
      rw [hc, List.nil_append]
  refine fun _ _ => ⟨fun _ k hk => ?_, fun _ _ k hk => ?_⟩
  · have := strchr_lt hk
    omega
  · have := strchr_lt hk
    omega

variable (cfg) in
/-- What the parser makes of a stream that is there at once. -/
theorem atOnce_spec (master : Bool) (o : ℤ) (stream : Sds) :
    ∃ whole, processInputBuffer cfg answer none (feed stream (newClient master o)) = .ok whole ∧
      Reaches (step cfg answer) (feed stream (newClient master o)) whole.trim ∧ step cfg answer whole.trim = none := by
  have hwf : Wf (feed stream (newClient master o)).trim := by
    rw [trim_eq rfl]
    exact (newClient_wf master o).feed stream
  obtain ⟨whole, hrun, hreach, -, -, hstuck⟩ := processInputBuffer_spec cfg answer none
    (c := feed stream (newClient master o)) (Nat.zero_le _) hwf rfl
  rw [trim_eq rfl] at hreach
  exact ⟨whole, hrun, hreach, hstuck rfl⟩

/-- **The parsing of requests does not depend on how the network cuts them up.** For every
stream whose lines are short, and every way to read it, with the client put off here and
there, nothing fails and the argument vectors handed to `processCommand` are the first of
those of the stream that is there at once; all of them, with the same protocol error at the
same place, when the client is not put off any more and the stream is read or the client
closed, unless the query buffer went over its limit. The encoding of a list of commands
within the limits is parsed to the commands, up to one that has the client closed. -/
theorem parsing_ignores_chunking (cfg : Config) (answer : List (List Sds) → After) (master : Bool) (o : ℤ)
    (repl : Repl) :
    (∀ stream es, ShortLines cfg answer (newClient master o) stream →
      ∃ whole k, processInputBuffer cfg answer none (feed stream (newClient master o)) = .ok whole ∧
        receive cfg answer (connect master o repl stream) es = .ok k ∧
        k.client.handed <+: whole.handed ∧
        (k.limited = false → Undelayed es → k.incoming = [] ∨ k.client.closing = true ∨ k.client.freed = true →
          k.client.handed = whole.handed ∧ k.client.errors = whole.errors ∧
          k.client.rest ++ k.incoming = whole.rest)) ∧
    (∀ cmds : List (List Sds),
      (∀ argv ∈ cmds, argv.length ≤ 1024 * 1024 ∧ ∀ arg ∈ argv, arg.length ≤ cfg.protoMaxBulkLen) →
      ∃ whole, processInputBuffer cfg answer none (feed (cmds.flatMap encode) (newClient master o)) = .ok whole ∧
        whole.handed = untilClosed answer [] cmds ∧ whole.errors = [] ∧
        ShortLines cfg answer (newClient master o) (cmds.flatMap encode)) := by
  refine ⟨fun stream es hsafe => ?_, fun cmds hlen => ?_⟩
  · obtain ⟨whole, hwhole, hreach, hstuck⟩ := atOnce_spec cfg answer master o stream
    have hstart : Tracks cfg answer _ _ := connect_tracks master o repl stream
    obtain ⟨k, hrun, hk⟩ := receive_tracks hsafe es hstart
    obtain ⟨v, hv, hkreach⟩ := hk.reaches
    have hinit := handed_prefix hkreach hreach hstuck
    refine ⟨whole, k, hwhole, hrun, hinit, fun hlim hes hdone => ?_⟩
    have hkstuck : step cfg answer k.client.trim = none := by
      refine receive_undelayed hsafe hstart ?_ hes hrun hlim
      exact step_of_empty cfg answer rfl
    have hfed : step cfg answer (feed v k.client.trim) = none := by
      rw [hv hlim]
      rcases hdone with hnil | hclosed | hfreed
      · rw [hnil, feed_nil]
        exact hkstuck
      · exact step_of_closing cfg answer hclosed
      · rw [step, if_pos]
        show (k.client.closing || k.client.freed) = true
        rw [hfreed, Bool.or_true]
    have heq := hkreach.unique hreach hfed hstuck
    rw [hv hlim] at heq
    have hhanded : (feed k.incoming k.client.trim).handed = whole.trim.handed := congrArg _ heq
    have herrors : (feed k.incoming k.client.trim).errors = whole.trim.errors := congrArg _ heq
    have hrest : (feed k.incoming k.client.trim).querybuf = whole.trim.querybuf := congrArg _ heq
    exact ⟨hhanded, herrors, hrest⟩
  · obtain ⟨whole, hwhole, hreach, hstuck⟩ :=
      atOnce_spec cfg answer master o (cmds.flatMap encode)
    obtain ⟨d, hd, hdstuck, -, hhanded, herrors⟩ :=
      parse_encoded answer cmds (newClient_between master o (cmds.flatMap encode)) rfl hlen
    have heq := hreach.unique hd hstuck hdstuck
    have hsame : whole.trim.handed = d.handed := congrArg _ heq
    have hsame' : whole.trim.errors = d.errors := congrArg _ heq
    exact ⟨whole, hwhole, hsame.trans hhanded, hsame'.trans herrors, encoded_shortLines answer master o hlen⟩

/-- Two commands, byte by byte as they are typed. -/
def twoPings : Sds := sds "PING\r\nPING\r\n"

/-- Two ways to read them: all at once, and one after the other. -/
theorem parsing_ignores_chunking_ping : ∃ whole k,
    processInputBuffer ⟨512, 1024, by decide⟩ (fun _ => {}) none (feed twoPings (newClient false 0)) = .ok whole ∧
      receive ⟨512, 1024, by decide⟩ (fun _ => {}) (connect false 0 {} twoPings) [.read 6 none, .read 6 none] = .ok k ∧
      k.client.handed = whole.handed ∧ whole.handed = [[sds "PING"], [sds "PING"]] := by
  have hshort : ShortLines ⟨512, 1024, by decide⟩ (fun _ => {}) (newClient false 0) twoPings :=
    shortLines_of_length _ _ rfl (by decide)
  obtain ⟨whole, k, hwhole, hrun, -, hsame⟩ := (parsing_ignores_chunking ⟨512, 1024, by decide⟩ (fun _ => {}) false 0 {}).1
    twoPings [.read 6 none, .read 6 none] hshort
  have hread : (match receive ⟨512, 1024, by decide⟩ (fun _ => {}) (connect false 0 {} twoPings)
      [.read 6 none, .read 6 none] with
    | .ok k => decide (k.limited = false ∧ k.incoming = [] ∧ k.client.handed = [[sds "PING"], [sds "PING"]])
    | .error _ => false) = true := by decide
  rw [hrun] at hread
  obtain ⟨hlim, hinc, hhanded⟩ := of_decide_eq_true hread
  have hes : Undelayed [.read 6 none, .read 6 none] := .inl (by simp)
  obtain ⟨heq, -, -⟩ := hsame hlim hes (.inl hinc)
  exact ⟨whole, k, hwhole, hrun, heq, heq ▸ hhanded⟩

/-- With a small limit for the query buffer the same stream is parsed in one way of reading
it, and has the client freed in another. -/
theorem query_limit_depends_on_chunking : ¬ ∀ (cfg : Config) (answer : List (List Sds) → After) (stream : Sds)
    (es es' : List Arrival) (k k' : Conn), ShortLines cfg answer (newClient false 0) stream →
      receive cfg answer (connect false 0 {} stream) es = .ok k →
      receive cfg answer (connect false 0 {} stream) es' = .ok k' →
      k.incoming = [] → k'.incoming = [] → Undelayed es → Undelayed es' → k.client.handed = k'.client.handed := by
  intro h
  have hdiffer : (match receive ⟨512, 10, by decide⟩ (fun _ => {}) (connect false 0 {} twoPings) [.read 12 none],
      receive ⟨512, 10, by decide⟩ (fun _ => {}) (connect false 0 {} twoPings) [.read 6 none, .read 6 none] with
    | .ok k, .ok k' => decide (k.incoming = [] ∧ k'.incoming = [] ∧ k.client.handed ≠ k'.client.handed)
    | _, _ => false) = true := by decide
  split at hdiffer
  · rename_i k k' hk hk'
    obtain ⟨h1, h2, hne⟩ := of_decide_eq_true hdiffer
    exact hne (h _ _ _ _ _ _ _ (shortLines_of_length _ _ rfl (by decide)) hk hk' h1 h2 (.inl (by simp)) (.inl (by simp)))
  · cases hdiffer

end RedisZk.Networking
