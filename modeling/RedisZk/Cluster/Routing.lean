/-
# Where a command may run

`getNodeByQuery` of cluster.c: whether this node serves the keys of a command, or of the commands that a
client has queued, and if not, where the client is sent. `getKeysFromCommand` and `lookupKeyRead`
are parameters. The loops over the commands and their keys are one scan of all keys.

Key definitions: `keyHashSlot`, `scanKey`, `getNodeByQuery`, `keysRequested`.
Key theorems: `scan_keys`, `getNodeByQuery_keys`, `slot_routing_safe`.
-/
import RedisZk.Cluster.Node
import RedisZk.Streams.Listpack

namespace RedisZk.Cluster

open Streams (Sds)

/-! ### Hash slots -/

def crc16tab : List ℕ :=
  [0x0000, 0x1021, 0x2042, 0x3063, 0x4084, 0x50a5, 0x60c6, 0x70e7, 0x8108, 0x9129, 0xa14a, 0xb16b, 0xc18c, 0xd1ad, 0xe1ce, 0xf1ef,
  0x1231, 0x0210, 0x3273, 0x2252, 0x52b5, 0x4294, 0x72f7, 0x62d6, 0x9339, 0x8318, 0xb37b, 0xa35a, 0xd3bd, 0xc39c, 0xf3ff, 0xe3de,
  0x2462, 0x3443, 0x0420, 0x1401, 0x64e6, 0x74c7, 0x44a4, 0x5485, 0xa56a, 0xb54b, 0x8528, 0x9509, 0xe5ee, 0xf5cf, 0xc5ac, 0xd58d,
  0x3653, 0x2672, 0x1611, 0x0630, 0x76d7, 0x66f6, 0x5695, 0x46b4, 0xb75b, 0xa77a, 0x9719, 0x8738, 0xf7df, 0xe7fe, 0xd79d, 0xc7bc,
  0x48c4, 0x58e5, 0x6886, 0x78a7, 0x0840, 0x1861, 0x2802, 0x3823, 0xc9cc, 0xd9ed, 0xe98e, 0xf9af, 0x8948, 0x9969, 0xa90a, 0xb92b,
  0x5af5, 0x4ad4, 0x7ab7, 0x6a96, 0x1a71, 0x0a50, 0x3a33, 0x2a12, 0xdbfd, 0xcbdc, 0xfbbf, 0xeb9e, 0x9b79, 0x8b58, 0xbb3b, 0xab1a,
  0x6ca6, 0x7c87, 0x4ce4, 0x5cc5, 0x2c22, 0x3c03, 0x0c60, 0x1c41, 0xedae, 0xfd8f, 0xcdec, 0xddcd, 0xad2a, 0xbd0b, 0x8d68, 0x9d49,
  0x7e97, 0x6eb6, 0x5ed5, 0x4ef4, 0x3e13, 0x2e32, 0x1e51, 0x0e70, 0xff9f, 0xefbe, 0xdfdd, 0xcffc, 0xbf1b, 0xaf3a, 0x9f59, 0x8f78,
  0x9188, 0x81a9, 0xb1ca, 0xa1eb, 0xd10c, 0xc12d, 0xf14e, 0xe16f, 0x1080, 0x00a1, 0x30c2, 0x20e3, 0x5004, 0x4025, 0x7046, 0x6067,
  0x83b9, 0x9398, 0xa3fb, 0xb3da, 0xc33d, 0xd31c, 0xe37f, 0xf35e, 0x02b1, 0x1290, 0x22f3, 0x32d2, 0x4235, 0x5214, 0x6277, 0x7256,
  0xb5ea, 0xa5cb, 0x95a8, 0x8589, 0xf56e, 0xe54f, 0xd52c, 0xc50d, 0x34e2, 0x24c3, 0x14a0, 0x0481, 0x7466, 0x6447, 0x5424, 0x4405,
  0xa7db, 0xb7fa, 0x8799, 0x97b8, 0xe75f, 0xf77e, 0xc71d, 0xd73c, 0x26d3, 0x36f2, 0x0691, 0x16b0, 0x6657, 0x7676, 0x4615, 0x5634,
  0xd94c, 0xc96d, 0xf90e, 0xe92f, 0x99c8, 0x89e9, 0xb98a, 0xa9ab, 0x5844, 0x4865, 0x7806, 0x6827, 0x18c0, 0x08e1, 0x3882, 0x28a3,
  0xcb7d, 0xdb5c, 0xeb3f, 0xfb1e, 0x8bf9, 0x9bd8, 0xabbb, 0xbb9a, 0x4a75, 0x5a54, 0x6a37, 0x7a16, 0x0af1, 0x1ad0, 0x2ab3, 0x3a92,
  0xfd2e, 0xed0f, 0xdd6c, 0xcd4d, 0xbdaa, 0xad8b, 0x9de8, 0x8dc9, 0x7c26, 0x6c07, 0x5c64, 0x4c45, 0x3ca2, 0x2c83, 0x1ce0, 0x0cc1,
  0xef1f, 0xff3e, 0xcf5d, 0xdf7c, 0xaf9b, 0xbfba, 0x8fd9, 0x9ff8, 0x6e17, 0x7e36, 0x4e55, 0x5e74, 0x2e93, 0x3eb2, 0x0ed1, 0x1ef0]

def crc16 (buf : Sds) : ℕ :=
  buf.foldl (fun crc b => (crc * 256 % 65536) ^^^ crc16tab.getD ((crc / 256 ^^^ b.val) % 256) 0) 0

/-- The slot of a number of 16 bits. -/
def toSlot (crc : ℕ) : Slot := ⟨crc % 16384, Nat.mod_lt _ (by decide)⟩

/-- The slot of a key: of what is between its first brace and the next closing one, if anything is there. -/
def keyHashSlot (key : Sds) : Slot :=
  let s := key.findIdx (· = 123)
  if s = key.length then toSlot (crc16 key)
  else
    let e := s + 1 + (key.drop (s + 1)).findIdx (· = 125)
    if e = key.length ∨ e = s + 1 then toSlot (crc16 key) else toSlot (crc16 ((key.drop (s + 1)).take (e - s - 1)))

/-! ### Commands and clients -/

/-- The `proc` of a command, as far as it is asked for. -/
inductive Proc
  | exec | migrate | eval | evalsha | other
deriving DecidableEq, Repr

/-- What is read of a `redisCommand`: `CMD_READONLY` and `CMD_ASKING` of its flags, and its name, which the
keys depend on. -/
structure redisCommand where
  name : String
  proc : Proc
  readonly : Bool := false
  asking : Bool := false
deriving DecidableEq, Repr

structure multiCmd where
  cmd : redisCommand
  argv : List Sds

/-- What is read of a client: three of its flags and the commands it has queued. -/
structure client where
  multi : Bool := false
  asking : Bool := false
  readonly : Bool := false
  mstate : List multiCmd := []

/-- `CLUSTER_REDIR_NONE` and the other codes. -/
inductive Redir
  | none | crossSlot | unstable | ask | moved | downState | downUnbound
deriving DecidableEq, Repr

/-- The node that is returned, NULL being `none`, and what is written to `hashslot` and `error_code`. -/
structure Query where
  node : Option NodePtr
  hashslot : Option Slot := Option.none
  error : Redir := .none
deriving DecidableEq

/-! ### The scan of the keys -/

/-- The variables of the two loops. -/
structure Scan where
  n : Option NodePtr := none
  firstkey : Option Sds := none
  multiple_keys : Bool := false
  slot : Slot := toSlot 0
  migrating_slot : Bool := false
  importing_slot : Bool := false
  missing_keys : ℕ := 0

section Query

variable (keysOf : redisCommand → List Sds → List ℕ) (held : Sds → Bool) (st : Server)

/-- The arguments that are keys. -/
def multiCmd.keys (mc : multiCmd) : List Sds := (keysOf mc.cmd mc.argv).map fun i => mc.argv.getD i []

/-- A key that this node does not have is counted if the slot is open. -/
def Scan.count (q : Scan) (thiskey : Sds) : Scan :=
  if (q.migrating_slot || q.importing_slot) && !held thiskey then { q with missing_keys := q.missing_keys + 1 } else q

def scanKey (q : Scan) (thiskey : Sds) : Except Redir Scan :=
  let thisslot := keyHashSlot thiskey
  match q.firstkey with
  | none =>
    match st.slots thisslot with
    | none => .error .downUnbound
    | some n =>
      let q := { q with firstkey := some thiskey, slot := thisslot, n := some n }
      if n = st.myself ∧ st.migratingSlotsTo thisslot ≠ none then .ok (Scan.count held { q with migrating_slot := true } thiskey)
      else if st.importingSlotsFrom thisslot ≠ none then .ok (Scan.count held { q with importing_slot := true } thiskey)
      else .ok (Scan.count held q thiskey)
  | some firstkey =>
    if firstkey ≠ thiskey then
      if q.slot ≠ thisslot then .error .crossSlot
      else .ok (Scan.count held { q with multiple_keys := true } thiskey)
    else .ok (Scan.count held q thiskey)

/-- The loop over the commands, and in it the one over the keys of each. -/
def scanCommands (commands : List multiCmd) : Except Redir Scan :=
  commands.foldlM (fun q mc => (mc.keys keysOf).foldlM (scanKey held st) q) {}

/-- What follows the scan of a request with keys. -/
def route (c : client) (cmd : redisCommand) (q : Scan) (n : NodePtr) : Query :=
  if st.state ≠ .ok then { node := none, error := .downState }
  else if (q.migrating_slot || q.importing_slot) && decide (cmd.proc = .migrate) then
    { node := some st.myself, hashslot := some q.slot }
  else if q.migrating_slot && decide (q.missing_keys ≠ 0) then
    { node := st.migratingSlotsTo q.slot, hashslot := some q.slot, error := .ask }
  else if q.importing_slot && (c.asking || cmd.asking) then
    if q.multiple_keys && decide (q.missing_keys ≠ 0) then { node := none, hashslot := some q.slot, error := .unstable }
    else { node := some st.myself, hashslot := some q.slot }
  else if (c.readonly && (cmd.readonly || decide (cmd.proc = .eval ∨ cmd.proc = .evalsha))) && nodeIsSlave st.me &&
      decide (st.me.slaveof = some n) then
    { node := some st.myself, hashslot := some q.slot }
  else { node := some n, hashslot := some q.slot, error := if n ≠ st.myself then .moved else .none }

/-- The commands of a request: those that are queued, or the command itself. -/
def commandsOf (c : client) (cmd : redisCommand) (argv : List Sds) : List multiCmd :=
  if cmd.proc = .exec then c.mstate else [{ cmd, argv }]

def getNodeByQuery (noRedirection : Bool) (c : client) (cmd : redisCommand) (argv : List Sds) : Query :=
  if noRedirection then { node := some st.myself }
  else if cmd.proc = .exec ∧ ¬ c.multi then { node := some st.myself }
  else
    match scanCommands keysOf held st (commandsOf c cmd argv) with
    | .error e => { node := none, error := e }
    | .ok q =>
      match q.n with
      | none => { node := some st.myself }
      | some n => route st c cmd q n

/-- All keys of a request, in the order they are looked at. An EXEC outside of MULTI has none. -/
def keysRequested (c : client) (cmd : redisCommand) (argv : List Sds) : List Sds :=
  if cmd.proc = .exec ∧ ¬ c.multi then [] else (commandsOf c cmd argv).flatMap fun mc => mc.keys keysOf

/-! ### What the scan finds -/

variable {keysOf held st}

theorem foldlM_flatMap {α β σ ε : Type} (g : α → List β) (f : σ → β → Except ε σ) : ∀ (l : List α) (q : σ),
    l.foldlM (fun q a => (g a).foldlM f q) q = (l.flatMap g).foldlM f q
  | [], q => rfl
  | a :: l, q => by
    rw [List.foldlM_cons, List.flatMap_cons, List.foldlM_append]
    exact bind_congr fun q => foldlM_flatMap g f l q

theorem count_eq (q : Scan) (k : Sds) : q.count held k =
    { q with missing_keys := q.missing_keys + if (q.migrating_slot || q.importing_slot) && !held k then 1 else 0 } := by
  rw [Scan.count]
  split
  · rfl
  · rfl

/-- The keys that are counted. -/
def missing (held : Sds → Bool) (q : Scan) (ks : List Sds) : ℕ :=
  if q.migrating_slot || q.importing_slot then ks.countP (fun k => !held k) else 0

theorem missing_cons (q : Scan) (k : Sds) (ks : List Sds) : missing held q (k :: ks) =
    (if (q.migrating_slot || q.importing_slot) && !held k then 1 else 0) + missing held q ks := by
  rw [missing, missing]
  cases q.migrating_slot || q.importing_slot
  · simp
  · simp [List.countP_cons, Nat.add_comm]

/-- The keys behind the first one. -/
theorem scan_rest {k : Sds} (ks : List Sds) : ∀ {q : Scan}, q.firstkey = some k → q.slot = keyHashSlot k →
    ks.foldlM (scanKey held st) q =
      if ∀ k' ∈ ks, keyHashSlot k' = keyHashSlot k then
        .ok { q with multiple_keys := q.multiple_keys || ks.any (· ≠ k), missing_keys := q.missing_keys + missing held q ks }
      else .error .crossSlot := by
  induction ks with
  | nil =>
    intro q _ _
    rw [if_pos (List.forall_mem_nil _)]
    simp only [List.foldlM_nil, List.any_nil, Bool.or_false, missing, List.countP_nil, ite_self, Nat.add_zero]
    rfl
  | cons k' ks ih =>
    intro q hfirst hslot
    have hall : (∀ x ∈ k' :: ks, keyHashSlot x = keyHashSlot k) ↔
        keyHashSlot k' = keyHashSlot k ∧ ∀ x ∈ ks, keyHashSlot x = keyHashSlot k := List.forall_mem_cons
    rw [List.foldlM_cons, scanKey, hfirst]
    dsimp only
    by_cases hsame : k = k'
    · subst hsame
      obtain ⟨q1, hq1⟩ : ∃ q1, q1 = q.count held k := ⟨_, rfl⟩
      rw [if_neg (not_not.mpr rfl), ← hq1]
      show List.foldlM (scanKey held st) q1 ks = _
      rw [count_eq] at hq1
      rw [ih (q := q1) (by rw [hq1]; exact hfirst) (by rw [hq1]; exact hslot), List.any_cons, missing_cons, ← Nat.add_assoc,
        show missing held q1 ks = missing held q ks by rw [hq1]; rfl, hq1]
      simp only [hall, true_and, ne_eq, not_true_eq_false, decide_false, Bool.false_or, hfirst]
    · by_cases hhash : keyHashSlot k' = keyHashSlot k
      · obtain ⟨q1, hq1⟩ : ∃ q1, q1 = ({ q with firstkey := some k, multiple_keys := true } : Scan).count held k' := ⟨_, rfl⟩
        rw [if_pos hsame, if_neg (by rw [hslot, hhash]; exact not_not.mpr rfl)]
        show List.foldlM (scanKey held st) (Scan.count held _ k') ks = _
        rw [← hq1]
        rw [count_eq] at hq1
        rw [ih (q := q1) (by rw [hq1]) (by rw [hq1]; exact hslot), List.any_cons, missing_cons, ← Nat.add_assoc,
          show missing held q1 ks = missing held q ks by rw [hq1]; rfl, hq1]
        simp only [hall, hhash, true_and, ne_eq, Ne.symm hsame, not_false_eq_true, decide_true, Bool.true_or, Bool.or_true]
      · rw [if_pos hsame, if_pos (by rw [hslot]; exact Ne.symm hhash), if_neg fun h => hhash (hall.mp h).1]
        rfl

/-- This node owns the slot and gives it away. -/
def Migrating (st : Server) (slot : Slot) (n : NodePtr) : Prop := n = st.myself ∧ st.migratingSlotsTo slot ≠ none

/-- This node takes the slot over. -/
def Importing (st : Server) (slot : Slot) (n : NodePtr) : Prop :=
  ¬ Migrating st slot n ∧ st.importingSlotsFrom slot ≠ none

instance (slot : Slot) (n : NodePtr) : Decidable (Migrating st slot n) :=
  inferInstanceAs (Decidable (n = st.myself ∧ st.migratingSlotsTo slot ≠ none))

instance (slot : Slot) (n : NodePtr) : Decidable (Importing st slot n) :=
  inferInstanceAs (Decidable (¬ Migrating st slot n ∧ st.importingSlotsFrom slot ≠ none))

/-- What the first key leaves: its slot, the slot's owner, and whether the slot is open. -/
def opened (st : Server) (n : NodePtr) (k : Sds) : Scan where
  n := some n
  firstkey := some k
  slot := keyHashSlot k
  migrating_slot := decide (Migrating st (keyHashSlot k) n)
  importing_slot := decide (Importing st (keyHashSlot k) n)

theorem scanKey_first {k : Sds} {n : NodePtr} (h : st.slots (keyHashSlot k) = some n) :
    scanKey held st {} k = .ok ((opened st n k).count held k) := by
  rw [scanKey]
  dsimp only
  rw [h]
  dsimp only
  by_cases hm : n = st.myself ∧ st.migratingSlotsTo (keyHashSlot k) ≠ none
  · have hmig : Migrating st (keyHashSlot k) n := hm
    have himp : ¬ Importing st (keyHashSlot k) n := fun h => h.1 hmig
    rw [if_pos hm, opened, decide_eq_true hmig, decide_eq_false himp]
  · have hmig : ¬ Migrating st (keyHashSlot k) n := hm
    rw [if_neg hm]
    by_cases hi : st.importingSlotsFrom (keyHashSlot k) ≠ none
    · rw [if_pos hi, opened, decide_eq_false hmig, decide_eq_true (show Importing st (keyHashSlot k) n from ⟨hmig, hi⟩)]
    · rw [if_neg hi, opened, decide_eq_false hmig, decide_eq_false fun h : Importing st (keyHashSlot k) n => hi h.2]

/-- What all keys leave. -/
def scanned (held : Sds → Bool) (st : Server) (n : NodePtr) (k : Sds) (ks : List Sds) : Scan :=
  { opened st n k with
    multiple_keys := ks.any (· ≠ k)
    missing_keys := missing held (opened st n k) (k :: ks) }

theorem scan_keys {k : Sds} {n : NodePtr} (h : st.slots (keyHashSlot k) = some n) (ks : List Sds) :
    (k :: ks).foldlM (scanKey held st) {} =
      if ∀ k' ∈ ks, keyHashSlot k' = keyHashSlot k then .ok (scanned held st n k ks) else .error .crossSlot := by
  obtain ⟨q, hq⟩ : ∃ q, q = (opened st n k).count held k := ⟨_, rfl⟩
  rw [List.foldlM_cons, scanKey_first h, ← hq]
  show List.foldlM (scanKey held st) q ks = _
  rw [count_eq] at hq
  rw [scan_rest ks (q := q) (by rw [hq]; rfl) (by rw [hq]; rfl), show missing held q ks = missing held (opened st n k) ks by rw [hq]; rfl,
    hq, scanned, missing_cons]
  simp only [opened, Bool.false_or, Nat.zero_add]

/-- **The outcome for a request with keys.** -/
theorem getNodeByQuery_keys {c : client} {cmd : redisCommand} {argv : List Sds} {k : Sds} {ks : List Sds}
    (hk : keysRequested keysOf c cmd argv = k :: ks) :
    (st.slots (keyHashSlot k) = none ∧
      getNodeByQuery keysOf held st false c cmd argv = { node := none, error := .downUnbound }) ∨
    ∃ n, st.slots (keyHashSlot k) = some n ∧ getNodeByQuery keysOf held st false c cmd argv =
      if ∀ k' ∈ ks, keyHashSlot k' = keyHashSlot k then route st c cmd (scanned held st n k ks) n
      else { node := none, error := .crossSlot } := by
  rw [keysRequested] at hk
  split at hk
  · cases hk
  · rename_i hexec
    have hscan : scanCommands keysOf held st (commandsOf c cmd argv) = (k :: ks).foldlM (scanKey held st) {} := by
      rw [scanCommands, foldlM_flatMap, hk]
    rw [getNodeByQuery, if_neg Bool.false_ne_true, if_neg hexec, hscan]
    cases hn : st.slots (keyHashSlot k) with
    | none =>
      refine .inl ⟨rfl, ?_⟩
      have hfirst : scanKey held st {} k = .error .downUnbound := by
        rw [scanKey]
        dsimp only
        rw [hn]
      rw [List.foldlM_cons, hfirst]
      rfl
    | some n =>
      refine .inr ⟨n, rfl, ?_⟩
      rw [scan_keys hn]
      by_cases hall : ∀ k' ∈ ks, keyHashSlot k' = keyHashSlot k
      · rw [if_pos hall, if_pos hall]
        rfl
      · rw [if_neg hall, if_neg hall]

/-! ### Safe routing -/

/-- Why this node may serve a request for the keys `ks` of a slot of the node `n`: it owns the slot, and has the keys
if it gives the slot away; or it takes the slot over, the request is flagged, and it is for one key or for keys that
are here; or it is a slave of the owner, and the client reads. -/
def MayServe (held : Sds → Bool) (st : Server) (c : client) (cmd : redisCommand) (ks : List Sds) (slot : Slot)
    (n : NodePtr) : Prop :=
  (n = st.myself ∧ (st.migratingSlotsTo slot = none ∨ ∀ k ∈ ks, held k = true)) ∨
  (st.importingSlotsFrom slot ≠ none ∧ (c.asking = true ∨ cmd.asking = true) ∧
    ((∀ k ∈ ks, ∀ k' ∈ ks, k = k') ∨ ∀ k ∈ ks, held k = true)) ∨
  (c.readonly = true ∧ (cmd.readonly = true ∨ cmd.proc = .eval ∨ cmd.proc = .evalsha) ∧ nodeIsSlave st.me = true ∧
    st.me.slaveof = some n)

/-- The errors, each with its reason and the node that it names. -/
inductive Refused (held : Sds → Bool) (st : Server) (c : client) (cmd : redisCommand) (ks : List Sds) : Query → Prop
  | crossSlot {k k' : Sds} (hk : k ∈ ks) (hk' : k' ∈ ks) (hne : keyHashSlot k ≠ keyHashSlot k') :
      Refused held st c cmd ks { node := none, error := .crossSlot }
  | downUnbound {k : Sds} (hk : k ∈ ks) (hslot : st.slots (keyHashSlot k) = none) :
      Refused held st c cmd ks { node := none, error := .downUnbound }
  | downState (hstate : st.state ≠ .ok) : Refused held st c cmd ks { node := none, error := .downState }
  | unstable {slot : Slot} {k k' : Sds} (hslot : ∀ k ∈ ks, keyHashSlot k = slot) (himp : st.importingSlotsFrom slot ≠ none)
      (hask : c.asking = true ∨ cmd.asking = true) (hk : k ∈ ks) (hk' : k' ∈ ks) (hne : k ≠ k')
      (hmiss : ∃ k ∈ ks, held k = false) : Refused held st c cmd ks { node := none, hashslot := some slot, error := .unstable }
  | ask {slot : Slot} {target : NodePtr} (hslot : ∀ k ∈ ks, keyHashSlot k = slot) (howner : st.slots slot = some st.myself)
      (hmig : st.migratingSlotsTo slot = some target) (hmiss : ∃ k ∈ ks, held k = false) :
      Refused held st c cmd ks { node := some target, hashslot := some slot, error := .ask }
  | moved {slot : Slot} {n : NodePtr} (hslot : ∀ k ∈ ks, keyHashSlot k = slot) (howner : st.slots slot = some n)
      (hne : n ≠ st.myself) : Refused held st c cmd ks { node := some n, hashslot := some slot, error := .moved }

theorem scanned_multiple {n : NodePtr} {k : Sds} {ks : List Sds} :
    (scanned held st n k ks).multiple_keys = true ↔ ∃ k' ∈ ks, k' ≠ k := by
  rw [scanned, List.any_eq_true]
  simp only [decide_eq_true_eq]

theorem scanned_missing {n : NodePtr} {k : Sds} {ks : List Sds}
    (hopen : Migrating st (keyHashSlot k) n ∨ Importing st (keyHashSlot k) n) :
    (scanned held st n k ks).missing_keys ≠ 0 ↔ ∃ k' ∈ k :: ks, held k' = false := by
  have hflags : ((opened st n k).migrating_slot || (opened st n k).importing_slot) = true := by
    rw [opened, Bool.or_eq_true, decide_eq_true_eq, decide_eq_true_eq]
    exact hopen
  rw [scanned, missing, if_pos hflags, ← Nat.pos_iff_ne_zero, List.countP_pos_iff]
  simp only [Bool.not_eq_true']

/-- The end of the chain, for a slot that is not given away, or of which all keys are here. -/
theorem route_end {c : client} {cmd : redisCommand} {n : NodePtr} {ks : List Sds} {slot : Slot} (hn : st.slots slot = some n)
    (hslot : ∀ k ∈ ks, keyHashSlot k = slot) (hown : n = st.myself → st.migratingSlotsTo slot = none ∨ ∀ k ∈ ks, held k = true)
    {r : Query} (hr : r = if (c.readonly && (cmd.readonly || decide (cmd.proc = .eval ∨ cmd.proc = .evalsha))) && nodeIsSlave st.me &&
        decide (st.me.slaveof = some n) then { node := some st.myself, hashslot := some slot }
      else { node := some n, hashslot := some slot, error := if n ≠ st.myself then .moved else .none }) :
    (MayServe held st c cmd ks slot n ∧ r = { node := some st.myself, hashslot := some slot }) ∨ Refused held st c cmd ks r := by
  split at hr
  · rename_i hread
    simp only [Bool.and_eq_true, Bool.or_eq_true, decide_eq_true_eq] at hread
    obtain ⟨⟨⟨hc, hcmd⟩, hslave⟩, hof⟩ := hread
    exact .inl ⟨.inr (.inr ⟨hc, hcmd, hslave, hof⟩), hr⟩
  · by_cases hme : n = st.myself
    · rw [if_neg (not_not.mpr hme)] at hr
      refine .inl ⟨.inl ⟨hme, hown hme⟩, ?_⟩
      rw [hr, hme]
    · rw [if_pos hme] at hr
      rw [hr]
      exact .inr (.moved hslot hn hme)

/-- The chain of tests, one after the other. -/
theorem route_cases {c : client} {cmd : redisCommand} {n : NodePtr} {k : Sds} {ks : List Sds} (hn : st.slots (keyHashSlot k) = some n)
    (hslot : ∀ k' ∈ k :: ks, keyHashSlot k' = keyHashSlot k) (hm : cmd.proc ≠ .migrate) :
    (st.state = .ok ∧ MayServe held st c cmd (k :: ks) (keyHashSlot k) n ∧
      route st c cmd (scanned held st n k ks) n = { node := some st.myself, hashslot := some (keyHashSlot k) }) ∨
    Refused held st c cmd (k :: ks) (route st c cmd (scanned held st n k ks) n) := by
  have hmigrating : (scanned held st n k ks).migrating_slot = decide (Migrating st (keyHashSlot k) n) := rfl
  have himporting : (scanned held st n k ks).importing_slot = decide (Importing st (keyHashSlot k) n) := rfl
  have hq : (scanned held st n k ks).slot = keyHashSlot k := rfl
  have hend := fun hown => @route_end held _ c cmd _ _ _ hn hslot hown _ rfl
  rw [route, hmigrating, himporting, hq, decide_eq_false hm, Bool.and_false]
  by_cases hstate : st.state = .ok
  · rw [if_neg (not_not.mpr hstate), if_neg Bool.false_ne_true]
    by_cases hmig : Migrating st (keyHashSlot k) n
    · have himp : ¬ Importing st (keyHashSlot k) n := fun h => h.1 hmig
      rw [decide_eq_true hmig, decide_eq_false himp, Bool.true_and, Bool.false_and]
      by_cases hmiss : ∃ k' ∈ k :: ks, held k' = false
      · obtain ⟨target, htarget⟩ := Option.ne_none_iff_exists'.mp hmig.2
        rw [if_pos (decide_eq_true ((scanned_missing (.inl hmig)).mpr hmiss)), htarget]
        exact .inr (.ask hslot (hmig.1 ▸ hn) htarget hmiss)
      · have hall : ∀ k' ∈ k :: ks, held k' = true := by
          intro k' hk'
          cases hheld : held k' with
          | true => rfl
          | false => exact absurd ⟨k', hk', hheld⟩ hmiss
        rw [if_neg (by rw [decide_eq_true_eq, scanned_missing (.inl hmig)]; exact hmiss), if_neg Bool.false_ne_true]
        exact (hend fun _ => .inr hall).imp_left fun h => ⟨hstate, h⟩
    · have hclosed : n = st.myself → st.migratingSlotsTo (keyHashSlot k) = none ∨ ∀ k' ∈ k :: ks, held k' = true :=
        fun hme => .inl (by_contra fun hne => hmig ⟨hme, hne⟩)
      rw [decide_eq_false hmig, Bool.false_and, if_neg Bool.false_ne_true]
      by_cases hask : (decide (Importing st (keyHashSlot k) n) && (c.asking || cmd.asking)) = true
      · rw [if_pos hask]
        rw [Bool.and_eq_true, decide_eq_true_eq, Bool.or_eq_true] at hask
        obtain ⟨himp, hask⟩ := hask
        by_cases hboth : ((scanned held st n k ks).multiple_keys && decide ((scanned held st n k ks).missing_keys ≠ 0)) = true
        · rw [if_pos hboth]
          rw [Bool.and_eq_true, decide_eq_true_eq, scanned_multiple, scanned_missing (.inr himp)] at hboth
          obtain ⟨⟨k', hk', hne⟩, hmiss⟩ := hboth
          exact .inr (.unstable hslot himp.2 hask (List.mem_cons_of_mem _ hk') List.mem_cons_self hne hmiss)
        · rw [if_neg hboth]
          rw [Bool.and_eq_true, decide_eq_true_eq, scanned_multiple, scanned_missing (.inr himp), not_and_or] at hboth
          refine .inl ⟨hstate, .inr (.inl ⟨himp.2, hask, hboth.imp (fun hone => ?_) fun hheld => ?_⟩), rfl⟩
          · have heq : ∀ k' ∈ k :: ks, k' = k := by
              intro k' hk'
              rcases List.mem_cons.mp hk' with rfl | hk'
              · rfl
              · exact by_contra fun hne => hone ⟨k', hk', hne⟩
            exact fun k1 h1 k2 h2 => (heq k1 h1).trans (heq k2 h2).symm
          · intro k' hk'
            cases hk : held k' with
            | true => rfl
            | false => exact absurd ⟨k', hk', hk⟩ hheld
      · rw [if_neg hask]
        exact (hend hclosed).imp_left fun h => ⟨hstate, h⟩
  · rw [if_pos hstate]
    exact .inr (.downState hstate)

/-- **Slot routing is safe.** For a request with keys that is no MIGRATE, while redirections are on: if this node is returned without
an error, the cluster is up, all keys belong to one slot, and this node may serve them; otherwise
the outcome is one of the errors, for its reason. -/
theorem slot_routing_safe (keysOf : redisCommand → List Sds → List ℕ) (held : Sds → Bool) (st : Server) (c : client)
    (cmd : redisCommand) (argv : List Sds) (hk : keysRequested keysOf c cmd argv ≠ []) (hm : cmd.proc ≠ .migrate) :
    let r := getNodeByQuery keysOf held st false c cmd argv
    (r.node = some st.myself ∧ r.error = .none → st.state = .ok ∧
      ∃ slot n, (∀ k ∈ keysRequested keysOf c cmd argv, keyHashSlot k = slot) ∧ st.slots slot = some n ∧
        MayServe held st c cmd (keysRequested keysOf c cmd argv) slot n) ∧
    (¬ (r.node = some st.myself ∧ r.error = .none) → Refused held st c cmd (keysRequested keysOf c cmd argv) r) := by
  intro r
  obtain ⟨k, ks, hks⟩ := List.exists_cons_of_ne_nil hk
  have herror : ∀ {r : Query}, Refused held st c cmd (k :: ks) r → r.error ≠ .none := by
    intro r h
    cases h <;> exact nofun
  have hcases : (st.state = .ok ∧ (∃ slot n, (∀ k' ∈ k :: ks, keyHashSlot k' = slot) ∧ st.slots slot = some n ∧
      MayServe held st c cmd (k :: ks) slot n) ∧ r.node = some st.myself ∧ r.error = .none) ∨
      Refused held st c cmd (k :: ks) r := by
    rcases @getNodeByQuery_keys _ held st _ _ _ _ _ hks with ⟨hnone, hr⟩ | ⟨n, hn, hr⟩
    · show _ ∨ Refused held st c cmd (k :: ks) (getNodeByQuery keysOf held st false c cmd argv)
      rw [hr]
      exact .inr (.downUnbound List.mem_cons_self hnone)
    · by_cases hall : ∀ k' ∈ ks, keyHashSlot k' = keyHashSlot k
      · have hslot : ∀ k' ∈ k :: ks, keyHashSlot k' = keyHashSlot k := List.forall_mem_cons.mpr ⟨rfl, hall⟩
        rw [if_pos hall] at hr
        rcases @route_cases held _ c _ _ _ _ hn hslot hm with ⟨hstate, hmay, hroute⟩ | href
        · refine .inl ⟨hstate, ⟨_, n, hslot, hn, hmay⟩, ?_⟩
          show (getNodeByQuery keysOf held st false c cmd argv).node = _ ∧ (getNodeByQuery keysOf held st false c cmd argv).error = _
          rw [hr, hroute]
          exact ⟨rfl, rfl⟩
        · right
          show Refused held st c cmd (k :: ks) (getNodeByQuery keysOf held st false c cmd argv)
          rw [hr]
          exact href
      · rw [if_neg hall] at hr
        have hne : ∃ k' ∈ ks, keyHashSlot k' ≠ keyHashSlot k := by
          by_contra h
          exact hall fun k' hk' => by_contra fun hne => h ⟨k', hk', hne⟩
        obtain ⟨k', hk', hne⟩ := hne
        show _ ∨ Refused held st c cmd (k :: ks) (getNodeByQuery keysOf held st false c cmd argv)
        rw [hr]
        exact .inr (.crossSlot (List.mem_cons_of_mem _ hk') List.mem_cons_self hne)
  rw [hks]
  rcases hcases with ⟨hstate, hslot, hnode, herr⟩ | href
  · exact ⟨fun _ => ⟨hstate, hslot⟩, fun h => absurd ⟨hnode, herr⟩ h⟩
  · exact ⟨fun h => absurd h.2 (herror href), fun _ => href⟩

end Query

/-- A master that owns all slots and gives them to the node 1. -/
def giver : Server where
  myself := 0
  heap _ := { ctime := 0, name := ⟨List.replicate 40 97, List.length_replicate⟩, flags := { master := true } }
  nextPtr := 2
  nodes := [0, 1]
  slots _ := some 0
  migratingSlotsTo _ := some 1
  state := .ok
  conf := { lines := [], currentEpoch := 0, lastVoteEpoch := 0 }

/-- An EXEC of two GETs whose keys have the tag `a`. -/
def twoGets : client where
  multi := true
  mstate := [[123, 97, 125, 49], [123, 97, 125, 50]].map fun key =>
    { cmd := { name := "get", proc := .other, readonly := true }, argv := [[71, 69, 84], key] }

theorem slot_routing_safe_exec : Refused (· = [123, 97, 125, 49]) giver twoGets { name := "exec", proc := .exec }
    (keysRequested (fun _ _ => [1]) twoGets { name := "exec", proc := .exec } [])
    (getNodeByQuery (fun _ _ => [1]) (· = [123, 97, 125, 49]) giver false twoGets { name := "exec", proc := .exec } []) :=
  (slot_routing_safe (fun _ _ => [1]) (· = [123, 97, 125, 49]) giver twoGets { name := "exec", proc := .exec } [] (by decide)
    (by decide)).2 (by decide)

end RedisZk.Cluster
