/-
# A truncated append only file

A file that is cut somewhere is loaded up to the last command that is whole, or up to the
transaction that it is cut in, and is itself cut there. This leaves memory and file in
agreement, with three exceptions: a cut inside of a command of a transaction leaves the
beginning of the transaction in the file, a cut before the first block behind a dump is whole
has the dump cut off, and a cut inside of the dump has the server exit.

Key definitions: `Block`, `Preamble`, `Recovers`, `Sound`.
Key theorems: `readCommand_encode`, `readCommand_torn`, `loadCommands_blocks`, `load_blocks_torn`,
`load_open`, `recovers_of_sound`, `sound_of_recovers`, `truncated_recovers_iff`.
-/
import Mathlib
import RedisZk.Aof.Load

namespace RedisZk.Aof

open Streams (Sds ll2string)
open Networking (sds encode encodeArg isspace commandName Abort crlf)

/-! ### Numbers and lines -/

variable {n : ℕ}

theorem ll2string_digit {x : Fin 256} (h : x ∈ ll2string n) : Decimal.Digit x := by
  rw [ll2string] at h
  split at h
  · rw [List.mem_singleton.mp h]
    decide
  · rw [if_neg (by omega)] at h
    exact Decimal.text_digit h

theorem isdigit_of_digit {x : Fin 256} (h : Decimal.Digit x) : isdigit x = true := by
  simp only [isdigit, Bool.and_eq_true, decide_eq_true_eq]
  exact h

theorem ll2string_ne_nil (n : ℕ) : ll2string n ≠ [] := by
  rw [ll2string]
  split
  · simp
  · rename_i h
    rw [if_neg (by omega), Int.natAbs_natCast]
    exact Decimal.text_ne_nil (by omega)

theorem value_ll2string (n : ℕ) : Decimal.value 0 (ll2string n) = n := by
  rw [ll2string]
  split
  · rename_i h
    have : n = 0 := by omega
    subst this
    rfl
  · rw [if_neg (by omega), Int.natAbs_natCast, Decimal.value_text]

/-- Digits, up to a character that is none. -/
theorem strtol_digits {p v : Sds} (hp : ∀ x ∈ p, Decimal.Digit x) (hne : p ≠ [])
    (hv : ∀ x ∈ v.head?, isdigit x = false) : strtol (p ++ v) = min LONG_MAX (Decimal.value 0 p : ℤ) := by
  obtain ⟨x, p', rfl⟩ := List.exists_cons_of_ne_nil hne
  have hx := hp x List.mem_cons_self
  have hspace : isspace x = false := by
    have h48 := hx.1
    have hne : x ≠ 32 := by
      rintro rfl
      exact absurd h48 (by decide)
    have hgt : ¬ x ≤ 13 := by
      intro hle
      have : x.val ≤ 13 := hle
      omega
    simp [isspace, hne, hgt]
  have hsign : sign (x :: p' ++ v) = (false, x :: p' ++ v) := by
    have h45 : x ≠ 45 := by
      rintro rfl
      exact absurd hx (by decide)
    have h43 : x ≠ 43 := by
      rintro rfl
      exact absurd hx (by decide)
    rw [List.cons_append, sign]
    · exact fun s hs => h45 (List.cons.inj hs).1
    · exact fun s hs => h43 (List.cons.inj hs).1
  have htake : (x :: p' ++ v).takeWhile isdigit = x :: p' := by
    rw [List.takeWhile_append_of_pos fun y hy => isdigit_of_digit (hp y hy)]
    cases v with
    | nil => simp
    | cons y v =>
      rw [List.takeWhile_cons_of_neg (by simp [hv y rfl]), List.append_nil]
  rw [strtol, List.cons_append, List.dropWhile_cons_of_neg (by simp [hspace]), ← List.cons_append, hsign]
  simp only [htake, Bool.false_eq_true, if_false]

theorem strtol_ll2string (h : n < 2 ^ 63) : strtol (ll2string n ++ crlf) = n := by
  rw [strtol_digits (fun x hx => ll2string_digit hx) (ll2string_ne_nil n) (by
    rintro x ⟨⟩
    rfl), value_ll2string]
  rw [min_eq_right]
  rw [LONG_MAX]
  omega

/-- The line with a number, under its first character. -/
def numberLine (h : Fin 256) (n : ℕ) : Sds := h :: ll2string n ++ crlf

theorem numberLine_length {h : Fin 256} (hn : n < 2 ^ 63) :
    (numberLine h n).length = (ll2string n).length + 3 ∧ (numberLine h n).length ≤ 23 := by
  have hlen := Networking.ll2string_length hn
  have htotal : (numberLine h n).length = (ll2string n).length + 3 := by simp [numberLine, crlf]
  omega

/-- Before its last character a line has no newline. -/
theorem numberLine_newline {h : Fin 256} (hh : h ≠ 10) (n : ℕ) (v : Sds) :
    ((numberLine h n ++ v).takeWhile (· ≠ 10)).length + 1 = (numberLine h n).length := by
  have hsplit : numberLine h n ++ v = (h :: ll2string n ++ [13]) ++ 10 :: v := by simp [numberLine, crlf]
  have hall : ∀ x ∈ h :: ll2string n ++ [13], decide (x ≠ 10) = true := by
    intro x hx
    rw [decide_eq_true_eq]
    rcases List.mem_append.mp hx with hx | hx
    · rcases List.mem_cons.mp hx with rfl | hx
      · exact hh
      · rintro rfl
        exact absurd (ll2string_digit hx) (by decide)
    · rw [List.mem_singleton.mp hx]
      decide
  rw [hsplit, List.takeWhile_append_of_pos hall, List.takeWhile_cons_of_neg (by simp), List.append_nil]
  simp [numberLine, crlf]

theorem fgets_numberLine {h : Fin 256} (hh : h ≠ 10) (hn : n < 2 ^ 63) (v : Sds) :
    fgets (numberLine h n ++ v) = some (numberLine h n, v) := by
  have hlen := (numberLine_length (h := h) hn).2
  have hne : numberLine h n ++ v ≠ [] := by simp [numberLine]
  rw [fgets, if_neg hne, numberLine_newline hh, min_eq_right (by omega)]
  simp only [List.take_left, List.drop_left]

variable {k : ℕ}

/-- A line that is cut off is read to its end. -/
theorem fgets_torn {h : Fin 256} (hh : h ≠ 10) (hn : n < 2 ^ 63) (hk : 0 < k)
    (hlt : k < (numberLine h n).length) :
    fgets ((numberLine h n).take k) = some ((numberLine h n).take k, []) := by
  have hlen := (numberLine_length (h := h) hn).2
  have htl : ((numberLine h n).take k).length = k := by
    rw [List.length_take]
    omega
  have hne : (numberLine h n).take k ≠ [] := by
    intro hnil
    rw [hnil] at htl
    simp at htl
    omega
  have hnone : ((numberLine h n).take k).takeWhile (· ≠ 10) = (numberLine h n).take k := by
    have hmin := numberLine_newline hh n []
    rw [List.append_nil] at hmin
    have hpre : (numberLine h n).take k <+: (numberLine h n).takeWhile (· ≠ 10) := by
      refine List.prefix_of_prefix_length_le (List.take_prefix _ _) (List.takeWhile_prefix _) ?_
      omega
    refine List.takeWhile_eq_self_iff.mpr fun x hx => ?_
    exact List.mem_takeWhile_imp (p := fun x => decide (x ≠ 10)) (hpre.subset hx)
  rw [fgets, if_neg hne, hnone, htl]
  simp only
  rw [List.take_of_length_le (by omega), List.drop_of_length_le (by omega)]

/-! ### Commands -/

/-- A command that is fed: its counts fit an `int` and a `long`, and it is known. -/
structure Complete (argv : List Sds) : Prop where
  nonempty : argv ≠ []
  argc : argv.length < 2 ^ 31
  args : ∀ arg ∈ argv, arg.length < 2 ^ 63
  known : lookupCommand argv = true

instance (argv : List Sds) : Decidable (Complete argv) :=
  decidable_of_iff (argv ≠ [] ∧ argv.length < 2 ^ 31 ∧ (∀ arg ∈ argv, arg.length < 2 ^ 63) ∧ lookupCommand argv = true)
    ⟨fun h => ⟨h.1, h.2.1, h.2.2.1, h.2.2.2⟩, fun h => ⟨h.nonempty, h.argc, h.args, h.known⟩⟩

theorem encode_eq (argv : List Sds) : encode argv = numberLine 42 argv.length ++ argv.flatMap encodeArg := rfl

theorem encodeArg_eq (arg : Sds) : encodeArg arg = numberLine 36 arg.length ++ (arg ++ crlf) := by
  simp [encodeArg, numberLine]

theorem crlf_length : crlf.length = 2 := rfl

theorem readLen (hn : n < 2 ^ 63) : (strtol ((numberLine 36 n).drop 1) % 2 ^ 64).toNat = n := by
  have hdrop : (numberLine 36 n).drop 1 = ll2string n ++ crlf := by simp [numberLine]
  rw [hdrop, strtol_ll2string hn]
  omega

theorem readArgs_encode (argv : List Sds) (hargs : ∀ arg ∈ argv, arg.length < 2 ^ 63) (v : Sds) :
    readArgs argv.length (argv.flatMap encodeArg ++ v) = .ok (argv, v) := by
  induction argv with
  | nil => rfl
  | cons arg argv ih =>
    have hlen := hargs arg List.mem_cons_self
    have hsplit : (arg :: argv).flatMap encodeArg ++ v =
        numberLine 36 arg.length ++ (arg ++ crlf ++ (argv.flatMap encodeArg ++ v)) := by
      simp [List.flatMap_cons, encodeArg_eq]
    rw [List.length_cons, readArgs, hsplit, fgets_numberLine (by decide) hlen]
    simp only [readLen hlen]
    have hshort : ¬ (arg ++ crlf ++ (argv.flatMap encodeArg ++ v)).length < arg.length + 2 := by
      rw [List.length_append, List.length_append, crlf_length]
      omega
    have hdrop : (arg ++ crlf ++ (argv.flatMap encodeArg ++ v)).drop (arg.length + 2) = argv.flatMap encodeArg ++ v :=
      List.drop_left' (by simp [crlf_length])
    have htake : (arg ++ crlf ++ (argv.flatMap encodeArg ++ v)).take arg.length = arg := by
      rw [List.append_assoc]
      exact List.take_left' rfl
    rw [if_neg (by simp [numberLine]), if_neg (by omega), if_neg hshort, hdrop, htake,
      ih fun a ha => hargs a (List.mem_cons_of_mem _ ha)]
    rfl

theorem too_short {s : Sds} {len : ℕ} (h : s.length < len + 2) (r : Except ReadError (List Sds × Sds)) :
    (if s.length < len then .error .short else if s.length < len + 2 then .error .short else r) = .error .short := by
  rw [if_pos h]
  split <;> rfl

/-- Arguments that are cut off are too short. -/
theorem readArgs_torn (argv : List Sds) (hargs : ∀ arg ∈ argv, arg.length < 2 ^ 63) : ∀ {k : ℕ},
    k < (argv.flatMap encodeArg).length → readArgs argv.length ((argv.flatMap encodeArg).take k) = .error .short := by
  induction argv with
  | nil => exact fun h => absurd h (Nat.not_lt_zero _)
  | cons arg argv ih =>
    intro k hk
    have hlen := hargs arg List.mem_cons_self
    have hsplit : (arg :: argv).flatMap encodeArg =
        numberLine 36 arg.length ++ (arg ++ crlf ++ argv.flatMap encodeArg) := by
      simp [List.flatMap_cons, encodeArg_eq]
    rw [List.length_cons, readArgs, hsplit]
    by_cases h0 : k = 0
    · rw [h0, List.take_zero]
      rfl
    · by_cases hline : k < (numberLine 36 arg.length).length
      · rw [List.take_append_of_le_length (by omega), fgets_torn (by decide) hlen (by omega) hline]
        have hhead : ((numberLine 36 arg.length).take k).head? = some 36 := by
          obtain ⟨j, rfl⟩ : ∃ j, k = j + 1 := ⟨k - 1, by omega⟩
          rfl
        simp only [hhead, ne_eq, not_true_eq_false, if_false]
        exact too_short (by simp) _
      · obtain ⟨j, rfl⟩ : ∃ j, k = (numberLine 36 arg.length).length + j := ⟨k - (numberLine 36 arg.length).length, by omega⟩
        rw [List.take_length_add_append, fgets_numberLine (by decide) hlen]
        simp only [readLen hlen]
        rw [if_neg (by simp [numberLine])]
        rw [hsplit, List.length_append, List.length_append] at hk
        have hlen2 : (arg ++ crlf).length = arg.length + 2 := by simp [crlf_length]
        by_cases hj : j < arg.length + 2
        · have hshort : ((arg ++ crlf ++ argv.flatMap encodeArg).take j).length < arg.length + 2 := by
            rw [List.length_take]
            omega
          exact too_short hshort _
        · obtain ⟨i, rfl⟩ : ∃ i, j = (arg ++ crlf).length + i := ⟨j - (arg ++ crlf).length, by omega⟩
          rw [List.take_length_add_append]
          have hlong : ¬ (arg ++ crlf ++ (argv.flatMap encodeArg).take i).length < arg.length + 2 := by
            rw [List.length_append]
            omega
          rw [if_neg (by omega), if_neg hlong, List.drop_left' hlen2,
            ih (fun a ha => hargs a (List.mem_cons_of_mem _ ha)) (by omega)]
          rfl

theorem atoi_digits {p v : Sds} (hp : ∀ x ∈ p, Decimal.Digit x) (hne : p ≠ []) (hv : ∀ x ∈ v.head?, isdigit x = false)
    (hlt : Decimal.value 0 p < 2 ^ 31) : atoi (p ++ v) = (Decimal.value 0 p : ℤ) := by
  have hmin : min LONG_MAX (Decimal.value 0 p : ℤ) = Decimal.value 0 p := by
    rw [min_eq_right]
    rw [LONG_MAX]
    omega
  rw [atoi, strtol_digits hp hne hv, hmin, wrap]
  omega

theorem atoi_ll2string (h : n < 2 ^ 31) : atoi (ll2string n ++ crlf) = n := by
  rw [atoi_digits (fun x hx => ll2string_digit hx) (ll2string_ne_nil n) (by
    rintro x ⟨⟩
    rfl) (by rw [value_ll2string]; exact h), value_ll2string]

variable {argv : List Sds}

/-- The number of arguments is read. -/
theorem readCommand_line (h : Complete argv) (v : Sds) :
    readCommand (numberLine 42 argv.length ++ v) = (readArgs argv.length v).map some := by
  have hpos := List.length_pos_iff.mpr h.nonempty
  have hargc := h.argc
  have hdrop : (numberLine 42 argv.length).drop 1 = ll2string argv.length ++ crlf := by simp [numberLine]
  have hsecond : (numberLine 42 argv.length).getD 1 0 ≠ 0 := by
    obtain ⟨x, p, hp⟩ := List.exists_cons_of_ne_nil (ll2string_ne_nil argv.length)
    have hx := ll2string_digit (n := argv.length) (x := x) (by rw [hp]; exact List.mem_cons_self)
    rw [numberLine, hp]
    show x ≠ 0
    rintro rfl
    exact absurd hx (by decide)
  rw [readCommand, fgets_numberLine (by decide) (by omega)]
  simp only
  rw [if_neg (by simp [numberLine]), if_neg hsecond, hdrop, atoi_ll2string h.argc, if_neg (by omega), Int.toNat_natCast]
  cases readArgs argv.length v <;> rfl

/-- A command that is there is read. -/
theorem readCommand_encode (h : Complete argv) (v : Sds) :
    readCommand (encode argv ++ v) = .ok (some (argv, v)) := by
  rw [encode_eq, List.append_assoc, readCommand_line h, readArgs_encode argv h.args]
  rfl

/-- The beginning of a number that is not 0 is one, and is not larger. -/
theorem atoi_torn (h0 : 0 < n) (hn : n < 2 ^ 31) (hk : 0 < k) :
    1 ≤ atoi ((ll2string n ++ crlf).take k) := by
  have htext : ll2string n = Decimal.text n := by
    rw [ll2string, if_neg (by omega), if_neg (by omega), Int.natAbs_natCast]
  obtain ⟨x, p, hp⟩ := List.exists_cons_of_ne_nil (Decimal.text_ne_nil (n := n) (by omega))
  have hx := Decimal.text_head hp
  obtain ⟨j, rfl⟩ : ∃ j, k = j + 1 := ⟨k - 1, by omega⟩
  have htake : (ll2string n ++ crlf).take (j + 1) = (ll2string n).take (j + 1) ++ crlf.take (j + 1 - (ll2string n).length) :=
    List.take_append
  have hne : (ll2string n).take (j + 1) ≠ [] := by
    rw [htext, hp]
    simp
  have hdigits : ∀ y ∈ (ll2string n).take (j + 1), Decimal.Digit y := fun y hy => ll2string_digit (List.take_subset _ _ hy)
  have hle : Decimal.value 0 ((ll2string n).take (j + 1)) ≤ n := by
    have hsplit := value_ll2string n
    rw [← List.take_append_drop (j + 1) (ll2string n), Decimal.value, List.foldl_append] at hsplit
    have := Decimal.le_value ((ll2string n).drop (j + 1)) (Decimal.value 0 ((ll2string n).take (j + 1)))
    rw [Decimal.value, Decimal.value, hsplit] at this
    exact this
  have hpos : 1 ≤ Decimal.value 0 ((ll2string n).take (j + 1)) := by
    rw [htext, hp, List.take_succ_cons, Decimal.value_cons]
    have := Decimal.le_value (p.take j) (0 * 10 + (x.val - 48))
    omega
  rw [htake, atoi_digits hdigits hne ?_ (by omega)]
  · exact_mod_cast hpos
  · intro y hy
    have : y ∈ crlf := List.take_subset _ _ (List.mem_of_mem_head? hy)
    rcases List.mem_cons.mp this with rfl | h
    · rfl
    · rw [List.mem_singleton.mp h]
      rfl

/-- A command that is cut off is too short. -/
theorem readCommand_torn (h : Complete argv) {k : ℕ} (hk : 0 < k) (hlt : k < (encode argv).length) :
    readCommand ((encode argv).take k) = .error .short := by
  have hpos := List.length_pos_iff.mpr h.nonempty
  have hargc := h.argc
  by_cases hline : k < (numberLine 42 argv.length).length
  · rw [readCommand, encode_eq, List.take_append_of_le_length (by omega), fgets_torn (by decide) (by omega) hk hline]
    obtain ⟨j, rfl⟩ : ∃ j, k = j + 1 := ⟨k - 1, by omega⟩
    have hcons : (numberLine 42 argv.length).take (j + 1) = 42 :: (ll2string argv.length ++ crlf).take j := by
      simp [numberLine]
    rw [hcons]
    simp only [List.head?_cons, ne_eq, not_true_eq_false, if_false, List.drop_one, List.tail_cons]
    by_cases hj : j = 0
    · rw [hj, List.take_zero]
      rfl
    · have hatoi := atoi_torn hpos hargc (k := j) (by omega)
      obtain ⟨x, p, hp⟩ := List.exists_cons_of_ne_nil (ll2string_ne_nil argv.length)
      have hx := ll2string_digit (n := argv.length) (x := x) (by rw [hp]; exact List.mem_cons_self)
      have hsecond : (42 :: (ll2string argv.length ++ crlf).take j).getD 1 0 ≠ 0 := by
        obtain ⟨i, rfl⟩ : ∃ i, j = i + 1 := ⟨j - 1, by omega⟩
        rw [hp]
        show x ≠ 0
        rintro rfl
        exact absurd hx (by decide)
      rw [if_neg hsecond, if_neg (by omega)]
      obtain ⟨m, hm⟩ : ∃ m, (atoi ((ll2string argv.length ++ crlf).take j)).toNat = m + 1 :=
        ⟨(atoi ((ll2string argv.length ++ crlf).take j)).toNat - 1, by omega⟩
      rw [hm]
      rfl
  · obtain ⟨j, rfl⟩ : ∃ j, k = (numberLine 42 argv.length).length + j := ⟨k - (numberLine 42 argv.length).length, by omega⟩
    rw [encode_eq, List.length_append] at hlt
    rw [encode_eq, List.take_length_add_append, readCommand_line h, readArgs_torn argv h.args (by omega)]
    rfl

/-! ### The loop -/

/-- A list of commands, as it is in the file. -/
def bytes (cmds : List (List Sds)) : Sds := cmds.flatMap encode

@[simp] theorem bytes_nil : bytes [] = [] := rfl

@[simp] theorem bytes_cons (argv : List Sds) (cmds : List (List Sds)) : bytes (argv :: cmds) = encode argv ++ bytes cmds := rfl

@[simp] theorem bytes_append (cmds cmds' : List (List Sds)) : bytes (cmds ++ cmds') = bytes cmds ++ bytes cmds' := by
  simp [bytes]

theorem encode_pos (argv : List Sds) : 0 < (encode argv).length := by
  rw [encode_eq, List.length_append, numberLine]
  simp

theorem length_le_bytes (cmds : List (List Sds)) : cmds.length ≤ (bytes cmds).length := by
  induction cmds with
  | nil => exact le_refl _
  | cons argv cmds ih =>
    have := encode_pos argv
    rw [bytes_cons, List.length_append, List.length_cons]
    omega

/-- The commands that begin at `offset`, loaded in turn. -/
def loadCommands : ℕ → List (List Sds) → Loading → Loading
  | _, [], l => l
  | offset, argv :: cmds, l =>
    loadCommands (offset + (encode argv).length) cmds
      { loadCommand argv l with validUpTo := offset + (encode argv).length }

theorem loadCommands_append (cmds cmds' : List (List Sds)) : ∀ (offset : ℕ) (l : Loading),
    loadCommands offset (cmds ++ cmds') l =
      loadCommands (offset + (bytes cmds).length) cmds' (loadCommands offset cmds l) := by
  induction cmds with
  | nil => exact fun _ _ => rfl
  | cons argv cmds ih =>
    intro offset l
    rw [List.cons_append, loadCommands, ih, loadCommands, bytes_cons, List.length_append, Nat.add_assoc]

/-- The loop takes the commands that are whole. -/
theorem loadLoop_commands (cmds : List (List Sds)) (tail : Sds) : ∀ {offset n : ℕ} {l : Loading},
    (∀ argv ∈ cmds, Complete argv) →
    loadLoop true (offset + (bytes cmds).length + tail.length) (n + cmds.length) (bytes cmds ++ tail) l =
      loadLoop true (offset + (bytes cmds).length + tail.length) n tail (loadCommands offset cmds l) := by
  induction cmds with
  | nil => exact fun _ => rfl
  | cons argv cmds ih =>
    intro offset n l hok
    have hargv := hok argv List.mem_cons_self
    rw [bytes_cons, List.append_assoc, List.length_cons, ← Nat.add_assoc, loadLoop, readCommand_encode hargv]
    simp only [hargv.known, Bool.not_true, Bool.false_eq_true, if_false, if_true]
    have hsize : offset + (encode argv ++ bytes cmds).length + tail.length =
        offset + (encode argv).length + (bytes cmds).length + tail.length := by
      rw [List.length_append]
      omega
    have hoff : offset + (encode argv).length + (bytes cmds).length + tail.length - (bytes cmds ++ tail).length =
        offset + (encode argv).length := by
      rw [List.length_append]
      omega
    rw [hsize, hoff, loadCommands]
    exact ih fun a ha => hok a (List.mem_cons_of_mem _ ha)

/-! ### Blocks -/

/-- What a master writes at a time: a command, or a transaction. -/
inductive Block
  | one (argv : List Sds)
  | tx (multi exec : List Sds) (queued : List (List Sds))

def Block.commands : Block → List (List Sds)
  | .one argv => [argv]
  | .tx multi exec queued => multi :: (queued ++ [exec])

/-- The commands that are executed of a block that is whole. -/
def Block.executed : Block → List (List Sds)
  | .one argv => [argv]
  | .tx _ _ queued => queued

def Block.Valid : Block → Prop
  | .one argv => Complete argv ∧ commandName argv ≠ sds "multi" ∧ commandName argv ≠ sds "exec"
  | .tx multi exec queued => (Complete multi ∧ commandName multi = sds "multi") ∧
    (Complete exec ∧ commandName exec = sds "exec") ∧
    ∀ argv ∈ queued, Complete argv ∧ commandName argv ≠ sds "multi" ∧ commandName argv ≠ sds "exec" ∧
      commandName argv ≠ sds "discard"

instance : DecidablePred Block.Valid
  | .one _ => inferInstanceAs (Decidable (_ ∧ _))
  | .tx _ _ _ => inferInstanceAs (Decidable (_ ∧ _ ∧ _))

def commands (blocks : List Block) : List (List Sds) := blocks.flatMap Block.commands

def executed (blocks : List Block) : List (List Sds) := blocks.flatMap Block.executed

@[simp] theorem commands_append (bs bs' : List Block) : commands (bs ++ bs') = commands bs ++ commands bs' := by
  simp [commands]

@[simp] theorem commands_cons (b : Block) (bs : List Block) : commands (b :: bs) = b.commands ++ commands bs := rfl

@[simp] theorem executed_append (bs bs' : List Block) : executed (bs ++ bs') = executed bs ++ executed bs' := by
  simp [executed]

@[simp] theorem executed_cons (b : Block) (bs : List Block) : executed (b :: bs) = b.executed ++ executed bs := rfl

theorem Block.Valid.complete {b : Block} (h : b.Valid) : ∀ argv ∈ b.commands, Complete argv := by
  cases b with
  | one argv => simpa [Block.commands] using h.1
  | tx multi exec queued =>
    intro argv hargv
    rcases List.mem_cons.mp hargv with rfl | hargv
    · exact h.1.1
    · rcases List.mem_append.mp hargv with hargv | hargv
      · exact (h.2.2 argv hargv).1
      · rw [List.mem_singleton.mp hargv]
        exact h.2.1.1

variable {bs : List Block}

theorem complete_of_valid (h : ∀ b ∈ bs, b.Valid) : ∀ argv ∈ commands bs, Complete argv := by
  intro argv hargv
  obtain ⟨b, hb, hargv⟩ := List.mem_flatMap.mp hargv
  exact (h b hb).complete argv hargv

/-- A loader outside of transactions. -/
structure Idle (l : Loading) (memory : Memory) (validUpTo : ℕ) : Prop where
  memory : l.memory = memory
  multi : l.multi = false
  queued : l.queued = []
  validUpTo : l.validUpTo = validUpTo

/-- A loader in a transaction. -/
structure Queuing (l : Loading) (memory : Memory) (queued : List (List Sds)) (validBeforeMulti : ℕ) : Prop where
  memory : l.memory = memory
  multi : l.multi = true
  queued : l.queued = queued
  validBeforeMulti : l.validBeforeMulti = validBeforeMulti

theorem execute_nil (m : Memory) : m.execute [] = m := by simp [Memory.execute]

theorem execute_execute (m : Memory) (cmds cmds' : List (List Sds)) :
    (m.execute cmds).execute cmds' = m.execute (cmds ++ cmds') := by simp [Memory.execute]

variable {l : Loading} {m : Memory} {v : ℕ}

theorem loadCommand_multi (h : Idle l m v)
    (hname : commandName argv = sds "multi") (u : ℕ) : Queuing { loadCommand argv l with validUpTo := u } m [] v := by
  have hexec : commandName argv ≠ sds "exec" := by
    rw [hname]
    decide
  have hmulti := h.multi
  refine ⟨?_, ?_, ?_, ?_⟩ <;> simp [loadCommand, hname, hmulti, h.memory, h.queued, h.validUpTo]

variable {q : List (List Sds)}

theorem loadCommand_queued (h : Queuing l m q v)
    (hm : commandName argv ≠ sds "multi") (he : commandName argv ≠ sds "exec") (u : ℕ) :
    Queuing { loadCommand argv l with validUpTo := u } m (q ++ [argv]) v := by
  have hmulti := h.multi
  refine ⟨?_, ?_, ?_, ?_⟩ <;> simp [loadCommand, hm, he, hmulti, h.memory, h.queued, h.validBeforeMulti]

theorem loadCommand_exec (h : Queuing l m q v)
    (he : commandName argv = sds "exec") (u : ℕ) :
    Idle { loadCommand argv l with validUpTo := u } (m.execute q) u := by
  have hne : sds "exec" ≠ sds "multi" := by decide
  have hmulti := h.multi
  refine ⟨?_, ?_, ?_, rfl⟩ <;> simp [loadCommand, he, hne, hmulti, h.memory, h.queued]

theorem loadCommand_one (h : Idle l m v)
    (hm : commandName argv ≠ sds "multi") (he : commandName argv ≠ sds "exec") (u : ℕ) :
    Idle { loadCommand argv l with validUpTo := u } (m.execute [argv]) u := by
  have hmulti := h.multi
  refine ⟨?_, ?_, ?_, rfl⟩ <;> simp [loadCommand, hm, he, hmulti, h.memory, h.queued]

/-- The commands of a transaction up to one of them. -/
theorem loadCommands_queued (q : List (List Sds)) : ∀ (offset : ℕ) {l : Loading} {m : Memory} {q0 : List (List Sds)}
    {v : ℕ}, Queuing l m q0 v →
    (∀ argv ∈ q, commandName argv ≠ sds "multi" ∧ commandName argv ≠ sds "exec") →
    Queuing (loadCommands offset q l) m (q0 ++ q) v := by
  induction q with
  | nil => exact fun _ _ _ _ _ h _ => (List.append_nil _).symm ▸ h
  | cons argv q ih =>
    intro offset l m q0 v h hq
    obtain ⟨hm, he⟩ := hq argv List.mem_cons_self
    have := ih (offset + (encode argv).length) (loadCommand_queued h hm he (offset + (encode argv).length))
      fun a ha => hq a (List.mem_cons_of_mem _ ha)
    rw [List.append_assoc, List.singleton_append] at this
    exact this

theorem loadCommands_block {b : Block} (hb : b.Valid) (offset : ℕ) (h : Idle l m v) :
    Idle (loadCommands offset b.commands l) (m.execute b.executed) (offset + (bytes b.commands).length) := by
  cases b with
  | one argv =>
    have := loadCommand_one h hb.2.1 hb.2.2 (offset + (encode argv).length)
    simpa [Block.commands, Block.executed, loadCommands] using this
  | tx multi exec queued =>
    obtain ⟨⟨-, hmulti⟩, ⟨-, hexec⟩, hq⟩ := hb
    have h1 := loadCommand_multi h hmulti (offset + (encode multi).length)
    have h2 := loadCommands_queued queued (offset + (encode multi).length) h1
      fun a ha => ⟨(hq a ha).2.1, (hq a ha).2.2.1⟩
    rw [List.nil_append] at h2
    rw [Block.commands, loadCommands, loadCommands_append]
    have h3 := loadCommand_exec h2 hexec (offset + (encode multi).length + (bytes queued).length + (encode exec).length)
    have hlen : offset + (bytes (multi :: (queued ++ [exec]))).length =
        offset + (encode multi).length + (bytes queued).length + (encode exec).length := by
      simp
      omega
    rw [hlen]
    exact h3

theorem loadCommands_blocks (bs : List Block) : ∀ (offset : ℕ) {l : Loading} {m : Memory} {v : ℕ}, Idle l m v →
    (∀ b ∈ bs, b.Valid) → Idle (loadCommands offset (commands bs) l) (m.execute (executed bs))
      (if bs = [] then v else offset + (bytes (commands bs)).length) := by
  induction bs with
  | nil =>
    intro offset l m v h _
    rw [if_pos rfl, show executed [] = [] from rfl, execute_nil]
    exact h
  | cons b bs ih =>
    intro offset l m v h hok
    have h1 := loadCommands_block (hok b List.mem_cons_self) offset h
    have h2 := ih (offset + (bytes b.commands).length) h1 fun b' hb => hok b' (List.mem_cons_of_mem _ hb)
    rw [commands_cons, loadCommands_append, executed_cons, ← execute_execute, if_neg (by simp), bytes_append,
      List.length_append, ← Nat.add_assoc]
    split at h2
    · rename_i hnil
      subst hnil
      exact h2
    · exact h2

/-- Where a list of commands may be cut: behind some blocks, or in a transaction after them. -/
theorem commands_prefix (blocks : List Block) : ∀ {done rest : List (List Sds)}, commands blocks = done ++ rest →
    (∃ bs bs', blocks = bs ++ bs' ∧ done = commands bs) ∨
    ∃ bs multi exec queued bs' q q', blocks = bs ++ .tx multi exec queued :: bs' ∧ queued = q ++ q' ∧
      done = commands bs ++ multi :: q := by
  induction blocks with
  | nil =>
    intro done rest h
    have hnil := (List.append_eq_nil_iff.mp h.symm).1
    exact .inl ⟨[], [], rfl, hnil⟩
  | cons b blocks ih =>
    intro done rest h
    rw [commands_cons] at h
    rcases List.append_eq_append_iff.mp h with ⟨more, hdone, hrest⟩ | ⟨more, hb, hrest⟩
    · rcases ih hrest with ⟨bs, bs', rfl, hmore⟩ | ⟨bs, multi, exec, queued, bs', q, q', rfl, hq, hmore⟩
      · exact .inl ⟨b :: bs, bs', rfl, by rw [hdone, hmore, commands_cons]⟩
      · exact .inr ⟨b :: bs, multi, exec, queued, bs', q, q', rfl, hq, by rw [hdone, hmore, commands_cons, List.append_assoc]⟩
    · cases b with
      | one argv =>
        cases done with
        | nil => exact .inl ⟨[], _, rfl, rfl⟩
        | cons x done =>
          obtain ⟨rfl, hnil⟩ := List.cons.inj (show argv :: [] = x :: (done ++ more) from hb)
          obtain ⟨rfl, rfl⟩ := List.append_eq_nil_iff.mp hnil.symm
          exact .inl ⟨[.one argv], blocks, rfl, rfl⟩
      | tx multi exec queued =>
        cases done with
        | nil => exact .inl ⟨[], _, rfl, rfl⟩
        | cons x done =>
          obtain ⟨rfl, hq⟩ := List.cons.inj (show multi :: (queued ++ [exec]) = x :: (done ++ more) from hb)
          rcases List.eq_nil_or_concat more with rfl | ⟨q', y, rfl⟩
          · rw [List.append_nil] at hq
            exact .inl ⟨[.tx multi exec queued], blocks, rfl, by rw [← hq]; simp [commands, Block.commands]⟩
          · rw [List.concat_eq_append, ← List.append_assoc] at hq
            exact .inr ⟨[], multi, exec, queued, blocks, done, q', rfl, (List.append_inj' hq rfl).1, rfl⟩

/-! ### Loading a file -/

variable {rdbLoadRio : Sds → Option Sds}

/-- A dump in front of the commands: its loader stops behind it, and exits if it is cut off. -/
structure Preamble (rdbLoadRio : Sds → Option Sds) (p : Sds) : Prop where
  magic : p.take 5 = sds "REDIS"
  loads : ∀ v, rdbLoadRio (p ++ v) = some v
  exits : ∀ k, k < p.length → rdbLoadRio (p.take k) = none

/-- The file begins with a dump, or there is none. -/
def Begins (rdbLoadRio : Sds → Option Sds) (p : Sds) : Prop := p = [] ∨ Preamble rdbLoadRio p

/-- What is in memory after the dump. -/
def base (p : Sds) : Memory := { preamble := decide (p ≠ []) }

theorem load_eq {p body : Sds} (hp : Begins rdbLoadRio p) (hbody : p = [] → ∀ x ∈ body.head?, x = 42) :
    loadAppendOnlyFile rdbLoadRio true (p ++ body) =
      finish true (p ++ body) (loadLoop true (p.length + body.length) (body.length + 1) body { memory := base p }) := by
  rcases hp with rfl | hp
  · rw [List.nil_append]
    by_cases hnil : body = []
    · subst hnil
      rfl
    · have hmagic : body.take 5 ≠ sds "REDIS" := by
        obtain ⟨x, body', rfl⟩ := List.exists_cons_of_ne_nil hnil
        have hx := hbody rfl x rfl
        intro h
        have := (List.cons.inj (show x :: body'.take 4 = 82 :: [69, 68, 73, 83] from h)).1
        rw [hx] at this
        exact absurd this (by decide)
      rw [loadAppendOnlyFile, if_neg hnil]
      simp only [if_pos hmagic, base, ne_eq, not_true_eq_false, decide_false, List.length_nil, Nat.zero_add]
  · have h5 : p ≠ [] := by
      rintro rfl
      exact absurd hp.magic (by decide)
    have hlen : 5 ≤ p.length := by
      have := congrArg List.length hp.magic
      rw [List.length_take] at this
      have h5 : (sds "REDIS").length = 5 := rfl
      omega
    have hmagic : ¬ (p ++ body).take 5 ≠ sds "REDIS" := by
      rw [List.take_append_of_le_length hlen, hp.magic]
      simp
    rw [loadAppendOnlyFile, if_neg (by simp [h5])]
    simp only [if_neg hmagic, hp.loads, Option.map_some, base, ne_eq, h5, not_false_eq_true, decide_true,
      List.length_append]

variable {p : Sds} {cmds : List (List Sds)}

/-- The commands that are whole, and a tail. -/
theorem load_commands (hp : Begins rdbLoadRio p) (hok : ∀ argv ∈ cmds, Complete argv)
    (tail : Sds) (htail : cmds = [] → ∀ x ∈ tail.head?, x = 42) :
    ∃ n, loadAppendOnlyFile rdbLoadRio true (p ++ (bytes cmds ++ tail)) =
      finish true (p ++ (bytes cmds ++ tail)) (loadLoop true (p.length + (bytes cmds).length + tail.length) (n + 1) tail
        (loadCommands p.length cmds { memory := base p })) := by
  have hle := length_le_bytes cmds
  refine ⟨(bytes cmds ++ tail).length - cmds.length, ?_⟩
  rw [load_eq hp]
  · have hsize : p.length + (bytes cmds ++ tail).length = p.length + (bytes cmds).length + tail.length := by
      rw [List.length_append]
      omega
    have hfuel : (bytes cmds ++ tail).length + 1 = (bytes cmds ++ tail).length - cmds.length + 1 + cmds.length := by
      rw [List.length_append]
      omega
    rw [hsize, hfuel, loadLoop_commands cmds tail hok]
  · intro _ x hx
    cases cmds with
    | nil => exact htail rfl x hx
    | cons argv cmds =>
      cases hx
      rfl

theorem load_whole (hp : Begins rdbLoadRio p) (hok : ∀ argv ∈ cmds, Complete argv) :
    loadAppendOnlyFile rdbLoadRio true (p ++ bytes cmds) =
      finish true (p ++ bytes cmds) (.eof (loadCommands p.length cmds { memory := base p })) := by
  obtain ⟨n, hn⟩ := load_commands hp hok [] (fun _ x hx => by cases hx)
  rw [List.append_nil] at hn
  exact hn

theorem load_torn (hp : Begins rdbLoadRio p) (hok : ∀ argv ∈ cmds, Complete argv)
    (hargv : Complete argv) (hk : 0 < k) (hlt : k < (encode argv).length) :
    loadAppendOnlyFile rdbLoadRio true (p ++ (bytes cmds ++ (encode argv).take k)) =
      finish true (p ++ (bytes cmds ++ (encode argv).take k)) (.short (loadCommands p.length cmds { memory := base p })) := by
  obtain ⟨n, hn⟩ := load_commands hp hok ((encode argv).take k) (by
    intro _ x hx
    obtain ⟨j, rfl⟩ : ∃ j, k = j + 1 := ⟨k - 1, by omega⟩
    cases hx
    rfl)
  rw [hn, loadLoop, readCommand_torn hargv hk hlt]

theorem base_idle (p : Sds) : Idle { memory := base p } (base p) 0 := ⟨rfl, rfl, rfl, rfl⟩

/-- Blocks that are whole. -/
theorem load_blocks (hp : Begins rdbLoadRio p) (hok : ∀ b ∈ bs, b.Valid) :
    loadAppendOnlyFile rdbLoadRio true (p ++ bytes (commands bs)) =
      some ((base p).execute (executed bs), p ++ bytes (commands bs)) := by
  have h := loadCommands_blocks bs p.length (base_idle p) hok
  rw [load_whole hp (complete_of_valid hok), finish, h.multi, h.memory]
  rfl

/-- The offset behind blocks, which begins at 0 even behind a dump. -/
def validAfter (p : Sds) (bs : List Block) : ℕ := if bs = [] then 0 else p.length + (bytes (commands bs)).length

/-- A file that is cut in a command behind blocks. -/
theorem load_blocks_torn (hp : Begins rdbLoadRio p) (hok : ∀ b ∈ bs, b.Valid)
    (hargv : Complete argv) (hk : 0 < k) (hlt : k < (encode argv).length) :
    loadAppendOnlyFile rdbLoadRio true (p ++ (bytes (commands bs) ++ (encode argv).take k)) =
      some ((base p).execute (executed bs), (p ++ (bytes (commands bs) ++ (encode argv).take k)).take (validAfter p bs)) := by
  have h := loadCommands_blocks bs p.length (base_idle p) hok
  rw [load_torn hp (complete_of_valid hok) hargv hk hlt, finish, h.memory, h.validUpTo]
  rfl

variable {multi : List Sds}

/-- The loader in a transaction. -/
theorem loadCommands_open (p : Sds) (hok : ∀ b ∈ bs, b.Valid)
    (hm : commandName multi = sds "multi")
    (hq : ∀ argv ∈ q, commandName argv ≠ sds "multi" ∧ commandName argv ≠ sds "exec") :
    Queuing (loadCommands p.length (commands bs ++ multi :: q) { memory := base p }) ((base p).execute (executed bs)) q
      (validAfter p bs) := by
  have h := loadCommands_blocks bs p.length (base_idle p) hok
  rw [loadCommands_append, loadCommands]
  exact loadCommands_queued q _ (loadCommand_multi h hm _) hq

/-- Where the file ends that was read. -/
theorem loadCommands_validUpTo (cmds : List (List Sds)) (hne : cmds ≠ []) : ∀ (offset : ℕ) (l : Loading),
    (loadCommands offset cmds l).validUpTo = offset + (bytes cmds).length := by
  obtain ⟨cmds, argv, rfl⟩ := List.eq_nil_or_concat cmds |>.resolve_left hne
  intro offset l
  rw [List.concat_eq_append, loadCommands_append, bytes_append, List.length_append, ← Nat.add_assoc]
  simp [loadCommands]

/-! ### Cuts -/

/-- Whether a transaction is open after commands. -/
def opened (cmds : List (List Sds)) : Bool :=
  cmds.foldl (fun o argv => if commandName argv = sds "multi" then true else if commandName argv = sds "exec" then false
    else o) false

/-- The file is cut after the commands `done`, and `k` bytes of the next. -/
structure CutAt (cmds : List (List Sds)) (n : ℕ) (done rest : List (List Sds)) (k : ℕ) : Prop where
  split : cmds = done ++ rest
  length : n = (bytes done).length + k
  within : k = 0 ∨ ∃ argv rest', rest = argv :: rest' ∧ k < (encode argv).length

/-- **The file of `n` bytes recovers.** It is loaded up to the last block that is whole, and left
such that it is loaded so again, with whatever is appended. Of a file of which nothing is
left the dump is not loaded. -/
def Recovers (rdbLoadRio : Sds → Option Sds) (p : Sds) (blocks : List Block) (n : ℕ) : Prop :=
  ∃ memory bs bs' file, blocks = bs ++ bs' ∧ (memory = base p ∨ memory = {} ∧ bs = []) ∧
    (∀ b bs'', bs' = b :: bs'' → n < p.length + (bytes (commands (bs ++ [b]))).length) ∧
    file <+: (p ++ bytes (commands blocks)).take n ∧
    loadAppendOnlyFile rdbLoadRio true ((p ++ bytes (commands blocks)).take n) =
      some (memory.execute (executed bs), file) ∧
    ∀ more : List Block, (∀ b ∈ more, b.Valid) →
      loadAppendOnlyFile rdbLoadRio true (file ++ bytes (commands more)) =
        some (memory.execute (executed (bs ++ more)), file ++ bytes (commands more))

/-- Where a file may be cut: not in a command of a transaction, and behind a dump not before
a command or a transaction is whole. -/
def Sound (p : Sds) (blocks : List Block) (n : ℕ) : Prop :=
  n = 0 ∨ ∃ m done rest k, n = p.length + m ∧ CutAt (commands blocks) m done rest k ∧
    (k = 0 ∨ opened done = false) ∧
    (p = [] ∨ done = [] ∧ k = 0 ∨ ∃ d d', done = d ++ d' ∧ d ≠ [] ∧ opened d = false)

theorem exists_cutAt (cmds : List (List Sds)) : ∀ {n : ℕ}, n ≤ (bytes cmds).length →
    ∃ done rest k, CutAt cmds n done rest k := by
  induction cmds with
  | nil =>
    intro n hn
    have : n = 0 := by simpa using hn
    exact ⟨[], [], 0, rfl, by simp [this], .inl rfl⟩
  | cons argv cmds ih =>
    intro n hn
    by_cases hlt : n < (encode argv).length
    · exact ⟨[], argv :: cmds, n, rfl, by simp, .inr ⟨argv, cmds, rfl, hlt⟩⟩
    · rw [bytes_cons, List.length_append] at hn
      obtain ⟨done, rest, k, h⟩ := ih (n := n - (encode argv).length) (by omega)
      refine ⟨argv :: done, rest, k, by rw [h.split, List.cons_append], ?_, h.within⟩
      have := h.length
      rw [bytes_cons, List.length_append]
      omega

variable {done rest : List (List Sds)}

theorem CutAt.take {m k : ℕ} (h : CutAt cmds m done rest k)
    (p : Sds) : (p ++ bytes cmds).take (p.length + m) = p ++ (bytes done ++ (bytes rest).take k) := by
  rw [List.take_length_add_append, h.split, bytes_append, h.length, List.take_length_add_append]

/-- What is left of the command that is cut. -/
theorem CutAt.tail {m k : ℕ} (h : CutAt cmds m done rest k)
    (hk : k ≠ 0) : ∃ argv, argv ∈ cmds ∧ 0 < k ∧ k < (encode argv).length ∧ (bytes rest).take k = (encode argv).take k := by
  rcases h.within with hk0 | ⟨argv, rest', hrest, hlt⟩
  · exact absurd hk0 hk
  · refine ⟨argv, ?_, by omega, hlt, ?_⟩
    · rw [h.split, hrest]
      simp
    · rw [hrest, bytes_cons, List.take_append_of_le_length (by omega)]

variable {blocks : List Block}

/-- Behind the commands that are whole no block is. -/
theorem CutAt.before {m k : ℕ} (h : CutAt (commands blocks) m done rest k)
    {bs bs' : List Block} (hsplit : blocks = bs ++ bs')
    (hpart : ∀ b bs'', bs' = b :: bs'' → done.length < (commands (bs ++ [b])).length) (p : Sds) :
    ∀ b bs'', bs' = b :: bs'' → p.length + m < p.length + (bytes (commands (bs ++ [b]))).length := by
  rintro b bs'' rfl
  have hlen := hpart b bs'' rfl
  have hall : commands blocks = commands (bs ++ [b]) ++ commands bs'' := by
    rw [hsplit, ← commands_append]
    simp
  have hsplit2 := h.split
  rw [hall] at hsplit2
  obtain ⟨more, hdone⟩ : done <+: commands (bs ++ [b]) :=
    List.prefix_of_prefix_length_le ⟨rest, hsplit2.symm⟩ ⟨_, rfl⟩ hlen.le
  obtain ⟨argv, more, rfl⟩ : ∃ argv more', more = argv :: more' := by
    refine List.exists_cons_of_ne_nil ?_
    rintro rfl
    rw [List.append_nil] at hdone
    rw [hdone] at hlen
    exact absurd hlen (lt_irrefl _)
  have hk : k < (encode argv).length := by
    rcases h.within with hk0 | ⟨argv', rest', hrest, hlt⟩
    · rw [hk0]
      exact encode_pos argv
    · rw [← hdone, List.append_assoc] at hsplit2
      have := List.append_cancel_left hsplit2
      rw [hrest] at this
      rw [(List.cons.inj this).1]
      exact hlt
  have hbytes : (bytes (commands (bs ++ [b]))).length = (bytes done).length + ((encode argv).length + (bytes more).length) := by
    rw [← hdone, bytes_append, bytes_cons, List.length_append, List.length_append]
  have := h.length
  omega

theorem opened_append_block (cmds : List (List Sds)) {b : Block} (hb : b.Valid) (h : opened cmds = false) :
    opened (cmds ++ b.commands) = false := by
  rw [opened, List.foldl_append]
  cases b with
  | one argv =>
    obtain ⟨-, hm, he⟩ := hb
    rw [Block.commands, List.foldl_cons, if_neg hm, if_neg he]
    exact h
  | tx multi exec queued =>
    obtain ⟨-, ⟨-, he⟩, -⟩ := hb
    have hne : sds "exec" ≠ sds "multi" := by decide
    rw [Block.commands, ← List.cons_append, List.foldl_append]
    simp [he, hne]

theorem opened_commands (hok : ∀ b ∈ bs, b.Valid) : opened (commands bs) = false := by
  induction bs using List.reverseRecOn with
  | nil => rfl
  | append_singleton bs b ih =>
    rw [commands_append]
    have hb := opened_append_block (commands bs) (hok b (by simp)) (ih fun b hb => hok b (by simp [hb]))
    simpa [commands] using hb

theorem opened_part
    (hm : commandName multi = sds "multi")
    (hq : ∀ argv ∈ q, commandName argv ≠ sds "multi" ∧ commandName argv ≠ sds "exec") :
    opened (cmds ++ multi :: q) = true := by
  have hstay : ∀ (q : List (List Sds)), (∀ argv ∈ q, commandName argv ≠ sds "multi" ∧ commandName argv ≠ sds "exec") →
      q.foldl (fun o argv => if commandName argv = sds "multi" then true else if commandName argv = sds "exec" then false
        else o) true = true := by
    intro q
    induction q with
    | nil => exact fun _ => rfl
    | cons argv q ih =>
      intro hq
      obtain ⟨h1, h2⟩ := hq argv List.mem_cons_self
      rw [List.foldl_cons, if_neg h1, if_neg h2]
      exact ih fun a ha => hq a (List.mem_cons_of_mem _ ha)
  rw [opened, List.foldl_append, List.foldl_cons, if_pos hm]
  exact hstay q hq

theorem commands_ne_nil (b : Block) (bs : List Block) : commands (b :: bs) ≠ [] := by
  cases b <;> simp [Block.commands]

/-- Up to the offset behind blocks the file has the dump and the blocks, if there is a block or
no dump. -/
theorem take_validAfter {p tail : Sds} (h : p = [] ∨ bs ≠ []) :
    (p ++ (bytes (commands bs) ++ tail)).take (validAfter p bs) = p ++ bytes (commands bs) := by
  rw [validAfter]
  split
  · rename_i hnil
    subst hnil
    rcases h with rfl | h
    · rfl
    · exact absurd rfl h
  · rw [← List.append_assoc, ← List.length_append]
    exact List.take_left' rfl

/-- A file that is cut between the commands of a transaction, or in one of them. -/
theorem load_open (hp : Begins rdbLoadRio p) (hok : ∀ b ∈ bs, b.Valid)
    (hmulti : Complete multi ∧ commandName multi = sds "multi")
    (hq : ∀ argv ∈ q, Complete argv ∧ commandName argv ≠ sds "multi" ∧ commandName argv ≠ sds "exec") :
    loadAppendOnlyFile rdbLoadRio true (p ++ bytes (commands bs ++ multi :: q)) =
      some ((base p).execute (executed bs), (p ++ bytes (commands bs ++ multi :: q)).take (validAfter p bs)) := by
  have hall : ∀ argv ∈ commands bs ++ multi :: q, Complete argv := by
    intro argv hargv
    rcases List.mem_append.mp hargv with hargv | hargv
    · exact complete_of_valid hok argv hargv
    · rcases List.mem_cons.mp hargv with rfl | hargv
      · exact hmulti.1
      · exact (hq argv hargv).1
  have h := loadCommands_open p hok hmulti.2 fun argv hargv => (hq argv hargv).2
  rw [load_whole hp hall, finish, h.multi, h.memory, h.validBeforeMulti]
  rfl

theorem load_open_torn (hp : Begins rdbLoadRio p) (hok : ∀ b ∈ bs, b.Valid)
    (hmulti : Complete multi ∧ commandName multi = sds "multi")
    (hq : ∀ argv ∈ q, Complete argv ∧ commandName argv ≠ sds "multi" ∧ commandName argv ≠ sds "exec")
    (hargv : Complete argv) (hk : 0 < k) (hlt : k < (encode argv).length) :
    loadAppendOnlyFile rdbLoadRio true (p ++ (bytes (commands bs ++ multi :: q) ++ (encode argv).take k)) =
      some ((base p).execute (executed bs), p ++ bytes (commands bs ++ multi :: q)) := by
  have hall : ∀ argv ∈ commands bs ++ multi :: q, Complete argv := by
    intro argv hargv
    rcases List.mem_append.mp hargv with hargv | hargv
    · exact complete_of_valid hok argv hargv
    · rcases List.mem_cons.mp hargv with rfl | hargv
      · exact hmulti.1
      · exact (hq argv hargv).1
  have h := loadCommands_open p hok hmulti.2 fun argv hargv => (hq argv hargv).2
  rw [load_torn hp hall hargv hk hlt, finish, h.memory, loadCommands_validUpTo _ (by simp), uxeof, if_pos rfl,
    ← List.append_assoc, ← List.length_append, List.take_left' rfl]

/-- A dump that is cut off has the server exit. -/
theorem load_dump_torn (hp : Preamble rdbLoadRio p) (h0 : n ≠ 0) (hn : n < p.length) :
    loadAppendOnlyFile rdbLoadRio true (p.take n) = none := by
  have hmagic := hp.magic
  obtain ⟨i, rfl⟩ : ∃ i, n = i + 1 := ⟨n - 1, by omega⟩
  obtain ⟨x, p', rfl⟩ := List.exists_cons_of_ne_nil (show p ≠ [] by rintro rfl; simp at hn)
  have hx : x = 82 := (List.cons.inj (show x :: p'.take 4 = 82 :: [69, 68, 73, 83] from hmagic)).1
  rw [loadAppendOnlyFile, if_neg (by simp)]
  by_cases h5 : ((x :: p').take (i + 1)).take 5 ≠ sds "REDIS"
  · simp only [if_pos h5]
    rw [loadLoop, readCommand]
    have hfgets : ∃ line rest, fgets ((x :: p').take (i + 1)) = some (line, rest) ∧ line.head? = some 82 := by
      rw [fgets, if_neg (by simp), List.take_succ_cons]
      refine ⟨_, _, rfl, ?_⟩
      obtain ⟨j, hj⟩ : ∃ j, min 127 (((x :: p'.take i).takeWhile (· ≠ 10)).length + 1) = j + 1 :=
        ⟨min 127 (((x :: p'.take i).takeWhile (· ≠ 10)).length + 1) - 1, by omega⟩
      rw [hj, List.take_succ_cons, hx]
      rfl
    obtain ⟨line, rest, hline, hhead⟩ := hfgets
    simp only [hline]
    rw [if_pos (by rw [hhead]; decide)]
    rfl
  · simp only [if_neg h5, hp.exits _ hn, Option.map_none]

/-! ### Recovery -/

theorem feedAll_written (fs : List Fed) : ∀ {a a' : AofBuf}, feedAll a fs = .ok a' →
    ∃ cmds, writtenAll a.selectedDb fs = .ok cmds ∧ a'.buf = a.buf ++ bytes cmds := by
  induction fs with
  | nil =>
    intro a a' h
    cases h
    exact ⟨[], rfl, (List.append_nil _).symm⟩
  | cons f fs ih =>
    intro a a' h
    cases hw : written a.selectedDb f with
    | error e => simp [feedAll, feedAppendOnlyFile, hw, bind, Except.bind] at h
    | ok cmds =>
      simp only [feedAll, feedAppendOnlyFile, hw, bind, Except.bind] at h
      obtain ⟨rest, hrest, hbuf⟩ := ih h
      refine ⟨cmds ++ rest, ?_, ?_⟩
      · simp only [writtenAll, hw, hrest, bind, Except.bind]
      · rw [hbuf, bytes_append, ← List.append_assoc]
        rfl

/-- Behind the blocks that are whole further blocks are loaded. -/
theorem reload (hp : Begins rdbLoadRio p) (hok : ∀ b ∈ bs, b.Valid) {more : List Block}
    (hmore : ∀ b ∈ more, b.Valid) :
    loadAppendOnlyFile rdbLoadRio true (p ++ bytes (commands bs) ++ bytes (commands more)) =
      some ((base p).execute (executed (bs ++ more)), p ++ bytes (commands bs) ++ bytes (commands more)) := by
  have hall : ∀ b ∈ bs ++ more, b.Valid := fun b hb => (List.mem_append.mp hb).elim (hok b) (hmore b)
  have h := load_blocks hp hall
  rw [commands_append, bytes_append, ← List.append_assoc] at h
  exact h

/-- The blocks that are whole, of a cut that leaves the dump and them. -/
theorem recovers_of_kept (hp : Begins rdbLoadRio p) {blocks bs bs' : List Block} {m k : ℕ}
    (hok : ∀ b ∈ blocks, b.Valid) (hcut : CutAt (commands blocks) m done rest k)
    (hsplit : blocks = bs ++ bs') (hinit : commands bs <+: done)
    (hpart : ∀ b bs'', bs' = b :: bs'' → done.length < (commands (bs ++ [b])).length)
    (hload : loadAppendOnlyFile rdbLoadRio true ((p ++ bytes (commands blocks)).take (p.length + m)) =
      some ((base p).execute (executed bs), p ++ bytes (commands bs))) :
    Recovers rdbLoadRio p blocks (p.length + m) := by
  have hbs : ∀ b ∈ bs, b.Valid := fun b hb => hok b (by rw [hsplit]; exact List.mem_append_left _ hb)
  refine ⟨base p, bs, bs', p ++ bytes (commands bs), hsplit, .inl rfl, hcut.before hsplit hpart p, ?_, hload,
    fun more hmore => reload hp hbs hmore⟩
  obtain ⟨d, rfl⟩ := hinit
  refine ⟨bytes d ++ (bytes rest).take k, ?_⟩
  rw [hcut.take, bytes_append]
  simp

/-- What is appended to a transaction that is left open is queued. -/
theorem not_reload_open (hp : Begins rdbLoadRio p) {bs bs1 : List Block} (hok : ∀ b ∈ bs, b.Valid)
    (hmulti : Complete multi ∧ commandName multi = sds "multi")
    (hq : ∀ argv ∈ q, Complete argv ∧ commandName argv ≠ sds "multi" ∧ commandName argv ≠ sds "exec") {memory : Memory}
    (hmemory : memory.execute (executed bs1) = (base p).execute (executed bs)) {file : Sds}
    (hargv : Complete argv ∧ commandName argv ≠ sds "multi" ∧ commandName argv ≠ sds "exec") :
    loadAppendOnlyFile rdbLoadRio true (p ++ bytes (commands bs ++ multi :: q) ++ bytes (commands [.one argv])) ≠
      some (memory.execute (executed (bs1 ++ [.one argv])), file) := by
  have hq2 : ∀ a ∈ q ++ [argv], Complete a ∧ commandName a ≠ sds "multi" ∧ commandName a ≠ sds "exec" := by
    intro a ha
    rcases List.mem_append.mp ha with ha | ha
    · exact hq a ha
    · rw [List.mem_singleton.mp ha]
      exact hargv
  have hload := load_open hp hok hmulti hq2
  have hbytes : p ++ bytes (commands bs ++ multi :: q) ++ bytes (commands [.one argv]) =
      p ++ bytes (commands bs ++ multi :: (q ++ [argv])) := by
    simp [commands, Block.commands]
  rw [hbytes, hload, executed_append, ← execute_execute, hmemory]
  intro h
  have hm := congrArg (fun r => r.map fun x : Memory × Sds => x.1.executed.length) h
  simp [Memory.execute, executed, Block.executed] at hm

/-- A transaction of valid blocks, up to a command. -/
theorem valid_tx {blocks bs bs' : List Block} {multi exec : List Sds} {q q' : List (List Sds)}
    (hok : ∀ b ∈ blocks, b.Valid) (hsplit : blocks = bs ++ .tx multi exec (q ++ q') :: bs') :
    (∀ b ∈ bs, b.Valid) ∧ (Complete multi ∧ commandName multi = sds "multi") ∧
      ∀ argv ∈ q, Complete argv ∧ commandName argv ≠ sds "multi" ∧ commandName argv ≠ sds "exec" := by
  have htx := hok (.tx multi exec (q ++ q')) (by rw [hsplit]; simp)
  refine ⟨fun b hb => hok b (by rw [hsplit]; exact List.mem_append_left _ hb), htx.1, fun argv hargv => ?_⟩
  have := htx.2.2 argv (List.mem_append_left _ hargv)
  exact ⟨this.1, this.2.1, this.2.2.1⟩

theorem recovers_zero (p : Sds) (blocks : List Block) : Recovers rdbLoadRio p blocks 0 := by
  refine ⟨{}, [], blocks, [], rfl, .inr ⟨rfl, rfl⟩, ?_, by simp, by simp [loadAppendOnlyFile, executed, execute_nil],
    fun more hmore => ?_⟩
  · rintro b bs'' rfl
    have hpos : 0 < (bytes (commands ([] ++ [b]))).length := by
      have := length_le_bytes (commands ([] ++ [b]))
      have := List.length_pos_iff.mpr (commands_ne_nil b [])
      simp only [List.nil_append] at *
      omega
    omega
  · have hp : Begins rdbLoadRio [] := .inl rfl
    have h := load_blocks hp hmore
    simpa [base] using h

theorem recovers_of_sound (hp : Begins rdbLoadRio p) (hok : ∀ b ∈ blocks, b.Valid)
    (hs : Sound p blocks n) : Recovers rdbLoadRio p blocks n := by
  rcases hs with rfl | ⟨m, done, rest, k, rfl, hcut, hin, hdump⟩
  · exact recovers_zero p blocks
  · rcases commands_prefix blocks hcut.split with ⟨bs, bs', hsplit, rfl⟩ | ⟨bs, multi, exec, queued, bs', q, q', hsplit, rfl, rfl⟩
    · have hbs : ∀ b ∈ bs, b.Valid := fun b hb => hok b (by rw [hsplit]; exact List.mem_append_left _ hb)
      refine recovers_of_kept hp hok hcut hsplit (List.prefix_refl _) ?_ ?_
      · rintro b bs'' -
        have := List.length_pos_iff.mpr (commands_ne_nil b [])
        rw [commands_append, List.length_append]
        omega
      · rw [hcut.take]
        by_cases hk : k = 0
        · rw [hk, List.take_zero, List.append_nil]
          exact load_blocks hp hbs
        · obtain ⟨argv, hmem, hpos, hlt, htail⟩ := hcut.tail hk
          have hkept : p = [] ∨ bs ≠ [] := by
            rcases hdump with hnil | ⟨-, hk0⟩ | ⟨d, d', hd, hne, -⟩
            · exact .inl hnil
            · exact absurd hk0 hk
            · right
              rintro rfl
              exact hne (List.append_eq_nil_iff.mp hd.symm).1
          rw [htail, load_blocks_torn hp hbs (complete_of_valid hok argv hmem) hpos hlt, take_validAfter hkept]
    · obtain ⟨hbs, hmulti, hq⟩ := valid_tx hok hsplit
      have hopen : opened (commands bs ++ multi :: q) = true := opened_part hmulti.2 fun argv hargv => (hq argv hargv).2
      have hk : k = 0 := hin.resolve_right (by rw [hopen]; decide)
      subst hk
      have hkept : p = [] ∨ bs ≠ [] := by
        rcases hdump with hnil | ⟨hnil, -⟩ | ⟨d, d', hd, hne, hclosed⟩
        · exact .inl hnil
        · simp at hnil
        · right
          rintro rfl
          obtain ⟨x, d, rfl⟩ := List.exists_cons_of_ne_nil hne
          obtain ⟨rfl, hqd⟩ := List.cons.inj (show multi :: q = x :: (d ++ d') from hd)
          have hopen : opened ([] ++ multi :: d) = true :=
            opened_part hmulti.2 fun argv hargv => (hq argv (by rw [hqd]; exact List.mem_append_left _ hargv)).2
          rw [List.nil_append, hclosed] at hopen
          exact absurd hopen (by decide)
      refine recovers_of_kept hp hok hcut hsplit (List.prefix_append _ _) ?_ ?_
      · rintro b bs'' heq
        obtain ⟨rfl, -⟩ := List.cons.inj heq
        simp [commands, Block.commands]
      · rw [hcut.take, List.take_zero, List.append_nil, load_open hp hbs hmulti hq, bytes_append, take_validAfter hkept]

/-- The dump is not cut off. -/
theorem not_recovers_of_dropped (hne : p ≠ []) (bs : List Block)
    (hload : loadAppendOnlyFile rdbLoadRio true ((p ++ bytes (commands blocks)).take n) =
      some ((base p).execute (executed bs), [])) : ¬ Recovers rdbLoadRio p blocks n := by
  rintro ⟨memory, bs1, bs', file, -, -, -, -, hfirst, hreload⟩
  rw [hload] at hfirst
  obtain ⟨hm, rfl⟩ := Prod.mk.inj (Option.some.inj hfirst)
  have h := hreload [] (by simp)
  rw [List.append_nil, ← hm] at h
  have hpre := congrArg (fun r => r.map fun x : Memory × Sds => x.1.preamble) h
  simp [loadAppendOnlyFile, commands, base, hne, Memory.execute] at hpre

theorem sound_of_recovers (hp : Begins rdbLoadRio p) (hok : ∀ b ∈ blocks, b.Valid)
    {n : ℕ} (hn : n ≤ p.length + (bytes (commands blocks)).length) (hr : Recovers rdbLoadRio p blocks n) :
    Sound p blocks n := by
  by_cases h0 : n = 0
  · exact .inl h0
  · right
    by_cases hlt : n < p.length
    · exfalso
      obtain ⟨memory, bs1, bs', file, -, -, -, -, hfirst, -⟩ := hr
      have hdump : Preamble rdbLoadRio p := hp.resolve_left (by rintro rfl; simp at hlt)
      rw [List.take_append_of_le_length hlt.le, load_dump_torn hdump h0 hlt] at hfirst
      cases hfirst
    · obtain ⟨m, rfl⟩ : ∃ m, n = p.length + m := ⟨n - p.length, by omega⟩
      obtain ⟨done, rest, k, hcut⟩ := exists_cutAt (commands blocks) (n := m) (by omega)
      refine ⟨m, done, rest, k, rfl, hcut, ?_⟩
      rcases commands_prefix blocks hcut.split with ⟨bs, bs', hsplit, rfl⟩ | ⟨bs, multi, exec, queued, bs', q, q', hsplit, rfl, rfl⟩
      · have hbs : ∀ b ∈ bs, b.Valid := fun b hb => hok b (by rw [hsplit]; exact List.mem_append_left _ hb)
        refine ⟨.inr (opened_commands hbs), ?_⟩
        cases bs with
        | cons b bs => exact .inr (.inr ⟨commands (b :: bs), [], by simp, commands_ne_nil b bs, opened_commands hbs⟩)
        | nil =>
          by_cases hnil : p = []
          · exact .inl hnil
          · by_cases hk : k = 0
            · exact .inr (.inl ⟨rfl, hk⟩)
            · exfalso
              obtain ⟨argv, hmem, hpos, hkl, htail⟩ := hcut.tail hk
              refine not_recovers_of_dropped hnil [] ?_ hr
              rw [hcut.take, htail, load_blocks_torn hp hbs (complete_of_valid hok argv hmem) hpos hkl]
              rfl
      · obtain ⟨hbs, hmulti, hq⟩ := valid_tx hok hsplit
        by_cases hk : k = 0
        · subst hk
          refine ⟨.inl rfl, ?_⟩
          cases bs with
          | cons b bs =>
            exact .inr (.inr ⟨commands (b :: bs), multi :: q, rfl, commands_ne_nil b bs, opened_commands hbs⟩)
          | nil =>
            by_cases hnil : p = []
            · exact .inl hnil
            · exfalso
              refine not_recovers_of_dropped hnil [] ?_ hr
              rw [hcut.take, List.take_zero, List.append_nil, load_open hp hbs hmulti hq]
              rfl
        · exfalso
          obtain ⟨argv, hmem, hpos, hkl, htail⟩ := hcut.tail hk
          obtain ⟨memory, bs1, bs'', file, -, -, -, -, hfirst, hreload⟩ := hr
          rw [hcut.take, htail, load_open_torn hp hbs hmulti hq (complete_of_valid hok argv hmem) hpos hkl] at hfirst
          obtain ⟨hm, rfl⟩ := Prod.mk.inj (Option.some.inj hfirst)
          have hping : Complete [sds "PING"] ∧ commandName [sds "PING"] ≠ sds "multi" ∧
              commandName [sds "PING"] ≠ sds "exec" := by decide
          exact not_reload_open hp hbs hmulti hq hm.symm hping
            (hreload [.one [sds "PING"]] (by rintro b hb; rw [List.mem_singleton.mp hb]; exact hping))

/-- **When a truncated file recovers.** It does so for no other cuts than behind the dump and
outside of the commands of a transaction, and, behind a dump, where a block is whole or nothing
follows. -/
theorem truncated_recovers_iff {p : Sds} (hp : Begins rdbLoadRio p) {selectedDb : Option ℕ} {fs : List Fed} {a : AofBuf}
    (hfed : feedAll ⟨selectedDb, p⟩ fs = .ok a) {blocks : List Block} (hok : ∀ b ∈ blocks, b.Valid)
    (hwritten : writtenAll selectedDb fs = .ok (commands blocks)) :
    a.buf = p ++ bytes (commands blocks) ∧
      ∀ n ≤ a.buf.length, Recovers rdbLoadRio p blocks n ↔ Sound p blocks n := by
  have hbuf : a.buf = p ++ bytes (commands blocks) := by
    obtain ⟨cmds, hcmds, hbuf⟩ := feedAll_written fs hfed
    rw [show writtenAll selectedDb fs = .ok cmds from hcmds] at hwritten
    cases hwritten
    exact hbuf
  refine ⟨hbuf, fun n hn => ?_⟩
  rw [hbuf, List.length_append] at hn
  constructor
  · exact sound_of_recovers hp hok hn
  · exact recovers_of_sound hp hok

/-- A transaction behind a dump, and a loader of dumps of six bytes. -/
theorem truncated_recovers_iff_tx :
    ∃ a, feedAll ⟨none, sds "REDIS" ++ [255]⟩
        [⟨0, 0, [sds "MULTI"]⟩, ⟨0, 0, [sds "INCR", sds "x"]⟩, ⟨0, 0, [sds "EXEC"]⟩] = .ok a ∧
      a.buf = (sds "REDIS" ++ [255]) ++ bytes (commands [.one [sds "SELECT", sds "0"],
        .tx [sds "MULTI"] [sds "EXEC"] [[sds "INCR", sds "x"]]]) ∧
      ∀ n ≤ a.buf.length,
        Recovers (fun s => if s.take 6 = sds "REDIS" ++ [255] then some (s.drop 6) else none) (sds "REDIS" ++ [255])
            [.one [sds "SELECT", sds "0"], .tx [sds "MULTI"] [sds "EXEC"] [[sds "INCR", sds "x"]]] n ↔
          Sound (sds "REDIS" ++ [255])
            [.one [sds "SELECT", sds "0"], .tx [sds "MULTI"] [sds "EXEC"] [[sds "INCR", sds "x"]]] n := by
  have hdump : Preamble (fun s => if s.take 6 = sds "REDIS" ++ [255] then some (s.drop 6) else none) (sds "REDIS" ++ [255]) := by
    refine ⟨rfl, fun v => rfl, fun k hk => ?_⟩
    have hlt : k < 6 := hk
    rw [if_neg]
    intro h
    have := congrArg List.length h
    simp [sds] at this
    omega
  have hwritten : writtenAll none [⟨0, 0, [sds "MULTI"]⟩, ⟨0, 0, [sds "INCR", sds "x"]⟩, ⟨0, 0, [sds "EXEC"]⟩] =
      .ok (commands [.one [sds "SELECT", sds "0"], .tx [sds "MULTI"] [sds "EXEC"] [[sds "INCR", sds "x"]]]) := by
    decide
  have hvalid : ∀ b ∈ [Block.one [sds "SELECT", sds "0"], .tx [sds "MULTI"] [sds "EXEC"] [[sds "INCR", sds "x"]]],
      b.Valid := by decide
  exact ⟨_, rfl, truncated_recovers_iff (.inr hdump) rfl hvalid hwritten⟩

/-- The file is cut in the second command of a transaction. What is appended is lost. -/
theorem cut_in_transaction_not_recovers :
    ∃ a, feedAll ⟨some 0, []⟩ [⟨0, 0, [sds "MULTI"]⟩, ⟨0, 0, [sds "INCR", sds "x"]⟩, ⟨0, 0, [sds "INCR", sds "y"]⟩,
        ⟨0, 0, [sds "EXEC"]⟩] = .ok a ∧
      a.buf = bytes (commands [.tx [sds "MULTI"] [sds "EXEC"] [[sds "INCR", sds "x"], [sds "INCR", sds "y"]]]) ∧
      41 ≤ a.buf.length ∧
      ¬ Recovers (fun _ => none) [] [.tx [sds "MULTI"] [sds "EXEC"] [[sds "INCR", sds "x"], [sds "INCR", sds "y"]]] 41 := by
  refine ⟨_, rfl, rfl, by decide, ?_⟩
  rintro ⟨memory, bs, bs', file, -, -, -, -, hfirst, hreload⟩
  have hcut : loadAppendOnlyFile (fun _ => none) true (([] ++ bytes (commands
      [.tx [sds "MULTI"] [sds "EXEC"] [[sds "INCR", sds "x"], [sds "INCR", sds "y"]]])).take 41) =
      some ({}, bytes [[sds "MULTI"], [sds "INCR", sds "x"]]) := by decide
  rw [hcut] at hfirst
  obtain ⟨hm, rfl⟩ := Prod.mk.inj (Option.some.inj hfirst)
  have hping : ∀ b ∈ [Block.one [sds "PING"]], b.Valid := by decide
  have hlost : loadAppendOnlyFile (fun _ => none) true
      (bytes [[sds "MULTI"], [sds "INCR", sds "x"]] ++ bytes (commands [.one [sds "PING"]])) = some ({}, []) := by
    decide
  have h := hreload [.one [sds "PING"]] hping
  rw [hlost, executed_append, ← execute_execute, ← hm] at h
  have := congrArg (fun r => r.map fun x : Memory × Sds => x.1.executed.length) h
  simp [Memory.execute, executed, Block.executed] at this

end RedisZk.Aof
