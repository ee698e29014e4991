/-
# Quoted strings, printed and read back

`sdscatrepr` prints a string between double quotes, with escapes for what is not printable in the C locale, and
`sdssplitargs` reads a line of such strings. The scanner is given once more here as it reads memory: each step
looks at the bytes from a pointer on, and a byte behind the terminator is not there. It ends, with what
the scanner on a list gives, and it is the inverse of the printer.

Key definitions: `sdscatrepr`, `Scan`, `step`, `loop`, `Broken`.
Key theorems: `splitArgs_repr`, `split_joined`, `loop_spec`, `quoting_is_invertible`.
-/
import RedisZk.Lib.Run
import RedisZk.Networking.Query

namespace RedisZk.Util

open Streams (Sds)
open Networking (Quoting splitArgs isspace isHexDigit hexDigitToInt unescape)

/-! ### Printing -/

/-- `isprint`, in the C locale. -/
def isprint (ch : Fin 256) : Bool := 32 ≤ ch && ch ≤ 126

/-- A digit of `%02x`. -/
def hexDigit (d : ℕ) : Fin 256 := if d < 10 then Fin.ofNat 256 (48 + d) else Fin.ofNat 256 (87 + d)

def reprChar (ch : Fin 256) : Sds :=
  if ch = 92 ∨ ch = 34 then [92, ch]
  else if ch = 10 then [92, 110]
  else if ch = 13 then [92, 114]
  else if ch = 9 then [92, 116]
  else if ch = 7 then [92, 97]
  else if ch = 8 then [92, 98]
  else if isprint ch then [ch]
  else [92, 120, hexDigit (ch.val / 16), hexDigit (ch.val % 16)]

def sdscatrepr (s p : Sds) : Sds := s ++ [34] ++ p.flatMap reprChar ++ [34]

/-! ### Reading memory -/

/-- The scanner between two iterations: the pointer, the vector, the token, and the kind of loop. -/
structure Scan where
  p : ℕ
  argv : List Sds
  current : Sds
  mode : Quoting

/-- After an iteration the scanner goes on, or `sdssplitargs` returns. -/
inductive Outcome
  | scan (s : Scan)
  | done (r : Option (List Sds))

/-- A test of the byte at an address; none behind the terminator. -/
def peek (buf : Sds) (p : ℕ) (test : Fin 256 → Bool) : Option Bool := (buf[p]?).map test

/-- The second operand of `&&` is evaluated only if the first is true. -/
def land (a b : Option Bool) : Option Bool := a.bind fun a => if a then b else some false

/-- `!*(p+1) || isspace(*(p+1))`, of a closing quote at `p`. -/
def closes (buf : Sds) (p : ℕ) : Option Bool := peek buf (p + 1) fun ch => decide (ch = 0) || isspace ch

/-- The token is added to the vector. -/
def Scan.add (s : Scan) (p : ℕ) : Scan := ⟨p, s.argv ++ [s.current], [], .blank⟩

/-- A character is added to the token. -/
def Scan.put (s : Scan) (p : ℕ) (ch : Fin 256) : Scan := { s with p := p, current := s.current ++ [ch] }

/-- The token ends at a closing quote, or the line is refused. -/
def closing (buf : Sds) (s : Scan) : Option Outcome := (closes buf s.p).map fun ok => if ok then .scan (s.add (s.p + 1)) else .done none

def stepInq (buf : Sds) (s : Scan) (ch : Fin 256) : Option Outcome :=
  (land (some (ch = 92)) (land (peek buf (s.p + 1) (· = 120)) (land (peek buf (s.p + 2) isHexDigit) (peek buf (s.p + 3) isHexDigit)))).bind fun hex =>
    if hex then
      some (.scan (s.put (s.p + 4) (Fin.ofNat 256 (hexDigitToInt (buf.getD (s.p + 2) 0) * 16 + hexDigitToInt (buf.getD (s.p + 3) 0)))))
    else
      (land (some (ch = 92)) (peek buf (s.p + 1) (· ≠ 0))).bind fun escape =>
        if escape then some (.scan (s.put (s.p + 2) (unescape (buf.getD (s.p + 1) 0))))
        else if ch = 34 then closing buf s
        else if ch = 0 then some (.done none)
        else some (.scan (s.put (s.p + 1) ch))

def stepInsq (buf : Sds) (s : Scan) (ch : Fin 256) : Option Outcome :=
  (land (some (ch = 92)) (peek buf (s.p + 1) (· = 39))).bind fun escape =>
    if escape then some (.scan (s.put (s.p + 2) 39))
    else if ch = 39 then closing buf s
    else if ch = 0 then some (.done none)
    else some (.scan (s.put (s.p + 1) ch))

/-- At the terminator the pointer stays. -/
def stepPlain (s : Scan) (ch : Fin 256) : Outcome :=
  if ch = 32 ∨ ch = 10 ∨ ch = 13 ∨ ch = 9 then .scan (s.add (s.p + 1))
  else if ch = 0 then .scan (s.add s.p)
  else if ch = 34 then .scan { s with p := s.p + 1, mode := .inq }
  else if ch = 39 then .scan { s with p := s.p + 1, mode := .insq }
  else .scan (s.put (s.p + 1) ch)

def stepBlank (s : Scan) (ch : Fin 256) : Outcome :=
  if ch ≠ 0 ∧ isspace ch = true then .scan { s with p := s.p + 1 }
  else if ch ≠ 0 then .scan { s with mode := .plain }
  else .done (some s.argv)

/-- One iteration of the innermost loop; none if a byte behind the terminator is read. -/
def step (buf : Sds) (s : Scan) : Option Outcome :=
  (buf[s.p]?).bind fun ch =>
    match s.mode with
    | .blank => some (stepBlank s ch)
    | .plain => some (stepPlain s ch)
    | .inq => stepInq buf s ch
    | .insq => stepInsq buf s ch

def start : Scan := ⟨0, [], [], .blank⟩

/-- So many iterations; none if that is not enough, or if a byte behind the terminator is read. -/
def loop (buf : Sds) : ℕ → Scan → Option (Option (List Sds))
  | 0, _ => none
  | fuel + 1, s =>
    match step buf s with
    | none => none
    | some (.done r) => some r
    | some (.scan s) => loop buf fuel s

/-! ### The printer and the scanner -/

attribute [local simp] splitArgs

theorem splitArgs_hex {h l : Fin 256} (hh : isHexDigit h = true) (hl : isHexDigit l = true) (argv : List Sds) (current p : Sds) :
    splitArgs .inq argv current (92 :: 120 :: h :: l :: p) =
      splitArgs .inq argv (current ++ [Fin.ofNat 256 (hexDigitToInt h * 16 + hexDigitToInt l)]) p := by
  rw [splitArgs, hh, hl, Bool.and_self, if_pos rfl]

theorem splitArgs_escape {ch : Fin 256} (hx : ch ≠ 120) (argv : List Sds) (current p : Sds) :
    splitArgs .inq argv current (92 :: ch :: p) = splitArgs .inq argv (current ++ [unescape ch]) p := by
  rw [splitArgs]
  intro h l p' hsame
  exact absurd hsame hx

theorem splitArgs_char {ch : Fin 256} (hslash : ch ≠ 92) (hquote : ch ≠ 34) (argv : List Sds) (current p : Sds) :
    splitArgs .inq argv current (ch :: p) = splitArgs .inq argv (current ++ [ch]) p := by
  rw [splitArgs, if_neg hquote]
  · intro h l p' hsame
    exact absurd hsame hslash
  · intro ch' p' hsame
    exact absurd hsame hslash

theorem hexDigits_spec : ∀ ch : Fin 256, isHexDigit (hexDigit (ch.val / 16)) = true ∧ isHexDigit (hexDigit (ch.val % 16)) = true ∧
    Fin.ofNat 256 (hexDigitToInt (hexDigit (ch.val / 16)) * 16 + hexDigitToInt (hexDigit (ch.val % 16))) = ch := by
  decide +kernel

/-- **A printed character is read back**, between quotes. -/
theorem splitArgs_reprChar (ch : Fin 256) (argv : List Sds) (current p : Sds) :
    splitArgs .inq argv current (reprChar ch ++ p) = splitArgs .inq argv (current ++ [ch]) p := by
  unfold reprChar
  by_cases hself : ch = 92 ∨ ch = 34
  · rw [if_pos hself]
    rcases hself with rfl | rfl
    · exact splitArgs_escape (by decide) argv current p
    · exact splitArgs_escape (by decide) argv current p
  · rw [if_neg hself]
    obtain ⟨hslash, hquote⟩ := not_or.mp hself
    split
    · rename_i hn
      rw [hn]
      exact splitArgs_escape (by decide) argv current p
    · split
      · rename_i hr
        rw [hr]
        exact splitArgs_escape (by decide) argv current p
      · split
        · rename_i ht
          rw [ht]
          exact splitArgs_escape (by decide) argv current p
        · split
          · rename_i ha
            rw [ha]
            exact splitArgs_escape (by decide) argv current p
          · split
            · rename_i hb
              rw [hb]
              exact splitArgs_escape (by decide) argv current p
            · split
              · exact splitArgs_char hslash hquote argv current p
              · obtain ⟨hhigh, hlow, hsame⟩ := hexDigits_spec ch
                have hread := splitArgs_hex hhigh hlow argv current p
                rwa [hsame] at hread

theorem splitArgs_repr : ∀ (s : Sds) (argv : List Sds) (current p : Sds),
    splitArgs .inq argv current (s.flatMap reprChar ++ p) = splitArgs .inq argv (current ++ s) p
  | [], argv, current, p => by rw [List.flatMap_nil, List.nil_append, List.append_nil]
  | ch :: s, argv, current, p => by
    rw [List.flatMap_cons, List.append_assoc, splitArgs_reprChar, splitArgs_repr s, List.append_assoc, List.singleton_append]

/-- What may stand behind a closing quote. -/
def StartsBlank (p : Sds) : Prop := ∀ ch ∈ p.head?, isspace ch = true

/-- **A printed string is one token.** -/
theorem splitArgs_token (s : Sds) (argv : List Sds) {p : Sds} (hp : StartsBlank p) :
    splitArgs .blank argv [] (sdscatrepr [] s ++ p) = splitArgs .blank (argv ++ [s]) [] p := by
  have hquote : ¬isspace 34 = true := by decide
  have hend : ¬((p.head?).any fun next => !isspace next) = true := by
    cases p with
    | nil => exact Bool.false_ne_true
    | cons ch p =>
      rw [List.head?_cons, Option.any_some, hp ch rfl]
      exact Bool.false_ne_true
  rw [sdscatrepr, List.nil_append, List.append_assoc, List.append_assoc, List.singleton_append, List.cons_append, splitArgs, if_neg hquote, if_pos rfl,
    splitArgs_repr, List.nil_append, List.nil_append, splitArgs, if_pos rfl, if_neg hend]
  · intro h l p' hsame
    exact absurd hsame (by decide)
  · intro ch' p' hsame
    exact absurd hsame (by decide)

theorem splitArgs_blanks (argv : List Sds) (p : Sds) : ∀ sep : Sds, (∀ ch ∈ sep, isspace ch = true) →
    splitArgs .blank argv [] (sep ++ p) = splitArgs .blank argv [] p
  | [], _ => rfl
  | ch :: sep, h => by
    rw [List.cons_append, splitArgs, if_pos (h ch List.mem_cons_self)]
    exact splitArgs_blanks argv p sep fun ch' hch' => h ch' (List.mem_cons_of_mem _ hch')

/-- The strings, printed and joined. -/
def joined (sep : Sds) : List Sds → Sds
  | [] => []
  | [s] => sdscatrepr [] s
  | s :: args => sdscatrepr [] s ++ (sep ++ joined sep args)

/-- **What is printed is read back.** -/
theorem split_joined {sep : Sds} (hne : sep ≠ []) (hsep : ∀ ch ∈ sep, isspace ch = true) : ∀ args argv : List Sds,
    splitArgs .blank argv [] (joined sep args) = some (argv ++ args)
  | [], argv => by simp [joined]
  | [s], argv => by
    have htoken := splitArgs_token s argv (p := []) nofun
    rw [List.append_nil] at htoken
    rw [joined, htoken, splitArgs]
  | s :: s' :: args, argv => by
    obtain ⟨ch, sep', rfl⟩ := List.exists_cons_of_ne_nil hne
    have hstart : StartsBlank (ch :: sep' ++ joined (ch :: sep') (s' :: args)) := by
      intro ch' hch'
      cases hch'
      exact hsep ch List.mem_cons_self
    rw [joined, splitArgs_token s argv hstart, splitArgs_blanks _ _ _ hsep, split_joined hne hsep (s' :: args), List.append_assoc, List.singleton_append]
    exact nofun

/-! ### The scanner ends -/

/-- What is left of the line, with the terminator. A token begins empty. -/
structure Left (buf : Sds) (s : Scan) (rest : Sds) : Prop where
  bytes : ∀ i, buf[s.p + i]? = (rest ++ [0])[i]?
  text : 0 ∉ rest
  current : s.mode = .blank → s.current = []

/-- An iteration keeps what is to be returned, and reads on or goes from one loop to the other. -/
def Keeps (s : Scan) (rest : Sds) : Outcome → Prop
  | .done r => splitArgs s.mode s.argv s.current rest = r
  | .scan s' => ∃ k, s'.p = s.p + k ∧ k ≤ rest.length ∧ (s'.mode = .blank → s'.current = []) ∧
      (0 < k ∨ s.mode = .blank ∧ s'.mode = .plain ∧ rest ≠ [] ∨ s.mode = .plain ∧ s'.mode = .blank ∧ rest = []) ∧
      splitArgs s'.mode s'.argv s'.current (rest.drop k) = splitArgs s.mode s.argv s.current rest

variable {buf rest : Sds} {s : Scan} {ch : Fin 256}

theorem Left.peek (h : Left buf s rest) (i : ℕ) (test : Fin 256 → Bool) : peek buf (s.p + i) test = ((rest ++ [0])[i]?).map test := by
  rw [Util.peek, h.bytes i]

theorem Left.getD (h : Left buf s rest) (i : ℕ) : buf.getD (s.p + i) 0 = (rest ++ [0]).getD i 0 := by
  rw [List.getD_eq_getElem?_getD, List.getD_eq_getElem?_getD, h.bytes i]

theorem Left.drop {s' : Scan} {k : ℕ} (h : Left buf s rest) (hp : s'.p = s.p + k) (hk : k ≤ rest.length)
    (hcurrent : s'.mode = .blank → s'.current = []) : Left buf s' (rest.drop k) := by
  refine ⟨fun i => ?_, fun hmem => h.text (List.mem_of_mem_drop hmem), hcurrent⟩
  rw [hp, Nat.add_assoc, h.bytes (k + i), ← List.drop_append_of_le_length hk, List.getElem?_drop]

theorem Left.ne_zero (h : Left buf s (ch :: rest)) : ch ≠ 0 := fun hz => h.text (hz ▸ List.mem_cons_self)

theorem splitArgs_plain {argv : List Sds} {p : Sds} (hspace : ¬isspace ch = true) :
    splitArgs .plain argv [] (ch :: p) = splitArgs .blank argv [] (ch :: p) := by
  have hend : ¬(ch = 32 ∨ ch = 10 ∨ ch = 13 ∨ ch = 9) := by
    rintro (rfl | rfl | rfl | rfl)
    · exact hspace (by decide)
    · exact hspace (by decide)
    · exact hspace (by decide)
    · exact hspace (by decide)
  rw [splitArgs, splitArgs, if_neg hend, if_neg hspace, List.nil_append]

theorem keeps_blank (h : Left buf s rest) (hmode : s.mode = .blank) (hch : (rest ++ [0])[0]? = some ch) : Keeps s rest (stepBlank s ch) := by
  obtain ⟨p, argv, current, mode⟩ := s
  obtain rfl : mode = .blank := hmode
  obtain rfl : current = [] := h.current rfl
  cases rest with
  | nil =>
    cases hch
    show splitArgs .blank argv [] [] = some argv
    rw [splitArgs]
  | cons ch rest =>
    cases hch
    unfold stepBlank
    split
    · rename_i hspace
      refine ⟨1, rfl, Nat.le_add_left _ _, fun _ => rfl, Or.inl Nat.one_pos, ?_⟩
      show splitArgs .blank argv [] rest = splitArgs .blank argv [] (ch :: rest)
      conv_rhs => rw [splitArgs, if_pos hspace.2]
    · rename_i hspace
      have hnot : ¬isspace ch = true := fun hyes => hspace ⟨h.ne_zero, hyes⟩
      rw [if_pos h.ne_zero]
      exact ⟨0, rfl, Nat.zero_le _, nofun, Or.inr (Or.inl ⟨rfl, rfl, List.cons_ne_nil _ _⟩), splitArgs_plain hnot⟩

theorem keeps_plain (h : Left buf s rest) (hmode : s.mode = .plain) (hch : (rest ++ [0])[0]? = some ch) : Keeps s rest (stepPlain s ch) := by
  obtain ⟨p, argv, current, mode⟩ := s
  obtain rfl : mode = .plain := hmode
  cases rest with
  | nil =>
    cases hch
    exact ⟨0, rfl, Nat.zero_le _, fun _ => rfl, Or.inr (Or.inr ⟨rfl, rfl, rfl⟩), by rw [Scan.add, List.drop_nil, splitArgs, splitArgs]⟩
  | cons ch rest =>
    cases hch
    unfold stepPlain
    split
    · rename_i hend
      refine ⟨1, rfl, Nat.le_add_left _ _, fun _ => rfl, Or.inl Nat.one_pos, ?_⟩
      show splitArgs .blank (argv ++ [current]) [] rest = splitArgs .plain argv current (ch :: rest)
      conv_rhs => rw [splitArgs, if_pos hend]
    · rename_i hend
      rw [if_neg h.ne_zero]
      split
      · rename_i hquote
        refine ⟨1, rfl, Nat.le_add_left _ _, nofun, Or.inl Nat.one_pos, ?_⟩
        show splitArgs .inq argv current rest = splitArgs .plain argv current (ch :: rest)
        conv_rhs => rw [splitArgs, if_neg hend, if_pos hquote]
      · rename_i hquote
        split
        · rename_i hsingle
          refine ⟨1, rfl, Nat.le_add_left _ _, nofun, Or.inl Nat.one_pos, ?_⟩
          show splitArgs .insq argv current rest = splitArgs .plain argv current (ch :: rest)
          conv_rhs => rw [splitArgs, if_neg hend, if_neg hquote, if_pos hsingle]
        · rename_i hsingle
          refine ⟨1, rfl, Nat.le_add_left _ _, nofun, Or.inl Nat.one_pos, ?_⟩
          show splitArgs .plain argv (current ++ [ch]) rest = splitArgs .plain argv current (ch :: rest)
          conv_rhs => rw [splitArgs, if_neg hend, if_neg hquote, if_neg hsingle]

/-- At a closing quote. -/
theorem keeps_closing (h : Left buf s (ch :: rest))
    (hsplit : splitArgs s.mode s.argv s.current (ch :: rest) =
      if (rest.head?).any fun next => !isspace next then none else splitArgs .blank (s.argv ++ [s.current]) [] rest) :
    ∃ o, closing buf s = some o ∧ Keeps s (ch :: rest) o := by
  have hcloses : closes buf s.p = some (!(rest.head?).any fun next => !isspace next) := by
    rw [closes, h.peek 1]
    cases hrest : rest with
    | nil => rfl
    | cons next rest' =>
      have hne : next ≠ 0 := by
        intro hz
        refine h.text (List.mem_cons_of_mem _ ?_)
        rw [hrest, hz]
        exact List.mem_cons_self
      show some (decide (next = 0) || isspace next) = some (!!isspace next)
      rw [decide_eq_false hne, Bool.false_or, Bool.not_not]
  rw [closing, hcloses]
  cases hany : (rest.head?).any fun next => !isspace next with
  | true =>
    rw [hany, if_pos rfl] at hsplit
    exact ⟨_, rfl, hsplit⟩
  | false =>
    rw [hany, if_neg Bool.false_ne_true] at hsplit
    exact ⟨_, rfl, 1, rfl, Nat.le_add_left _ _, fun _ => rfl, Or.inl Nat.one_pos, hsplit.symm⟩

theorem keeps_insq (h : Left buf s rest) (hmode : s.mode = .insq) (hch : (rest ++ [0])[0]? = some ch) :
    ∃ o, stepInsq buf s ch = some o ∧ Keeps s rest o := by
  have hpeek := h.peek
  cases rest with
  | nil =>
    cases hch
    refine ⟨.done none, rfl, ?_⟩
    show splitArgs s.mode s.argv s.current [] = none
    rw [hmode, splitArgs]
  | cons ch rest =>
    cases hch
    unfold stepInsq
    by_cases hescape : ch = 92 ∧ rest.head? = some 39
    · obtain ⟨rfl, hhead⟩ := hescape
      obtain ⟨rest, rfl⟩ : ∃ rest', rest = 39 :: rest' := by
        cases rest with
        | nil => cases hhead
        | cons next rest =>
          cases hhead
          exact ⟨rest, rfl⟩
      rw [hpeek 1]
      refine ⟨.scan (s.put (s.p + 2) 39), rfl, 2, rfl, by simp, ?_, Or.inl Nat.two_pos, ?_⟩
      · intro hblank
        exact absurd (hmode.symm.trans hblank) nofun
      · show splitArgs s.mode s.argv (s.current ++ [39]) rest = splitArgs s.mode s.argv s.current (92 :: 39 :: rest)
        rw [hmode]
        conv_rhs => rw [splitArgs]
    · have hland : land (some (decide (ch = 92))) (peek buf (s.p + 1) (· = 39)) = some false := by
        by_cases hslash : ch = 92
        · rw [hpeek 1, decide_eq_true hslash]
          cases rest with
          | nil => rfl
          | cons next rest =>
            have hne : next ≠ 39 := fun heq => hescape ⟨hslash, congrArg some heq⟩
            show some (decide (next = 39)) = some false
            rw [decide_eq_false hne]
        · rw [decide_eq_false hslash]
          rfl
      have hsplit : splitArgs s.mode s.argv s.current (ch :: rest) =
          if ch = 39 then if (rest.head?).any fun next => !isspace next then none else splitArgs .blank (s.argv ++ [s.current]) [] rest
          else splitArgs .insq s.argv (s.current ++ [ch]) rest := by
        rw [hmode, splitArgs]
        intro p hslash hrest
        exact hescape ⟨hslash, by rw [hrest]; rfl⟩
      rw [hland, Option.bind_some, if_neg Bool.false_ne_true]
      split
      · rename_i hquote
        rw [if_pos hquote] at hsplit
        exact keeps_closing h hsplit
      · rename_i hquote
        rw [if_neg hquote] at hsplit
        rw [if_neg h.ne_zero]
        refine ⟨_, rfl, 1, rfl, Nat.le_add_left _ _, fun hblank => absurd (hmode.symm.trans hblank) nofun, Or.inl Nat.one_pos, ?_⟩
        rw [hsplit]
        show splitArgs s.mode _ _ _ = _
        rw [hmode]
        rfl

/-- The line goes on with an escaped byte. -/
def HexEscape (rest : Sds) : Prop := ∃ h l p, rest = 92 :: 120 :: h :: l :: p ∧ isHexDigit h = true ∧ isHexDigit l = true

theorem splitArgs_other {next : Fin 256} {p : Sds} (hnot : ¬HexEscape (92 :: next :: p)) (argv : List Sds) (current : Sds) :
    splitArgs .inq argv current (92 :: next :: p) = splitArgs .inq argv (current ++ [unescape next]) p := by
  by_cases hx : next = 120
  · subst hx
    match p with
    | [] => rfl
    | [c] => rfl
    | h :: l :: p =>
      have hhex : ¬(isHexDigit h && isHexDigit l) = true := fun hboth =>
        hnot ⟨h, l, p, rfl, (Bool.and_eq_true_iff.mp hboth).1, (Bool.and_eq_true_iff.mp hboth).2⟩
      rw [splitArgs, if_neg hhex]
  · exact splitArgs_escape hx argv current p

/-- The test for an escaped byte reads no further than it must. -/
theorem land_hex (h : Left buf s (ch :: rest)) :
    land (some (decide (ch = 92))) (land (peek buf (s.p + 1) (· = 120)) (land (peek buf (s.p + 2) isHexDigit) (peek buf (s.p + 3) isHexDigit))) = some true ∧
      HexEscape (ch :: rest) ∨
    land (some (decide (ch = 92))) (land (peek buf (s.p + 1) (· = 120)) (land (peek buf (s.p + 2) isHexDigit) (peek buf (s.p + 3) isHexDigit))) = some false ∧
      ¬HexEscape (ch :: rest) := by
  rw [h.peek 1, h.peek 2, h.peek 3]
  by_cases hslash : ch = 92
  · subst hslash
    match rest with
    | [] => exact Or.inr ⟨rfl, nofun⟩
    | [next] =>
      refine Or.inr ⟨?_, nofun⟩
      show land (some (decide (next = 120))) (land (some (isHexDigit 0)) _) = some false
      cases decide (next = 120) with
      | true => rfl
      | false => rfl
    | [next, high] =>
      refine Or.inr ⟨?_, nofun⟩
      show land (some (decide (next = 120))) (land (some (isHexDigit high)) (some (isHexDigit 0))) = some false
      cases decide (next = 120) with
      | true =>
        cases isHexDigit high with
        | true => rfl
        | false => rfl
      | false => rfl
    | next :: high :: low :: p =>
      show land (some (decide (next = 120))) (land (some (isHexDigit high)) (some (isHexDigit low))) = some true ∧ _ ∨
        land (some (decide (next = 120))) (land (some (isHexDigit high)) (some (isHexDigit low))) = some false ∧ _
      by_cases hx : next = 120
      · subst hx
        cases hhigh : isHexDigit high with
        | true =>
          cases hlow : isHexDigit low with
          | true => exact Or.inl ⟨rfl, high, low, p, rfl, hhigh, hlow⟩
          | false =>
            refine Or.inr ⟨rfl, ?_⟩
            rintro ⟨h', l', p', hsame, -, hl'⟩
            cases hsame
            exact Bool.false_ne_true (hlow.symm.trans hl')
        | false =>
          refine Or.inr ⟨rfl, ?_⟩
          rintro ⟨h', l', p', hsame, hh', -⟩
          cases hsame
          exact Bool.false_ne_true (hhigh.symm.trans hh')
      · rw [decide_eq_false hx]
        refine Or.inr ⟨rfl, ?_⟩
        rintro ⟨h', l', p', hsame, -, -⟩
        cases hsame
        exact hx rfl
  · rw [decide_eq_false hslash]
    refine Or.inr ⟨rfl, ?_⟩
    rintro ⟨h', l', p', hsame, -, -⟩
    cases hsame
    exact hslash rfl

theorem keeps_inq (h : Left buf s rest) (hmode : s.mode = .inq) (hch : (rest ++ [0])[0]? = some ch) :
    ∃ o, stepInq buf s ch = some o ∧ Keeps s rest o := by
  have hstays : ∀ {s' : Scan}, s'.mode = s.mode → s'.mode = .blank → s'.current = [] := fun hsame hblank =>
    absurd (hmode.symm.trans (hsame.symm.trans hblank)) nofun
  cases rest with
  | nil =>
    cases hch
    refine ⟨.done none, rfl, ?_⟩
    show splitArgs s.mode s.argv s.current [] = none
    rw [hmode, splitArgs]
  | cons ch rest =>
    cases hch
    unfold stepInq
    rcases land_hex h with ⟨hland, hhex⟩ | ⟨hland, hhex⟩
    · obtain ⟨high, low, p, hrest, hhigh, hlow⟩ := hhex
      cases hrest
      rw [hland, Option.bind_some, if_pos rfl, h.getD 2, h.getD 3]
      refine ⟨_, rfl, 4, rfl, by simp, hstays rfl, Or.inl (by decide), ?_⟩
      show splitArgs s.mode _ _ _ = splitArgs s.mode _ _ _
      rw [hmode, splitArgs_hex hhigh hlow]
      rfl
    · rw [hland, Option.bind_some, if_neg Bool.false_ne_true]
      by_cases hescape : ch = 92 ∧ rest ≠ []
      · obtain ⟨rfl, hne⟩ := hescape
        obtain ⟨next, p, rfl⟩ := List.exists_cons_of_ne_nil hne
        have hnext : next ≠ 0 := fun hz => h.text (List.mem_cons_of_mem _ (hz ▸ List.mem_cons_self))
        have hyes : land (some (decide ((92 : Fin 256) = 92))) (peek buf (s.p + 1) (· ≠ 0)) = some true := by
          rw [h.peek 1]
          show some (decide (next ≠ 0)) = some true
          rw [decide_eq_true hnext]
        rw [hyes, Option.bind_some, if_pos rfl, h.getD 1]
        refine ⟨_, rfl, 2, rfl, by simp, hstays rfl, Or.inl (by decide), ?_⟩
        show splitArgs s.mode _ _ _ = splitArgs s.mode _ _ _
        rw [hmode, splitArgs_other hhex]
        rfl
      · have hno : land (some (decide (ch = 92))) (peek buf (s.p + 1) (· ≠ 0)) = some false := by
          by_cases hslash : ch = 92
          · have hnil : rest = [] := by
              by_contra hne
              exact hescape ⟨hslash, hne⟩
            rw [h.peek 1, hnil, decide_eq_true hslash]
            rfl
          · rw [decide_eq_false hslash]
            rfl
        have hsplit : splitArgs s.mode s.argv s.current (ch :: rest) =
            if ch = 34 then if (rest.head?).any fun next => !isspace next then none else splitArgs .blank (s.argv ++ [s.current]) [] rest
            else splitArgs .inq s.argv (s.current ++ [ch]) rest := by
          rw [hmode, splitArgs]
          · intro high low p hslash hrest
            exact hescape ⟨hslash, by rw [hrest]; exact List.cons_ne_nil _ _⟩
          · intro next p hslash hrest
            exact hescape ⟨hslash, by rw [hrest]; exact List.cons_ne_nil _ _⟩
        rw [hno, Option.bind_some, if_neg Bool.false_ne_true]
        split
        · rename_i hquote
          rw [if_pos hquote] at hsplit
          exact keeps_closing h hsplit
        · rename_i hquote
          rw [if_neg hquote] at hsplit
          rw [if_neg h.ne_zero]
          refine ⟨_, rfl, 1, rfl, Nat.le_add_left _ _, hstays rfl, Or.inl Nat.one_pos, ?_⟩
          rw [hsplit]
          show splitArgs s.mode _ _ _ = _
          rw [hmode]
          rfl

/-- **An iteration reads nothing behind the terminator.** -/
theorem step_spec (h : Left buf s rest) : ∃ o, step buf s = some o ∧ Keeps s rest o := by
  obtain ⟨ch, hch⟩ : ∃ ch, (rest ++ [0])[0]? = some ch := by
    cases rest with
    | nil => exact ⟨0, rfl⟩
    | cons ch rest => exact ⟨ch, rfl⟩
  rw [step, show buf[s.p]? = some ch from (h.bytes 0).trans hch, Option.bind_some]
  cases hmode : s.mode with
  | blank => exact ⟨_, rfl, keeps_blank h hmode hch⟩
  | plain => exact ⟨_, rfl, keeps_plain h hmode hch⟩
  | inq => exact keeps_inq h hmode hch
  | insq => exact keeps_insq h hmode hch

/-- The iterations that are left, at most: two for a byte, and the ends of a token and of the line. -/
def budget (s : Scan) (rest : Sds) : ℕ :=
  if rest = [] then if s.mode = .plain then 1 else 0 else 2 * rest.length + if s.mode = .blank then 1 else 0

theorem budget_decreases {s s' : Scan} {k : ℕ} (hk : k ≤ rest.length)
    (h : 0 < k ∨ s.mode = .blank ∧ s'.mode = .plain ∧ rest ≠ [] ∨ s.mode = .plain ∧ s'.mode = .blank ∧ rest = []) :
    budget s' (rest.drop k) < budget s rest := by
  have hlen : (rest.drop k).length = rest.length - k := List.length_drop
  have hsmall : ∀ (s : Scan) (rest : Sds), budget s rest ≤ 2 * rest.length + 1 := by
    intro s rest
    unfold budget
    split
    · split <;> omega
    · split <;> omega
  rcases h with hpos | ⟨hblank, hplain, hne⟩ | ⟨hplain, hblank, rfl⟩
  · have hne : rest ≠ [] := by
      intro hnil
      rw [hnil, List.length_nil] at hk
      omega
    have hle := hsmall s' (rest.drop k)
    have hrest : 2 * rest.length ≤ budget s rest := by
      rw [budget, if_neg hne]
      exact Nat.le_add_right _ _
    omega
  · have hpos : 0 < rest.length := List.length_pos_of_ne_nil hne
    have hplain' : ¬s'.mode = .blank := by rw [hplain]; exact nofun
    have hdrop : budget s' (rest.drop k) ≤ 2 * rest.length := by
      unfold budget
      split
      · omega
      · omega
    rw [show budget s rest = 2 * rest.length + 1 by rw [budget, if_neg hne, if_pos hblank]]
    exact Nat.lt_succ_of_le hdrop
  · have hblank' : ¬s'.mode = .plain := by rw [hblank]; exact nofun
    rw [budget, budget, List.drop_nil, if_pos rfl, if_pos rfl, if_pos hplain, if_neg hblank']
    exact Nat.one_pos

/-- **The scanner ends** with what the scanner on the rest of the line gives. -/
theorem loop_spec : ∀ {fuel : ℕ} {s : Scan} {rest : Sds}, Left buf s rest → budget s rest < fuel →
    loop buf fuel s = some (splitArgs s.mode s.argv s.current rest)
  | 0, s, rest, _, hfuel => absurd hfuel (Nat.not_lt_zero _)
  | fuel + 1, s, rest, h, hfuel => by
    obtain ⟨o, hstep, hkeeps⟩ := step_spec h
    rw [loop, hstep]
    cases o with
    | done r => exact congrArg some hkeeps.symm
    | scan s' =>
      obtain ⟨k, hp, hk, hcurrent, hprogress, hsame⟩ := hkeeps
      have hless := budget_decreases hk hprogress
      rw [← hsame]
      exact loop_spec (h.drop hp hk hcurrent) (by omega)

theorem left_start {line : Sds} (h : 0 ∉ line) : Left (line ++ [0]) start line :=
  ⟨fun i => by rw [start, Nat.zero_add], h, fun _ => rfl⟩

theorem budget_start (line : Sds) : budget start line ≤ 2 * line.length + 1 := by
  unfold budget
  split
  · split <;> omega
  · split <;> omega

/-! ### Lines that are refused -/

/-- A quote is open at the terminator, or a closing quote is followed by what is no blank. -/
def Broken (buf : Sds) (s : Scan) : Prop :=
  (s.mode = .inq ∨ s.mode = .insq) ∧
    (buf[s.p]? = some 0 ∨
      (buf[s.p]? = some (if s.mode = .inq then 34 else 39) ∧ ∃ ch, buf[s.p + 1]? = some ch ∧ ch ≠ 0 ∧ isspace ch = false))

/-- The iterations of a call. -/
def Reads (buf : Sds) (s : Scan) : Prop := Stepwise.Run (· = start) (fun s (_ : Unit) s' => step buf s = some (.scan s')) s

theorem closing_none (h : closing buf s = some (.done none)) : ∃ ch, buf[s.p + 1]? = some ch ∧ ch ≠ 0 ∧ isspace ch = false := by
  obtain ⟨ok, hcloses, hok⟩ := Option.map_eq_some_iff.mp h
  obtain ⟨ch, hch, htest⟩ := Option.map_eq_some_iff.mp hcloses
  have hfalse : ok = false := by
    by_contra htrue
    rw [if_pos (Bool.eq_true_of_not_eq_false htrue)] at hok
    cases hok
  rw [hfalse, Bool.or_eq_false_iff, decide_eq_false_iff_not] at htest
  exact ⟨ch, hch, htest⟩

theorem broken_of_none (h : step buf s = some (.done none)) : Broken buf s := by
  obtain ⟨ch, hch, hstep⟩ := Option.bind_eq_some_iff.mp h
  cases hmode : s.mode with
  | blank =>
    rw [hmode] at hstep
    have hbad := Option.some.inj hstep
    unfold stepBlank at hbad
    split at hbad
    · cases hbad
    · split at hbad
      · cases hbad
      · cases hbad
  | plain =>
    rw [hmode] at hstep
    have hbad := Option.some.inj hstep
    unfold stepPlain at hbad
    split at hbad
    · cases hbad
    · split at hbad
      · cases hbad
      · split at hbad
        · cases hbad
        · split at hbad
          · cases hbad
          · cases hbad
  | inq =>
    rw [hmode] at hstep
    refine ⟨Or.inl hmode, ?_⟩
    obtain ⟨hex, -, hstep⟩ := Option.bind_eq_some_iff.mp hstep
    split at hstep
    · cases hstep
    · obtain ⟨escape, -, hstep⟩ := Option.bind_eq_some_iff.mp hstep
      split at hstep
      · cases hstep
      · split at hstep
        · rename_i hquote
          rw [if_pos hmode]
          exact Or.inr ⟨hch.trans (congrArg some hquote), closing_none hstep⟩
        · split at hstep
          · rename_i hzero
            exact Or.inl (hch.trans (congrArg some hzero))
          · cases hstep
  | insq =>
    rw [hmode] at hstep
    refine ⟨Or.inr hmode, ?_⟩
    obtain ⟨escape, -, hstep⟩ := Option.bind_eq_some_iff.mp hstep
    split at hstep
    · cases hstep
    · split at hstep
      · rename_i hquote
        rw [if_neg (by rw [hmode]; exact nofun)]
        exact Or.inr ⟨hch.trans (congrArg some hquote), closing_none hstep⟩
      · split at hstep
        · rename_i hzero
          exact Or.inl (hch.trans (congrArg some hzero))
        · cases hstep

theorem closing_broken {ch : Fin 256} (hch : buf[s.p + 1]? = some ch) (hne : ch ≠ 0) (hspace : isspace ch = false) :
    closing buf s = some (.done none) := by
  rw [closing, closes, peek, hch, Option.map_some, decide_eq_false hne, hspace]
  rfl

theorem step_broken (h : Broken buf s) : step buf s = some (.done none) := by
  obtain ⟨hmode, hzero | ⟨hquote, ch, hch, hne, hspace⟩⟩ := h
  · rw [step, hzero, Option.bind_some]
    rcases hmode with hmode | hmode
    · rw [hmode]
      rfl
    · rw [hmode]
      rfl
  · rw [step, hquote, Option.bind_some]
    rcases hmode with hmode | hmode
    · rw [hmode]
      exact closing_broken hch hne hspace
    · rw [hmode]
      exact closing_broken hch hne hspace

theorem reads_spec {line : Sds} (h : 0 ∉ line) (hs : Reads (line ++ [0]) s) :
    ∃ rest, Left (line ++ [0]) s rest ∧ splitArgs s.mode s.argv s.current rest = Networking.sdssplitargs line := by
  refine hs.invariant (I := fun s => ∃ rest, Left (line ++ [0]) s rest ∧ splitArgs s.mode s.argv s.current rest = Networking.sdssplitargs line)
    (fun s hstart => ?_) fun s _ s' _ hinv hstep => ?_
  · rw [hstart]
    exact ⟨line, left_start h, rfl⟩
  · obtain ⟨rest, hleft, hsame⟩ := hinv
    obtain ⟨o, ho, hkeeps⟩ := step_spec hleft
    rw [hstep] at ho
    cases ho
    obtain ⟨k, hp, hk, hcurrent, -, hsplit⟩ := hkeeps
    exact ⟨_, hleft.drop hp hk hcurrent, hsplit.trans hsame⟩

theorem last_of_loop : ∀ {fuel : ℕ} {s : Scan}, Reads buf s → loop buf fuel s = some none → ∃ s', Reads buf s' ∧ step buf s' = some (.done none)
  | 0, s, _, h => nomatch h
  | fuel + 1, s, hs, h => by
    rw [loop] at h
    cases hstep : step buf s with
    | none =>
      rw [hstep] at h
      cases h
    | some o =>
      rw [hstep] at h
      cases o with
      | done r =>
        cases h
        exact ⟨s, hs, hstep⟩
      | scan s' => exact last_of_loop (hs.step (e := ()) hstep) h

/-- **A line is refused exactly if its quotes are unbalanced, or one is closed too early.** -/
theorem none_iff_broken {line : Sds} (h : 0 ∉ line) :
    Networking.sdssplitargs line = none ↔ ∃ s, Reads (line ++ [0]) s ∧ Broken (line ++ [0]) s := by
  constructor
  · intro hnone
    have hloop := loop_spec (left_start h) (Nat.lt_succ_of_le (budget_start line))
    have hlast : loop (line ++ [0]) (2 * line.length + 1).succ start = some none := hloop.trans (congrArg some hnone)
    obtain ⟨s, hs, hstep⟩ := last_of_loop (.start rfl) hlast
    exact ⟨s, hs, broken_of_none hstep⟩
  · rintro ⟨s, hs, hbroken⟩
    obtain ⟨rest, hleft, hsame⟩ := reads_spec h hs
    obtain ⟨o, ho, hkeeps⟩ := step_spec hleft
    rw [step_broken hbroken] at ho
    cases ho
    exact hsame.symm.trans hkeeps

theorem zero_not_mem_reprChar : ∀ ch : Fin 256, 0 ∉ reprChar ch := by decide +kernel

theorem zero_not_mem_repr (s : Sds) : 0 ∉ sdscatrepr [] s := by
  intro h
  rw [sdscatrepr, List.nil_append] at h
  rcases List.mem_append.mp h with h | h
  · rcases List.mem_append.mp h with h | h
    · exact absurd (List.mem_singleton.mp h) (by decide)
    · obtain ⟨ch, -, hch⟩ := List.mem_flatMap.mp h
      exact zero_not_mem_reprChar ch hch
  · exact absurd (List.mem_singleton.mp h) (by decide)

theorem zero_not_mem_joined {sep : Sds} (hsep : ∀ ch ∈ sep, isspace ch = true) : ∀ args : List Sds, 0 ∉ joined sep args
  | [] => List.not_mem_nil
  | [s] => zero_not_mem_repr s
  | s :: s' :: args => by
    intro h
    rcases List.mem_append.mp h with h | h
    · exact zero_not_mem_repr s h
    · rcases List.mem_append.mp h with h | h
      · exact absurd (hsep 0 h) (by decide)
      · exact zero_not_mem_joined hsep (s' :: args) h

/-- **Quoting is invertible**, and every line is read to its end or refused. -/
theorem quoting_is_invertible :
    (∀ sep : Sds, sep ≠ [] → (∀ ch ∈ sep, isspace ch = true) → ∀ args : List Sds, 0 ∉ joined sep args ∧
      ∀ fuel, 2 * (joined sep args).length + 1 < fuel → loop (joined sep args ++ [0]) fuel start = some (some args)) ∧
    ∀ line : Sds, 0 ∉ line → ∃ r, (∀ fuel, 2 * line.length + 1 < fuel → loop (line ++ [0]) fuel start = some r) ∧
      (r = none ↔ ∃ s, Reads (line ++ [0]) s ∧ Broken (line ++ [0]) s) := by
  have hloop : ∀ line : Sds, 0 ∉ line → ∀ fuel, 2 * line.length + 1 < fuel → loop (line ++ [0]) fuel start = some (Networking.sdssplitargs line) :=
    fun line h fuel hfuel => loop_spec (left_start h) (lt_of_le_of_lt (budget_start line) hfuel)
  constructor
  · intro sep hne hsep args
    have hzero := zero_not_mem_joined hsep args
    refine ⟨hzero, fun fuel hfuel => ?_⟩
    rw [hloop _ hzero fuel hfuel, Networking.sdssplitargs, split_joined hne hsep, List.nil_append]
  · exact fun line h => ⟨_, hloop line h, none_iff_broken h⟩

/-- A string with a null, a quote and a high byte, and an empty one. -/
theorem quoting_is_invertible_bytes : loop (joined [32] [[0, 34, 200], []] ++ [0]) 48 start = some (some [[0, 34, 200], []]) :=
  (quoting_is_invertible.1 [32] (by decide) (by decide +kernel) [[0, 34, 200], []]).2 48 (by decide)

end RedisZk.Util
