/-
# Glob patterns

`stringmatchlen` of util.c, on what is left of the pattern and of the string. Behind the last byte of
a pattern there is a NUL, which the code reads where it looks one byte ahead; `charOf` is the value
of a byte as a C `char`, which is signed on some machines and unsigned on others, and a range of a set
goes by these values.

The text of a pattern is well formed if it denotes a sequence of pieces (`Denotes`): every bracket is closed and
a byte follows every backslash. In a set a `]` behind a `-` that has a byte before it is the end of
a range. The matcher then decides the language of the pieces, but for one case: it does not enter its loop for
the empty string, so that a pattern of stars does not match it (`stringmatchlen_exact`).

Key definitions: `stringmatchlen`, `Items`, `Denotes`.
Key theorems: `matchSet_spec`, `stringmatchlen_spec`, `stringmatchlen_exact`.
-/
import Mathlib
import RedisZk.Lib.Globs
import RedisZk.Networking.Reply

namespace RedisZk.Util

open Globs
open Networking (sds)
open Streams (Sds)

abbrev Byte := Fin 256

/-- The value of a `char`. -/
def charOf (signedChar : Bool) (b : Byte) : ℤ := if signedChar ∧ b.val ≥ 128 then b.val - 256 else b.val

/-- In the C locale. -/
def tolower (c : ℤ) : ℤ := if 65 ≤ c ∧ c ≤ 90 then c + 32 else c

section Matcher

variable (signedChar nocase : Bool)

/-- The comparison of two bytes. -/
def sameChar (a b : Byte) : Bool :=
  if nocase then tolower (charOf signedChar a) = tolower (charOf signedChar b) else a = b

/-- Whether a byte is in the range of two others, in either order. -/
def inRange (a b x : Byte) : Bool :=
  let start := min (charOf signedChar a) (charOf signedChar b)
  let stop := max (charOf signedChar a) (charOf signedChar b)
  let c := charOf signedChar x
  if nocase then tolower start ≤ tolower c ∧ tolower c ≤ tolower stop else start ≤ c ∧ c ≤ stop

/-- The loop over a set, from behind the `[` and the `^` on: whether the byte is in it, and the pattern behind it. -/
def matchSet (x : Byte) (found : Bool) (pattern : Sds) : Bool × Sds :=
  if pattern.getD 0 0 = 92 ∧ pattern.length ≥ 2 then
    matchSet x (if pattern.getD 1 0 = x then true else found) (pattern.drop 2)
  else if pattern.getD 0 0 = 93 then (found, pattern.drop 1)
  -- The pattern ends in the set; the code steps back, and forth again behind the set.
  else if pattern.length = 0 then (found, pattern)
  else if pattern.getD 1 0 = 45 ∧ pattern.length ≥ 3 then
    matchSet x (if inRange signedChar nocase (pattern.getD 0 0) (pattern.getD 2 0) x then true else found) (pattern.drop 3)
  else matchSet x (if sameChar signedChar nocase (pattern.getD 0 0) x then true else found) (pattern.drop 1)
termination_by pattern.length
decreasing_by all_goals (rw [List.length_drop]; omega)

/-- The pattern from the last of the stars at its start on. -/
def lastStar : Sds → Sds
  | 42 :: 42 :: p => lastStar (42 :: p)
  | p => p

/-- The loop of a star over the string: whether what is left of it matches at some place. -/
def anySuffix (f : Sds → Bool) : Sds → Bool
  | [] => false
  | x :: s => f (x :: s) || anySuffix f s

theorem length_lastStar (p : Sds) : (lastStar p).length ≤ p.length := by
  induction p using lastStar.induct with
  | case1 p ih =>
    rw [lastStar]
    simp only [List.length_cons] at ih ⊢
    omega
  | case2 p h => rw [lastStar.eq_2 p h]

theorem length_matchSet (x : Byte) (found : Bool) (p : Sds) :
    (matchSet signedChar nocase x found p).2.length ≤ p.length := by
  induction found, p using matchSet.induct signedChar nocase x with
  | case1 found p h ih =>
    rw [matchSet, if_pos h]
    rw [List.length_drop] at ih
    exact ih.trans (by omega)
  | case2 found p h1 h2 =>
    rw [matchSet, if_neg h1, if_pos h2, List.length_drop]
    omega
  | case3 found p h1 h2 h3 => rw [matchSet, if_neg h1, if_neg h2, if_pos h3]
  | case4 found p h1 h2 h3 h4 ih =>
    rw [matchSet, if_neg h1, if_neg h2, if_neg h3, if_pos h4]
    rw [List.length_drop] at ih
    exact ih.trans (by omega)
  | case5 found p h1 h2 h3 h4 ih =>
    rw [matchSet, if_neg h1, if_neg h2, if_neg h3, if_neg h4]
    rw [List.length_drop] at ih
    exact ih.trans (by omega)

/-- The pattern from the byte on that is compared: behind a backslash, if anything is there. -/
def literal (c : Byte) (p : Sds) : Sds := if c = 92 ∧ p ≠ [] then p else c :: p

theorem length_literal (c : Byte) (p : Sds) : (literal c p).length ≤ p.length + 1 := by
  rw [literal]
  split
  · exact Nat.le_succ _
  · exact le_rfl

def stringmatchlen (pattern string : Sds) : Bool :=
  match pattern, string with
  | [], s => s.isEmpty
  | _ :: _, [] => false
  | c :: p, x :: s =>
    -- What the loop does once the byte `x` is taken: at the end of the string only stars may be left.
    if c = 42 then
      let q := (lastStar (c :: p)).tail
      if q = [] then true else anySuffix (fun t => stringmatchlen q t) (x :: s)
    else if c = 63 then
      if s = [] then (p.dropWhile (· = 42)).isEmpty else stringmatchlen p s
    else if c = 91 then
      let negated := p.getD 0 0 = 94
      let r := matchSet signedChar nocase x false (if negated then p.drop 1 else p)
      if (if negated then !r.1 else r.1) then
        if s = [] then (r.2.dropWhile (· = 42)).isEmpty else stringmatchlen r.2 s
      else false
    else
      let q := literal c p
      if sameChar signedChar nocase (q.getD 0 0) x then
        if s = [] then (q.tail.dropWhile (· = 42)).isEmpty else stringmatchlen q.tail s
      else false
termination_by pattern.length
decreasing_by
  · have hlen := length_lastStar (c :: p)
    rw [List.length_tail, List.length_cons] at *
    omega
  · exact Nat.lt_succ_self _
  · have hlen := length_matchSet signedChar nocase x false (if p.getD 0 0 = 94 then p.drop 1 else p)
    have hdrop : (if p.getD 0 0 = 94 then p.drop 1 else p).length ≤ p.length := by
      split
      · rw [List.length_drop]
        omega
      · exact le_rfl
    exact Nat.lt_succ_of_le (hlen.trans hdrop)
  · have hlen := length_literal c p
    rw [List.length_tail, List.length_cons]
    omega

end Matcher

/-! ### The language -/

section Language

variable (signedChar : Bool)

inductive Item
  | byte (b : Byte)
  | range (a b : Byte)

/-- The bytes of a member of a set. -/
def Item.bytes : Item → Set Byte
  | byte b => {b}
  | range a b => {x | min (charOf signedChar a) (charOf signedChar b) ≤ charOf signedChar x ∧
      charOf signedChar x ≤ max (charOf signedChar a) (charOf signedChar b)}

/-- The bytes that belong to one of the members. -/
def union (items : List Item) : Set Byte := {x | ∃ i ∈ items, x ∈ i.bytes signedChar}

/-- The text from the start of a set on: its members, and what is behind the `]`. -/
inductive Items : Sds → List Item → Sds → Prop
  | close (r : Sds) : Items (93 :: r) [] r
  | escape {b : Byte} {q r : Sds} {items : List Item} (h : Items q items r) : Items (92 :: b :: q) (.byte b :: items) r
  | range {a b : Byte} {q r : Sds} {items : List Item} (ha : a ≠ 92 ∧ a ≠ 93) (h : Items q items r) :
      Items (a :: 45 :: b :: q) (.range a b :: items) r
  | byte {a : Byte} {q r : Sds} {items : List Item} (ha : a ≠ 92 ∧ a ≠ 93) (hq : q.head? ≠ some 45) (h : Items q items r) :
      Items (a :: q) (.byte a :: items) r

/-- The pieces that a well-formed pattern stands for. -/
inductive Denotes : Sds → List (Piece Byte) → Prop
  | nil : Denotes [] []
  | star {p : Sds} {ps : List (Piece Byte)} (h : Denotes p ps) : Denotes (42 :: p) (.star :: ps)
  | any {p : Sds} {ps : List (Piece Byte)} (h : Denotes p ps) : Denotes (63 :: p) (.one Set.univ :: ps)
  | escape {b : Byte} {p : Sds} {ps : List (Piece Byte)} (h : Denotes p ps) : Denotes (92 :: b :: p) (.one {b} :: ps)
  | byte {b : Byte} {p : Sds} {ps : List (Piece Byte)} (hb : b ≠ 42 ∧ b ≠ 63 ∧ b ≠ 91 ∧ b ≠ 92) (h : Denotes p ps) :
      Denotes (b :: p) (.one {b} :: ps)
  | set {q r : Sds} {items : List Item} {ps : List (Piece Byte)} (hq : q.head? ≠ some 94) (hi : Items q items r)
      (h : Denotes r ps) : Denotes (91 :: q) (.one (union signedChar items) :: ps)
  | negated {q r : Sds} {items : List Item} {ps : List (Piece Byte)} (hi : Items q items r) (h : Denotes r ps) :
      Denotes (91 :: 94 :: q) (.one (Set.compl (union signedChar items)) :: ps)

end Language

/-! ### The matcher -/

section Spec

variable {signedChar : Bool}

theorem inRange_iff (a b x : Byte) : inRange signedChar false a b x = true ↔ x ∈ (Item.range a b).bytes signedChar := by
  simp only [inRange, Bool.false_eq_true, if_false, decide_eq_true_eq]
  rfl

theorem sameChar_iff (a x : Byte) : sameChar signedChar false a x = true ↔ a = x := by
  simp only [sameChar, Bool.false_eq_true, if_false, decide_eq_true_eq]

theorem mem_union_cons {i : Item} {items : List Item} {x : Byte} :
    x ∈ union signedChar (i :: items) ↔ x ∈ i.bytes signedChar ∨ x ∈ union signedChar items := by
  constructor
  · rintro ⟨j, hj, hx⟩
    rcases List.mem_cons.mp hj with rfl | hj
    · exact .inl hx
    · exact .inr ⟨j, hj, hx⟩
  · rintro (hx | ⟨j, hj, hx⟩)
    · exact ⟨i, List.mem_cons_self, hx⟩
    · exact ⟨j, List.mem_cons_of_mem _ hj, hx⟩

/-- A member that is found, and the members behind it. -/
theorem found_iff {i : Item} {items : List Item} {x : Byte} {found c : Bool} (hc : c = true ↔ x ∈ i.bytes signedChar) :
    (if c = true then true else found) = true ∨ x ∈ union signedChar items ↔
      found = true ∨ x ∈ union signedChar (i :: items) := by
  rw [mem_union_cons, ← hc]
  cases c
  · simp
  · simp

/-- The loop over a set finds the bytes of its members, and ends behind it. -/
theorem matchSet_spec {q r : Sds} {items : List Item} (h : Items q items r) (x : Byte) (found : Bool) :
    (matchSet signedChar false x found q).2 = r ∧
      ((matchSet signedChar false x found q).1 = true ↔ found = true ∨ x ∈ union signedChar items) := by
  induction h generalizing found with
  | close r =>
    rw [matchSet, if_neg (by simp), if_pos (by simp)]
    exact ⟨rfl, by simp [union]⟩
  | @escape b q r items h ih =>
    obtain ⟨hrest, hfound⟩ := ih (if b = x then true else found)
    have hstep : matchSet signedChar false x found (92 :: b :: q) =
        matchSet signedChar false x (if b = x then true else found) q := by
      rw [matchSet, if_pos (by simp)]
      rfl
    have hiff := @found_iff signedChar (.byte b) items x found (decide (b = x))
        (by rw [decide_eq_true_eq]; exact eq_comm)
    rw [hstep]
    refine ⟨hrest, hfound.trans ?_⟩
    rw [← hiff]
    simp only [decide_eq_true_eq]
  | @range a b q r items ha h ih =>
    obtain ⟨hrest, hfound⟩ := ih (if inRange signedChar false a b x then true else found)
    have hstep : matchSet signedChar false x found (a :: 45 :: b :: q) =
        matchSet signedChar false x (if inRange signedChar false a b x then true else found) q := by
      rw [matchSet, if_neg (by simp [ha.1]), if_neg (by simp [ha.2]), if_neg (by simp), if_pos (by simp)]
      rfl
    rw [hstep]
    exact ⟨hrest, hfound.trans (found_iff (inRange_iff a b x))⟩
  | @byte a q r items ha hq h ih =>
    obtain ⟨hrest, hfound⟩ := ih (if sameChar signedChar false a x then true else found)
    have hnext : (a :: q).getD 1 0 ≠ 45 := by
      cases q with
      | nil => simp
      | cons b q => simpa using hq
    have hstep : matchSet signedChar false x found (a :: q) =
        matchSet signedChar false x (if sameChar signedChar false a x then true else found) q := by
      rw [matchSet, if_neg (by simp [ha.1]), if_neg (by simp [ha.2]), if_neg (by simp), if_neg fun h => hnext h.1]
      rfl
    rw [hstep]
    exact ⟨hrest, hfound.trans (found_iff ((sameChar_iff a x).trans eq_comm))⟩

/-! Stars at the start of a pattern. -/

variable {ps : List (Piece Byte)}

theorem denotes_nil {p : Sds} (h : Denotes signedChar p ps) :
    p.dropWhile (· = 42) = [] ↔ ∀ q ∈ ps, q = .star := by
  induction h with
  | nil => simp
  | star h ih =>
    rw [List.dropWhile_cons_of_pos (by simp), ih]
    simp
  | any h ih => simp
  | escape h ih => simp
  | byte hb h ih => simp [hb.1]
  | set hq hi h ih => simp
  | negated hi h ih => simp

/-- Behind a run of stars there is a pattern that makes the same language with one star. -/
theorem denotes_lastStar {p : Sds} (h : Denotes signedChar p ps) :
    ∃ ps', Denotes signedChar (lastStar (42 :: p)).tail ps' ∧ lang (.star :: ps') = lang (.star :: ps) ∧
      ∀ q, (lastStar (42 :: p)).tail ≠ 42 :: q := by
  induction p generalizing ps with
  | nil => exact ⟨ps, h, rfl, by simp [lastStar]⟩
  | cons c p ih =>
    by_cases hc : c = 42
    · subst hc
      cases h with
      | star h =>
        obtain ⟨ps', hps', hlang, hne⟩ := ih h
        rw [lastStar]
        exact ⟨ps', hps', by rw [hlang, lang_star_star], hne⟩
      | byte hb h => exact absurd rfl hb.1
    · have hlast : lastStar (42 :: c :: p) = 42 :: c :: p := lastStar.eq_2 _ fun q heq => hc (by simp_all)
      rw [hlast]
      exact ⟨ps, h, rfl, fun q heq => hc (by simp_all)⟩

/-- A pattern of a star at most. -/
theorem denotes_ne_nil {p : Sds} (h : Denotes signedChar p ps) (hne : p ≠ [])
    (hstar : ∀ q, p ≠ 42 :: q) : [] ∉ lang ps := by
  rw [nil_mem_lang, ← denotes_nil h]
  obtain ⟨c, p, rfl⟩ := List.exists_cons_of_ne_nil hne
  have hc : c ≠ 42 := by
    rintro rfl
    exact hstar p rfl
  rw [List.dropWhile_cons_of_neg (by simpa using hc)]
  exact List.cons_ne_nil _ _

theorem anySuffix_iff (f : Sds → Bool) (s : Sds) : anySuffix f s = true ↔ ∃ v, v ≠ [] ∧ v <:+ s ∧ f v = true := by
  induction s with
  | nil =>
    rw [anySuffix]
    simp
  | cons x s ih =>
    rw [anySuffix, Bool.or_eq_true, ih]
    constructor
    · rintro (h | ⟨v, hne, hv, h⟩)
      · exact ⟨x :: s, List.cons_ne_nil _ _, List.suffix_rfl, h⟩
      · exact ⟨v, hne, hv.trans (List.suffix_cons _ _), h⟩
    · rintro ⟨v, hne, hv, h⟩
      rcases List.suffix_cons_iff.mp hv with rfl | hv
      · exact .inl h
      · exact .inr ⟨v, hne, hv, h⟩

/-- What is left of the string once a byte is taken, against what is left of the pattern. -/
theorem rest_iff {q v : Sds} (h : Denotes signedChar q ps)
    (ih : v ≠ [] → (stringmatchlen signedChar false q v = true ↔ v ∈ lang ps)) :
    (if v = [] then (q.dropWhile (· = 42)).isEmpty else stringmatchlen signedChar false q v) = true ↔ v ∈ lang ps := by
  split
  · rename_i hv
    rw [hv, List.isEmpty_iff, denotes_nil h, nil_mem_lang]
  · rename_i hv
    exact ih hv

theorem guard_iff {c r : Bool} {A B : Prop} (hc : c = true ↔ A) (hr : r = true ↔ B) :
    (if c then r else false) = true ↔ A ∧ B := by
  rw [← hc, ← hr]
  cases c
  · simp
  · simp

/-- **Matching a string that is not empty.** -/
theorem stringmatchlen_spec {p : Sds} (h : Denotes signedChar p ps) {s : Sds} (hs : s ≠ []) :
    stringmatchlen signedChar false p s = true ↔ s ∈ lang ps := by
  induction hn : p.length using Nat.strongRecOn generalizing p ps s with
  | ind n ih =>
    obtain ⟨x, v, rfl⟩ := List.exists_cons_of_ne_nil hs
    -- the rest of the pattern is shorter, whatever its first piece is
    have hrest : ∀ {q : Sds} {ps : List (Piece Byte)}, q.length < n → Denotes signedChar q ps →
        ((if v = [] then (q.dropWhile (· = 42)).isEmpty else stringmatchlen signedChar false q v) = true ↔ v ∈ lang ps) :=
      fun hlt hq => rest_iff hq fun hv => ih _ hlt hq hv rfl
    cases h with
    | nil =>
      rw [stringmatchlen]
      simp [Language.mem_one]
    | @star p ps h =>
      obtain ⟨ps', hps', hlang, hhead⟩ := denotes_lastStar h
      have hlen : (lastStar (42 :: p)).tail.length < n := by
        have := length_lastStar (42 :: p)
        rw [List.length_tail]
        rw [List.length_cons] at this hn
        omega
      rw [stringmatchlen, if_pos rfl, ← hlang, mem_lang_star]
      dsimp only
      split
      · rename_i hnil
        rw [hnil] at hps'
        cases hps'
        exact ⟨fun _ => ⟨[], List.nil_suffix, rfl⟩, fun _ => rfl⟩
      · rename_i hne
        have hnot := denotes_ne_nil hps' hne hhead
        rw [anySuffix_iff]
        constructor
        · rintro ⟨w, hw, hsuffix, hmatch⟩
          exact ⟨w, hsuffix, (ih _ hlen hps' hw rfl).mp hmatch⟩
        · rintro ⟨w, hsuffix, hmem⟩
          have hw : w ≠ [] := fun heq => hnot (heq ▸ hmem)
          exact ⟨w, hw, hsuffix, (ih _ hlen hps' hw rfl).mpr hmem⟩
    | @any p ps h =>
      rw [stringmatchlen, if_neg (by decide), if_pos rfl, cons_mem_lang_one, hrest (by rw [← hn]; exact Nat.lt_succ_self _) h]
      exact ⟨fun hv => ⟨trivial, hv⟩, fun hv => hv.2⟩
    | @escape b p ps h =>
      have hliteral : literal 92 (b :: p) = b :: p := by simp [literal]
      have hlt : p.length < n := by
        rw [← hn, List.length_cons, List.length_cons]
        omega
      rw [stringmatchlen, if_neg (by decide), if_neg (by decide), if_neg (by decide), cons_mem_lang_one]
      dsimp only
      rw [hliteral]
      exact guard_iff ((sameChar_iff b x).trans eq_comm) (hrest hlt h)
    | @byte b p ps hb h =>
      have hliteral : literal b p = b :: p := by simp [literal, hb.2.2.2]
      have hlt : p.length < n := by
        rw [← hn, List.length_cons]
        omega
      rw [stringmatchlen, if_neg hb.1, if_neg hb.2.1, if_neg hb.2.2.1, cons_mem_lang_one]
      dsimp only
      rw [hliteral]
      exact guard_iff ((sameChar_iff b x).trans eq_comm) (hrest hlt h)
    | @set q r items ps hq hi h =>
      obtain ⟨hbehind, hfound⟩ := matchSet_spec hi x false
      have hlt : r.length < n := by
        have := length_matchSet signedChar false x false q
        rw [hbehind] at this
        rw [← hn, List.length_cons]
        omega
      have hnot : q.getD 0 0 ≠ 94 := by
        cases q with
        | nil => simp
        | cons c q => simpa using hq
      rw [stringmatchlen, if_neg (by decide), if_neg (by decide), if_pos rfl, cons_mem_lang_one]
      simp only [hnot, if_false]
      rw [hbehind]
      exact guard_iff (by simpa using hfound) (hrest hlt h)
    | @negated q r items ps hi h =>
      obtain ⟨hbehind, hfound⟩ := matchSet_spec hi x false
      have hlt : r.length < n := by
        have := length_matchSet signedChar false x false q
        rw [hbehind] at this
        rw [← hn, List.length_cons, List.length_cons]
        omega
      rw [stringmatchlen, if_neg (by decide), if_neg (by decide), if_pos rfl, cons_mem_lang_one]
      simp only [List.getD_cons_zero, if_true, List.drop_succ_cons, List.drop_zero]
      rw [hbehind]
      refine guard_iff ?_ (hrest hlt h)
      rw [Bool.not_eq_true', ← Bool.not_eq_true, hfound]
      simp only [Bool.false_eq_true, false_or]
      rfl

/-- **When the matcher is exact.** It decides whether the string belongs to the language of a well-formed pattern, but where
the string is empty and the pattern is made of one star or more. -/
theorem stringmatchlen_exact {p : Sds} {ps : List (Piece Byte)} (h : Denotes signedChar p ps) (s : Sds) :
    (stringmatchlen signedChar false p s = true ↔ s ∈ lang ps) ↔ ¬ (s = [] ∧ p ≠ [] ∧ ∀ c ∈ p, c = 42) := by
  by_cases hs : s = []
  · subst hs
    have hstars : (∀ c ∈ p, c = 42) ↔ [] ∈ lang ps := by
      rw [nil_mem_lang, ← denotes_nil h, List.dropWhile_eq_nil_iff]
      simp only [decide_eq_true_eq]
    rw [hstars]
    cases p with
    | nil =>
      cases h
      simp [stringmatchlen, Language.mem_one]
    | cons c p => simp [stringmatchlen]
  · simp only [hs, false_and, not_false_eq_true, iff_true]
    exact stringmatchlen_spec h hs

theorem stringmatchlen_exact_set :
    stringmatchlen true false (sds "a[b-d]*") (sds "ac") = true ↔
      sds "ac" ∈ lang [.one {97}, .one (union true [.range 98 100]), .star] :=
  (stringmatchlen_exact (p := sds "a[b-d]*")
    (.byte (by decide) (.set (by decide) (.range (by decide) (.close _)) (.star .nil))) (sds "ac")).mpr (by decide)

theorem star_not_empty : stringmatchlen true false (sds "*") (sds "") = false ∧ Denotes true (sds "*") [.star] ∧
    sds "" ∈ lang ([.star] : List (Piece Byte)) := by
  refine ⟨?_, .star .nil, ?_⟩
  · show stringmatchlen true false [42] [] = false
    rw [stringmatchlen]
  · exact nil_mem_lang.mpr (by simp)

end Spec

end RedisZk.Util
