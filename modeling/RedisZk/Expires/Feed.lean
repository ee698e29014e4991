/-
# The time that is fed is the time that is stored

The append only file gets PEXPIREAT for the commands that give a time. The number is read once more,
by `strtoll`, and the options of SET are scanned for the last EX or PX, be it an option or the argument
of one. What is written is the time of the command in 64 bits, except that a SET whose arguments name
both EX and PX is not written at all.

Key definitions: `optName`, `lastArg`, `Args.mixed`, `Args.plain`.
Key theorems: `optionArg_eq`, `setOptions_lastArg`, `strtol_string2ll`, `translate_spec`.
-/
import RedisZk.Aof.Truncated
import RedisZk.Expires.Times
import RedisZk.Rdb.Values

namespace RedisZk.Expires

open Aof (wrap named optionArg strtol expireAtCommand)
open Networking (sds tolower commandName)
open Streams (Sds ll2string)

/-! ### The options of SET -/

def optName : TimeUnit → Sds
  | .seconds => sds "ex"
  | .milliseconds => sds "px"

def TimeUnit.other : TimeUnit → TimeUnit
  | .seconds => .milliseconds
  | .milliseconds => .seconds

/-- The argument after the last `name`. -/
def lastArg (name : Sds) : List Sds → Option Sds
  | [] => none
  | a :: rest => (lastArg name rest).or (if named name a then some (rest.headD []) else none)

/-- EX and PX are both among the arguments, in any place. -/
def Args.mixed : Args → Prop
  | .set _ _ options => (∃ a ∈ options, named (sds "ex") a = true) ∧ ∃ a ∈ options, named (sds "px") a = true
  | _ => False

theorem tolower_iff : ∀ y : Fin 256, (tolower y = 101 ↔ y = 101 ∨ y = 101 - 32) ∧ (tolower y = 112 ↔ y = 112 ∨ y = 112 - 32) ∧
    (tolower y = 110 ↔ y = 110 ∨ y = 110 - 32) ∧ (tolower y = 120 ↔ y = 120 ∨ y = 120 - 32) ∧ (y = 0 → tolower y = 0) := by
  decide +kernel

/-- Two letters and the end of the string, as the test of single characters. -/
theorem isOption_iff {x y : Fin 256} (hx : ∀ c, tolower c = x ↔ c = x ∨ c = x - 32) (hy : ∀ c, tolower c = y ↔ c = y ∨ c = y - 32)
    (hx0 : tolower 0 ≠ x) (hy0 : tolower 0 ≠ y) (a : Sds) : isOption x y a = named [x, y] a := by
  have hletter : ∀ {z : Fin 256}, (∀ c, tolower c = z ↔ c = z ∨ c = z - 32) → ∀ c, (decide (c = z) || decide (c = z - 32)) = decide (tolower c = z) := by
    intro z hz c
    rw [← Bool.decide_or]
    exact decide_eq_decide.mpr (hz c).symm
  rw [isOption, hletter hx, hletter hy, named]
  match a with
  | [] => simp [hx0]
  | [c] => by_cases hc : c = 0 <;> simp [hc, hx0, hy0]
  | [c, d] => by_cases hc : c = 0 <;> by_cases hd : d = 0 <;> simp [hc, hd, hx0, hy0]
  | c :: d :: e :: a => by_cases hc : c = 0 <;> by_cases hd : d = 0 <;> by_cases he : e = 0 <;> simp [hc, hd, he, hx0, hy0]

theorem isOption_eq (a : Sds) : isOption 101 120 a = named (sds "ex") a ∧ isOption 112 120 a = named (sds "px") a ∧
    isOption 110 120 a = named (sds "nx") a ∧ isOption 120 120 a = named (sds "xx") a :=
  ⟨isOption_iff (fun c => (tolower_iff c).1) (fun c => (tolower_iff c).2.2.2.1) (by decide) (by decide) a,
    isOption_iff (fun c => (tolower_iff c).2.1) (fun c => (tolower_iff c).2.2.2.1) (by decide) (by decide) a,
    isOption_iff (fun c => (tolower_iff c).2.2.1) (fun c => (tolower_iff c).2.2.2.1) (by decide) (by decide) a,
    isOption_iff (fun c => (tolower_iff c).2.2.2.1) (fun c => (tolower_iff c).2.2.2.1) (by decide) (by decide) a⟩

/-- A string has one name. -/
theorem named_unique {x y a : Sds} (hx : named x a = true) (hy : named y a = true) : x = y := by
  rw [named, decide_eq_true_eq] at hx hy
  rw [← hx, hy]

theorem lastArg_eq_none_iff {name : Sds} : ∀ {options : List Sds}, lastArg name options = none ↔ ∀ a ∈ options, named name a = false
  | [] => by simp [lastArg]
  | a :: rest => by
    rw [lastArg, Option.or_eq_none_iff, lastArg_eq_none_iff, List.forall_mem_cons, and_comm]
    refine and_congr_left fun _ => ?_
    by_cases h : named name a = true
    · rw [if_pos h, h]
      exact ⟨fun hnone => absurd hnone (Option.some_ne_none _), fun hfalse => absurd hfalse Bool.false_ne_true.symm⟩
    · rw [if_neg h]
      exact ⟨fun _ => Bool.eq_false_iff.mpr h, fun _ => rfl⟩

theorem lastArg_filter (name : Sds) : ∀ options : List Sds,
    ((List.range options.length).filter fun i => named name (options.getD i [])).getLast?.map (fun i => options.getD (i + 1) []) =
      lastArg name options
  | [] => rfl
  | a :: rest => by
    have hrest := lastArg_filter name rest
    rw [lastArg, ← hrest, List.length_cons, List.range_succ_eq_map, List.filter_cons, List.filter_map]
    have hsucc : (fun i => named name ((a :: rest).getD i [])) ∘ Nat.succ = fun i => named name (rest.getD i []) := rfl
    rw [hsucc, List.getD_cons_zero]
    generalize (List.range rest.length).filter (fun i => named name (rest.getD i [])) = l
    by_cases h : named name a = true
    · rw [if_pos h, if_pos h, List.getLast?_cons, List.getLast?_map]
      cases l.getLast? with
      | none =>
        cases rest with
        | nil => rfl
        | cons b rest => rfl
      | some i => rfl
    · rw [if_neg h, if_neg h, Option.or_none, List.getLast?_map, Option.map_map]
      rfl

/-- The scan starts at the fourth argument. -/
theorem optionArg_eq (name x key val : Sds) (options : List Sds) : optionArg name (x :: key :: val :: options) = lastArg name options := by
  rw [optionArg, ← lastArg_filter, List.length_cons, List.length_cons, List.length_cons, show options.length + 1 + 1 + 1 = 3 + options.length by omega,
    List.range_add, List.filter_append, List.filter_map]
  have hfirst : (List.range 3).filter (fun i => decide (3 ≤ i) && named name ((x :: key :: val :: options).getD i [])) = [] := by
    refine List.filter_eq_nil_iff.mpr fun i hi => ?_
    rw [decide_eq_false (by have := List.mem_range.mp hi; omega), Bool.false_and]
    exact Bool.false_ne_true
  have hrest : (fun i => decide (3 ≤ i) && named name ((x :: key :: val :: options).getD i [])) ∘ (3 + ·) =
      fun i => named name (options.getD i []) := by
    funext i
    rw [Function.comp_apply, decide_eq_true (Nat.le_add_right 3 i), Bool.true_and, Nat.add_comm 3 i]
    rfl
  rw [hfirst, hrest, List.nil_append, List.getLast?_map, Option.map_map]
  refine congrArg (Option.map · _) (funext fun i => ?_)
  rw [Function.comp_apply, Nat.add_comm 3 i]
  rfl

/-- One option of SET: NX, XX, or the unit of the next argument. -/
theorem setOptions_cons {a : Sds} {options : List Sds} {f g : SetOptions} (h : setOptions (a :: options) f = some g) :
    ((named (sds "ex") a = false ∧ named (sds "px") a = false) ∧ ∃ f', setOptions options f' = some g ∧ f'.expire = f.expire) ∨
      ∃ unit next rest f', options = next :: rest ∧ named (optName unit) a = true ∧ setOptions rest f' = some g ∧
        f'.expire = some (unit, next) := by
  obtain ⟨hex, hpx, hnx, hxx⟩ := isOption_eq a
  have hother : ∀ {x : Sds}, x ≠ sds "ex" → x ≠ sds "px" → named x a = true → named (sds "ex") a = false ∧ named (sds "px") a = false :=
    fun hxe hxp hx => ⟨Bool.eq_false_iff.mpr fun he => hxe (named_unique hx he), Bool.eq_false_iff.mpr fun hp => hxp (named_unique hx hp)⟩
  rw [setOptions.eq_def] at h
  dsimp only at h
  rw [hex, hpx, hnx, hxx] at h
  split at h
  · rename_i hcond
    exact Or.inl ⟨hother (by decide) (by decide) hcond.1, _, h, rfl⟩
  · split at h
    · rename_i hcond
      exact Or.inl ⟨hother (by decide) (by decide) hcond.1, _, h, rfl⟩
    · split at h
      · cases h
      · rename_i next rest
        split at h
        · rename_i hcond
          exact Or.inr ⟨.seconds, next, rest, _, rfl, hcond.1, h, rfl⟩
        · split at h
          · rename_i hcond
            exact Or.inr ⟨.milliseconds, next, rest, _, rfl, hcond.1, h, rfl⟩
          · cases h

/-- **The last option that is found by the scan is the one of the loop**, or is named as its own argument. -/
theorem setOptions_lastArg {unit : TimeUnit} : ∀ {options : List Sds} {f g : SetOptions}, setOptions options f = some g →
    (∀ a ∈ options, named (optName unit.other) a = false) →
      (g.expire = f.expire ∧ ∀ a ∈ options, named (optName unit) a = false) ∨
        ∃ p, g.expire = some (unit, p) ∧ (lastArg (optName unit) options = some p ∨ named (optName unit) p = true)
  | [], f, g, h, _ => by
    cases h
    exact Or.inl ⟨rfl, nofun⟩
  | a :: options, f, g, h, hno => by
    obtain ⟨ha, hrest⟩ := List.forall_mem_cons.mp hno
    rcases setOptions_cons h with ⟨hnone, f', h', hf'⟩ | ⟨unit', next, rest, f', rfl, hname, h', hf'⟩
    · have hname : named (optName unit) a = false := by
        cases unit with
        | seconds => exact hnone.1
        | milliseconds => exact hnone.2
      rcases setOptions_lastArg h' hrest with ⟨hg, hall⟩ | ⟨p, hg, hp⟩
      · exact Or.inl ⟨hg.trans hf', List.forall_mem_cons.mpr ⟨hname, hall⟩⟩
      · refine Or.inr ⟨p, hg, hp.imp_left fun hlast => ?_⟩
        rw [lastArg, hlast, Option.some_or]
    · obtain rfl : unit' = unit := by
        cases unit with
        | seconds =>
          cases unit' with
          | seconds => rfl
          | milliseconds => exact absurd (hname.symm.trans ha) Bool.false_ne_true.symm
        | milliseconds =>
          cases unit' with
          | seconds => exact absurd (hname.symm.trans ha) Bool.false_ne_true.symm
          | milliseconds => rfl
      refine Or.inr ?_
      rcases setOptions_lastArg h' (List.forall_mem_cons.mp hrest).2 with ⟨hg, hall⟩ | ⟨p, hg, hp⟩
      · refine ⟨next, hg.trans hf', ?_⟩
        by_cases hnext : named (optName unit') next = true
        · exact Or.inr hnext
        · refine Or.inl ?_
          rw [lastArg, lastArg, lastArg_eq_none_iff.mpr hall, if_neg hnext, if_pos hname]
          rfl
      · refine ⟨p, hg, hp.imp_left fun hlast => ?_⟩
        rw [lastArg, lastArg, hlast, Option.some_or, Option.some_or]

/-! ### The number -/

variable {n : ℤ}

/-- What is read as a number is its text. -/
theorem string2ll_text {p : Sds} (h : Util.string2ll p = some n) : ll2string n = p ∧ Streams.IsInt64 n := by
  rw [Util.string2ll_eq] at h
  exact ⟨Streams.ll2string_lpStringToInt64 h, Streams.isInt64_lpStringToInt64 h⟩

/-- **`strtoll` reads what `string2ll` does.** -/
theorem strtol_string2ll {p : Sds} (h : Util.string2ll p = some n) : strtol p = n := by
  obtain ⟨rfl, hlow, hhigh⟩ := string2ll_text h
  by_cases hneg : n < 0
  · have htext : ll2string n = 45 :: Decimal.text n.natAbs := by rw [ll2string, if_neg (by omega), if_pos hneg]
    have hdigits : (Decimal.text n.natAbs).takeWhile Aof.isdigit = Decimal.text n.natAbs :=
      List.takeWhile_eq_self_iff.mpr fun x hx => Aof.isdigit_of_digit (Decimal.text_digit hx)
    have hsign : Aof.sign ((45 :: Decimal.text n.natAbs).dropWhile Networking.isspace) = (true, Decimal.text n.natAbs) := rfl
    rw [strtol, htext, hsign]
    dsimp only
    rw [hdigits, Decimal.value_text, if_pos rfl, Aof.LONG_MAX]
    omega
  · obtain ⟨m, rfl⟩ := Int.eq_ofNat_of_zero_le (Int.not_lt.mp hneg)
    have hread := Aof.strtol_digits (v := []) (fun x hx => Aof.ll2string_digit hx) (Aof.ll2string_ne_nil m) (by simp)
    rw [List.append_nil, Aof.value_ll2string, Aof.LONG_MAX] at hread
    rw [hread]
    omega

/-- The text of a number is no option. -/
theorem not_named {p : Sds} (h : Util.string2ll p = some n) (unit : TimeUnit) : named (optName unit) p = false := by
  obtain ⟨rfl, -, -⟩ := string2ll_text h
  have hchar : ∀ c : Fin 256, Decimal.Digit c ∨ c = 45 → c ≠ 0 ∧ tolower c ≠ 101 ∧ tolower c ≠ 112 := by decide +kernel
  obtain ⟨c, q, hhead, hc⟩ : ∃ c q, ll2string n = c :: q ∧ (Decimal.Digit c ∨ c = 45) := by
    by_cases hneg : n < 0
    · exact ⟨45, _, by rw [ll2string, if_neg (by omega), if_pos hneg], Or.inr rfl⟩
    · obtain ⟨m, rfl⟩ := Int.eq_ofNat_of_zero_le (Int.not_lt.mp hneg)
      obtain ⟨c, q, hcons⟩ := List.exists_cons_of_ne_nil (Aof.ll2string_ne_nil m)
      exact ⟨c, q, hcons, Or.inl (Aof.ll2string_digit (hcons ▸ List.mem_cons_self))⟩
  obtain ⟨hzero, hex, hpx⟩ := hchar c hc
  refine decide_eq_false fun hname => ?_
  rw [hhead, List.takeWhile_cons, if_pos (decide_eq_true hzero), List.map_cons] at hname
  cases unit with
  | seconds => exact hex (List.cons.inj hname).1
  | milliseconds => exact hpx (List.cons.inj hname).1

/-! ### The translation -/

/-- What is written before PEXPIREAT. -/
def Args.plain (name : Sds) : Args → List (List Sds)
  | .expire _ _ _ => []
  | .setex _ key _ val => [[sds "SET", key, val]]
  | .set key val _ => [[name, key, val]]

/-- The arithmetic is that of the command. -/
theorem expireAtCommand_eq {text : Sds} (hnum : Util.string2ll text = some n) (now : ℤ) (key : Sds) {cmd : Sds} {unit : TimeUnit}
    {relative : Bool} (hunit : (cmd = sds "expire" ∨ cmd = sds "setex" ∨ cmd = sds "expireat") ↔ unit = .seconds)
    (hrelative : (cmd = sds "expire" ∨ cmd = sds "pexpire" ∨ cmd = sds "setex" ∨ cmd = sds "psetex") ↔ relative = true) :
    expireAtCommand now cmd key text =
      [sds "PEXPIREAT", key, ll2string (wrap (2 ^ 63) (toMilliseconds unit n + if relative then now else 0))] := by
  obtain ⟨-, hlow, hhigh⟩ := string2ll_text hnum
  have hms : (if cmd = sds "expire" ∨ cmd = sds "setex" ∨ cmd = sds "expireat" then wrap (2 ^ 63) (n * 1000) else n) = toMilliseconds unit n := by
    cases unit with
    | seconds => rw [if_pos (hunit.mpr rfl), toMilliseconds]
    | milliseconds => exact if_neg fun h => by cases hunit.mp h
  have hfits : Fits (toMilliseconds unit n) := by
    cases unit with
    | seconds => exact fits_wrap _
    | milliseconds =>
      rw [toMilliseconds, Fits]
      omega
  rw [expireAtCommand, strtol_string2ll hnum, hms]
  by_cases hrel : relative = true
  · rw [if_pos (hrelative.mpr hrel), if_pos hrel]
  · rw [if_neg fun h => hrel (hrelative.mp h), if_neg hrel, add_zero, (wrap_eq_iff _).mpr hfits]

/-- The other unit is not named by any argument of a SET. -/
theorem other_absent {key val : Sds} {options : List Sds} {f : SetOptions} {e : TimeUnit × Sds} (h : setOptions options noOptions = some f)
    (he : f.expire = some e) (hmixed : ¬(Args.set key val options).mixed) : ∀ a ∈ options, named (optName e.1.other) a = false := by
  intro a ha
  refine Bool.eq_false_iff.mpr fun hother => ?_
  have hunit : ∀ b ∈ options, named (optName e.1.other.other) b = false := by
    intro b hb
    refine Bool.eq_false_iff.mpr fun hname => hmixed ?_
    generalize e.1 = unit at hother hname
    cases unit with
    | seconds => exact ⟨⟨b, hb, hname⟩, a, ha, hother⟩
    | milliseconds => exact ⟨⟨a, ha, hother⟩, b, hb, hname⟩
  rcases setOptions_lastArg h hunit with ⟨hnone, -⟩ | ⟨p, hp, -⟩
  · exact nomatch he.symm.trans hnone
  · have hsame : e.1 = e.1.other := congrArg Prod.fst (Option.some.inj (he.symm.trans hp))
    generalize e.1 = unit at hsame
    cases unit with
    | seconds => cases hsame
    | milliseconds => cases hsame

/-- **What is fed is the time in 64 bits.** -/
theorem translate_spec (c : Call) (hn : c.args.accepts = some n) (hmixed : ¬c.args.mixed) (now : ℤ) (j : ℕ) :
    ∃ name, name.map tolower = sds "pexpireat" ∧ Aof.translate ⟨now, j, c.argv⟩ =
      .ok (c.args.plain c.name ++ [[name, c.args.key, ll2string (wrap (2 ^ 63) (c.args.time now n))]]) := by
  obtain ⟨args, name, hname⟩ := c
  obtain ⟨unit, relative, text, hrequest, hnum, -⟩ := accepts_some hn
  dsimp only at hrequest
  have hcmd : commandName (Call.mk args name hname).argv = args.name := hname
  unfold Aof.translate
  dsimp only
  rw [hcmd, ← wrap_time hrequest]
  cases args with
  | expire variant key param =>
    cases variant with
    | expire =>
      cases hrequest
      refine ⟨sds "PEXPIREAT", by decide, ?_⟩
      rw [show (Args.expire .expire key text).name = sds "expire" from rfl, if_pos (by decide)]
      exact congrArg (fun l => Except.ok [l]) (expireAtCommand_eq hnum now key (by decide) (by decide))
    | pexpire =>
      cases hrequest
      refine ⟨sds "PEXPIREAT", by decide, ?_⟩
      rw [show (Args.expire .pexpire key text).name = sds "pexpire" from rfl, if_pos (by decide)]
      exact congrArg (fun l => Except.ok [l]) (expireAtCommand_eq hnum now key (by decide) (by decide))
    | expireat =>
      cases hrequest
      refine ⟨sds "PEXPIREAT", by decide, ?_⟩
      rw [show (Args.expire .expireat key text).name = sds "expireat" from rfl, if_pos (by decide)]
      exact congrArg (fun l => Except.ok [l]) (expireAtCommand_eq hnum now key (by decide) (by decide))
    | pexpireat =>
      cases hrequest
      obtain ⟨htext, hlow, hhigh⟩ := string2ll_text hnum
      have hfits : wrap (2 ^ 63) (n + 0) = n := by
        rw [add_zero]
        refine (wrap_eq_iff n).mpr ?_
        rw [Fits]
        omega
      refine ⟨name, hname, ?_⟩
      rw [show (Args.expire .pexpireat key text).name = sds "pexpireat" from rfl, if_neg (by decide), if_neg (by decide),
        if_neg fun h => absurd h.1 (by decide)]
      show _ = Except.ok [[name, key, ll2string (wrap (2 ^ 63) (n + 0))]]
      rw [hfits, htext]
      rfl
  | setex unit key param val =>
    cases hrequest
    refine ⟨sds "PEXPIREAT", by decide, ?_⟩
    cases unit with
    | seconds =>
      rw [show (Args.setex .seconds key text val).name = sds "setex" from rfl, if_neg (by decide), if_pos (by decide)]
      exact congrArg (fun l => Except.ok [[sds "SET", key, val], l]) (expireAtCommand_eq hnum now key (by decide) (by decide))
    | milliseconds =>
      rw [show (Args.setex .milliseconds key text val).name = sds "psetex" from rfl, if_neg (by decide), if_pos (by decide)]
      exact congrArg (fun l => Except.ok [[sds "SET", key, val], l]) (expireAtCommand_eq hnum now key (by decide) (by decide))
  | set key val options =>
    obtain ⟨f, hoptions, hexpire⟩ := Option.bind_eq_some_iff.mp hrequest
    obtain ⟨e, he, hparts⟩ := Option.map_eq_some_iff.mp hexpire
    cases hparts
    have habsent := other_absent hoptions he hmixed
    obtain ⟨p, hp, hlast⟩ := (setOptions_lastArg hoptions habsent).resolve_left fun h => nomatch he.symm.trans h.1
    obtain rfl : e.2 = p := congrArg Prod.snd (Option.some.inj (he.symm.trans hp))
    have hfound := hlast.resolve_right fun h => Bool.false_ne_true ((not_named hnum e.1).symm.trans h)
    have hlen : 3 < (Call.mk (Args.set key val options) name hname).argv.length := by
      cases options with
      | nil => cases hfound
      | cons a options =>
        rw [Call.argv, Args.rest]
        simp only [List.length_cons]
        omega
    refine ⟨sds "PEXPIREAT", by decide, ?_⟩
    rw [show (Args.set key val options).name = sds "set" from rfl, if_neg (by decide), if_neg (by decide), if_pos ⟨rfl, hlen⟩]
    rw [Call.argv, Args.rest, optionArg_eq, optionArg_eq]
    obtain ⟨unit, text⟩ := e
    dsimp only at hnum hfound habsent ⊢
    cases unit with
    | seconds =>
      rw [show lastArg (sds "ex") options = some text from hfound,
        show lastArg (sds "px") options = none from lastArg_eq_none_iff.mpr habsent]
      exact congrArg (fun l => Except.ok [[name, key, val], l]) (expireAtCommand_eq hnum now key (by decide) (by decide))
    | milliseconds =>
      rw [show lastArg (sds "px") options = some text from hfound,
        show lastArg (sds "ex") options = none from lastArg_eq_none_iff.mpr habsent]
      exact congrArg (fun l => Except.ok [[name, key, val], l]) (expireAtCommand_eq hnum now key (by decide) (by decide))

/-- **A SET with both EX and PX among its arguments is not written.** -/
theorem translate_mixed (c : Call) (hmixed : c.args.mixed) (now : ℤ) (j : ℕ) : Aof.translate ⟨now, j, c.argv⟩ = .error .assert := by
  obtain ⟨args, name, hname⟩ := c
  have hcmd : commandName (Call.mk args name hname).argv = args.name := hname
  unfold Aof.translate
  dsimp only
  rw [hcmd]
  cases args with
  | expire variant key param => cases hmixed
  | setex unit key param val => cases hmixed
  | set key val options =>
    obtain ⟨⟨a, ha, hex⟩, b, hb, hpx⟩ := hmixed
    have hlen : 3 < (Call.mk (Args.set key val options) name hname).argv.length := by
      have hpos := List.length_pos_of_mem ha
      rw [Call.argv, Args.rest]
      simp only [List.length_cons]
      omega
    have hfound : ∀ {x c : Sds}, c ∈ options → named x c = true → ∃ p, lastArg x options = some p := by
      intro x c hc hx
      refine Option.ne_none_iff_exists'.mp fun hnone => ?_
      exact Bool.false_ne_true ((lastArg_eq_none_iff.mp hnone c hc).symm.trans hx)
    obtain ⟨p, hp⟩ := hfound ha hex
    obtain ⟨q, hq⟩ := hfound hb hpx
    rw [show (Args.set key val options).name = sds "set" from rfl, if_neg (by decide), if_neg (by decide), if_pos ⟨rfl, hlen⟩]
    rw [Call.argv, Args.rest, optionArg_eq, optionArg_eq, hp, hq]

/-! ### Exact times -/

variable {σ : Type} {s : Server σ} {j : ℕ}

/-- A command with the number `n` gives its key the time that `n` stands for, or deletes it when that time is
over, or leaves everything as it is; a key with a relative time does not expire before it, and the time that is
fed is the same. -/
structure Exact (encode : Sds → σ) (config : Config) (s : Server σ) (j : ℕ) (c : Call) (n : ℤ) : Prop where
  runs : ∃ s' reply argv', execute encode config s j c = .ok (s', reply, argv') ∧ Follows s'
  stored : ∀ s' reply argv', execute encode config s j c = .ok (s', reply, argv') → reply = .cone ∨ reply = .ok →
    (∃ v, view s' j c.args.key = some (v, some (c.args.time config.mstime n)) ∧ argv' = c.argv) ∨
      view s' j c.args.key = none ∧ (∃ v key param, c.args = .expire v key param) ∧ c.args.time config.mstime n ≤ config.mstime ∧
        (argv' = [sds "UNLINK", c.args.key] ∨ argv' = [sds "DEL", c.args.key])
  refused : ∀ s' reply argv', execute encode config s j c = .ok (s', reply, argv') → reply ≠ .cone → reply ≠ .ok →
    argv' = c.argv ∧ (isExpired config (view s j c.args.key) = false → view s' = view s)
  early : ∀ s' reply argv', execute encode config s j c = .ok (s', reply, argv') → reply = .cone ∨ reply = .ok →
    c.args.relative = true → 0 < n → (view s' j c.args.key).isSome ∧ ∀ now ≤ c.args.time config.mstime n,
      keyIsExpired { config with mstime := now } s' j c.args.key = .ok false ∧
        ∃ s'', activeExpireCycleTryExpire config s' j c.args.key now = .ok s'' ∧ view s'' = view s'
  fed : ∃ name, name.map tolower = sds "pexpireat" ∧ Aof.translate ⟨config.mstime, j, c.argv⟩ =
    .ok (c.args.plain c.name ++ [[name, c.args.key, ll2string (c.args.time config.mstime n)]])

/-- A key does not expire before its time. -/
theorem not_early (config : Config) (h : Follows s) {key : Sds} {v : σ} {t now : ℤ} (hview : view s j key = some (v, some t)) (hnow : now ≤ t) :
    keyIsExpired { config with mstime := now } s j key = .ok false ∧
      ∃ s', activeExpireCycleTryExpire config s j key now = .ok s' ∧ view s' = view s := by
  constructor
  · rw [keyIsExpired_spec _ h, hview, isExpired]
    refine congrArg Except.ok ?_
    show (!decide (t < 0) && !config.loading && decide (t < now)) = false
    rw [decide_eq_false (Int.not_lt.mpr hnow), Bool.and_false]
  · obtain ⟨s', hrun, -, -, hview'⟩ := tryExpire_spec config h j key now
    refine ⟨s', hrun, ?_⟩
    rw [hview', after, hview]
    exact if_neg (Int.not_lt.mpr hnow)

/-- A relative time that is positive is not over. -/
theorem time_relative {a : Args} (now : ℤ) (hrelative : a.relative = true) (hpos : 0 < n) : now < a.time now n := by
  rw [Args.relative] at hrelative
  rw [Args.time]
  cases hrequest : a.request with
  | none =>
    rw [hrequest] at hrelative
    cases hrelative
  | some r =>
    obtain ⟨unit, relative, text⟩ := r
    rw [hrequest] at hrelative
    obtain rfl : relative = true := hrelative
    cases unit with
    | seconds =>
      dsimp only
      rw [if_pos rfl]
      omega
    | milliseconds =>
      dsimp only
      rw [if_pos rfl]
      omega

/-- **The times are exact where they fit in 64 bits**, unless a SET has EX and PX among its arguments; elsewhere
what is stored is not what is asked for. -/
theorem times_exact_iff (encode : Sds → σ) (config : Config) (h : Follows s) (j : ℕ) (c : Call) {n : ℤ} (hn : c.args.accepts = some n) :
    Exact encode config s j c n ↔ Fits (c.args.time config.mstime n) ∧ ¬c.args.mixed := by
  constructor
  · intro hexact
    obtain ⟨name, -, hfed⟩ := hexact.fed
    have hmixed : ¬c.args.mixed := by
      intro hmixed
      rw [translate_mixed c hmixed] at hfed
      cases hfed
    obtain ⟨name', -, hwrap⟩ := translate_spec c hn hmixed config.mstime j
    rw [hfed, Except.ok.injEq] at hwrap
    obtain ⟨-, hlast⟩ := List.append_inj' hwrap rfl
    have htime : ll2string (c.args.time config.mstime n) = ll2string (wrap (2 ^ 63) (c.args.time config.mstime n)) :=
      congrArg (fun l => (l.headD []).getD 2 []) hlast
    exact ⟨(wrap_eq_iff _).mp (Rdb.ll2string_injective htime).symm, hmixed⟩
  · rintro ⟨hfits, hmixed⟩
    obtain ⟨s', reply, argv', hrun, h', hexpire, hout⟩ := execute_spec encode config h j c hn
    have hwrap := (wrap_eq_iff _).mpr hfits
    rw [hwrap] at hout
    have hsame : ∀ {s1 reply1 argv1}, execute encode config s j c = .ok (s1, reply1, argv1) → s1 = s' ∧ reply1 = reply ∧ argv1 = argv' := by
      intro s1 reply1 argv1 hrun1
      cases hrun.symm.trans hrun1
      exact ⟨rfl, rfl, rfl⟩
    refine ⟨⟨s', reply, argv', hrun, h'⟩, ?_, ?_, ?_, ?_⟩
    · intro s1 reply1 argv1 hrun1 hdone
      obtain ⟨rfl, rfl, rfl⟩ := hsame hrun1
      cases hout with
      | nothing hcone hok => exact (hdone.elim hcone hok).elim
      | deleted hview hover hargv =>
        rw [checkAlreadyExpired, Bool.and_eq_true, Bool.and_eq_true] at hover
        exact Or.inr ⟨hview, hexpire rfl, of_decide_eq_true hover.1.1, hargv⟩
      | stored v _ hview hargv => exact Or.inl ⟨v, hview, hargv⟩
    · intro s1 reply1 argv1 hrun1 hcone hok
      obtain ⟨rfl, rfl, rfl⟩ := hsame hrun1
      cases hout with
      | nothing hcone hok hargv hlive => exact ⟨hargv, hlive⟩
      | deleted hview hover hargv => exact absurd rfl hcone
      | stored v hdone hview hargv => exact (hdone.elim hcone hok).elim
    · intro s1 reply1 argv1 hrun1 hdone hrelative hpos
      obtain ⟨rfl, rfl, rfl⟩ := hsame hrun1
      have hlater := time_relative config.mstime hrelative hpos
      cases hout with
      | nothing hcone hok => exact (hdone.elim hcone hok).elim
      | deleted hview hover hargv =>
        rw [checkAlreadyExpired, decide_eq_false (Int.not_le.mpr hlater)] at hover
        cases hover
      | stored v _ hview hargv => exact ⟨by rw [hview]; rfl, fun now hnow => not_early config h' hview hnow⟩
    · obtain ⟨name, hname, hfed⟩ := translate_spec c hn hmixed config.mstime j
      rw [hwrap] at hfed
      exact ⟨name, hname, hfed⟩

/-- A key that lives for a minute, at a clock of 1000. -/
theorem times_exact_minute : Exact (fun _ => 0) master started 0 ⟨.setex .seconds [107] (sds "60") [118], sds "SETEX", by decide⟩ 60 ↔
    Fits 61000 ∧ ¬(Args.setex .seconds [107] (sds "60") [118]).mixed :=
  times_exact_iff (fun _ => 0) master follows_started 0 ⟨.setex .seconds [107] (sds "60") [118], sds "SETEX", by decide⟩ (by decide)

/-- The longest time of all deletes the key at once. -/
theorem expire_wraps :
    ∃ s s', setKey master started 0 [107] 7 = .ok s ∧ Follows s ∧ view s 0 [107] = some (7, none) ∧
      execute (fun _ => 0) master s 0 ⟨.expire .expire [107] (sds "9223372036854775807"), sds "EXPIRE", by decide⟩ =
        .ok (s', .cone, [sds "DEL", [107]]) ∧
      view s' 0 [107] = none ∧
      (Args.expire .expire [107] (sds "9223372036854775807")).accepts = some 9223372036854775807 ∧
      master.mstime < (Args.expire .expire [107] (sds "9223372036854775807")).time master.mstime 9223372036854775807 ∧
      ¬Exact (fun _ => 0) master s 0 ⟨.expire .expire [107] (sds "9223372036854775807"), sds "EXPIRE", by decide⟩ 9223372036854775807 := by
  obtain ⟨s, hset, h, -, hview⟩ := setKey_spec master follows_started 0 [107] 7
  have hthere : view s 0 [107] = some (7, none) := by rw [hview, put_self]
  obtain ⟨s1, hlookup, h1, -, hview1⟩ := lookupKeyWrite_spec master h 0 [107]
  have hlive : isExpired master (view s 0 [107]) = false := by rw [hthere]; rfl
  have hthere1 : view s1 0 [107] = some (7, none) := by rw [hview1, looked_live hlive, hthere]
  obtain ⟨s', hdelete, -, hview'⟩ := dbDelete_there false h1 (by rw [hthere1]; exact Option.some_ne_none _)
  have hgone : view s' 0 [107] = none := by rw [hview', put_self]
  have hnum : Util.string2ll (sds "9223372036854775807") = some 9223372036854775807 := by decide
  have hrun : execute (fun _ => 0) master s 0 ⟨.expire .expire [107] (sds "9223372036854775807"), sds "EXPIRE", by decide⟩ =
      .ok (s', .cone, [sds "DEL", [107]]) := by
    show expireGenericCommand master s 0 [sds "EXPIRE", [107], sds "9223372036854775807"] 1000 .seconds = _
    rw [expireGenericCommand]
    dsimp only
    rw [show [sds "EXPIRE", [107], sds "9223372036854775807"].getD 2 [] = sds "9223372036854775807" from rfl,
      show [sds "EXPIRE", [107], sds "9223372036854775807"].getD 1 [] = [107] from rfl, hnum]
    dsimp only
    rw [hlookup, hthere1]
    dsimp only [Except.bind]
    rw [if_neg (by decide), if_pos (by decide)]
    show (dbDelete false s1 0 [107]).bind _ = _
    rw [hdelete]
    rfl
  refine ⟨s, s', hset, h, hthere, hrun, hgone, hnum, by decide, fun hexact => ?_⟩
  rcases hexact.stored s' .cone _ hrun (Or.inl rfl) with ⟨v, hv, -⟩ | ⟨-, -, hover, -⟩
  · exact Option.some_ne_none _ (hv.symm.trans hgone)
  · exact absurd hover (by decide)

end RedisZk.Expires
