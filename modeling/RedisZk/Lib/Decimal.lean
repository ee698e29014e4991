/-
# Numbers in decimal

The text of a natural number, as characters `0` to `9`, the most significant first, and
the value of a text that is read from its first character on. Reading the text of a
number gives the number (`value_text`); the text has no zero at its start (`text_head`)
and nothing but digits in it (`text_digit`), and every such text is one (`text_value`).

Key definitions: `text`, `value`.
Key theorems: `value_text`, `text_value`, `text_digit`, `text_head`.
-/
import RedisZk.Lib.Endian

namespace Decimal

abbrev Char8 := Fin 256

/-- The digits of a number, as characters; of 0 there are none. -/
def text (n : ℕ) : List Char8 := (Nat.digits 10 n).reverse.map fun d => Fin.ofNat 256 (48 + d)

/-- A character is a digit. -/
def Digit (c : Char8) : Prop := 48 ≤ c.val ∧ c.val ≤ 57

instance (c : Char8) : Decidable (Digit c) := inferInstanceAs (Decidable (48 ≤ c.val ∧ c.val ≤ 57))

/-- The value of the digits `p` after a text of the value `v`. -/
def value (v : ℕ) (p : List Char8) : ℕ := p.foldl (fun v c => v * 10 + (c.val - 48)) v

@[simp]
theorem value_nil (v : ℕ) : value v [] = v := rfl

@[simp]
theorem value_cons (v : ℕ) (c : Char8) (p : List Char8) : value v (c :: p) = value (v * 10 + (c.val - 48)) p := by
  simp only [value, List.foldl_cons]

theorem le_value (p : List Char8) : ∀ v, v ≤ value v p := by
  induction p with
  | nil => exact fun v => le_rfl
  | cons c p ih =>
    intro v
    have hc := ih (v * 10 + (c.val - 48))
    rw [value_cons]
    omega

theorem digit_val {d : ℕ} (h : d < 10) : (Fin.ofNat 256 (48 + d)).val = 48 + d := by
  rw [Fin.val_ofNat]
  omega

theorem text_digit {n : ℕ} {c : Char8} (h : c ∈ text n) : Digit c := by
  obtain ⟨d, hd, rfl⟩ := List.mem_map.mp h
  have hlt := Nat.digits_lt_base (b := 10) (by omega) (List.mem_reverse.mp hd)
  rw [Digit, digit_val hlt]
  omega

theorem value_text (n : ℕ) : value 0 (text n) = n := by
  have hfold : ∀ (l : List ℕ), (∀ d ∈ l, d < 10) →
      value 0 (l.reverse.map fun d => Fin.ofNat 256 (48 + d)) = Nat.ofDigits 10 l := by
    intro l
    induction l with
    | nil => exact fun _ => rfl
    | cons d l ih =>
      intro h
      have hd := h d List.mem_cons_self
      have hl := ih fun d hd => h d (List.mem_cons_of_mem _ hd)
      rw [value] at hl ⊢
      rw [List.reverse_cons, List.map_append, List.foldl_append, hl, List.map_singleton, List.foldl_cons, List.foldl_nil,
        digit_val hd, Nat.ofDigits_cons]
      omega
  rw [text, hfold _ fun d hd => Nat.digits_lt_base (by omega) hd, Nat.ofDigits_digits]

theorem text_ne_nil {n : ℕ} (h : n ≠ 0) : text n ≠ [] := by
  simpa [text, Nat.digits_ne_nil_iff_ne_zero] using h

/-- The first digit is not 0. -/
theorem text_head {n : ℕ} {c : Char8} {p : List Char8} (h : text n = c :: p) : 49 ≤ c.val ∧ c.val ≤ 57 := by
  have hn : n ≠ 0 := by
    rintro rfl
    simp [text] at h
  have hdigit := text_digit (n := n) (c := c) (by rw [h]; exact List.mem_cons_self)
  obtain ⟨h48, h57⟩ := hdigit
  have hne := Nat.getLast_digit_ne_zero 10 hn
  have hlast : (text n).head? = ((Nat.digits 10 n).getLast?).map fun d => Fin.ofNat 256 (48 + d) := by
    rw [text, List.head?_map, List.head?_reverse]
  rw [h, List.head?_cons, List.getLast?_eq_some_getLast (Nat.digits_ne_nil_iff_ne_zero.mpr hn), Option.map_some,
    Option.some.injEq] at hlast
  have hlt := Nat.digits_lt_base (b := 10) (m := n) (by omega) (List.getLast_mem (Nat.digits_ne_nil_iff_ne_zero.mpr hn))
  rw [hlast, digit_val hlt]
  omega

/-- A last digit is written last. -/
theorem text_mul_add {m d : ℕ} (hm : m ≠ 0) (hd : d < 10) : text (m * 10 + d) = text m ++ [Fin.ofNat 256 (48 + d)] := by
  have hdigits : Nat.digits 10 (d + 10 * m) = d :: Nat.digits 10 m := Nat.digits_add 10 (by omega) d m hd (.inr hm)
  rw [text, show m * 10 + d = d + 10 * m by omega, hdigits, List.reverse_cons, List.map_append, List.map_singleton, text]

/-- The number of a text is written as the text, if that does not begin with 0. -/
theorem text_value {c : Char8} {p : List Char8} (hc : 49 ≤ c.val ∧ c.val ≤ 57) (hp : ∀ d ∈ p, Digit d) :
    text (value (c.val - 48) p) = c :: p := by
  induction p using List.reverseRecOn with
  | nil =>
    have hdigits : Nat.digits 10 (c.val - 48) = [c.val - 48] := Nat.digits_of_lt 10 _ (by omega) (by omega)
    rw [value_nil, text, hdigits]
    show [Fin.ofNat 256 (48 + (c.val - 48))] = [c]
    congr 1
    apply Fin.ext
    rw [digit_val (by omega)]
    omega
  | append_singleton p d ih =>
    have hd := hp d (by simp)
    rw [Digit] at hd
    have hpos : value (c.val - 48) p ≠ 0 := by
      have := le_value p (c.val - 48)
      omega
    have hval : value (c.val - 48) (p ++ [d]) = value (c.val - 48) p * 10 + (d.val - 48) := by
      rw [value, List.foldl_append, List.foldl_cons, List.foldl_nil]
      rfl
    rw [hval, text_mul_add hpos (by omega), ih fun x hx => hp x (by simp [hx]), List.cons_append]
    congr 2
    congr 1
    apply Fin.ext
    rw [digit_val (by omega)]
    omega

end Decimal
