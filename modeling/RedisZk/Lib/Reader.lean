/-
# Readers

A reader takes some symbols from the front of a list, or fails. It reads `s` as `a` if it
takes just `s` and gives `a`, whatever is behind `s`. Readers that follow each other read
what their parts read, and so does a loop that reads a row of items. What a writer writes is
read back if the reader reads it as the value written.

Key definitions: `Reader`, `Reads`, `Reader.times`.
Key theorems: `Reads.bind`, `Reads.times`, `Reads.times_inv`.
-/
import Mathlib

namespace Reading

variable {σ ε α β γ : Type}

abbrev Reader (σ ε α : Type) := StateT (List σ) (Except ε) α

/-- The reader takes just `s`, and gives `a`. -/
def Reads (r : Reader σ ε α) (s : List σ) (a : α) : Prop := ∀ v, r (s ++ v) = .ok (a, v)

variable {r : Reader σ ε α} {f : α → Reader σ ε β} {s t : List σ} {a : α} {b : β}

theorem Reads.pure (a : α) : Reads (pure a : Reader σ ε α) [] a := fun _ => rfl

theorem Reads.bind (hr : Reads r s a) (hf : Reads (f a) t b) : Reads (r >>= f) (s ++ t) b := by
  intro v
  rw [List.append_assoc]
  show (r (s ++ (t ++ v)) >>= fun x => f x.1 x.2) = .ok (b, v)
  rw [hr]
  exact hf v

/-- A reader that takes nothing. -/
theorem Reads.bind_nil (hr : Reads r [] a) (hf : Reads (f a) t b) : Reads (r >>= f) t b := hr.bind hf

theorem Reads.bind_pure {g : α → β} (hr : Reads r s a) : Reads (r >>= fun a => Pure.pure (g a)) s (g a) := by
  have h := hr.bind (f := fun a => (Pure.pure (g a) : Reader σ ε β)) (Reads.pure (g a))
  rw [List.append_nil] at h
  exact h

/-- What is read and then changed, without a failure. -/
theorem Reads.then_pure (hr : Reads r s a) (hf : f a = Pure.pure b) : Reads (r >>= f) s b := by
  have h := hr.bind (hf ▸ Reads.pure b)
  rw [List.append_nil] at h
  exact h

/-- A reader that fails is followed by nothing. -/
theorem bind_error {v : List σ} {e : ε} (h : r v = .error e) : (r >>= f) v = .error e := by
  show (r v >>= fun x => f x.1 x.2) = .error e
  rw [h]
  rfl

/-- What follows a part that is read. -/
theorem Reads.bind_eq (hr : Reads r s a) (v : List σ) : (r >>= f) (s ++ v) = f a v := by
  show (r (s ++ v) >>= fun x => f x.1 x.2) = f a v
  rw [hr]
  rfl

/-! ### Loops -/

namespace Reader

/-- The body, a number of times. -/
def times (body : β → Reader σ ε β) : ℕ → β → Reader σ ε β
  | 0, b => pure b
  | n + 1, b => do
    let b ← body b
    times body n b

end Reader

/-- A row of items is read one by one, as long as an invariant lasts, which then holds at the end. -/
theorem Reads.times_inv {body : β → Reader σ ε β} {write : γ → List σ} (P : β → List γ → Prop)
    (hstep : ∀ b x xs, P b (x :: xs) → ∃ b', Reads (body b) (write x) b' ∧ P b' xs) :
    ∀ (xs : List γ) (b : β), P b xs → ∃ b', Reads (Reader.times body xs.length b) (xs.flatMap write) b' ∧ P b' [] := by
  intro xs
  induction xs with
  | nil => exact fun b hb => ⟨b, .pure b, hb⟩
  | cons x xs ih =>
    intro b hb
    obtain ⟨b1, hx, hp⟩ := hstep b x xs hb
    obtain ⟨b2, hxs, hend⟩ := ih b1 hp
    rw [List.flatMap_cons]
    exact ⟨b2, hx.bind hxs, hend⟩

/-- A row of items of which each has its effect. -/
theorem Reads.times {body : β → Reader σ ε β} {write : γ → List σ} {step : β → γ → β} {xs : List γ}
    (hstep : ∀ b, ∀ x ∈ xs, Reads (body b) (write x) (step b x)) (b : β) :
    Reads (Reader.times body xs.length b) (xs.flatMap write) (xs.foldl step b) := by
  obtain ⟨b', hr, -, hb'⟩ : ∃ b', Reads (Reader.times body xs.length b) (xs.flatMap write) b' ∧
      (∀ y ∈ ([] : List γ), y ∈ xs) ∧ [].foldl step b' = xs.foldl step b := Reads.times_inv
    (fun b' ys => (∀ y ∈ ys, y ∈ xs) ∧ ys.foldl step b' = xs.foldl step b)
    (fun b' x ys h => ⟨step b' x, hstep b' x (h.1 x List.mem_cons_self),
      fun y hy => h.1 y (List.mem_cons_of_mem _ hy), h.2⟩) xs b ⟨fun _ hy => hy, rfl⟩
  rw [← hb']
  exact hr

end Reading
