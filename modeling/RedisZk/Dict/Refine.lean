/-
# A dict is a finite map

Any sequence of operations on a dict gives what the same operations give on a
finite map, whatever the tables are doing meanwhile: the entries of the two
tables hold the map, each key once and each entry in its bucket, and no
operation fails. The sequences are those in which the tables fit: a call of
`dictExpand` asks for at most `2^60` buckets (the next power of two and its bytes
are computed in 64 bits), and a key is added to fewer than `2^59` entries, which
is all that 64 bits of addresses have room for.

Key definitions: `DictOp`, `runOp`, `specOp`, `Fits`.
Key theorems: `dict_refines_map`.
-/
import RedisZk.Dict.Steps

namespace RedisZk.Hash

open Stepwise (Within Run Steps)
open Assoc (Holds)

variable {κ ν : Type} {t : DictType κ} {w : Prop} {d d' : Dict κ ν} {m : κ → Option ν}

/-! ### Operations -/

inductive DictOp (κ ν : Type)
  | add (key : κ) (val : ν)
  | replace (key : κ) (val : ν)
  | delete (key : κ)
  | unlink (key : κ)
  | find (key : κ)
  | expand (size : ℕ)
  | resize
  | rehash (n : ℕ)
  | enableResize
  | disableResize
  /-- Safe iterators begin or end. -/
  | iterate (iterators : ℕ)

/-- What an operation returns: a code, or the value of an entry. -/
inductive DictOut (ν : Type)
  | done
  | code (ok : Bool)
  | value (v : Option ν)

def runOp (t : DictType κ) (d : Dict κ ν) : DictOp κ ν → Except DictAbort (Dict κ ν × DictOut ν)
  | .add key val => do
    let (d, ok) ← dictAdd t d key val
    .ok (d, .code ok)
  | .replace key val => do
    let (d, new) ← dictReplace t d key val
    .ok (d, .code new)
  | .delete key => do
    let (d, ok) ← dictDelete t d key
    .ok (d, .code ok)
  | .unlink key => do
    let (d, e) ← dictUnlink t d key
    .ok (d, .value (e.map Prod.snd))
  | .find key => do
    let (d, e) ← dictFind t d key
    .ok (d, .value (e.map Prod.snd))
  | .expand size => .ok ((dictExpand d size).1, .done)
  | .resize => .ok ((dictResize d).1, .done)
  | .rehash n => do
    let (d, _) ← dictRehash t d n
    .ok (d, .done)
  | .enableResize => .ok ({ d with canResize := true }, .done)
  | .disableResize => .ok ({ d with canResize := false }, .done)
  | .iterate n => .ok ({ d with iterators := n }, .done)

/-- The same operation on a map. -/
def specOp (t : DictType κ) (m : κ → Option ν) : DictOp κ ν → (κ → Option ν) × DictOut ν
  | .add key val => match m key with
    | none => (Assoc.insert t.sameKey m key val, .code true)
    | some _ => (m, .code false)
  | .replace key val => (Assoc.insert t.sameKey m key val, .code (m key).isNone)
  | .delete key => (Assoc.erase t.sameKey m key, .code (m key).isSome)
  | .unlink key => (Assoc.erase t.sameKey m key, .value (m key))
  | .find key => (m, .value (m key))
  | _ => (m, .done)

/-- The tables the operation may need fit. -/
def Fits (d : Dict κ ν) : DictOp κ ν → Prop
  | .expand size => size ≤ 2 ^ 60
  | .add .. => dictSize d < 2 ^ 59
  | .replace .. => dictSize d < 2 ^ 59
  | _ => True

instance (d : Dict κ ν) : ∀ op, Decidable (Fits d op)
  | .expand size => inferInstanceAs (Decidable (size ≤ 2 ^ 60))
  | .add .. => inferInstanceAs (Decidable (dictSize d < 2 ^ 59))
  | .replace .. => inferInstanceAs (Decidable (dictSize d < 2 ^ 59))
  | .delete _ | .unlink _ | .find _ | .resize | .rehash _ | .enableResize | .disableResize | .iterate _ => .isTrue trivial

/-! ### One operation -/

/-- From `d` to `d'` the map changes as by `f`, and `out` is what `f` returns. -/
def Does {β : Type} (t : DictType κ) (w : Prop) (d d' : Dict κ ν) (out : β)
    (f : (κ → Option ν) → (κ → Option ν) × β) : Prop :=
  DictInv t w d' ∧ (w → ∀ m, Holds t.sameKey (entries d) m → Holds t.sameKey (entries d') (f m).1 ∧ out = (f m).2)

theorem Kept.does {β : Type} (h : Kept t w d d') (out : β) : Does t w d d' out fun m => (m, out) :=
  ⟨h.inv, fun _ _ hm => ⟨hm.perm h.entries.symm, rfl⟩⟩

theorem Points.mem {ref : EntryRef} {key : κ} (h : Points d key t ref) :
    ∃ e ∈ entries d, t.keyCompare key e.1 = true := by
  obtain ⟨c, e, hc, he, hkey⟩ := h
  refine ⟨e, ?_, hkey⟩
  have hin := Assoc.mem_flatten_iff.mpr ⟨ref.idx, c, hc, List.mem_of_getElem? he⟩
  split at hin
  · exact List.mem_append_right _ hin
  · exact List.mem_append_left _ hin

theorem dictAdd_does (h : DictInv t w d) (hfit : w → dictSize d < 2 ^ 59) (key : κ) (val : ν) :
    Within (fun r => Does t w d r.1 r.2 fun m => match m key with
      | none => (Assoc.insert t.sameKey m key val, true)
      | some _ => (m, false)) (fun _ => ¬ w) (dictAdd t d key val) := by
  unfold dictAdd
  refine Within.bind (dictAddRaw_spec h hfit key val) ?_
  rintro ⟨d1, res⟩ ⟨hi, hres⟩
  refine ⟨hi, fun hw m hm => ?_⟩
  cases res with
  | added =>
    have hno := hm.eq_none hres.1
    dsimp only
    rw [hno]
    exact ⟨(hm.cons hres.1).perm hres.2.symm, rfl⟩
  | existing ref =>
    obtain ⟨e, he, hkey⟩ := hres.2.mem
    have hsome := hm.eq_some (hres.1.mem_iff.mp he) hkey
    dsimp only
    rw [hsome]
    exact ⟨hm.perm hres.1.symm, rfl⟩
  | failed => exact absurd hw hres

theorem dictReplace_does (h : DictInv t w d) (hfit : w → dictSize d < 2 ^ 59) (key : κ) (val : ν) :
    Within (fun r => Does t w d r.1 r.2 fun m => (Assoc.insert t.sameKey m key val, (m key).isNone)) (fun _ => ¬ w)
      (dictReplace t d key val) := by
  unfold dictReplace
  refine Within.bind (dictAddRaw_spec h hfit key val) ?_
  rintro ⟨d1, res⟩ ⟨hi, hres⟩
  cases res with
  | added =>
    refine ⟨hi, fun _ m hm => ⟨(hm.cons hres.1).perm hres.2.symm, ?_⟩⟩
    dsimp only
    rw [hm.eq_none hres.1]
    rfl
  | existing ref =>
    obtain ⟨hi', e, r, hkey, hp, hp'⟩ := dictSetVal_spec hi hres.2 val
    refine ⟨hi', fun _ m hm => ?_⟩
    have hm1 := (hm.perm hres.1.symm).perm hp
    dsimp only
    rw [Assoc.insert_congr t.sameKey hkey, hm1.eq_some List.mem_cons_self hkey]
    exact ⟨(hm1.update val).perm hp'.symm, rfl⟩
  | failed => exact hres

theorem erase_absent {key : κ} (hm : Holds t.sameKey (entries d) m) (hno : m key = none) :
    Assoc.erase t.sameKey m key = m := by
  funext a
  rw [Assoc.erase]
  split
  · rename_i ha
    rw [eq_comm, Option.eq_none_iff_forall_ne_some]
    intro v hv
    obtain ⟨e, he, hae, -⟩ := (hm.binds a v).mp hv
    rw [hm.eq_some he (t.sameKey.trans (t.sameKey.symm ha) hae)] at hno
    cases hno
  · rfl

theorem dictGenericDelete_does (h : DictInv t w d) (key : κ) :
    Within (fun r => Does t w d r.1 (r.2.map Prod.snd) fun m => (Assoc.erase t.sameKey m key, m key)) (fun _ => ¬ w)
      (dictGenericDelete t d key) := by
  refine Within.mono (dictGenericDelete_spec h key) ?_ fun _ => id
  rintro ⟨d1, _ | e⟩ ⟨hi, hr⟩
  · refine ⟨hi, fun _ m hm => ?_⟩
    have hno := hm.eq_none hr.2
    dsimp only
    rw [erase_absent hm hno, hno]
    exact ⟨hm.perm hr.1.symm, rfl⟩
  · obtain ⟨hkey, hp⟩ := hr
    refine ⟨hi, fun _ m hm => ?_⟩
    have hm1 := hm.perm hp
    dsimp only
    rw [Assoc.erase_congr t.sameKey hkey, hm1.eq_some List.mem_cons_self hkey]
    exact ⟨hm1.tail, rfl⟩

theorem dictDelete_does (h : DictInv t w d) (key : κ) :
    Within (fun r => Does t w d r.1 r.2 fun m => (Assoc.erase t.sameKey m key, (m key).isSome)) (fun _ => ¬ w)
      (dictDelete t d key) := by
  unfold dictDelete
  refine Within.bind (dictGenericDelete_does h key) ?_
  rintro ⟨d1, e⟩ ⟨hi, hr⟩
  refine ⟨hi, fun hw m hm => ⟨(hr hw m hm).1, ?_⟩⟩
  have hv := congrArg Option.isSome (hr hw m hm).2
  rw [Option.isSome_map] at hv
  exact hv

theorem dictFind_does (h : DictInv t w d) (key : κ) :
    Within (fun r => Does t w d r.1 (r.2.map Prod.snd) fun m => (m, m key)) (fun _ => ¬ w) (dictFind t d key) := by
  refine Within.mono (dictFind_spec h key) ?_ fun _ => id
  rintro ⟨d1, _ | e⟩ ⟨hk, hr⟩
  · exact ⟨hk.inv, fun _ m hm => ⟨hm.perm hk.entries.symm, (hm.eq_none hr).symm⟩⟩
  · exact ⟨hk.inv, fun _ m hm => ⟨hm.perm hk.entries.symm, (hm.eq_some hr.1 hr.2).symm⟩⟩

/-- A flag or a count of the dict changes. -/
theorem DictInv.frame (h : DictInv t w d) (n : ℕ) (b : Bool) : Kept t w d { d with iterators := n, canResize := b } :=
  ⟨⟨h.ht0, h.ht1, h.idle, h.active⟩, .refl _⟩

/-- Each operation does and returns what it does and returns on the map. -/
theorem runOp_does (h : DictInv t w d) (op : DictOp κ ν) (hfit : w → Fits d op) :
    Within (fun r => Does t w d r.1 r.2 fun m => specOp t m op) (fun _ => ¬ w) (runOp t d op) := by
  cases op with
  | add key val =>
    unfold runOp
    refine Within.bind (dictAdd_does h hfit key val) ?_
    rintro ⟨d1, ok⟩ ⟨hi, hr⟩
    refine ⟨hi, fun hw m hm => ?_⟩
    obtain ⟨h1, h2⟩ := hr hw m hm
    unfold specOp
    dsimp only at h1 h2 ⊢
    cases hk : m key with
    | none =>
      rw [hk] at h1 h2
      rw [h2]
      exact ⟨h1, rfl⟩
    | some v =>
      rw [hk] at h1 h2
      rw [h2]
      exact ⟨h1, rfl⟩
  | replace key val =>
    unfold runOp
    refine Within.bind (dictReplace_does h hfit key val) ?_
    rintro ⟨d1, new⟩ ⟨hi, hr⟩
    exact ⟨hi, fun hw m hm => ⟨(hr hw m hm).1, congrArg DictOut.code (hr hw m hm).2⟩⟩
  | delete key =>
    unfold runOp
    refine Within.bind (dictDelete_does h key) ?_
    rintro ⟨d1, ok⟩ ⟨hi, hr⟩
    exact ⟨hi, fun hw m hm => ⟨(hr hw m hm).1, congrArg DictOut.code (hr hw m hm).2⟩⟩
  | unlink key =>
    unfold runOp dictUnlink
    refine Within.bind (dictGenericDelete_does h key) ?_
    rintro ⟨d1, e⟩ ⟨hi, hr⟩
    exact ⟨hi, fun hw m hm => ⟨(hr hw m hm).1, congrArg DictOut.value (hr hw m hm).2⟩⟩
  | find key =>
    unfold runOp
    refine Within.bind (dictFind_does h key) ?_
    rintro ⟨d1, e⟩ ⟨hi, hr⟩
    exact ⟨hi, fun hw m hm => ⟨(hr hw m hm).1, congrArg DictOut.value (hr hw m hm).2⟩⟩
  | expand size => exact (dictExpand_kept h hfit).1.does _
  | resize => exact (dictResize_kept h).does _
  | rehash n =>
    unfold runOp
    refine Within.bind (dictRehash_kept h n) ?_
    rintro ⟨d1, more⟩ hk
    exact hk.does _
  | enableResize => exact (h.frame d.iterators true).does _
  | disableResize => exact (h.frame d.iterators false).does _
  | iterate n => exact (h.frame n d.canResize).does _

/-! ### Runs -/

/-- A dict beside the map it should be. -/
abbrev Refinement (κ ν : Type) := Dict κ ν × (κ → Option ν)

def nextOp (t : DictType κ) (s : Refinement κ ν) (op : DictOp κ ν) : Option (Refinement κ ν) :=
  match runOp t s.1 op with
  | .ok (d, _) => some (d, (specOp t s.2 op).1)
  | .error _ => none

/-- The states of a dict made by `dictCreate` and used by operations that fit. -/
abbrev FittingRun (t : DictType κ) : Refinement κ ν → Prop :=
  Run (fun s => s = ({}, fun _ => none)) (Steps (nextOp t) fun s op _ => Fits s.1 op)

theorem FittingRun.holds {s : Refinement κ ν} (h : FittingRun t s) :
    DictInv t True s.1 ∧ Holds t.sameKey (entries s.1) s.2 := by
  refine Run.invariant (I := fun s => DictInv t True s.1 ∧ Holds t.sameKey (entries s.1) s.2) h ?_ ?_
  · rintro s rfl
    exact ⟨.empty, .nil⟩
  · rintro ⟨d, m⟩ op s' - ⟨hi, hm⟩ ⟨hn, hfit⟩
    have hdoes := runOp_does hi op fun _ => hfit
    unfold nextOp at hn
    dsimp only at hn hi hm
    cases hr : runOp t d op with
    | error a =>
      rw [hr] at hn
      cases hn
    | ok r =>
      rw [hr] at hn hdoes
      obtain ⟨hi', hspec⟩ := hdoes
      rw [← Option.some.inj hn]
      exact ⟨hi', (hspec trivial m hm).1⟩

/-- **A dict is a finite map.** In every state that operations which fit reach: the entries hold
the map, so that no key is lost or there twice; `dictSize` is their number; each is
in the bucket of its hash; the buckets below `rehashidx` are empty; and every
operation that fits returns, without failing, what it returns on the map. -/
theorem dict_refines_map {s : Refinement κ ν} (h : FittingRun t s) :
    Holds t.sameKey (entries s.1) s.2 ∧ dictSize s.1 = (entries s.1).length ∧
    (∀ ht ∈ [s.1.ht0, s.1.ht1], ∀ (i : ℕ) c, ht.table[i]? = some c → ∀ e ∈ c,
      idxOf (t.hashFunction e.1) ht.sizemask = i) ∧
    (∀ i, s.1.rehashidx = some i → ∀ j < i, s.1.ht0.table[j]? = some []) ∧
    ∀ op, Fits s.1 op → ∃ d', runOp t s.1 op = .ok (d', (specOp t s.2 op).2) := by
  obtain ⟨hi, hm⟩ := h.holds
  refine ⟨hm, hi.dictSize, fun ht hht => ?_, fun i hidx => (hi.active i hidx).2.2, fun op hfit => ?_⟩
  · rcases List.mem_pair.mp hht with rfl | rfl
    · exact hi.ht0.placed
    · exact hi.ht1.placed
  · have hdoes := runOp_does hi op fun _ => hfit
    cases hr : runOp t s.1 op with
    | error a =>
      rw [hr] at hdoes
      exact absurd trivial hdoes
    | ok r =>
      rw [hr] at hdoes
      obtain ⟨d', out⟩ := r
      have hout := (hdoes.2 trivial s.2 hm).2
      dsimp only at hout
      exact ⟨d', by rw [hout]⟩

/-- Naturals as keys, hashed to their 64 low bits. -/
def natDict : DictType ℕ where
  hashFunction k := BitVec.ofNat 64 k
  keyCompare a b := decide (a = b)
  refl a := by simp
  symm a b h := by simpa [eq_comm] using h
  trans a b c h h' := by simp_all
  hash_eq a b h := by rw [of_decide_eq_true h]

/-- Two keys added, and the table expanded. -/
theorem dict_refines_map_sample : ∃ s : Refinement ℕ ℕ, FittingRun natDict s ∧
    ∃ d', runOp natDict s.1 (.find 5) = .ok (d', .value (some 50)) := by
  have hstart : FittingRun natDict (({}, fun _ => none) : Refinement ℕ ℕ) := .start rfl
  obtain ⟨s, hrun, htest⟩ := Run.replay (fun _ _ _ => of_decide_eq_true) [.add 1 10, .add 5 50, .expand 8] hstart
    (show Stepwise.replay (nextOp natDict) (fun s op _ => decide (Fits s.1 op)) (fun s => decide (s.2 5 = some 50))
      ({}, fun _ => none) _ = true by decide)
  obtain ⟨d', hd⟩ := (dict_refines_map hrun).2.2.2.2 (.find 5) trivial
  refine ⟨s, hrun, d', ?_⟩
  rw [hd, specOp, of_decide_eq_true htest]

/-- A table of `2^61` buckets has `2^64` bytes, which is none, and the first key added is
outside it. -/
theorem dictExpand_overflows : ∃ d : Dict ℕ ℕ, runOp natDict {} (.expand (2 ^ 61)) = .ok (d, .done) ∧
    runOp natDict d (.add 1 10) = .error .outOfRange :=
  ⟨_, rfl, rfl⟩

end RedisZk.Hash
