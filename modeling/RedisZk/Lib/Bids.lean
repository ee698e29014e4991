/-
# Bids: the greatest rank takes what it asks for

A thing has an owner of some level, and bids of different ranks come one after
the other: a bid takes the things it wants from owners of a lower level, and the
bidder's level is the rank of its bid from then on. If every bidder bids once,
no lower than its level, and for all it owns, then the owner of a thing in the
end depends on the set of bids only (`Settles`), not on their order.

Key definitions: `Bid`, `Settles`.
Key theorems: `Settles.unique`, `Settles.snoc`.
-/
import Mathlib

namespace Bids

variable {N S : Type*}

structure Bid (N S : Type*) where
  node : N
  rank : ℕ
  wants : S → Bool

/-- `o` owns `s` after the bids: the one of the greatest rank that wants it, if it beats the
level of the first owner. -/
def Settles (owner : Option N) (level : N → ℕ) (bids : List (Bid N S)) (s : S) (o : Option N) : Prop :=
  ((∀ b ∈ bids, b.wants s = false) ∧ o = owner) ∨
  ∃ b ∈ bids, b.wants s = true ∧ (∀ b' ∈ bids, b'.wants s = true → b'.rank ≤ b.rank) ∧
    (((∀ n, owner = some n → level n < b.rank) ∧ o = some b.node) ∨
      ∃ n, owner = some n ∧ b.rank ≤ level n ∧ o = owner)

variable {owner cur o o' : Option N} {level level' : N → ℕ} {bids bids' done : List (Bid N S)} {b : Bid N S} {s : S}

/-- The order of the bids does not matter. -/
theorem Settles.congr (h : Settles owner level bids s o) (hmem : ∀ b, b ∈ bids ↔ b ∈ bids') :
    Settles owner level bids' s o := by
  simpa only [Settles, hmem] using h

theorem Settles.unique (hrank : ∀ b ∈ bids, ∀ b' ∈ bids, b.rank = b'.rank → b = b')
    (h : Settles owner level bids s o) (h' : Settles owner level bids s o') : o = o' := by
  rcases h with ⟨hno, ho⟩ | ⟨b, hb, hw, hmax, hb'⟩
  · rcases h' with ⟨-, ho'⟩ | ⟨c, hc, hwc, -⟩
    · rw [ho, ho']
    · rw [hno c hc] at hwc
      cases hwc
  · rcases h' with ⟨hno, -⟩ | ⟨c, hc, hwc, hmaxc, hc'⟩
    · rw [hno b hb] at hw
      cases hw
    · have hbc : b = c := hrank b hb c hc (Nat.le_antisymm (hmaxc b hb hw) (hmax c hc hwc))
      subst hbc
      rcases hb' with ⟨hlt, ho⟩ | ⟨n, hn, hle, ho⟩
      · rcases hc' with ⟨-, ho'⟩ | ⟨n, hn, hle, -⟩
        · rw [ho, ho']
        · exact absurd (hlt n hn) (Nat.not_lt.mpr hle)
      · rcases hc' with ⟨hlt, -⟩ | ⟨-, -, -, ho'⟩
        · exact absurd (hlt n hn) (Nat.not_lt.mpr hle)
        · rw [ho, ho']

/-- The circumstances of one more bid: every bidder bids once, no lower than its level and for
all it owns, and the ranks differ. -/
structure Fair (owner : S → Option N) (level : N → ℕ) (bids : List (Bid N S)) : Prop where
  once : ∀ b ∈ bids, ∀ b' ∈ bids, b.node = b'.node → b = b'
  rank : ∀ b ∈ bids, ∀ b' ∈ bids, b.rank = b'.rank → b = b'
  level : ∀ b ∈ bids, level b.node ≤ b.rank
  wants : ∀ b ∈ bids, ∀ s, owner s = some b.node → b.wants s = true

theorem Fair.congr {owner : S → Option N} (h : Fair owner level bids) (hmem : ∀ b, b ∈ bids' → b ∈ bids) :
    Fair owner level bids' :=
  ⟨fun b hb b' hb' => h.once b (hmem b hb) b' (hmem b' hb'), fun b hb b' hb' => h.rank b (hmem b hb) b' (hmem b' hb'),
    fun b hb => h.level b (hmem b hb), fun b hb => h.wants b (hmem b hb)⟩

/-- The level of a node after some bids. -/
def LevelAfter (level level' : N → ℕ) (bids : List (Bid N S)) : Prop :=
  (∀ b ∈ bids, level' b.node = b.rank) ∧ ∀ n, (∀ b ∈ bids, b.node ≠ n) → level' n = level n

/-- The first owner, as long as it owns, is at its first level: it bid no higher. -/
theorem LevelAfter.first {owner : S → Option N} {n : N} (hfair : Fair owner level done)
    (hlevel : LevelAfter level level' done) (hn : owner s = some n)
    (hmax : ∀ b ∈ done, b.wants s = true → b.rank ≤ level n) : level' n = level n := by
  by_cases hbid : ∃ d ∈ done, d.node = n
  · obtain ⟨d, hd, rfl⟩ := hbid
    rw [hlevel.1 d hd]
    exact Nat.le_antisymm (hmax d hd (hfair.wants d hd s hn)) (hfair.level d hd)
  · exact hlevel.2 n fun d hd e => hbid ⟨d, hd, e⟩

/-- **One more bid settles what it should.** -/
theorem Settles.snoc {owner : S → Option N} (hfair : Fair owner level (done ++ [b])) (hnew : b ∉ done)
    (hlevel : LevelAfter level level' done) (h : Settles (owner s) level done s cur)
    (hno : (b.wants s = false ∨ ∃ n, n ≠ b.node ∧ cur = some n ∧ b.rank ≤ level' n) → o = cur)
    (hyes : b.wants s = true → (∀ n, n ≠ b.node → cur = some n → level' n < b.rank) → o = some b.node) :
    Settles (owner s) level (done ++ [b]) s o := by
  have hmem : ∀ {c}, c ∈ done ++ [b] ↔ c ∈ done ∨ c = b := by simp
  have hbin : b ∈ done ++ [b] := hmem.mpr (.inr rfl)
  have hdone : Fair owner level done := hfair.congr fun c hc => hmem.mpr (.inl hc)
  by_cases hw : b.wants s = true
  · -- the first owner against the new bid
    have hfirst : ∀ n, owner s = some n → cur = some n → level' n = level n →
        ((∀ n, owner s = some n → level n < b.rank) ∧ o = some b.node) ∨
          ∃ n, owner s = some n ∧ b.rank ≤ level n ∧ o = owner s := by
      intro n hn hc hl
      by_cases hlt : level n < b.rank
      · refine .inl ⟨fun m hm => ?_, hyes hw fun m _ hm => ?_⟩
        · rw [hn] at hm
          rw [← Option.some.inj hm]
          exact hlt
        · rw [hc] at hm
          rw [← Option.some.inj hm, hl]
          exact hlt
      · refine .inr ⟨n, hn, Nat.not_lt.mp hlt, ?_⟩
        by_cases hnb : n = b.node
        · rw [hn, hnb]
          refine hyes hw fun m hm hcm => absurd ?_ hm
          rw [hc] at hcm
          rw [← Option.some.inj hcm]
          exact hnb
        · rw [hno (.inr ⟨n, hnb, hc, hl ▸ Nat.not_lt.mp hlt⟩), hc, hn]
    rcases h with ⟨hnone, hcur⟩ | ⟨c, hc, hwc, hmax, hcase⟩
    · -- nobody wanted it before
      refine .inr ⟨b, hbin, hw, fun c hc hwc => ?_, ?_⟩
      · rcases hmem.mp hc with hc | rfl
        · rw [hnone c hc] at hwc
          cases hwc
        · exact Nat.le_refl _
      · cases hn : owner s with
        | none =>
          refine .inl ⟨nofun, hyes hw fun m _ hm => ?_⟩
          rw [hcur, hn] at hm
          cases hm
        | some n =>
          rw [← hn]
          refine hfirst n hn (hcur.trans hn) (hlevel.first hdone hn fun d hd hwd => ?_)
          rw [hnone d hd] at hwd
          cases hwd
    · have hcn : c.node ≠ b.node := by
        intro e
        rw [hfair.once c (hmem.mpr (.inl hc)) b hbin e] at hc
        exact hnew hc
      have hcr : c.rank ≠ b.rank := by
        intro e
        rw [hfair.rank c (hmem.mpr (.inl hc)) b hbin e] at hc
        exact hnew hc
      have hfirstc : ∀ n, owner s = some n → c.rank ≤ level n → level' n = level n := fun n hn hle =>
        hlevel.first hdone hn fun d hd hwd => Nat.le_trans (hmax d hd hwd) hle
      rcases Nat.lt_or_gt_of_ne hcr with hlt | hgt
      · -- the new bid is the greatest
        refine .inr ⟨b, hbin, hw, fun d hd hwd => ?_, ?_⟩
        · rcases hmem.mp hd with hd | rfl
          · exact Nat.le_trans (hmax d hd hwd) (Nat.le_of_lt hlt)
          · exact Nat.le_refl _
        · rcases hcase with ⟨hbeat, hcur⟩ | ⟨n, hn, hle, hcur⟩
          · refine .inl ⟨fun n hn => Nat.lt_trans (hbeat n hn) hlt, hyes hw fun m _ hm => ?_⟩
            rw [hcur] at hm
            rw [← Option.some.inj hm, hlevel.1 c hc]
            exact hlt
          · exact hfirst n hn (hcur.trans hn) (hfirstc n hn hle)
      · -- the greatest so far stays
        refine .inr ⟨c, hmem.mpr (.inl hc), hwc, fun d hd hwd => ?_, ?_⟩
        · rcases hmem.mp hd with hd | rfl
          · exact hmax d hd hwd
          · exact Nat.le_of_lt hgt
        · rcases hcase with ⟨hbeat, hcur⟩ | ⟨n, hn, hle, hcur⟩
          · refine .inl ⟨hbeat, ?_⟩
            rw [hno (.inr ⟨c.node, hcn, hcur, ?_⟩)]
            · exact hcur
            · rw [hlevel.1 c hc]
              exact Nat.le_of_lt hgt
          · refine .inr ⟨n, hn, hle, ?_⟩
            by_cases hnb : n = b.node
            · rw [hn, hnb]
              refine hyes hw fun m hm hcm => absurd ?_ hm
              rw [hcur, hn] at hcm
              rw [← Option.some.inj hcm]
              exact hnb
            · rw [hno (.inr ⟨n, hnb, hcur.trans hn, ?_⟩)]
              · exact hcur
              · rw [hfirstc n hn hle]
                exact Nat.le_of_lt (Nat.lt_of_lt_of_le hgt hle)
  · rw [Bool.not_eq_true] at hw
    rw [hno (.inl hw)]
    rcases h with ⟨hnone, ho⟩ | ⟨c, hc, hwc, hmax, hcase⟩
    · refine .inl ⟨fun c hc => ?_, ho⟩
      rcases hmem.mp hc with hc | rfl
      · exact hnone c hc
      · exact hw
    · refine .inr ⟨c, hmem.mpr (.inl hc), hwc, fun c' hc' hwc' => ?_, hcase⟩
      rcases hmem.mp hc' with hc' | rfl
      · exact hmax c' hc' hwc'
      · rw [hw] at hwc'
        cases hwc'

end Bids
