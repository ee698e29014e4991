/-
# Quorums intersect

Two lists of distinct voters from one finite set that together are longer than
the set have a voter in common.

Key theorems: `exists_common_voter`, `exists_common_voter_of_majority`.
-/
import Mathlib

namespace Quorum

variable {V : Type*} [DecidableEq V]

theorem exists_common_voter {voters : Finset V} {a b : List V} (ha : a.Nodup) (hb : b.Nodup)
    (hav : ∀ v ∈ a, v ∈ voters) (hbv : ∀ v ∈ b, v ∈ voters) (hlen : voters.card < a.length + b.length) :
    ∃ v, v ∈ a ∧ v ∈ b := by
  by_contra hno
  have hdisj : Disjoint a.toFinset b.toFinset := by
    rw [Finset.disjoint_left]
    intro v hva hvb
    exact hno ⟨v, List.mem_toFinset.mp hva, List.mem_toFinset.mp hvb⟩
  have hsub : a.toFinset ∪ b.toFinset ⊆ voters := by
    intro v hv
    rcases Finset.mem_union.mp hv with h | h
    · exact hav v (List.mem_toFinset.mp h)
    · exact hbv v (List.mem_toFinset.mp h)
  have hcard := Finset.card_le_card hsub
  rw [Finset.card_union_of_disjoint hdisj, List.toFinset_card_of_nodup ha, List.toFinset_card_of_nodup hb]
    at hcard
  omega

/-- Two majorities of one set of voters share a voter. -/
theorem exists_common_voter_of_majority {voters : Finset V} {a b : List V} (ha : a.Nodup) (hb : b.Nodup)
    (hav : ∀ v ∈ a, v ∈ voters) (hbv : ∀ v ∈ b, v ∈ voters) (hla : voters.card / 2 + 1 ≤ a.length)
    (hlb : voters.card / 2 + 1 ≤ b.length) : ∃ v, v ∈ a ∧ v ∈ b :=
  exists_common_voter ha hb hav hbv (by omega)

end Quorum
