import Mathlib.Data.Finset.Card
import Mathlib.Data.List.Sort

/-!
# Majorities

A majority of a finite set of voters is more than half of it, and two majorities
meet. The value that a majority of a list of numbers reaches is found by sorting.
-/

namespace Majority

universe u

variable {N : Type u} [DecidableEq N]

structure IsMajority (voters members : Finset N) : Prop where
  subset : members ⊆ voters
  size : voters.card / 2 + 1 ≤ members.card

theorem IsMajority.inter_nonempty {voters first second : Finset N}
    (firstMajority : IsMajority voters first) (secondMajority : IsMajority voters second) :
    (first ∩ second).Nonempty := by
  refine Finset.inter_nonempty_of_card_lt_card_add_card firstMajority.subset
    secondMajority.subset ?_
  have := firstMajority.size
  have := secondMajority.size
  omega

theorem IsMajority.inter_nonempty_insert {voters first second : Finset N} {added : N}
    (firstMajority : IsMajority voters first)
    (secondMajority : IsMajority (insert added voters) second) : (first ∩ second).Nonempty := by
  by_cases listed : added ∈ voters
  · rw [Finset.insert_eq_of_mem listed] at secondMajority
    exact firstMajority.inter_nonempty secondMajority
  refine Finset.inter_nonempty_of_card_lt_card_add_card
    (firstMajority.subset.trans (Finset.subset_insert _ _)) secondMajority.subset ?_
  have := firstMajority.size
  have := secondMajority.size
  have := Finset.card_insert_of_notMem listed
  omega

omit [DecidableEq N] in
theorem IsMajority.mono {voters members more : Finset N} (majority : IsMajority voters members)
    (subset : members ⊆ more) (voting : more ⊆ voters) : IsMajority voters more :=
  ⟨voting, majority.size.trans (Finset.card_le_card subset)⟩

/-- The element `quorum` from the end is the highest value that `quorum` elements reach. -/
theorem le_getD_of_sorted {sorted : List Nat} (ordered : sorted.Pairwise (· ≤ ·)) {quorum s : Nat}
    (positive : 0 < quorum) (enough : quorum ≤ sorted.length) :
    s ≤ sorted.getD (sorted.length - quorum) 0 ↔
      quorum ≤ sorted.countP fun value => decide (s ≤ value) := by
  have inside : sorted.length - quorum < sorted.length := by omega
  rw [List.getD_eq_getElem?_getD, List.getElem?_eq_getElem inside, Option.getD_some]
  have split := List.take_append_drop (sorted.length - quorum) sorted
  constructor
  · intro reached
    have all : (sorted.drop (sorted.length - quorum)).countP (fun value => decide (s ≤ value)) =
        (sorted.drop (sorted.length - quorum)).length := by
      refine List.countP_eq_length.mpr ?_
      intro value member
      obtain ⟨i, bound, rfl⟩ := List.mem_iff_getElem.mp member
      rw [List.getElem_drop, decide_eq_true_eq]
      refine reached.trans ?_
      rcases Nat.eq_zero_or_pos i with rfl | later
      · exact Nat.le_refl _
      · exact List.pairwise_iff_getElem.mp ordered _ _ inside _ (by omega)
    rw [← split, List.countP_append, all, List.length_drop]
    omega
  · intro counted
    by_contra short
    have none : (sorted.take (sorted.length - quorum + 1)).countP
        (fun value => decide (s ≤ value)) = 0 := by
      refine List.countP_eq_zero.mpr ?_
      intro value member
      obtain ⟨i, bound, rfl⟩ := List.mem_iff_getElem.mp member
      rw [List.length_take] at bound
      rw [List.getElem_take, decide_eq_true_eq]
      rcases Nat.lt_or_ge i (sorted.length - quorum) with before | last
      · have := List.pairwise_iff_getElem.mp ordered i _ (by omega) inside before
        omega
      · have here : i = sorted.length - quorum := by omega
        subst here
        exact short
    have rest := List.countP_le_length (p := fun value => decide (s ≤ value))
      (l := sorted.drop (sorted.length - quorum + 1))
    rw [← List.take_append_drop (sorted.length - quorum + 1) sorted, List.countP_append]
      at counted
    rw [List.length_drop] at rest
    omega

theorem le_nthHighest {values : List Nat} {quorum s : Nat} (positive : 0 < quorum)
    (enough : quorum ≤ values.length) :
    s ≤ (values.insertionSort (· ≤ ·)).getD
        ((values.insertionSort (· ≤ ·)).length - quorum) 0 ↔
      quorum ≤ values.countP fun value => decide (s ≤ value) := by
  have same := List.perm_insertionSort (· ≤ ·) values
  rw [le_getD_of_sorted (List.pairwise_insertionSort (· ≤ ·) values) positive
    (by rwa [same.length_eq]), same.countP_eq]

end Majority
