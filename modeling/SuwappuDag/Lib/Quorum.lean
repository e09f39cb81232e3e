/-
  QUORUM OVERLAP — two large sets of voters share a voter outside any small set.

  The counting behind every Byzantine quorum argument, over an arbitrary type of voters: if `A` and
  `B` are drawn from `U` and together outnumber `U` by more than the faulty set `F`, some voter of
  both is not in `F`.  `two_quorums` is the arithmetic of the threshold `n − ⌊(n−1)/3⌋`.  The other
  lemmas say HOW MUCH two sets share, by number and by weight.
-/
import Mathlib

namespace SuwappuDag.Quorum

variable {α : Type*} [DecidableEq α]

theorem exists_common_not_mem {A B F U : Finset α} (hA : A ⊆ U) (hB : B ⊆ U)
    (hcard : U.card + F.card < A.card + B.card) : ∃ x, x ∈ A ∧ x ∈ B ∧ x ∉ F := by
  have hunion : (A ∪ B).card ≤ U.card := Finset.card_le_card (Finset.union_subset hA hB)
  have hsplit := Finset.card_union_add_card_inter A B
  have hlt : F.card < (A ∩ B).card := by omega
  obtain ⟨x, hx, hxF⟩ := Finset.exists_mem_notMem_of_card_lt_card hlt
  rw [Finset.mem_inter] at hx
  exact ⟨x, hx.1, hx.2, hxF⟩

/-- Two quorums of `n − ⌊(n−1)/3⌋` out of `n` overlap in more than `⌊(n−1)/3⌋`. -/
theorem two_quorums {n f : Nat} (hn : 0 < n) (hf : f ≤ (n - 1) / 3) :
    n + f < (n - (n - 1) / 3) + (n - (n - 1) / 3) := by omega

/-- **Overlap by number**: what two sets have over the whole, they share. -/
theorem card_add_card_le {A B U : Finset α} (hA : A ⊆ U) (hB : B ⊆ U) :
    A.card + B.card ≤ (A ∩ B).card + U.card := by
  have hunion : (A ∪ B).card ≤ U.card := Finset.card_le_card (Finset.union_subset hA hB)
  have hsplit := Finset.card_union_add_card_inter A B
  omega

/-- **Overlap by weight**, where nothing outside `U` weighs anything. -/
theorem weight_add_weight_le (w : α → Nat) {U : Finset α} (hU : ∀ x ∉ U, w x = 0) (A B : Finset α) :
    ∑ x ∈ A, w x + ∑ x ∈ B, w x ≤ ∑ x ∈ A ∩ B, w x + ∑ x ∈ U, w x := by
  have hunion : ∑ x ∈ A ∪ B, w x ≤ ∑ x ∈ U, w x := by
    refine Finset.sum_le_sum_of_ne_zero fun x _ hx => ?_
    by_contra hout
    exact hx (hU x hout)
  have hsplit : ∑ x ∈ A ∪ B, w x + ∑ x ∈ A ∩ B, w x = ∑ x ∈ A, w x + ∑ x ∈ B, w x :=
    Finset.sum_union_inter
  omega

/-- Two quorums of `n − ⌊(n−1)/3⌋` out of `n` overlap in at least a third. -/
theorem third_le_two_quorums (n : Nat) (hn : 0 < n) :
    n ⌈/⌉ 3 ≤ 2 * (n - (n - 1) / 3) - n := by
  rw [Nat.ceilDiv_eq_add_pred_div]
  omega

end SuwappuDag.Quorum
