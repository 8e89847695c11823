import Mathlib.Algebra.BigOperators.Fin
import Mathlib.Algebra.Order.BigOperators.Group.Finset
import Mathlib.Data.Fintype.BigOperators
import Mathlib.Data.Int.CardIntervalMod

/-!
# Counting by residues

A number below a limit picks one of `m` things by its remainder.  Each of them is picked by
nearly the same share of the numbers, and each sequence of picks by nearly the same share
of the sequences of numbers.
-/

namespace AerugoCache.Residues

open Finset

/-- The sequences of numbers below a limit. -/
def numbers (limit length : Nat) : Finset (Fin length → Nat) :=
  Fintype.piFinset fun _ => range limit

theorem card_residue {limit m index : Nat} (h : index < m) :
    limit / m ≤ #{v ∈ range limit | v % m = index} ∧
      #{v ∈ range limit | v % m = index} ≤ limit / m + 1 := by
  have hcount := Nat.count_modEq_card limit (Nat.zero_lt_of_lt h) index
  have hcard : #{v ∈ range limit | v % m = index} = limit.count (· ≡ index [MOD m]) := by
    rw [Nat.count_eq_card_filter_range]
    refine congrArg card (filter_congr fun v _ => ?_)
    rw [Nat.ModEq, Nat.mod_eq_of_lt h]
  rw [hcard, hcount]
  split <;> omega

/-- A sequence of picks, of `m i` things at place `i`, is made by between
    `∏ ⌊limit / m i⌋` and `∏ (⌊limit / m i⌋ + 1)` sequences of numbers. -/
theorem card_residues {limit length : Nat} {m index : Nat → Nat}
    (h : ∀ i < length, index i < m i) :
    ∏ i ∈ range length, limit / m i ≤
        #{v ∈ numbers limit length | ∀ i : Fin length, v i % m i = index i} ∧
      #{v ∈ numbers limit length | ∀ i : Fin length, v i % m i = index i} ≤
        ∏ i ∈ range length, (limit / m i + 1) := by
  have hproduct : {v ∈ numbers limit length | ∀ i : Fin length, v i % m i = index i} =
      Fintype.piFinset fun i : Fin length => {v ∈ range limit | v % m i = index i} := by
    ext v
    simp only [numbers, mem_filter, Fintype.mem_piFinset]
    exact forall_and.symm
  rw [hproduct, Fintype.card_piFinset, prod_range, prod_range]
  exact ⟨prod_le_prod' fun i _ => (card_residue (h i i.isLt)).1,
    prod_le_prod' fun i _ => (card_residue (h i i.isLt)).2⟩

end AerugoCache.Residues
