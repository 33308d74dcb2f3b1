/-
This file says when a matrix is positive semidefinite, for exact entries.

A matrix is a function of a row and a column here, because blocks are read from two different
places: from a vector, row by row, and from a triangle, column by column. It is positive
semidefinite if it is symmetric and its quadratic form is never negative. For real entries this is
the usual notion.

Weighing two places only, the form bounds the entry between them by the entries on the diagonal, so
no entry is larger in magnitude than all of these.

The two smallest sizes have tests without a quantifier. A single entry must not be negative. For
two rows it is the condition of a cone of three numbers: the sum of the diagonal is at least the
length of the vector made of the difference of the diagonal and twice the entry beside it.
-/

import Mathlib.LinearAlgebra.Matrix.PosDef
import Mathlib.Tactic.IntervalCases
import Mathlib.Tactic.LinearCombination
import Mathlib.Tactic.Linarith
import BlockCone.Proofs.ExactScalar

namespace BlockCone

section Exact

variable {K : Type} [ExactScalar K]

/-- The quadratic form of a matrix at a vector of weights. -/
def quadraticForm (dim : Nat) (entry : Nat → Nat → K) (weight : Nat → K) : K :=
  ∑ row ∈ Finset.range dim, ∑ col ∈ Finset.range dim, weight row * entry row col * weight col

/-- A matrix is symmetric and its quadratic form is nowhere negative. -/
structure IsSemidefinite (dim : Nat) (entry : Nat → Nat → K) : Prop where
  symmetric : ∀ row < dim, ∀ col < dim, entry row col = entry col row
  nonneg : ∀ weight, 0 ≤ quadraticForm dim entry weight

theorem quadraticForm_congr {dim : Nat} {left right : Nat → Nat → K}
    (same : ∀ row < dim, ∀ col < dim, left row col = right row col) (weight : Nat → K) :
    quadraticForm dim left weight = quadraticForm dim right weight := by
  refine Finset.sum_congr rfl fun row rowMember => Finset.sum_congr rfl fun col colMember => ?_
  rw [same row (Finset.mem_range.mp rowMember) col (Finset.mem_range.mp colMember)]

/-- Only the entries inside the matrix matter. -/
theorem isSemidefinite_congr {dim : Nat} {left right : Nat → Nat → K}
    (same : ∀ row < dim, ∀ col < dim, left row col = right row col) :
    IsSemidefinite dim left ↔ IsSemidefinite dim right := by
  have transfer {first second : Nat → Nat → K}
      (equal : ∀ row < dim, ∀ col < dim, first row col = second row col)
      (holds : IsSemidefinite dim first) : IsSemidefinite dim second := by
    refine ⟨fun row rowBound col colBound => ?_, fun weight => ?_⟩
    · rw [← equal row rowBound col colBound, ← equal col colBound row rowBound]
      exact holds.symmetric row rowBound col colBound
    · rw [← quadraticForm_congr equal]
      exact holds.nonneg weight
  exact ⟨transfer same, transfer fun row rowBound col colBound =>
    (same row rowBound col colBound).symm⟩

/-! ### Dominated entries -/

/-- The quadratic form at the sum of two vectors with one weight each. -/
theorem quadraticForm_pair {dim : Nat} (entry : Nat → Nat → K) {row col : Nat}
    (rowInside : row < dim) (colInside : col < dim) (left right : K) :
    quadraticForm dim entry
        (fun place => (if place = row then left else 0) + if place = col then right else 0) =
      left * entry row row * left + left * entry row col * right +
        (right * entry col row * left + right * entry col col * right) := by
  simp only [quadraticForm, add_mul, mul_add, Finset.sum_add_distrib, ite_mul, mul_ite, zero_mul,
    mul_zero, Finset.sum_ite_eq', Finset.mem_range, rowInside, colInside, if_true]
  ring

/-- An entry is at most the mean of the entries on the diagonal in its row and in its column, and at
least the negative of it. -/
theorem IsSemidefinite.two_mul_abs_le {dim : Nat} {entry : Nat → Nat → K}
    (holds : IsSemidefinite dim entry) {row col : Nat} (rowInside : row < dim)
    (colInside : col < dim) : 2 * |entry row col| ≤ entry row row + entry col col := by
  have symmetric := holds.symmetric row rowInside col colInside
  have sum := holds.nonneg fun place =>
    (if place = row then 1 else 0) + if place = col then 1 else 0
  have difference := holds.nonneg fun place =>
    (if place = row then 1 else 0) + if place = col then -1 else 0
  rw [quadraticForm_pair entry rowInside colInside, ← symmetric] at sum difference
  rcases abs_choice (entry row col) with positive | negative
  · rw [positive]
    linear_combination difference
  · rw [negative]
    linear_combination sum

/-- Where an entry exceeds a bound in magnitude, one on the diagonal exceeds it. -/
theorem IsSemidefinite.exists_lt_diagonal {dim : Nat} {entry : Nat → Nat → K}
    (holds : IsSemidefinite dim entry) {row col : Nat} (rowInside : row < dim)
    (colInside : col < dim) {bound : K} (large : bound < |entry row col|) :
    ∃ place < dim, bound < entry place place := by
  by_contra small
  push Not at small
  have dominated := holds.two_mul_abs_le rowInside colInside
  have first := small row rowInside
  have second := small col colInside
  linarith

/-! ### Small matrices -/

theorem isSemidefinite_zero (entry : Nat → Nat → K) : IsSemidefinite 0 entry where
  symmetric row rowBound := absurd rowBound (Nat.not_lt_zero row)
  nonneg weight := by rw [quadraticForm, Finset.sum_range_zero]

theorem isSemidefinite_one_iff (entry : Nat → Nat → K) :
    IsSemidefinite 1 entry ↔ 0 ≤ entry 0 0 := by
  constructor
  · intro holds
    have unit := holds.nonneg fun _ => 1
    rw [quadraticForm, Finset.sum_range_one, Finset.sum_range_one] at unit
    rwa [one_mul, mul_one] at unit
  · intro nonneg
    refine ⟨fun row rowBound col colBound => ?_, fun weight => ?_⟩
    · rw [Nat.lt_one_iff.mp rowBound, Nat.lt_one_iff.mp colBound]
    · rw [quadraticForm, Finset.sum_range_one, Finset.sum_range_one,
        show weight 0 * entry 0 0 * weight 0 = entry 0 0 * (weight 0 * weight 0) by ring]
      exact mul_nonneg nonneg (mul_self_nonneg _)

theorem quadraticForm_two (entry : Nat → Nat → K) (weight : Nat → K) :
    quadraticForm 2 entry weight =
      weight 0 * entry 0 0 * weight 0 + weight 0 * entry 0 1 * weight 1 +
        (weight 1 * entry 1 0 * weight 0 + weight 1 * entry 1 1 * weight 1) := by
  simp only [quadraticForm, Finset.sum_range_succ, Finset.sum_range_zero, zero_add]

/-- A binary form is nowhere negative exactly when its diagonal is not and dominates the entry
beside it. -/
theorem form_nonneg_iff (first beside last : K) :
    (∀ left right : K,
        0 ≤ first * (left * left) + 2 * beside * (left * right) + last * (right * right)) ↔
      0 ≤ first ∧ 0 ≤ last ∧ beside * beside ≤ first * last := by
  constructor
  · intro nonneg
    have firstNonneg : 0 ≤ first := by simpa using nonneg 1 0
    have lastNonneg : 0 ≤ last := by simpa using nonneg 0 1
    refine ⟨firstNonneg, lastNonneg, ?_⟩
    -- Without a first entry the form is linear in the first weight, which can be made so negative
    -- that only the entry beside the diagonal counts; with one, the square is completed.
    rcases firstNonneg.eq_or_lt with zero | positive
    · have below : 0 ≤ -(last + 2) * (beside * beside) := by
        have tilted := nonneg (-(last + 1)) beside
        rw [← zero] at tilted
        linear_combination tilted
      have vanishes : beside * beside ≤ 0 := by
        rw [neg_mul, Left.nonneg_neg_iff] at below
        exact (mul_nonpos_iff_pos_imp_nonpos.mp below).1 (by linarith)
      rwa [← zero, zero_mul]
    · have factored : 0 ≤ first * (first * last - beside * beside) := by
        have tilted := nonneg beside (-first)
        linear_combination tilted
      exact sub_nonneg.mp ((mul_nonneg_iff_of_pos_left positive).mp factored)
  · rintro ⟨firstNonneg, lastNonneg, dominated⟩ left right
    rcases firstNonneg.eq_or_lt with zero | positive
    · have vanishes : beside = 0 := by
        rw [← zero, zero_mul] at dominated
        exact mul_self_eq_zero.mp (le_antisymm dominated (mul_self_nonneg beside))
      have square := mul_nonneg lastNonneg (mul_self_nonneg right)
      rw [← zero, vanishes]
      linear_combination square
    · have squares := add_nonneg (mul_self_nonneg (first * left + beside * right))
        (mul_nonneg (sub_nonneg.mpr dominated) (mul_self_nonneg right))
      refine (mul_nonneg_iff_of_pos_left positive).mp ?_
      linear_combination squares

/-- The diagonal is not negative and dominates the entry beside it exactly when three numbers lie
in a second-order cone. -/
theorem secondOrder_iff (first beside last : K) :
    0 ≤ first + last ∧ (first - last) * (first - last) + 2 * beside * (2 * beside) ≤
        (first + last) * (first + last) ↔
      0 ≤ first ∧ 0 ≤ last ∧ beside * beside ≤ first * last := by
  constructor
  · rintro ⟨trace, cone⟩
    have dominated : beside * beside ≤ first * last := by linarith
    have product : 0 ≤ first * last := (mul_self_nonneg beside).trans dominated
    rcases mul_nonneg_iff.mp product with ⟨firstNonneg, lastNonneg⟩ | ⟨firstNonpos, lastNonpos⟩
    · exact ⟨firstNonneg, lastNonneg, dominated⟩
    · exact ⟨by linarith, by linarith, dominated⟩
  · rintro ⟨firstNonneg, lastNonneg, dominated⟩
    exact ⟨add_nonneg firstNonneg lastNonneg, by linarith⟩

theorem isSemidefinite_two_iff (entry : Nat → Nat → K) :
    IsSemidefinite 2 entry ↔
      entry 0 1 = entry 1 0 ∧ 0 ≤ entry 0 0 + entry 1 1 ∧
        (entry 0 0 - entry 1 1) * (entry 0 0 - entry 1 1) +
            2 * entry 0 1 * (2 * entry 0 1) ≤
          (entry 0 0 + entry 1 1) * (entry 0 0 + entry 1 1) := by
  rw [secondOrder_iff, ← form_nonneg_iff]
  constructor
  · intro holds
    have symmetric := holds.symmetric 0 Nat.two_pos 1 Nat.one_lt_two
    refine ⟨symmetric, fun left right => ?_⟩
    have nonneg := holds.nonneg fun place => if place = 0 then left else right
    rw [quadraticForm_two, ← symmetric, if_pos rfl, if_neg Nat.one_ne_zero] at nonneg
    linear_combination nonneg
  · rintro ⟨symmetric, nonneg⟩
    refine ⟨fun row rowBound col colBound => ?_, fun weight => ?_⟩
    · interval_cases row <;> interval_cases col
      · rfl
      · exact symmetric
      · exact symmetric.symm
      · rfl
    · rw [quadraticForm_two, ← symmetric]
      linear_combination nonneg (weight 0) (weight 1)

end Exact

/-! ### Real matrices -/

/-- For real entries this is what a positive semidefinite matrix is elsewhere. -/
theorem isSemidefinite_iff_posSemidef (dim : Nat) (entry : Nat → Nat → ℝ) :
    IsSemidefinite dim entry ↔
      (Matrix.of fun row col : Fin dim => entry row col).PosSemidef := by
  have form : ∀ weight : Nat → ℝ, quadraticForm dim entry weight =
      star (fun place : Fin dim => weight place) ⬝ᵥ
        ((Matrix.of fun row col : Fin dim => entry row col).mulVec fun place => weight place) := by
    intro weight
    simp only [quadraticForm, Finset.sum_range, dotProduct, Matrix.mulVec, Finset.mul_sum,
      Matrix.of_apply, Pi.star_apply, star_trivial, mul_assoc]
  rw [Matrix.posSemidef_iff_dotProduct_mulVec]
  constructor
  · intro holds
    refine ⟨?_, fun weight => ?_⟩
    · ext row col
      simpa using holds.symmetric col col.isLt row row.isLt
    · have nonneg := holds.nonneg fun place =>
        if inside : place < dim then weight ⟨place, inside⟩ else 0
      rw [form] at nonneg
      simpa using nonneg
  · rintro ⟨hermitian, nonneg⟩
    refine ⟨fun row rowBound col colBound => ?_, fun weight => ?_⟩
    · have transposed := congrFun (congrFun hermitian ⟨col, colBound⟩) ⟨row, rowBound⟩
      simpa using transposed
    · rw [form]
      exact nonneg fun place => weight place

end BlockCone
