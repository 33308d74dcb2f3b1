/-
This file says what it is to calculate exactly.

The modelling layer promises no law of its coefficients, and for doubles few laws hold. What a
model means, however, is said in exact arithmetic: a point is feasible, a row stands for an
expression, a triangle for a matrix. An `ExactScalar` is a totally ordered field whose list of
operations, the one the modelling layer runs on, is the field's own: sums start from zero, the
tests compare in the order of the field, and the scale of a triangle is not zero. Nothing else is
asked of that scale, so what holds here does not depend on which number stands for the square root
of two.

The rationals are such a field and can be evaluated; the real numbers are one with the true square
root of two.
-/

import Mathlib.Algebra.Order.Field.Rat
import Mathlib.Analysis.Real.Sqrt
import BlockCone.Scalar

namespace BlockCone

/-- A totally ordered field whose operations are the ones the modelling layer runs on. -/
class ExactScalar (K : Type) extends Field K, LinearOrder K, IsStrictOrderedRing K, Scalar K where
  start_is_zero : sumStart = 0
  scale_is_nonzero : rootTwo ≠ 0
  tests_zero : ∀ value : K, isZero value = true ↔ value = 0
  tests_atMost : ∀ left right : K, atMost left right = true ↔ left ≤ right
  tests_below : ∀ left right : K, below left right = true ↔ left < right
  magnitude_is_abs : ∀ value : K, magnitude value = |value|

namespace Scalar

variable {K : Type} [ExactScalar K]

@[simp]
theorem sumStart_eq : (sumStart : K) = 0 :=
  ExactScalar.start_is_zero

theorem rootTwo_ne_zero : (rootTwo : K) ≠ 0 :=
  ExactScalar.scale_is_nonzero

@[simp]
theorem isZero_iff (value : K) : isZero value = true ↔ value = 0 :=
  ExactScalar.tests_zero value

@[simp]
theorem isZero_eq_false_iff (value : K) : isZero value = false ↔ value ≠ 0 := by
  rw [← Bool.not_eq_true, isZero_iff]

@[simp]
theorem atMost_iff (left right : K) : atMost left right = true ↔ left ≤ right :=
  ExactScalar.tests_atMost left right

@[simp]
theorem below_iff (left right : K) : below left right = true ↔ left < right :=
  ExactScalar.tests_below left right

/-- An exact running sum is the sum. -/
theorem sum_eq (terms : List K) : sum terms = terms.sum := by
  rw [sum, sumStart_eq, List.sum_eq_foldl]

end Scalar

/-- The rationals, with three halves for the scale of a triangle. -/
instance : ExactScalar ℚ where
  sumStart := 0
  rootTwo := 3 / 2
  isZero value := decide (value = 0)
  atMost left right := decide (left ≤ right)
  below left right := decide (left < right)
  magnitude value := |value|
  display value := toString value
  start_is_zero := rfl
  scale_is_nonzero := by norm_num
  tests_zero := by simp
  tests_atMost := by simp
  tests_below := by simp
  magnitude_is_abs _ := rfl

/-- The real numbers, with the square root of two. -/
noncomputable instance : ExactScalar ℝ where
  sumStart := 0
  rootTwo := √2
  isZero value := decide (value = 0)
  atMost left right := decide (left ≤ right)
  below left right := decide (left < right)
  magnitude value := |value|
  display _ := "a real number"
  start_is_zero := rfl
  scale_is_nonzero := by simp
  tests_zero := by simp
  tests_atMost := by simp
  tests_below := by simp
  magnitude_is_abs _ := rfl

end BlockCone
