/-
This file gives a flat problem its exact values at a vector.

The objective and the constraints of a flat problem weigh columns, and when all of these are
columns of the vector the program computes the exact weighed sums. A constraint then asks that its
sum compares with its bound. `Compares` is that comparison without a tolerance; a number may be
moved from one side of it to the other.
-/

import BlockCone.Proofs.Coefficients
import BlockCone.Conic

namespace BlockCone

variable {K : Type} [ExactScalar K]

/-- A value stands in a relation to a bound. -/
def Relation.Compares (relation : Relation) (value bound : K) : Prop :=
  match relation with
  | .greaterThan => bound ≤ value
  | .lessThan => value ≤ bound
  | .equalTo => value = bound

theorem Relation.compares_sub_iff (relation : Relation) (value bound constant : K) :
    relation.Compares value (bound - constant) ↔ relation.Compares (value + constant) bound := by
  cases relation with
  | greaterThan => exact sub_le_iff_le_add
  | lessThan => exact le_sub_iff_add_le
  | equalTo => exact eq_sub_iff_add_eq

namespace ConicProblem

variable {problem : ConicProblem K} {point : Array K}

theorem objectiveValue_exact
    (within : ∀ entry ∈ problem.objective.coeffs, entry.1 < point.size) :
    problem.objectiveValue point =
      .ok (weighed problem.objective.coeffs (entryOf point) + problem.objective.constant) := by
  rw [objectiveValue, weighedSum_exact within]
  rfl

theorem constraintValue_exact {number : Nat} {constraint : LinearConstraint K}
    (present : problem.constraints[number]? = some constraint)
    (within : ∀ entry ∈ constraint.coeffs, entry.1 < point.size) :
    problem.constraintValue number point =
      .ok (some (weighed constraint.coeffs (entryOf point))) := by
  rw [constraintValue, present]
  show (do let total ← weighedSum constraint.coeffs point; pure (some total)) = _
  rw [weighedSum_exact within]
  rfl

end ConicProblem

end BlockCone
