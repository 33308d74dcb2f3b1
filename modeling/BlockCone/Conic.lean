/-
This file is the flat form of a problem, as a solver receives it.

All variables together form one vector of columns. A `Cone` says which columns hold the stacked
blocks of one variable, an objective weighs columns, and each constraint compares a weighed sum of
columns with a bound. Nothing is checked when these records are put together: lists of
coefficients may come in any order and may name any column.
-/

import BlockCone.LinearForm
import BlockCone.Domain

namespace BlockCone

/-- Whether an objective is made small or large. -/
inductive Sense where
  | minimize
  | maximize
deriving DecidableEq, Repr

/-- The columns of a stack of `count` positive semidefinite matrices of `dim` rows. -/
structure Cone where
  dim : Nat
  count : Nat
  /-- The first column. -/
  offset : Nat
deriving DecidableEq, Repr

namespace Cone

/-- The number of columns. -/
def size (cone : Cone) : Nat :=
  cone.count * cone.dim * cone.dim

/-- The first column of one block. -/
def blockOffset (cone : Cone) (block : Nat) : Nat :=
  cone.offset + block * cone.dim * cone.dim

end Cone

/-- An objective over columns. -/
structure LinearObjective (α : Type) where
  sense : Sense
  coeffs : List (Nat × α)
  constant : α
deriving BEq

/-- A bound on a weighed sum of columns. -/
structure LinearConstraint (α : Type) where
  coeffs : List (Nat × α)
  relation : Relation
  bound : α
deriving BEq

/-- A problem in flat form. -/
structure ConicProblem (α : Type) where
  /-- The number of columns. -/
  columns : Nat
  cones : List Cone
  objective : LinearObjective α
  constraints : List (LinearConstraint α)
deriving BEq

variable {α : Type} [Scalar α]

/-- The objective that makes every feasible point optimal. -/
def LinearObjective.feasibility : LinearObjective α :=
  ⟨.minimize, [], 0⟩

/-- The value of the objective at a vector. -/
def ConicProblem.objectiveValue (problem : ConicProblem α) (point : Array α) : Except Error α := do
  let total ← weighedSum problem.objective.coeffs point
  pure (total + problem.objective.constant)

/-- The left-hand side of one constraint at a vector, if there is such a constraint. -/
def ConicProblem.constraintValue (problem : ConicProblem α) (index : Nat) (point : Array α) :
    Except Error (Option α) :=
  match problem.constraints[index]? with
  | none => .ok none
  | some constraint => do
      let total ← weighedSum constraint.coeffs point
      pure (some total)

end BlockCone
