/-
This file says where values may lie.

A `Domain` bounds a number from below, from above or on both sides, or it asks a stack of matrices
to be positive semidefinite. Only the bounds apply to expressions, as `relation?` says, and only
the cone applies to variables.
-/

import BlockCone.Scalar

namespace BlockCone

/-- How the value of an expression compares with its bound. -/
inductive Relation where
  | greaterThan
  | lessThan
  | equalTo
deriving DecidableEq, Repr

/-- The sign of a relation. -/
def Relation.display : Relation → String
  | .greaterThan => ">="
  | .lessThan => "<="
  | .equalTo => "=="

/-- Where an expression or a variable may lie. -/
inductive Domain (α : Type) where
  /-- Numbers that are at least a bound. -/
  | greaterThan (bound : α)
  /-- Numbers that are at most a bound. -/
  | lessThan (bound : α)
  /-- Numbers that equal a bound. -/
  | equalsTo (bound : α)
  /-- Stacks of `count` symmetric positive semidefinite matrices of `dim` rows. -/
  | semidefinite (dim count : Nat)
deriving BEq

namespace Domain

variable {α : Type}

/-- The relation and the bound of a domain of numbers. -/
def relation? : Domain α → Option (Relation × α)
  | .greaterThan bound => some (.greaterThan, bound)
  | .lessThan bound => some (.lessThan, bound)
  | .equalsTo bound => some (.equalTo, bound)
  | .semidefinite _ _ => none

/-- The text of a domain. -/
def display [Scalar α] : Domain α → String
  | .greaterThan bound => Relation.greaterThan.display ++ " " ++ Scalar.display bound
  | .lessThan bound => Relation.lessThan.display ++ " " ++ Scalar.display bound
  | .equalsTo bound => Relation.equalTo.display ++ " " ++ Scalar.display bound
  | .semidefinite dim count =>
      "PSD(" ++ toString dim ++ "x" ++ toString dim ++ ") x " ++ toString count

end Domain

/-- Whether a value satisfies a relation to a bound within a tolerance. -/
def Relation.holds {α : Type} [Scalar α] (relation : Relation) (bound value tolerance : α) :
    Bool :=
  match relation with
  | .greaterThan => Scalar.atMost (bound - tolerance) value
  | .lessThan => Scalar.atMost value (bound + tolerance)
  | .equalTo => Scalar.atMost (Scalar.magnitude (value - bound)) tolerance

end BlockCone
