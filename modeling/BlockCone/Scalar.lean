/-
This file says what a model's coefficients have to offer.

Nothing in the modelling layer depends on how numbers are rounded: expressions are collected,
rows are merged and columns are sorted by the same steps whatever the coefficients are. What a
step needs from them is listed once, in `Scalar`, and every definition above this file takes its
coefficients through that list. The running program takes doubles; an argument about exact
arithmetic takes a field.

Two entries of the list exist only because doubles have two zeros. A sum starts from `sumStart`,
which for doubles is the negative zero, the one value that adding changes nothing; and
`isZero` asks whether a coefficient compares equal to zero, which both zeros do and a value that
is not a number does not.
-/

namespace BlockCone

/-- The coefficients of a model: ring operations that promise no laws, the comparisons that
constraints and reports ask for, and the text of a value in a message. -/
class Scalar (α : Type) extends Zero α, One α, Add α, Sub α, Neg α, Mul α where
  /-- The value a running sum starts from. -/
  sumStart : α
  /-- The square root of two, the scale of an off-diagonal entry in a triangle cone. -/
  rootTwo : α
  /-- Whether a value compares equal to zero. -/
  isZero : α → Bool
  /-- Whether the first value is less than or equal to the second. -/
  atMost : α → α → Bool
  /-- Whether the first value is strictly less than the second. -/
  below : α → α → Bool
  /-- The absolute value. -/
  magnitude : α → α
  /-- The text of a value in a message. -/
  display : α → String

namespace Scalar

variable {α : Type} [Scalar α]

/-- The sum of a list, added from left to right. -/
def sum (terms : List α) : α :=
  terms.foldl (· + ·) sumStart

end Scalar

end BlockCone
