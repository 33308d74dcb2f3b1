/-
This file makes doubles the coefficients of the running program.
-/

import BlockCone.Scalar
import BlockCone.Decimal.Layout

namespace BlockCone

/-- Doubles, with the comparisons of their standard: nothing is equal to, below or at most a value
that is not a number. -/
instance : Scalar Float where
  zero := 0.0
  one := 1.0
  add := Float.add
  sub := Float.sub
  neg := Float.neg
  mul := Float.mul
  sumStart := -0.0
  rootTwo := 1.4142135623730951
  isZero value := value == 0.0
  atMost left right := decide (left ≤ right)
  below left right := decide (left < right)
  magnitude := Float.abs
  display := Decimal.display

end BlockCone
