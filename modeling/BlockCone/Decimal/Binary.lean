/-
This file takes doubles apart.

A finite double is a whole number of steps of a power of two. `Binary.ofFloat` reads the steps and
the power off the bits, and everything that writes a double in decimal works on these two numbers
in exact arithmetic. `Binary.window` is the interval of reals that a reader of decimals would
round to the same double, which decides how few digits are enough.
-/

namespace BlockCone.Decimal

/-- What a double stands for. A finite one is `steps * 2 ^ power`, with the sign kept apart so that
the two zeros stay different. -/
inductive Binary where
  | notANumber
  | infinite (negative : Bool)
  | finite (negative : Bool) (steps : Nat) (power : Int)
deriving DecidableEq, Repr

/-- The number of steps at which a double of full precision begins, `2 ^ 52`. -/
def fullSteps : Nat := 0x10000000000000

namespace Binary

/-- Reads the sign, the steps and the power off the bits of a double. -/
def ofFloat (value : Float) : Binary :=
  let bits : Nat := value.toBits.toNat
  let negative := bits / 0x8000000000000000 == 1
  let field : Nat := bits / fullSteps % 2048
  let fraction : Nat := bits % fullSteps
  if field == 2047 then
    if fraction == 0 then .infinite negative else .notANumber
  else if field == 0 then
    .finite negative fraction (-1074)
  else
    .finite negative (fullSteps + fraction) ((field : Int) - 1075)

end Binary

/-- A nonnegative rational number as a pair of natural numbers. -/
structure Ratio where
  num : Nat
  den : Nat
deriving DecidableEq, Repr

namespace Ratio

/-- The number `factor * base ^ power`. -/
def scaled (factor base : Nat) (power : Int) : Ratio :=
  if 0 ≤ power then ⟨factor * base.pow power.toNat, 1⟩ else ⟨factor, base.pow (-power).toNat⟩

/-- The quotient of two rationals. -/
def divide (left right : Ratio) : Ratio :=
  ⟨left.num * right.den, left.den * right.num⟩

/-- Whether the first rational is less than or equal to the second. -/
def atMost (left right : Ratio) : Bool :=
  left.num * right.den ≤ right.num * left.den

/-- Whether the first rational is strictly less than the second. -/
def below (left right : Ratio) : Bool :=
  left.num * right.den < right.num * left.den

/-- The distance of two rationals. -/
def distance (left right : Ratio) : Ratio :=
  let leftPart := left.num * right.den
  let rightPart := right.num * left.den
  ⟨(leftPart - rightPart) + (rightPart - leftPart), left.den * right.den⟩

/-- The whole number below a rational. -/
def floor (value : Ratio) : Nat :=
  value.num / value.den

end Ratio

/-- An interval of rationals, with or without its two ends. -/
structure Window where
  low : Ratio
  high : Ratio
  closed : Bool

namespace Window

/-- Whether a rational lies in an interval. -/
def contains (window : Window) (value : Ratio) : Bool :=
  if window.closed then window.low.atMost value && value.atMost window.high
  else window.low.below value && value.below window.high

end Window

/-- The interval of reals that round to `steps * 2 ^ power`. It reaches half a step to both sides,
but only a quarter of one below a number whose steps have just become twice as wide; the ends
round to the even number of steps and so belong to it exactly when that is this one. -/
def roundingWindow (steps : Nat) (power : Int) : Window :=
  let narrow := steps == fullSteps && decide (-1074 < power)
  { low := .scaled (4 * steps - if narrow then 1 else 2) 2 (power - 2)
    high := .scaled (4 * steps + 2) 2 (power - 2)
    closed := steps % 2 == 0 }

end BlockCone.Decimal
