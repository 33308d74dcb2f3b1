/-
This file finds the fewest decimal digits that determine a double.

For one digit, then two, and so on, the number has two neighbours on the grid of decimals with
that many digits. The first grid that has a neighbour inside the rounding window is the answer's,
and of two such neighbours the nearer is taken; a rule says what an exact tie does. A grid point
lies in the window only if a neighbour does, so no shorter decimal is missed, and seventeen digits
are always enough.
-/

import BlockCone.Decimal.Binary

namespace BlockCone.Decimal

/-- What an exact half does. -/
inductive Tie where
  /-- It goes away from zero. -/
  | away
  /-- It goes to the even neighbour. -/
  | even
deriving DecidableEq, Repr

/-- Whether the upper of two whole neighbours is taken, when the value exceeds the lower one by
`remainder` parts out of `divisor`. -/
def Tie.roundsUp (tie : Tie) (lower remainder divisor : Nat) : Bool :=
  if 2 * remainder < divisor then false
  else if divisor < 2 * remainder then true
  else match tie with
    | .away => true
    | .even => lower % 2 == 1

/-- A decimal `significand * 10 ^ exponent`. -/
structure Digits where
  significand : Nat
  exponent : Int
deriving DecidableEq, Repr

namespace Digits

/-- The number that the digits stand for. -/
def toRatio (digits : Digits) : Ratio :=
  .scaled digits.significand 10 digits.exponent

/-- Removes zeros at the end of the significand, at most `budget` of them. -/
def trim : Nat → Digits → Digits
  | 0, digits => digits
  | budget + 1, digits =>
      if digits.significand != 0 && digits.significand % 10 == 0 then
        trim budget ⟨digits.significand / 10, digits.exponent + 1⟩
      else digits

end Digits

/-- Raises an exponent while its successor's power of ten is still at most the value. -/
def raiseExponent (value : Ratio) : Nat → Int → Int
  | 0, exponent => exponent
  | budget + 1, exponent =>
      if (Ratio.scaled 1 10 (exponent + 1)).atMost value then
        raiseExponent value budget (exponent + 1)
      else exponent

/-- The exponent of the leading decimal digit of a positive rational. The binary lengths give an
estimate that is too small by at most three. -/
def leadingExponent (value : Ratio) : Int :=
  let binary : Int := (Nat.log2 value.num : Int) - (Nat.log2 value.den : Int) - 1
  raiseExponent value 6 (Int.fdiv (binary * 30103) 100000 - 1)

/-- The neighbours of a value on the grid of multiples of `10 ^ exponent` that lie in a window:
the nearer one, if there is any. -/
def gridPoint (tie : Tie) (value : Ratio) (window : Window) (exponent : Int) : Option Digits :=
  let quotient := value.divide (.scaled 1 10 exponent)
  let lower := quotient.floor
  let lowerFits := window.contains (Digits.mk lower exponent).toRatio
  let upperFits := window.contains (Digits.mk (lower + 1) exponent).toRatio
  if lowerFits && upperFits then
    if tie.roundsUp lower (quotient.num % quotient.den) quotient.den then some ⟨lower + 1, exponent⟩
    else some ⟨lower, exponent⟩
  else if lowerFits then some ⟨lower, exponent⟩
  else if upperFits then some ⟨lower + 1, exponent⟩
  else none

/-- The first grid with a point in the window, each grid ten times finer than the last. -/
def finerGrids (tie : Tie) (value : Ratio) (window : Window) : Nat → Int → Digits
  | 0, exponent => ⟨(value.divide (.scaled 1 10 exponent)).floor, exponent⟩
  | budget + 1, exponent =>
      match gridPoint tie value window exponent with
      | some digits => digits
      | none => finerGrids tie value window budget (exponent - 1)

/-- The fewest digits that read back as `steps * 2 ^ power`, the nearest of those. -/
def shortest (tie : Tie) (steps : Nat) (power : Int) : Digits :=
  if steps == 0 then ⟨0, 0⟩
  else
    let value := Ratio.scaled steps 2 power
    let window := roundingWindow steps power
    (finerGrids tie value window 17 (leadingExponent value)).trim 20

end BlockCone.Decimal
