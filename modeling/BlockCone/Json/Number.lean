/-
This file reads numbers.

A number is scanned by its grammar first: a sign, digits without needless zeros, perhaps a
fraction, perhaps an exponent. Only then is its value computed. A whole number below `2 ^ 64`
stays a natural number. Every other number becomes a double in two steps: the digits are taken as
a whole number, as many as stay below `2 ^ 64`, and the double of that number is multiplied or
divided by a power of ten. Both steps round, so the result is close to the number but not always
the nearest double. A number that comes out infinite is not accepted.

A text that ends where a digit has to follow is a fault of its own, and which one depends on
whether the number is wanted or only passed over, so it is a parameter of the scanner.
-/

import BlockCone.Error
import BlockCone.Decimal.Shortest

namespace BlockCone.Json

/-- Whole numbers below this one, `2 ^ 64`, stay natural numbers. -/
def naturalLimit : Nat := 18446744073709551616

/-- The parts of a number. -/
structure Numeral where
  negative : Bool
  whole : List Char
  fraction : List Char
  /-- The exponent, if one is written. -/
  exponent : Option Int
deriving DecidableEq, Repr

/-- What a number is read as. -/
inductive Number where
  | natural (value : Nat)
  | real (value : Float)

/-- The value of a decimal digit. -/
def digitValue (digit : Char) : Nat :=
  digit.toNat - '0'.toNat

/-- The value of decimal digits. -/
def digitsValue (digits : List Char) : Nat :=
  digits.foldl (fun value digit => 10 * value + digitValue digit) 0

/-- Takes the digits at the head of a text, of which there has to be one. -/
def scanDigits (atEnd : Fault) (chars : List Char) : Except Fault (List Char × List Char) :=
  match chars.takeWhile Char.isDigit, chars.dropWhile Char.isDigit with
  | [], [] => .error atEnd
  | [], _ :: _ => .error .malformed
  | digits, rest => .ok (digits, rest)

/-- Takes the digits before the point. A zero at their head must be alone. -/
def scanWhole (atEnd : Fault) (chars : List Char) : Except Fault (List Char × List Char) := do
  let (digits, rest) ← scanDigits atEnd chars
  match digits with
  | '0' :: _ :: _ => .error .malformed
  | _ => .ok (digits, rest)

/-- Takes a point and the digits behind it, if there is a point. -/
def scanFraction (atEnd : Fault) : List Char → Except Fault (List Char × List Char)
  | '.' :: rest => scanDigits atEnd rest
  | rest => .ok ([], rest)

/-- Takes an exponent, if there is one. -/
def scanExponent (atEnd : Fault) : List Char → Except Fault (Option Int × List Char)
  | 'e' :: rest | 'E' :: rest =>
      match rest with
      | '-' :: rest => do
          let (digits, rest) ← scanDigits atEnd rest
          pure (some (-(digitsValue digits : Int)), rest)
      | '+' :: rest => do
          let (digits, rest) ← scanDigits atEnd rest
          pure (some (digitsValue digits : Int), rest)
      | rest => do
          let (digits, rest) ← scanDigits atEnd rest
          pure (some (digitsValue digits : Int), rest)
  | rest => .ok (none, rest)

/-- Takes the parts of a number from the head of a text. -/
def scanNumeral (atEnd : Fault) (chars : List Char) : Except Fault (Numeral × List Char) := do
  let (negative, chars) := match chars with
    | '-' :: rest => (true, rest)
    | rest => (false, rest)
  let (whole, chars) ← scanWhole atEnd chars
  let (fraction, chars) ← scanFraction atEnd chars
  let (exponent, chars) ← scanExponent atEnd chars
  pure (⟨negative, whole, fraction, exponent⟩, chars)

/-! ### Values -/

/-- Appends digits to a whole number for as long as it stays below `naturalLimit`. Returns the
number and how many digits it took. -/
def appendDigits (number : Nat) : List Char → Nat × Nat
  | [] => (number, 0)
  | digit :: rest =>
      let longer := 10 * number + digitValue digit
      if longer < naturalLimit then
        let (number, taken) := appendDigits longer rest
        (number, taken + 1)
      else (number, 0)

/-- The power of ten as a double. The largest is `10 ^ 308`. -/
def powerOfTen (exponent : Nat) : Float :=
  Float.ofScientific 1 false exponent

/-- The largest exponent of a power of ten that is a double. -/
def largestPower : Nat := 308

/-- Multiplies a value by a power of ten. Beyond the largest power only zero stays finite. -/
def scaleUp (value : Float) (exponent : Nat) : Float :=
  if exponent ≤ largestPower then value * powerOfTen exponent
  else if value == 0.0 then value
  else 1.0 / 0.0

/-- Divides a value by a power of ten, by at most the largest one at a time. -/
def scaleDown (value : Float) (exponent : Nat) : Float :=
  if exponent ≤ largestPower then value / powerOfTen exponent
  else if value == 0.0 then value
  else scaleDown (value / powerOfTen largestPower) (exponent - largestPower)
termination_by exponent
decreasing_by
  simp only [largestPower] at *
  omega

namespace Numeral

/-- The digits of a number that count, and the power of ten that they are multiples of. Digits
before the point that do not fit any more count as zeros, those behind it are dropped. -/
def kept (numeral : Numeral) : Decimal.Digits :=
  let (whole, wholeTaken) := appendDigits 0 numeral.whole
  let (significand, fractionTaken) := appendDigits whole numeral.fraction
  { significand
    exponent := numeral.exponent.getD 0 + ((numeral.whole.length - wholeTaken : Nat) : Int) -
      (fractionTaken : Int) }

/-- The double that a number is read as, without its sign: its digits as a double, scaled by a power
of ten. Every step rounds, so a number with many digits may end up beside the nearest double. -/
def magnitude (numeral : Numeral) : Float :=
  let digits := numeral.kept
  let value := Float.ofNat digits.significand
  if 0 ≤ digits.exponent then scaleUp value digits.exponent.toNat
  else scaleDown value (-digits.exponent).toNat

/-- The double that a number is read as. -/
def toDouble (numeral : Numeral) : Float :=
  if numeral.negative then -numeral.magnitude else numeral.magnitude

/-- Whether a number is a natural number that is written as one. -/
def isNatural (numeral : Numeral) : Bool :=
  !numeral.negative && numeral.fraction.isEmpty && numeral.exponent.isNone

/-- What a number is read as. -/
def toNumber (numeral : Numeral) : Except Fault Number :=
  if numeral.isNatural && decide (digitsValue numeral.whole < naturalLimit) then
    .ok (.natural (digitsValue numeral.whole))
  else if numeral.toDouble.isFinite then
    .ok (.real numeral.toDouble)
  else
    .error .malformed

end Numeral

/-- The double that a number is read as. -/
def Number.toDouble : Number → Float
  | .natural value => Float.ofNat value
  | .real value => value

end BlockCone.Json
