/-
This file turns digits into text.

Which digits stand for a double is settled elsewhere; a `Layout` says how they are laid out: which
magnitudes are written out in full and which with an exponent, whether a whole number keeps a
fraction, and which way a tie between two shortest decimals goes. Two layouts are in use. Messages
never use an exponent; saved models do, outside the magnitudes from `1e-5` up to `1e16`. Tables
round to a fixed number of places instead.
-/

import BlockCone.Decimal.Shortest

namespace BlockCone.Decimal

/-- How shortest digits are written. -/
structure Layout where
  /-- What a tie between two shortest decimals does. -/
  tie : Tie
  /-- Whether a number with this exponent of its leading digit is written without an exponent. -/
  positional : Int → Bool
  /-- What follows the digits of a whole number that is written without an exponent. -/
  wholeEnding : String

/-- Messages write every number out, and a whole number without a fraction. -/
def messageLayout : Layout :=
  ⟨.away, fun _ => true, ""⟩

/-- Saved models write an exponent for small and for large numbers, and a fraction for every
number without one. -/
def storedLayout : Layout :=
  ⟨.even, fun leading => decide (-5 ≤ leading) && decide (leading < 16), ".0"⟩

/-- The decimal digits of a natural number. -/
def digitText (value : Nat) : String :=
  String.ofList (Nat.toDigits 10 value)

/-- A run of zeros. -/
def zeros (count : Nat) : String :=
  String.ofList (List.replicate count '0')

/-- A number with `places` digits after the point, given in units of the last of them. -/
def pointText (units places : Nat) : String :=
  let digits := Nat.toDigits 10 units
  let padded := List.replicate (places + 1 - digits.length) '0' ++ digits
  let whole := padded.take (padded.length - places)
  let fraction := padded.drop (padded.length - places)
  String.ofList whole ++ "." ++ String.ofList fraction

namespace Layout

/-- Digits without an exponent. -/
def positionalText (layout : Layout) (digits : Digits) : String :=
  if 0 ≤ digits.exponent then
    digitText digits.significand ++ zeros digits.exponent.toNat ++ layout.wholeEnding
  else
    pointText digits.significand (-digits.exponent).toNat

/-- Digits with an exponent: one digit before the point, and the sign of the exponent always. -/
def exponentText (digits : Digits) (leading : Int) : String :=
  let sign := if leading < 0 then "e-" else "e+"
  let mantissa := match Nat.toDigits 10 digits.significand with
    | [] => ""
    | [single] => String.singleton single
    | first :: rest => String.singleton first ++ "." ++ String.ofList rest
  mantissa ++ sign ++ digitText leading.natAbs

/-- The text of a nonnegative decimal. -/
def unsignedText (layout : Layout) (digits : Digits) : String :=
  let leading := digits.exponent + ((Nat.toDigits 10 digits.significand).length : Int) - 1
  if layout.positional leading then layout.positionalText digits
  else exponentText digits leading

/-- The text of a finite double, with the sign of a negative zero. -/
def finiteText (layout : Layout) (negative : Bool) (steps : Nat) (power : Int) : String :=
  (if negative then "-" else "") ++ layout.unsignedText (shortest layout.tie steps power)

end Layout

/-- The text of a double in a message. -/
def display (value : Float) : String :=
  match Binary.ofFloat value with
  | .notANumber => "NaN"
  | .infinite negative => if negative then "-inf" else "inf"
  | .finite negative steps power => messageLayout.finiteText negative steps power

/-- The text of a double in a saved model, if it has one: only finite numbers do. -/
def stored? (value : Float) : Option String :=
  match Binary.ofFloat value with
  | .finite negative steps power => some (storedLayout.finiteText negative steps power)
  | _ => none

/-! ### A fixed number of places -/

/-- The whole number nearest to a quotient. -/
def roundQuotient (tie : Tie) (num den : Nat) : Nat :=
  let lower := num / den
  if tie.roundsUp lower (num % den) den then lower + 1 else lower

/-- The units of the last of `places` digits after the point that are nearest to a finite
double. -/
def roundedUnits (tie : Tie) (places steps : Nat) (power : Int) : Nat :=
  let value := Ratio.scaled steps 2 power
  roundQuotient tie (value.num * Nat.pow 10 places) value.den

/-- The text of a count of units of the last place. -/
def unitsText (units places : Nat) : String :=
  if places == 0 then digitText units else pointText units places

/-- A double rounded to a fixed number of places, a half going to the even neighbour. The sign of
a negative number stays when it rounds to zero. -/
def fixed (places : Nat) (value : Float) : String :=
  match Binary.ofFloat value with
  | .notANumber => "NaN"
  | .infinite negative => if negative then "-inf" else "inf"
  | .finite negative steps power =>
      (if negative then "-" else "") ++ unitsText (roundedUnits .even places steps power) places

/-- A double rounded to a fixed number of places, where zero has no sign. -/
def fixedUnsignedZero (places : Nat) (value : Float) : String :=
  match Binary.ofFloat value with
  | .notANumber => "NaN"
  | .infinite negative => if negative then "-inf" else "inf"
  | .finite negative steps power =>
      let units := roundedUnits .even places steps power
      (if negative && units != 0 then "-" else "") ++ unitsText units places

/-- A text moved to the right end of a field. -/
def alignRight (width : Nat) (text : String) : String :=
  String.ofList (List.replicate (width - text.length) ' ') ++ text

end BlockCone.Decimal
