/-
This file holds binary floating-point numbers with a long mantissa.

A `Wide` is a whole number times a power of two. The result of an operation keeps the leading
`width` bits of the exact result, so a small whole number stays as it is and everything else is off
by less than one part in `2 ^ (width - 1)`. The power of two has no bounds: nothing overflows,
nothing vanishes, and there are no values but numbers. A quotient by zero is zero.

Where a computation in doubles has to guess whether a small number is noise, one in these numbers
may take everything below the thirtieth digit for noise and still has most of its digits to spare.
-/

import BlockCone.Decimal.Binary

namespace BlockCone

/-- A number `mantissa * 2 ^ exponent`. -/
structure Wide where
  mantissa : Int
  exponent : Int
deriving DecidableEq, Repr, Inhabited

namespace Wide

/-- The number of leading bits that are kept. -/
def width : Nat := 384

/-- The number of bits of a whole number. -/
def bits (value : Nat) : Nat :=
  if value = 0 then 0 else value.log2 + 1

/-- The leading bits of a number. -/
def cut (mantissa exponent : Int) : Wide :=
  let surplus := bits mantissa.natAbs - width
  if surplus = 0 then ⟨mantissa, exponent⟩
  else ⟨mantissa >>> surplus, exponent + surplus⟩

/-- The sum of `high * 2 ^ gap` and `low`, both times a power of two. A number that ends so far
above the other that no bit of that one is left is the sum: none has more bits than a product,
twice `width`. -/
def addShifted (high : Int) (gap : Nat) (low exponent : Int) : Wide :=
  if high = 0 then cut low exponent
  else if low = 0 || 3 * width < gap then cut high (exponent + gap)
  else cut ((high <<< gap) + low) exponent

/-- The sum of two numbers. -/
def add (left right : Wide) : Wide :=
  if left.exponent ≤ right.exponent then
    addShifted right.mantissa (right.exponent - left.exponent).toNat left.mantissa left.exponent
  else
    addShifted left.mantissa (left.exponent - right.exponent).toNat right.mantissa right.exponent

/-- A number with the other sign. -/
def neg (value : Wide) : Wide :=
  ⟨-value.mantissa, value.exponent⟩

/-- The difference of two numbers. -/
def sub (left right : Wide) : Wide :=
  left.add right.neg

/-- The product of two numbers. -/
def mul (left right : Wide) : Wide :=
  cut (left.mantissa * right.mantissa) (left.exponent + right.exponent)

/-- A number with a product added, of which all bits count. -/
def addProduct (value left right : Wide) : Wide :=
  value.add ⟨left.mantissa * right.mantissa, left.exponent + right.exponent⟩

/-- The quotient of two numbers. -/
def div (left right : Wide) : Wide :=
  let shift := width + bits right.mantissa.natAbs
  cut ((left.mantissa <<< shift) / right.mantissa) (left.exponent - right.exponent - shift)

/-- A whole number. -/
def ofNat (value : Nat) : Wide :=
  cut value 0

instance (value : Nat) : OfNat Wide value := ⟨ofNat value⟩
instance : Add Wide := ⟨add⟩
instance : Neg Wide := ⟨neg⟩
instance : Sub Wide := ⟨sub⟩
instance : Mul Wide := ⟨mul⟩
instance : Div Wide := ⟨div⟩

/-! ### Comparisons -/

/-- Whether the first number is strictly less than the second. -/
def below (left right : Wide) : Bool :=
  (left.sub right).mantissa < 0

instance : LT Wide := ⟨fun left right => left.below right = true⟩

instance : DecidableLT Wide := fun left right =>
  inferInstanceAs (Decidable (left.below right = true))

/-- Whether a number is zero. -/
def isZero (value : Wide) : Bool :=
  value.mantissa == 0

/-- The magnitude of a number. -/
def abs (value : Wide) : Wide :=
  ⟨value.mantissa.natAbs, value.exponent⟩

/-- The larger of two numbers. -/
def larger (left right : Wide) : Wide :=
  if left < right then right else left

/-- The smaller of two numbers. -/
def smaller (left right : Wide) : Wide :=
  if right < left then right else left

/-! ### Square roots -/

/-- Improves a number that is not below the square root of another, a number of times. As long as it
is above the root, the mean of the two factors is closer to it. -/
def improveRoot (value : Nat) : Nat → Nat → Nat
  | 0, guess => guess
  | rounds + 1, guess =>
      let next := (guess + value / guess) / 2
      if next < guess then improveRoot value rounds next else guess

/-- The whole part of a square root. -/
def wholeRoot (value : Nat) : Nat :=
  improveRoot value (bits value) (1 <<< (bits value / 2 + 1))

/-- The square root of a number, zero for a number below zero. -/
def sqrt (value : Wide) : Wide :=
  if value.mantissa ≤ 0 then 0
  else
    let mantissa := value.mantissa.toNat
    let room := 2 * width + 1 - bits mantissa
    let shift := if (value.exponent - room) % 2 = 0 then room else room - 1
    ⟨wholeRoot (mantissa <<< shift), (value.exponent - shift) / 2⟩

/-! ### Doubles -/

/-- The number that a double is, if it is one. -/
def ofFloat? (value : Float) : Option Wide :=
  match Decimal.Binary.ofFloat value with
  | .finite negative steps power => some ⟨if negative then -steps else steps, power⟩
  | _ => none

/-- A number as a double. Bits beyond the first 64 do not count. -/
def toFloat (value : Wide) : Float :=
  let magnitude := value.mantissa.natAbs
  let surplus := bits magnitude - 64
  let rounded := (Float.ofNat (magnitude >>> surplus)).scaleB (value.exponent + surplus)
  if value.mantissa < 0 then -rounded else rounded

/-- The power of ten with an exponent that may be negative. -/
def tenTo (exponent : Int) : Wide :=
  if 0 ≤ exponent then ofNat (Nat.pow 10 exponent.toNat)
  else 1 / ofNat (Nat.pow 10 (-exponent).toNat)

end Wide

end BlockCone
