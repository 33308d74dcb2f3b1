/-
This file holds vectors of numbers with a long mantissa, as arrays. Operations on two vectors go as
far as the shorter one.
-/

import BlockCone.Wide

namespace BlockCone

/-- A vector. -/
abbrev Vec := Array Wide

namespace Vec

/-- The vector of zeros. -/
def zeros (size : Nat) : Vec :=
  Array.replicate size 0

/-- The inner product of two vectors. -/
def dot (left right : Vec) : Wide :=
  (Array.zipWith (· * ·) left right).foldl (· + ·) 0

/-- The vector of the products of entries at the same place. -/
def entrywise (left right : Vec) : Vec :=
  Array.zipWith (· * ·) left right

/-- A multiple of a vector. -/
def scaled (factor : Wide) (vector : Vec) : Vec :=
  vector.map (factor * ·)

/-- A multiple of a vector added to another. -/
def addScaled (base : Vec) (factor : Wide) (direction : Vec) : Vec :=
  Array.zipWith (fun value change => value.addProduct factor change) base direction

/-- The vector with all entries negated. -/
def negated (vector : Vec) : Vec :=
  vector.map (- ·)

/-- The entry of a vector that is largest in magnitude. -/
def largest (vector : Vec) : Wide :=
  vector.foldl (fun largest value => Wide.larger largest value.abs) 0

/-- The length of a vector. -/
def length (vector : Vec) : Wide :=
  (dot vector vector).sqrt

end Vec

end BlockCone
