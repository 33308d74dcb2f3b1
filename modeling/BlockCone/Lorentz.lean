/-
This file is the geometry of second-order cones, as an interior-point method needs it.

A vector lies in the cone when its first entry is at least the length of the others. In one
dimension that is the nonnegative half-line, so linear inequalities need no treatment of their
own. Two interior points `s` and `z` determine a scaling, a symmetric map `W` of the cone onto
itself, that takes both to the same point: `W z = W⁻¹ s`. It is given by a number and a unit
vector of the cone.
-/

import BlockCone.Wide.Vec

namespace BlockCone.Lorentz

open BlockCone.Wide BlockCone.Vec

/-- The first entry of a vector. -/
def head (vector : Vec) : Wide :=
  vector.getD 0 0

/-- The entries of a vector but the first. -/
def tail (vector : Vec) : Vec :=
  vector.extract 1 vector.size

/-- The vector with a first entry and the others. -/
def join (first : Wide) (others : Vec) : Vec :=
  #[first] ++ others

/-- How far a vector lies inside the cone; negative outside of it. -/
def margin (vector : Vec) : Wide :=
  head vector - Vec.length (tail vector)

/-- The inner product that counts all entries but the first negatively. -/
def form (left right : Vec) : Wide :=
  head left * head right - dot (tail left) (tail right)

/-- The form of a vector with itself. -/
def square (vector : Vec) : Wide :=
  form vector vector

/-- The square root of the form of a vector of the cone with itself. -/
def size (vector : Vec) : Wide :=
  if vector.size ≤ 1 then larger 0 (head vector) else (square vector).sqrt

/-- The vector with all entries but the first negated. -/
def reflect (vector : Vec) : Vec :=
  join (head vector) (negated (tail vector))

/-- The unit of a cone. -/
def unit (size : Nat) : Vec :=
  (Array.range size).map fun index => if index = 0 then 1 else 0

/-- The product of a cone, whose unit is `unit`. -/
def product (left right : Vec) : Vec :=
  join (dot left right) (addScaled (scaled (head left) (tail right)) (head right) (tail left))

/-- The vector whose product with `divisor` is given. -/
def divide (divisor target : Vec) : Vec :=
  let first := form divisor target / square divisor
  join first
    (scaled (1 / head divisor) (addScaled (tail target) (-first) (tail divisor)))

/-- The scaling of two interior points. -/
structure Scaling where
  size : Wide
  /-- A vector of the cone whose form with itself is one. -/
  axis : Vec
  /-- The point to which the scaling takes both. -/
  middle : Vec

/-- The scaling that changes nothing. -/
def identity (size : Nat) : Scaling :=
  ⟨1, unit size, unit size⟩

/-- The scaling that takes two interior points to the same point. -/
def scaling (slack dual : Vec) : Scaling :=
  let slackSize := size slack
  let dualSize := size dual
  let slackUnit := scaled (1 / slackSize) slack
  let dualUnit := scaled (1 / dualSize) dual
  let sum := addScaled slackUnit 1 (reflect dualUnit)
  let length := size sum
  let others := scaled (1 / length) (tail sum)
  let half := length / 2
  let weight := 1 / (head slackUnit + head dualUnit + length)
  let middle := join half (addScaled
    (scaled (weight * (half + head dualUnit)) (tail slackUnit))
    (weight * (half + head slackUnit)) (tail dualUnit))
  { size := (slackSize / dualSize).sqrt
    axis := join (1 + dot others others).sqrt others
    middle := scaled (slackSize * dualSize).sqrt middle }

namespace Scaling

/-- The image of a vector under the map of the cone that is given by its axis. -/
def along (axis vector : Vec) : Vec :=
  let inner := dot (tail axis) (tail vector)
  join (head axis * head vector + inner)
    (addScaled (tail vector) (head vector + inner / (1 + head axis)) (tail axis))

/-- The image of a vector. -/
def apply (scaling : Scaling) (vector : Vec) : Vec :=
  scaled scaling.size (along scaling.axis vector)

/-- The vector with a given image. -/
def applyInverse (scaling : Scaling) (vector : Vec) : Vec :=
  scaled (1 / scaling.size) (along (reflect scaling.axis) vector)

/-- An entry of the matrix that scales twice. -/
def squareEntry (scaling : Scaling) (row col : Nat) : Wide :=
  let reflected := if row ≠ col then 0 else if row = 0 then 1 else -1
  scaling.size * scaling.size *
    (2 * scaling.axis.getD row 0 * scaling.axis.getD col 0 - reflected)

end Scaling

/-- How far one can go from a positive number in a direction before it vanishes, up to a limit. -/
def reachZero (limit value change : Wide) : Wide :=
  if change < 0 then smaller limit (-value / change) else limit

/-- A root of a quadratic as a distance: roots behind the start do not count. -/
def ahead (limit root : Wide) : Wide :=
  if root < 0 then limit else smaller limit root

/-- How far one can go from an interior point in a direction before leaving the cone, up to a
limit: the first entry has to stay positive, and the form of the moving point with itself, too.
A direction that goes through the tip of the cone meets both at once. -/
def reach (limit : Wide) (point direction : Vec) : Wide :=
  let limit := reachZero limit (head point) (head direction)
  if point.size ≤ 1 then limit
  else
    let quadratic := square direction
    let linear := 2 * form point direction
    let constant := larger 0 (square point)
    let discriminant := linear * linear - 4 * quadratic * constant
    if discriminant < 0 || (0 < quadratic && 0 < linear) then limit
    else if quadratic.isZero then
      -- Without a quadratic part there is at most one root.
      reachZero limit constant linear
    else
      let root := discriminant.sqrt
      let double := if linear < 0 then root - linear else -linear - root
      smaller (ahead limit (2 * constant / double)) (ahead limit (double / (2 * quadratic)))

end BlockCone.Lorentz
