/-
This file is the arithmetic of row-major storage.

A `Shape` is a list of extents, outermost first. Entries are stored so that the innermost
coordinate runs fastest: the stride of a dimension is the product of the extents inside it, and
the flat offset of a coordinate tuple is its inner product with the strides. `flatOffset` and
`coordsOf` convert in both directions and refuse what lies outside.
-/

import BlockCone.Error

namespace BlockCone

/-- The extents of a row-major array, outermost first. No extents make a single entry. -/
structure Shape where
  dims : List Nat
deriving DecidableEq, Repr

/-- The text of a coordinate tuple. -/
def coordsText (coords : List Nat) : String :=
  "[" ++ ", ".intercalate (coords.map toString) ++ "]"

/-- The inner product of coordinates and strides. -/
def strided (coords strides : List Nat) : Nat :=
  (List.zipWith (· * ·) coords strides).foldr (· + ·) 0

namespace Shape

/-- The shape of a single entry. -/
def scalar : Shape := ⟨[]⟩

/-- The shape of a column of entries. -/
def vector (length : Nat) : Shape := ⟨[length]⟩

/-- The shape of a matrix. -/
def matrix (rows cols : Nat) : Shape := ⟨[rows, cols]⟩

/-- The number of entries. -/
def size (shape : Shape) : Nat :=
  shape.dims.foldr (· * ·) 1

/-- The number of dimensions. -/
def rank (shape : Shape) : Nat :=
  shape.dims.length

/-- Whether the shape has no dimensions. -/
def isScalar (shape : Shape) : Bool :=
  shape.dims.isEmpty

/-- The leading extent, where a single entry counts as a matrix of one row. -/
def rows (shape : Shape) : Nat :=
  shape.dims.head?.getD 1

/-- The second extent, where a vector counts as one column. -/
def cols (shape : Shape) : Nat :=
  (shape.dims[1]?).getD 1

/-- Whether a matrix of the given extents lines up with this shape. Only shapes of at most two
dimensions can. -/
def matchesMatrix (shape : Shape) (rows cols : Nat) : Bool :=
  shape.rank ≤ 2 && shape.rows == rows && shape.cols == cols

/-- The product of the extents inside each dimension. -/
def stridesOf : List Nat → List Nat
  | [] => []
  | _ :: inner => inner.foldr (· * ·) 1 :: stridesOf inner

/-- The distance in storage of two entries that are neighbours along each dimension. -/
def strides (shape : Shape) : List Nat :=
  stridesOf shape.dims

/-- The text of a shape in a message: a vector keeps the comma after its only extent. -/
def display (shape : Shape) : String :=
  match shape.dims with
  | [] => "()"
  | [length] => "(" ++ toString length ++ ",)"
  | dims => "(" ++ ", ".intercalate (dims.map toString) ++ ")"

/-- The text of a shape as a field of a record. -/
def describe (shape : Shape) : String :=
  "Shape(" ++ coordsText shape.dims ++ ")"

/-- The text of a number of coordinates. -/
def arityText (arity : Nat) : String :=
  toString arity ++ " coordinates"

/-- The flat offset of a coordinate tuple with one coordinate below each extent. -/
def flatOffset (shape : Shape) (coords : List Nat) : Except Error Nat :=
  if coords.length != shape.rank then
    .error (.shapeMismatch (arityText shape.rank) (arityText coords.length))
  else if (List.zipWith (fun coord dim => decide (coord < dim)) coords shape.dims).all id then
    .ok (strided coords shape.strides)
  else
    .error (.indexOutOfRange (coordsText coords) shape.display)

/-- Divides an offset by the strides, outermost first, passing the remainder inward. -/
def splitOffset : List Nat → Nat → List Nat
  | [], _ => []
  | stride :: inner, offset => offset / stride :: splitOffset inner (offset % stride)

/-- The coordinate tuple of a flat offset. -/
def coordsOf (shape : Shape) (offset : Nat) : Except Error (List Nat) :=
  if offset < shape.size then
    .ok (splitOffset shape.strides offset)
  else
    .error (.indexOutOfRange (toString offset) (toString shape.size))

end Shape

end BlockCone
