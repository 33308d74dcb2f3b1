/-
This file selects rectangular parts of an array without touching its entries.

A `View` says where its first entry lies, how far it reaches along each dimension of the array it
was cut from, and under which logical shape the selection is presented. Reshaping changes only the
logical shape: the selected offsets and their order are fixed when the box is cut.

The offsets are listed by counting like an odometer, innermost dimension fastest. That the
counting visits exactly the coordinate tuples of the box, in lexicographic order, is what ties
this list to the row-major arithmetic of shapes.
-/

import BlockCone.Shape

namespace BlockCone

/-- A rectangular selection from a row-major array. -/
structure View where
  /-- The flat offset of the first selected entry. -/
  offset : Nat
  /-- How many entries are selected along each dimension of the array. -/
  extents : List Nat
  /-- The strides of the array. -/
  strides : List Nat
  /-- The shape under which the selection is presented. -/
  shape : Shape
deriving DecidableEq, Repr

namespace View

/-- The selection of everything. -/
def full (shape : Shape) : View :=
  ⟨0, shape.dims, shape.strides, shape⟩

/-- The number of selected entries. -/
def size (view : View) : Nat :=
  view.extents.foldr (· * ·) 1

/-- Whether the selected offsets form one unbroken range; an empty selection does. It is enough to
look at the last of them, since the offsets increase. -/
def isContiguous (view : View) : Bool :=
  if view.size == 0 then true
  else strided (view.extents.map (· - 1)) view.strides + 1 == view.size

/-- Presents the selection under another logical shape with as many entries. -/
def reshape (view : View) (shape : Shape) : Except Error View :=
  if shape.size == view.size then
    .ok { view with shape }
  else
    .error (.shapeMismatch (toString view.size ++ " elements")
      (shape.display ++ " (" ++ toString shape.size ++ " elements)"))

/-! ### Listing the offsets -/

/-- Advances a counter by one, the innermost position first. The flag says that every position has
passed its extent and the counter starts over. -/
def advance : List Nat → List Nat → List Nat × Bool
  | extent :: extents, count :: counts =>
      match advance extents counts with
      | (rest, false) => (count :: rest, false)
      | (rest, true) =>
          if count + 1 < extent then ((count + 1) :: rest, false) else (0 :: rest, true)
  | _, _ => ([], true)

/-- Where the listing of a view's offsets stands. -/
structure Cursor where
  /-- The place of the next entry, counted from the corner of the box. -/
  counter : List Nat
  /-- How many entries are still to come. -/
  remaining : Nat
deriving DecidableEq, Repr

/-- Where the listing starts. -/
def start (view : View) : Cursor :=
  ⟨view.extents.map fun _ => 0, view.size⟩

/-- The offset of the next entry, and where the listing stands behind it. -/
def next? (view : View) : Cursor → Option (Nat × Cursor)
  | ⟨_, 0⟩ => none
  | ⟨counter, remaining + 1⟩ =>
      some (view.offset + strided counter view.strides,
        ⟨(advance view.extents counter).1, remaining⟩)

/-- The offsets met within a number of steps, the latest first, before those that were met
already. -/
def visit (view : View) : Nat → Cursor → List Nat → List Nat
  | 0, _, met => met
  | steps + 1, cursor, met =>
      match view.next? cursor with
      | none => met
      | some (index, later) => visit view steps later (index :: met)

/-- The flat offsets of the selected entries, in row-major order of the box. -/
def flatIndices (view : View) : List Nat :=
  (view.visit view.start.remaining view.start []).reverse

end View

namespace Shape

/-- Cuts out the box of the coordinate tuples from `start` up to but not including `stop`. The box
must not be empty in any dimension. -/
def select (shape : Shape) (start stop : List Nat) : Except Error View :=
  if start.length != shape.rank || stop.length != shape.rank then
    .error (.shapeMismatch (arityText shape.rank)
      ("start " ++ coordsText start ++ ", end " ++ coordsText stop))
  else if ((start.zip stop).zip shape.dims).all
      fun ((first, last), dim) => decide (last ≤ dim) && decide (first < last) then
    .ok { offset := strided start shape.strides
          extents := List.zipWith (fun first last => last - first) start stop
          strides := shape.strides
          shape := ⟨List.zipWith (fun first last => last - first) start stop⟩ }
  else
    .error (.indexOutOfRange ("[" ++ coordsText start ++ ", " ++ coordsText stop ++ ")")
      shape.display)

end Shape

end BlockCone
