/-
This file computes with shapes and views in words that wrap around.

The definitions of shapes and views calculate with unbounded numbers. A machine that does not stop
where a result has no word keeps what is left of it modulo `2 ^ 64` and goes on. The programs here
are the calls on shapes and views as such a machine carries them out.

Only products and sums can wrap. A difference is taken where a comparison has shown that it is a
number, and a count of the listing is increased only up to an extent, which is a word itself.
-/

import BlockCone.Problem

namespace BlockCone

namespace Wrapped

/-- What a word keeps of a number. -/
def wrap (value : Nat) : Nat :=
  value % Problem.columnLimit

/-- The sum of two words. -/
def add (left right : Nat) : Nat :=
  wrap (left + right)

/-- The product of two words. -/
def mul (left right : Nat) : Nat :=
  wrap (left * right)

/-- The product of a list, from left to right. -/
def product (factors : List Nat) : Nat :=
  factors.foldl mul 1

/-- The inner product of coordinates and strides, from left to right. -/
def innerProduct (coords strides : List Nat) : Nat :=
  (List.zipWith mul coords strides).foldl add 0

/-! ### Shapes -/

/-- The strides of an array, from the last one to the first. -/
def strides : List Nat → List Nat
  | [] => []
  | [_] => [1]
  | _ :: next :: inner =>
      let later := strides (next :: inner)
      mul (later.headD 1) next :: later

/-- The selection of everything. -/
def full (shape : Shape) : View :=
  ⟨0, shape.dims, strides shape.dims, shape⟩

/-- Cuts out the box from `start` up to but not including `stop`. The corners are compared with the
extents as they are, so they are refused as they would be with unbounded numbers. -/
def select (shape : Shape) (start stop : List Nat) : Except Error View :=
  if start.length != shape.rank || stop.length != shape.rank then
    .error (.shapeMismatch (Shape.arityText shape.rank)
      ("start " ++ coordsText start ++ ", end " ++ coordsText stop))
  else if ((start.zip stop).zip shape.dims).all
      fun ((first, last), dim) => decide (last ≤ dim) && decide (first < last) then
    .ok { offset := innerProduct start (strides shape.dims)
          extents := List.zipWith (fun first last => last - first) start stop
          strides := strides shape.dims
          shape := ⟨List.zipWith (fun first last => last - first) start stop⟩ }
  else
    .error (.indexOutOfRange ("[" ++ coordsText start ++ ", " ++ coordsText stop ++ ")")
      shape.display)

/-! ### Views -/

/-- The number of selected entries. -/
def size (view : View) : Nat :=
  product view.extents

/-- Whether the selected offsets form one unbroken range. -/
def isContiguous (view : View) : Bool :=
  if size view = 0 then true
  else add (innerProduct (view.extents.map (· - 1)) view.strides) 1 == size view

/-- Presents the selection under another logical shape with as many entries. -/
def reshape (view : View) (shape : Shape) : Except Error View :=
  if product shape.dims = size view then
    .ok { view with shape }
  else
    .error (.shapeMismatch (toString (size view) ++ " elements")
      (shape.display ++ " (" ++ toString (product shape.dims) ++ " elements)"))

/-- Where the listing starts. -/
def start (view : View) : View.Cursor :=
  ⟨view.extents.map fun _ => 0, size view⟩

/-- The offset of the next entry, and where the listing stands behind it. -/
def next? (view : View) : View.Cursor → Option (Nat × View.Cursor)
  | ⟨_, 0⟩ => none
  | ⟨counter, remaining + 1⟩ =>
      some (add view.offset (innerProduct counter view.strides),
        ⟨(View.advance view.extents counter).1, remaining⟩)

/-- The offsets met within a number of steps, the latest first, before those that were met
already. -/
def visit (view : View) : Nat → View.Cursor → List Nat → List Nat
  | 0, _, met => met
  | steps + 1, cursor, met =>
      match next? view cursor with
      | none => met
      | some (index, later) => visit view steps later (index :: met)

/-- The flat offsets of the selected entries, in row-major order of the box. -/
def flatIndices (view : View) : List Nat :=
  (visit view (size view) (start view) []).reverse

end Wrapped

end BlockCone
