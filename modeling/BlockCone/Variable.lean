/-
This file describes block variables and the parts of them that expressions use.

A block variable is a stack of square matrices that are stored one after the other, each row by
row. The handle of a variable records which problem declared it, as which declaration, and where
its columns start; two handles mean the same variable when problem and declaration agree. A
`Slice` is a view into one variable. Neither holds any values: those come with a solution.
-/

import BlockCone.View
import BlockCone.Domain
import BlockCone.Text.Quoted

namespace BlockCone

/-- The number of a problem. No two problems of a workspace share one. -/
abbrev ProblemId := Nat

/-- The handle of a stack of `blocks` matrices of `dim` rows and columns. -/
structure Variable where
  /-- The problem that declared the variable. -/
  owner : ProblemId
  /-- The number of the declaration within the problem. -/
  index : Nat
  /-- The first column of the variable. -/
  offset : Nat
  name : Option String
  blocks : Nat
  dim : Nat
deriving DecidableEq, Repr

/-- A view into a variable. -/
structure Slice where
  source : Variable
  view : View
deriving DecidableEq, Repr

/-- The block, row and column of an entry of a variable. -/
abbrev Position := Nat × Nat × Nat

namespace Slice

/-- The shape under which the entries are presented. -/
def shape (slice : Slice) : Shape :=
  slice.view.shape

/-- Presents the same entries under another shape. -/
def reshape (slice : Slice) (shape : Shape) : Except Error Slice := do
  let view ← slice.view.reshape shape
  pure { slice with view }

end Slice

namespace Variable

/-- The extents of a variable: blocks, rows, columns. -/
def shape (source : Variable) : Shape :=
  ⟨[source.blocks, source.dim, source.dim]⟩

/-- The number of entries of a variable. -/
def size (source : Variable) : Nat :=
  source.shape.size

/-- The domain in which a variable was declared. -/
def domain {α : Type} (source : Variable) : Domain α :=
  .semidefinite source.dim source.blocks

/-- Whether two handles mean the same declaration of the same problem. -/
def sameAs (left right : Variable) : Bool :=
  left.owner == right.owner && left.index == right.index

/-- The name of a variable, or one made from its number. -/
def label (source : Variable) : String :=
  source.name.getD ("X" ++ toString source.index)

/-- The fields that identify a variable, with its name quoted and the number of its problem left
out. -/
def describe (source : Variable) : String :=
  "ConeBlockVariable \x7b name: " ++ Text.quoted source.label ++
    ", owner: ProblemId(_), shape: " ++ source.shape.describe ++ " \x7d"

/-! ### Slices -/

/-- The whole variable. -/
def all (source : Variable) : Slice :=
  ⟨source, .full source.shape⟩

/-- The box of the entries from `start` up to but not including `stop`. -/
def slice (source : Variable) (start stop : List Nat) : Except Error Slice := do
  let view ← source.shape.select start stop
  pure ⟨source, view⟩

/-- One block of a variable, as a matrix. -/
def block (source : Variable) (number : Nat) : Except Error Slice :=
  if number < source.blocks then do
    let box ← source.slice [number, 0, 0] [number + 1, source.dim, source.dim]
    box.reshape (.matrix source.dim source.dim)
  else
    .error (.indexOutOfRange ("block " ++ toString number) (toString source.blocks ++ " blocks"))

/-- The flat offset of an entry within a variable. -/
def offsetOf (source : Variable) (position : Position) : Except Error Nat :=
  source.shape.flatOffset [position.1, position.2.1, position.2.2]

/-- One entry of a variable, as a number. -/
def element (source : Variable) (position : Position) : Except Error Slice := do
  let (number, row, col) := position
  let _ ← source.offsetOf position
  let box ← source.slice [number, row, col] [number + 1, row + 1, col + 1]
  box.reshape .scalar

/-- The positions of all diagonal entries, block by block. -/
def diagonal (source : Variable) : List Position :=
  (List.range (source.blocks * source.dim)).map fun place =>
    (place / source.dim, place % source.dim, place % source.dim)

/-- The flat offsets of a list of entries. -/
def pick (source : Variable) (positions : List Position) : Except Error (List Nat) :=
  positions.mapM source.offsetOf

end Variable

end BlockCone
