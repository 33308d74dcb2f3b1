/-
This file is the standard form of a scalar linear expression: for each variable a sparse row over
its entries, and a constant.

Rows are kept under the column at which their variable starts, in increasing order of that column.
`columns` is what a solver is given: the coefficients over the columns of all variables together,
sorted, without those that compare equal to zero. A stored coefficient that cancelled to zero
still counts as a use of its variable; it only disappears there.
-/

import BlockCone.Sparse

namespace BlockCone

/-- A sum of sparse rows over the variables, plus a constant. -/
structure LinearForm (α : Type) where
  /-- The row of each variable under the column at which the variable starts. -/
  rows : List (Nat × Sparse α)
  /-- The constant term. -/
  constant : α

/-- The entries of a row of coefficients, as triplets of a matrix of one row. -/
def rowTriplets {α : Type} (entries : List (Nat × α)) : List (Triplet α) :=
  entries.map fun (col, value) => ⟨0, col, value⟩

/-- Reads an entry of a vector. -/
def readPoint {α : Type} (point : Array α) (col : Nat) : Except Error α :=
  match point[col]? with
  | some value => .ok value
  | none => .error .outOfBounds

/-- The sum of coefficients times entries of a vector, from left to right. -/
def weighedSum {α : Type} [Scalar α] (coeffs : List (Nat × α)) (point : Array α) :
    Except Error α := do
  let terms ← coeffs.mapM fun (col, value) => do
    let level ← readPoint point col
    pure (value * level)
  pure (Scalar.sum terms)

namespace LinearForm

variable {α : Type} [Scalar α]

/-- The form without rows whose constant is zero. -/
def zero : LinearForm α :=
  ⟨[], 0⟩

/-- A constant form. -/
def scalar (value : α) : LinearForm α :=
  ⟨[], value⟩

/-- One row for the variable with `size` entries that starts at `offset`. -/
def term (offset size : Nat) (entries : List (Nat × α)) : Except Error (LinearForm α) := do
  let row ← Sparse.ofTriplets 1 size (rowTriplets entries)
  pure ⟨[(offset, row)], 0⟩

/-- Whether no variable is used. -/
def isConstant (form : LinearForm α) : Bool :=
  form.rows.isEmpty

/-- Adds a row to the row of the same variable, or puts it in its place if there is none. -/
def insertRow (offset : Nat) (row : Sparse α) :
    List (Nat × Sparse α) → Except Error (List (Nat × Sparse α))
  | [] => .ok [(offset, row)]
  | (other, present) :: rest =>
      if offset < other then .ok ((offset, row) :: (other, present) :: rest)
      else if offset = other then do
        let sum ← present.add row
        pure ((other, sum) :: rest)
      else do
        let merged ← insertRow offset row rest
        pure ((other, present) :: merged)

/-- The sum of two forms. -/
def add (left right : LinearForm α) : Except Error (LinearForm α) := do
  let rows ← right.rows.foldlM (fun rows (offset, row) => insertRow offset row rows) left.rows
  pure ⟨rows, left.constant + right.constant⟩

/-- The coefficients over the columns of all variables together, in increasing order of column,
without those that compare equal to zero. -/
def columns (form : LinearForm α) : List (Nat × α) :=
  ((form.rows.flatMap fun (offset, row) =>
      row.rowEntries.map fun (col, value) => (offset + col, value)).filter
    fun (_, value) => !Scalar.isZero value).mergeSort
    fun left right => decide (left.1 ≤ right.1)

/-- The value of a form at a vector. -/
def evaluate (form : LinearForm α) (point : Array α) : Except Error α := do
  let total ← weighedSum form.columns point
  pure (total + form.constant)

end LinearForm

end BlockCone
