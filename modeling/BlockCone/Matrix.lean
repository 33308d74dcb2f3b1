/-
This file holds the data matrices that expressions weigh their variables with.

A `Matrix` keeps its entries in one list, row after row, together with the fact that there are as
many of them as the extents say. Entry `(row, col)` is therefore entry `row * cols + col` of the
list, the same order in which a view lists its offsets.

A symmetric matrix is built from a generator of its lower triangle. The generator may carry a
state of its own from call to call, so the order of the calls is part of what `symmetric` does:
row by row, each row up to the diagonal.
-/

import BlockCone.Scalar
import BlockCone.Error

namespace BlockCone

/-- A matrix of `rows * cols` entries, row after row. -/
structure Matrix (α : Type) where
  rows : Nat
  cols : Nat
  entries : List α
  size_eq : entries.length = rows * cols

namespace Matrix

variable {α : Type}

/-- The entry at a row and a column, if both lie in the matrix. -/
def entry? (matrix : Matrix α) (row col : Nat) : Option α :=
  if col < matrix.cols then matrix.entries[row * matrix.cols + col]? else none

/-- The rows of a matrix. -/
def toRows (matrix : Matrix α) : List (List α) :=
  (List.range matrix.rows).map fun row =>
    (matrix.entries.drop (row * matrix.cols)).take matrix.cols

theorem length_flatMap_range (rows cols : Nat) (entry : Nat → Nat → α) :
    ((List.range rows).flatMap fun row => (List.range cols).map (entry row)).length =
      rows * cols := by
  induction rows with
  | zero => simp
  | succ rows inductionHypothesis =>
    rw [List.range_succ, List.flatMap_append, List.length_append, inductionHypothesis]
    simp [Nat.succ_mul]

/-- The matrix whose entries a function gives. -/
def ofFn (rows cols : Nat) (entry : Nat → Nat → α) : Matrix α :=
  ⟨rows, cols, (List.range rows).flatMap fun row => (List.range cols).map (entry row),
    length_flatMap_range rows cols entry⟩

/-- The matrix of a list of values, row after row. There must be exactly as many as it needs. -/
def ofValues (values : List α) (rows cols : Nat) : Except Error (Matrix α) :=
  if fits : values.length = rows * cols then
    .ok ⟨rows, cols, values, fits⟩
  else
    .error (.shapeMismatch
      (toString (rows * cols) ++ " values for (" ++ toString rows ++ ", " ++ toString cols ++ ")")
      (toString values.length))

/-- Writes one entry of a matrix. -/
def set (matrix : Matrix α) (row col : Nat) (value : α) : Matrix α :=
  { matrix with
    entries := matrix.entries.set (row * matrix.cols + col) value
    size_eq := by rw [List.length_set, matrix.size_eq] }

section Scalars

variable [Scalar α]

/-- The matrix of zeros. -/
def zero (rows cols : Nat) : Matrix α :=
  ⟨rows, cols, List.replicate (rows * cols) 0, List.length_replicate⟩

/-- The identity matrix. -/
def identity (dim : Nat) : Matrix α :=
  ofFn dim dim fun row col => if row = col then 1 else 0

/-- The matrix with the given values on its diagonal and zeros elsewhere. -/
def diagonal (values : List α) : Matrix α :=
  ofFn values.length values.length fun row col => if row = col then (values[row]?).getD 0 else 0

/-- The symmetric matrix of a generator of its lower triangle. The generator is called once for
every entry on or below the diagonal, row by row, and each answer is written on both sides of the
diagonal. -/
def symmetric {m : Type → Type} [Monad m] (dim : Nat) (next : Nat → Nat → m α) :
    m (Matrix α) :=
  (List.range dim).foldlM (fun matrix row =>
    (List.range (row + 1)).foldlM (fun matrix col => do
      let value ← next row col
      pure ((matrix.set row col value).set col row value)) matrix) (zero dim dim)

/-- The entry at a row and a column, zero outside of the matrix. -/
def entry (matrix : Matrix α) (row col : Nat) : α :=
  (matrix.entry? row col).getD 0

/-- Whether a matrix is square and no two opposite entries differ by more than a tolerance. A
difference that is not a number does not exceed it. -/
def isSymmetric (matrix : Matrix α) (tolerance : α) : Bool :=
  matrix.rows == matrix.cols &&
    (List.range matrix.rows).all fun row =>
      (List.range row).all fun col =>
        !Scalar.below tolerance
          (Scalar.magnitude (matrix.entry col row - matrix.entry row col))

end Scalars

end Matrix

end BlockCone
