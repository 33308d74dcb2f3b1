/-
This file assembles sparse matrices.

A sparse matrix is given by triplets of a row, a column and a value, in any order and with
repetitions. Assembling sorts them by column and then by row, without disturbing the order in
which triplets of one position were given, and adds up each position from its first value on. A
position that was named is stored, whatever its sum comes to: nothing here asks whether a value is
zero, and nothing is assumed of the addition.

The stored entries can be read back as the three lists of compressed columns: where each column
starts, the row of each entry, and its value.
-/

import BlockCone.Matrix

namespace BlockCone

/-- A value at a position of a matrix. -/
structure Triplet (α : Type) where
  row : Nat
  col : Nat
  value : α

namespace Triplet

variable {α : Type}

/-- The order of storage: by column, then by row. -/
def notAfter (left right : Triplet α) : Bool :=
  decide (left.col < right.col) || (left.col == right.col && decide (left.row ≤ right.row))

/-- Whether two triplets name the same position. -/
def samePosition (left right : Triplet α) : Bool :=
  left.col == right.col && left.row == right.row

/-- Whether a triplet lies inside a matrix of the given extents. -/
def isWithin (rows cols : Nat) (triplet : Triplet α) : Bool :=
  decide (triplet.row < rows) && decide (triplet.col < cols)

end Triplet

/-- A sparse matrix. Its entries are stored in increasing order of column and row, each position
at most once. -/
structure Sparse (α : Type) where
  rows : Nat
  cols : Nat
  entries : List (Triplet α)

namespace Sparse

variable {α : Type}

/-- The sparse matrix that stores nothing. -/
def empty (rows cols : Nat) : Sparse α :=
  ⟨rows, cols, []⟩

section Assembly

variable [Add α]

/-- Adds to the first triplet all those that follow it at the same position, and goes on from
there. -/
def mergeInto (first : Triplet α) : List (Triplet α) → List (Triplet α)
  | [] => [first]
  | next :: rest =>
      if first.samePosition next then
        mergeInto { first with value := first.value + next.value } rest
      else
        first :: mergeInto next rest

/-- Adds up neighbours at the same position. -/
def mergeNeighbours : List (Triplet α) → List (Triplet α)
  | [] => []
  | first :: rest => mergeInto first rest

/-- Assembles triplets that all lie inside the matrix. -/
def assemble (rows cols : Nat) (triplets : List (Triplet α)) : Sparse α :=
  ⟨rows, cols, mergeNeighbours (triplets.mergeSort Triplet.notAfter)⟩

/-- Assembles triplets, refusing one that lies outside of the matrix. -/
def ofTriplets (rows cols : Nat) (triplets : List (Triplet α)) : Except Error (Sparse α) :=
  if triplets.all (Triplet.isWithin rows cols) then
    .ok (assemble rows cols triplets)
  else
    .error .outOfBounds

/-- Assembles parallel lists of rows, columns and values; the shortest decides how many triplets
there are. -/
def ofLists (rows cols : Nat) (rowList colList : List Nat) (values : List α) :
    Except Error (Sparse α) :=
  ofTriplets rows cols
    (((rowList.zip colList).zip values).map fun ((row, col), value) => ⟨row, col, value⟩)

/-- The sum of two sparse matrices, as large as the first. Every entry of the second must lie in
it. -/
def add (left right : Sparse α) : Except Error (Sparse α) :=
  ofTriplets left.rows left.cols (left.entries ++ right.entries)

end Assembly

/-- Whether every stored entry lies inside the matrix. -/
def isWithin (matrix : Sparse α) : Bool :=
  matrix.entries.all (Triplet.isWithin matrix.rows matrix.cols)

/-- The number of stored entries. -/
def stored (matrix : Sparse α) : Nat :=
  matrix.entries.length

/-- The stored entries of a matrix of one row, as columns and values. -/
def rowEntries (matrix : Sparse α) : List (Nat × α) :=
  matrix.entries.map fun triplet => (triplet.col, triplet.value)

/-! ### Compressed columns -/

/-- The number of entries before each column and after the last one, counted from a column on. -/
def offsetsFrom : Nat → Nat → Nat → List (Triplet α) → List Nat
  | 0, _, seen, _ => [seen]
  | columns + 1, col, seen, entries =>
      let here := (entries.takeWhile fun triplet => triplet.col == col).length
      seen :: offsetsFrom columns (col + 1) (seen + here) (entries.drop here)

/-- Where each column starts among the entries, and where the last one ends. -/
def colOffsets (matrix : Sparse α) : List Nat :=
  offsetsFrom matrix.cols 0 0 matrix.entries

/-- The row of each stored entry. -/
def rowIndices (matrix : Sparse α) : List Nat :=
  matrix.entries.map Triplet.row

/-- The value of each stored entry. -/
def values (matrix : Sparse α) : List α :=
  matrix.entries.map Triplet.value

/-- The value stored at a position, if there is one. -/
def lookup (matrix : Sparse α) (row col : Nat) : Option α :=
  (matrix.entries.find? fun triplet => triplet.row == row && triplet.col == col).map
    Triplet.value

/-- The matrix with zeros wherever nothing is stored. -/
def toDense [Scalar α] (matrix : Sparse α) : Matrix α :=
  Matrix.ofFn matrix.rows matrix.cols fun row col => (matrix.lookup row col).getD 0

end Sparse

end BlockCone
