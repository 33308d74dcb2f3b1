/-
This file scales the columns and the rows of a program so that its coefficients are of like size.

Every round divides each column and each row by the square root of its largest coefficient, which
after a few rounds brings all of them close to one. The factors stay within four powers of ten of
one. The rows of one cone have to keep their proportions, so at the end they get a common factor.
-/

import BlockCone.InteriorPoint.Program

namespace BlockCone.InteriorPoint

open BlockCone.Wide BlockCone.Vec

/-- The factors of the columns and of the rows of a program. -/
structure Factors where
  columns : Vec
  rows : Vec

namespace Factors

/-- The factors that change nothing. -/
def ones (program : Program) : Factors :=
  ⟨Array.replicate program.columns 1, Array.replicate program.rows.size 1⟩

/-- Scales the columns and the rows of a program. -/
def scale (factors : Factors) (program : Program) : Program :=
  { program with
    cost := entrywise program.cost factors.columns
    rows := Array.zipWith (fun (row : Entries) factor =>
      row.map fun (col, value) => (col, value * factors.columns.getD col 1 * factor))
      program.rows factors.rows
    bounds := entrywise program.bounds factors.rows }

/-- The largest factor; its inverse is the smallest. -/
def most : Wide :=
  tenTo 4

/-- The factor after a round, for a column or a row with a largest coefficient. -/
def improve (factor largest : Wide) : Wide :=
  if largest.isZero then factor
  else larger (1 / most) (smaller most (factor / largest.sqrt))

/-- One round. -/
def round (program : Program) (factors : Factors) : Factors :=
  let scaled := factors.scale program
  let columns := scaled.rows.foldl (fun (most : Vec) row =>
    row.foldl (fun (most : Vec) (col, value) => most.modify col (larger · value.abs)) most)
    (zeros program.columns)
  let rows := scaled.rows.map fun row => largest (row.map Prod.snd).toArray
  { columns := Array.zipWith improve factors.columns columns
    rows := Array.zipWith improve factors.rows rows }

/-- A number of rounds. -/
def rounds (program : Program) : Nat → Factors → Factors
  | 0, factors => factors
  | count + 1, factors => rounds program count (round program factors)

/-- Gives the rows of each cone their mean factor. -/
def levelled (program : Program) (factors : Factors) : Factors :=
  let means := (program.pieces factors.rows).map fun piece =>
    Array.replicate piece.size (piece.foldl (· + ·) 0 / ofNat piece.size)
  { factors with rows := means.foldl (· ++ ·) (factors.rows.extract 0 program.tight) }

/-- The factors that balance a program. -/
def balancing (program : Program) : Factors :=
  levelled program (rounds program 10 (ones program))

end Factors

end BlockCone.InteriorPoint
