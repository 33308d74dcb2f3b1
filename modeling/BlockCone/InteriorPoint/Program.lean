/-
This file prepares a standard form for the interior-point method.

A `Program` holds the rows, first those without slack and then those of each cone. An inequality
whose bound counts as infinite says nothing and is left out. Other bounds beyond the same limit are
cut back to it, also those that are not numbers.

How many inequalities are left is counted along the rows of the form from the first one on, over
as many rows as there are inequalities. Equations come first and are never left out, so the count
passes over as many of the last inequalities. If one of those was left out the count is too large,
the sizes disagree and the backend stops; and it stops if neither a column nor a row is left.
-/

import BlockCone.ScalarDouble
import BlockCone.StandardForm
import BlockCone.Wide.Elimination

namespace BlockCone.InteriorPoint

open BlockCone.Vec

/-- A problem of which all data are numbers. The first rows have no slack; the slacks of the others
lie in second-order cones, one after the other. -/
structure Program where
  cost : Vec
  rows : Array Entries
  bounds : Vec
  /-- The number of rows without slack. -/
  tight : Nat
  /-- The number of rows of each cone. -/
  cones : List Nat

/-- No bound is larger. -/
def infinity : Float := 1e20

/-- Whether a bound counts as infinite: a few roundings below the limit are enough. -/
def isInfinite (bound : Float) : Bool :=
  (1.0 - 2.220446049250313e-15) * infinity < bound

/-- A bound that is no larger than the limit. -/
def limited (bound : Float) : Float :=
  if bound < infinity then bound else infinity

/-- A row and its bound. -/
abbrev BoundedRow := List (Nat × Float) × Float

/-- Which rows of an elementary cone are left. -/
def marks : ElementaryCone × List Float → List Bool
  | (.nonneg _, bounds) => bounds.map fun bound => !isInfinite bound
  | (_, bounds) => bounds.map fun _ => true

/-- Whether the inequalities that are left are as many as counted from the first row on. -/
def countAgrees (dims : ConeDims) (bounds : List Float) : Bool :=
  let marked := (ElementaryCone.cut (dims.cones false) bounds).flatMap marks
  (marked.take dims.nonneg).count true == ((marked.drop dims.zero).take dims.nonneg).count true

/-- The rows without slack among those of an elementary cone. -/
def tightRows : ElementaryCone × List BoundedRow → List BoundedRow
  | (.zero _, rows) => rows
  | _ => []

/-- The rows with slack among those of an elementary cone, in the cones that a program has. Every
inequality is a cone of its own. -/
def slackRows : ElementaryCone × List BoundedRow → List (List BoundedRow)
  | (.nonneg _, rows) => (rows.filter fun (_, bound) => !isInfinite bound).map ([·])
  | (.secondOrder _, rows) => [rows]
  | _ => []

/-- The coefficients of each row of a form. -/
def rowCoeffs (form : StandardForm Float) : List (List (Nat × Float)) :=
  (form.matrix.entries.foldr (fun entry (rows : Array (List (Nat × Float))) =>
    rows.modify entry.row ((entry.col, entry.value) :: ·))
    (Array.replicate form.matrix.rows [])).toList

/-- The coefficients of a row, if all of them are numbers. -/
def entries? (coeffs : List (Nat × Float)) : Option Entries :=
  coeffs.mapM fun (col, value) => (Wide.ofFloat? value).map (col, ·)

namespace Program

/-- The program of given rows, if all its data are numbers. -/
def ofRows? (cost : List Float) (tight : List BoundedRow) (slack : List (List BoundedRow)) :
    Option Program := do
  let all := tight ++ slack.flatten
  let cost ← cost.mapM Wide.ofFloat?
  let rows ← all.mapM fun (coeffs, _) => entries? coeffs
  let bounds ← all.mapM fun (_, bound) => Wide.ofFloat? (limited bound)
  pure
    { cost := cost.toArray
      rows := rows.toArray
      bounds := bounds.toArray
      tight := tight.length
      cones := slack.map List.length }

/-- The program of a problem without triangles, if all its data are numbers. -/
def ofStandardForm (form : StandardForm Float) : Except Error (Option Program) :=
  let parts := ElementaryCone.cut (form.dims.cones false) ((rowCoeffs form).zip form.bounds)
  let tight := parts.flatMap tightRows
  let slack := parts.flatMap slackRows
  if countAgrees form.dims form.bounds &&
      !(tight.isEmpty && slack.isEmpty && form.cost.isEmpty) then
    .ok (ofRows? form.cost tight slack)
  else .error .backendStopped

/-- The number of columns. -/
def columns (program : Program) : Nat :=
  program.cost.size

/-- The product of the rows with a vector over the columns. -/
def timesPoint (program : Program) (point : Vec) : Vec :=
  program.rows.map fun row => row.dot point

/-- The product of the columns with a vector over the rows. -/
def timesDual (program : Program) (dual : Vec) : Vec :=
  (Array.zip program.rows dual).foldl (fun (sums : Vec) (row, factor) =>
    row.foldl (fun (sums : Vec) (col, value) => sums.modify col (· + value * factor)) sums)
    (zeros program.columns)

/-- Cuts the rows that have slack into cones. -/
def cut : List Nat → Nat → Vec → List Vec
  | [], _, _ => []
  | size :: sizes, start, vector =>
      vector.extract start (start + size) :: cut sizes (start + size) vector

/-- The parts of a vector over the rows that belong to the cones. -/
def pieces (program : Program) (vector : Vec) : List Vec :=
  cut program.cones program.tight vector

/-- The vector over the rows with given parts, zero on the rows without slack. -/
def join (program : Program) (parts : List Vec) : Vec :=
  parts.foldl (· ++ ·) (zeros program.tight)

/-- How far a bound may be off because it was rounded. -/
def allowance (bound : Wide) : Wide :=
  bound.abs * ⟨1, -50⟩

/-- The program whose bounds may be off by as much as roundings can account for. An equation becomes
two inequalities, unless its bound is zero, which is never rounded. -/
def relaxed (program : Program) : Program :=
  let all := program.rows.toList.zip program.bounds.toList
  let tight := all.take program.tight
  let exact := tight.filter fun (_, bound) => bound.isZero
  let bands := (tight.filter fun (_, bound) => !bound.isZero).flatMap fun (row, bound) =>
    [(row, bound + allowance bound),
      (row.map fun (col, value) => (col, -value), allowance bound - bound)]
  let slack := (all.drop program.tight).map fun (row, bound) => (row, bound + allowance bound)
  let rows := exact ++ bands ++ slack
  { cost := program.cost
    rows := (rows.map Prod.fst).toArray
    bounds := (rows.map Prod.snd).toArray
    tight := exact.length
    cones := List.replicate bands.length 1 ++ program.cones }

end Program

end BlockCone.InteriorPoint
