/-
This file solves sparse symmetric systems of linear equations.

A row is the list of its nonzero entries, and of a symmetric matrix only the entries on and to the
right of the diagonal are kept. Elimination takes the unknowns in turn: the row of an unknown,
divided by its first entry, the pivot, is remembered, and multiples of it are subtracted from the
rows of the later unknowns that it mentions. The remembered steps are replayed on any number of
right-hand sides: forwards they eliminate the unknowns there too, and backwards each gives its
unknown.

The unknowns that few equations mention go first, since each step ties together all unknowns that
its row mentions. No step looks for a better pivot, so no pivot may vanish. That is the caller's
part: none does when the matrix is positive definite on some unknowns and negative definite on the
others.
-/

import BlockCone.Wide.Vec

namespace BlockCone

/-- The nonzero entries of a row with their columns, in increasing order. -/
abbrev Entries := List (Nat × Wide)

namespace Entries

/-- The product of a row and a vector. -/
def dot (entries : Entries) (vector : Vec) : Wide :=
  entries.foldl (fun sum (col, value) => sum.addProduct value (vector.getD col 0)) 0

/-- The entries with a multiple of others added. -/
def addScaled (factor : Wide) : Entries → Entries → Entries
  | base, [] => base
  | [], (col, value) :: others => (col, factor * value) :: addScaled factor [] others
  | (col, value) :: base, (otherCol, otherValue) :: others =>
      if col < otherCol then
        (col, value) :: addScaled factor base ((otherCol, otherValue) :: others)
      else if otherCol < col then
        (otherCol, factor * otherValue) :: addScaled factor ((col, value) :: base) others
      else
        (col, value.addProduct factor otherValue) :: addScaled factor base others
termination_by base others => base.length + others.length

end Entries

/-- An entry of a symmetric matrix. -/
structure SymmetricEntry where
  first : Nat
  second : Nat
  value : Wide

/-- One step of elimination. -/
structure Elimination.Step where
  /-- The entry on the diagonal. -/
  pivot : Wide
  /-- The entries to the right of it, divided by it. -/
  rest : Entries

/-- A symmetric system, ready to be solved. -/
structure Elimination where
  /-- When each unknown is eliminated. -/
  places : Array Nat
  /-- The steps in their order. -/
  steps : Array Elimination.Step

namespace Elimination

/-! ### The order of the unknowns -/

/-- In how many entries each unknown occurs. -/
def counts (size : Nat) (entries : List SymmetricEntry) : Array Nat :=
  entries.foldl (fun (counts : Array Nat) entry =>
    (counts.modify entry.first (· + 1)).modify entry.second (· + 1)) (Array.replicate size 0)

/-- The place of each unknown in an order, given in how many entries each one occurs. -/
def placesOf (counts : Array Nat) : Array Nat :=
  let order := counts.toList.zipIdx.mergeSort fun left right => left.1 ≤ right.1
  order.zipIdx.foldl (fun places ((_, unknown), place) => places.setIfInBounds unknown place)
    counts

/-- The rows of a symmetric matrix, its unknowns at given places. Of entries that are named twice
the sum counts. -/
def rowsOf (places : Array Nat) (entries : List SymmetricEntry) : Array Entries :=
  entries.foldl (fun rows entry =>
    let first := places.getD entry.first 0
    let second := places.getD entry.second 0
    rows.modify (min first second) fun row =>
      row.addScaled 1 [(max first second, entry.value)])
    (Array.replicate places.size [])

/-! ### Steps -/

/-- Subtracts multiples of a row from the rows of the unknowns that it mentions. The row is given
from the entry on whose turn it is, and divided by its pivot. -/
def spread (pivot : Wide) : Entries → Array Entries → Array Entries
  | [], rows => rows
  | (col, value) :: rest, rows =>
      spread pivot rest (rows.modify col fun row =>
        row.addScaled (-(pivot * value)) ((col, value) :: rest))

/-- Eliminates the unknown at a place. -/
def eliminate (rows : Array Entries) (place : Nat) : Array Entries × Step :=
  match rows.getD place [] with
  | [] => (rows, ⟨0, []⟩)
  | (_, pivot) :: entries =>
      let rest := entries.map fun (col, value) => (col, value / pivot)
      (spread pivot rest rows, ⟨pivot, rest⟩)

/-- The steps that eliminate all unknowns. -/
def stepsOf (rows : Array Entries) : Array Step :=
  ((List.range rows.size).foldl (fun (rows, steps) place =>
    let (rows, step) := eliminate rows place
    (rows, steps.push step)) (rows, #[])).2

/-- Prepares a system of a given size. -/
def ofEntries (size : Nat) (entries : List SymmetricEntry) : Elimination :=
  let places := placesOf (counts size entries)
  ⟨places, stepsOf (rowsOf places entries)⟩

/-- Eliminates the unknowns from a right-hand side. -/
def forwards (steps : Array Step) (target : Vec) : Vec :=
  steps.zipIdx.foldl (fun target (step, place) =>
    let known := -target.getD place 0
    step.rest.foldl (fun (target : Vec) (col, value) =>
      target.modify col (·.addProduct value known)) target) target

/-- Finds the unknowns, the last one first. -/
def backwards (steps : Array Step) (target : Vec) : Vec :=
  steps.zipIdx.foldr (fun (step, place) (solution : Vec) =>
    solution.modify place fun entry => entry / step.pivot - step.rest.dot solution) target

/-- The solution for a right-hand side. -/
def solve (elimination : Elimination) (target : Vec) : Vec :=
  let places := elimination.places
  let arranged := (Array.zip places target).foldl (fun (arranged : Vec) (place, value) =>
    arranged.setIfInBounds place value) target
  let solution := backwards elimination.steps (forwards elimination.steps arranged)
  places.map fun place => solution.getD place 0

end Elimination

end BlockCone
