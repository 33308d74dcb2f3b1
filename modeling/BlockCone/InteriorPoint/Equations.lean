/-
This file holds the system of linear equations of an iteration.

Its unknowns are a vector over the columns of a program and one over its rows. The matrix is
symmetric: the rows of the program stand beside the columns, and below them, negatively, the
matrices that scale the duals of each cone twice. A small multiple of the identity, positive on the
columns and negative on the rows, keeps the system solvable when rows depend on each other. It is
so small that what it does to a solution is undone by the next iterations.
-/

import BlockCone.InteriorPoint.Program
import BlockCone.Lorentz

namespace BlockCone.InteriorPoint

open BlockCone.Lorentz

/-- The system of linear equations of an iteration, ready to be solved. -/
structure Equations where
  columns : Nat
  elimination : Elimination

namespace Equations

/-- What keeps the system solvable. -/
def regularisation : Wide :=
  ⟨1, -150⟩

/-- The entries on the diagonal that keep the system solvable. -/
def regularEntries (program : Program) : List SymmetricEntry :=
  (List.range (program.columns + program.rows.size)).map fun place =>
    ⟨place, place, if place < program.columns then regularisation else -regularisation⟩

/-- The entries of the rows of a program. -/
def rowEntries (program : Program) : List SymmetricEntry :=
  program.rows.toList.zipIdx.flatMap fun (row, number) =>
    row.map fun (col, value) => ⟨col, program.columns + number, value⟩

/-- The entries of the cones, whose first unknown is given. -/
def coneEntries : List Scaling → Nat → List SymmetricEntry
  | [], _ => []
  | scaling :: scalings, start =>
      let size := scaling.axis.size
      ((List.range size).flatMap fun row =>
        (List.range (row + 1)).map fun col =>
          ⟨start + col, start + row, -scaling.squareEntry row col⟩) ++
        coneEntries scalings (start + size)

/-- All entries of the system. -/
def entries (program : Program) (scalings : List Scaling) : List SymmetricEntry :=
  regularEntries program ++ rowEntries program ++
    coneEntries scalings (program.columns + program.tight)

/-- Prepares the system for the scalings of an iteration. -/
def prepare (program : Program) (scalings : List Scaling) : Equations :=
  ⟨program.columns,
    .ofEntries (program.columns + program.rows.size) (entries program scalings)⟩

/-- Solves the system. The solution is cut into its parts over columns and over rows. -/
def solve (equations : Equations) (columns rows : Vec) : Vec × Vec :=
  let solution := equations.elimination.solve (columns ++ rows)
  (solution.extract 0 equations.columns, solution.extract equations.columns solution.size)

end Equations

end BlockCone.InteriorPoint
