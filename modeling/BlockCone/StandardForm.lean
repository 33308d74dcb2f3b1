/-
This file lowers a flat problem to rows of elementary cones.

A conic solver minimises `cost' x` subject to `matrix x + s = bounds`, where the slack `s` lies in
a product of elementary cones. The rows come cone by cone: first those whose slack is zero, then
those whose slack is nonnegative, then second-order cones of three rows, then triangles.

Equalities become zero rows and inequalities nonnegative rows. A block is stored in full, so its
symmetry is enforced by zero rows too, one for every pair of opposite entries. What remains of
positive semidefiniteness depends on the size of the block. A block of one entry is nonnegative. A
block with entries `a`, `b`, `c` on and above its diagonal is positive semidefinite exactly when
`(a + c, a - c, 2 b)` lies in the second-order cone. A larger block hands its upper triangle to a
cone of its own, column by column, with the entries off the diagonal scaled by the square root of
two; whether the solver at hand has that cone is a parameter.
-/

import BlockCone.Conic

namespace BlockCone

/-- One row: coefficients of columns and the bound they stand against. -/
structure Row (α : Type) where
  coeffs : List (Nat × α)
  bound : α

/-- How many rows belong to each kind of elementary cone, in the order of the rows. -/
structure ConeDims where
  /-- Rows whose slack is zero. -/
  zero : Nat
  /-- Rows whose slack is nonnegative. -/
  nonneg : Nat
  /-- The number of rows of each second-order cone. -/
  secondOrder : List Nat
  /-- The dimension of the matrix of each triangle. -/
  triangles : List Nat
deriving DecidableEq, Repr

/-- The number of rows of the triangle of a matrix. -/
def triangleSize (dim : Nat) : Nat :=
  dim * (dim + 1) / 2

/-- The number of rows altogether. -/
def ConeDims.total (dims : ConeDims) : Nat :=
  dims.zero + dims.nonneg + dims.secondOrder.foldr (· + ·) 0 +
    (dims.triangles.map triangleSize).foldr (· + ·) 0

/-- An elementary cone. -/
inductive ElementaryCone where
  /-- Rows whose slack is zero. -/
  | zero (rows : Nat)
  /-- Rows whose slack is nonnegative. -/
  | nonneg (rows : Nat)
  /-- Rows of which the first is at least the length of the others. -/
  | secondOrder (rows : Nat)
  /-- The triangle of a positive semidefinite matrix. -/
  | triangle (dim : Nat)
deriving DecidableEq, Repr

/-- The number of rows of an elementary cone. -/
def ElementaryCone.size : ElementaryCone → Nat
  | .zero rows => rows
  | .nonneg rows => rows
  | .secondOrder rows => rows
  | .triangle dim => triangleSize dim

/-- The elementary cones in the order of the rows, without triangles if the solver has none. A kind
that has no rows is left out. -/
def ConeDims.cones (dims : ConeDims) (triangleCone : Bool) : List ElementaryCone :=
  (if 0 < dims.zero then [.zero dims.zero] else []) ++
    (if 0 < dims.nonneg then [.nonneg dims.nonneg] else []) ++
    dims.secondOrder.map .secondOrder ++
    (if triangleCone then dims.triangles.map .triangle else [])

/-- Cuts a list over the rows into the parts that belong to each cone. -/
def ElementaryCone.cut {β : Type} : List ElementaryCone → List β → List (ElementaryCone × List β)
  | [], _ => []
  | cone :: cones, rows =>
      (cone, rows.take cone.size) :: cut cones (rows.drop cone.size)

/-- A problem in the form a conic solver takes. -/
structure StandardForm (α : Type) where
  /-- The quadratic part of the cost, which is always zero. -/
  quadratic : Sparse α
  cost : List α
  matrix : Sparse α
  bounds : List α
  dims : ConeDims

namespace StandardForm

variable {α : Type} [Scalar α]

/-! ### Rows -/

/-- The row of an equality. -/
def equalityRow? (constraint : LinearConstraint α) : Option (Row α) :=
  match constraint.relation with
  | .equalTo => some ⟨constraint.coeffs, constraint.bound⟩
  | _ => none

/-- The row of an inequality; a lower bound is turned around. -/
def inequalityRow? (constraint : LinearConstraint α) : Option (Row α) :=
  match constraint.relation with
  | .greaterThan =>
      some ⟨constraint.coeffs.map fun (col, value) => (col, -value), -constraint.bound⟩
  | .lessThan => some ⟨constraint.coeffs, constraint.bound⟩
  | .equalTo => none

/-- The pairs of a row and a column above the diagonal, row by row. -/
def upperPairs (dim : Nat) : List (Nat × Nat) :=
  (List.range dim).flatMap fun row =>
    ((List.range dim).filter fun col => decide (row < col)).map fun col => (row, col)

/-- The rows that make every block of a cone symmetric. Blocks of fewer than two rows always
are. -/
def symmetryRows (cone : Cone) : List (Row α) :=
  if cone.dim < 2 then []
  else
    (List.range cone.count).flatMap fun block =>
      (upperPairs cone.dim).map fun (row, col) =>
        ⟨[(cone.blockOffset block + row * cone.dim + col, 1),
          (cone.blockOffset block + col * cone.dim + row, -1)], 0⟩

/-- The rows of blocks of one entry. -/
def entryRows (cone : Cone) : List (Row α) :=
  if cone.dim = 1 then
    (List.range cone.count).map fun block => ⟨[(cone.blockOffset block, -1)], 0⟩
  else []

/-- The rows of blocks of two rows: three for each. -/
def pairRows (cone : Cone) : List (Row α) :=
  if cone.dim = 2 then
    (List.range cone.count).flatMap fun block =>
      let first := cone.blockOffset block
      [⟨[(first, -1), (first + 3, -1)], 0⟩,
        ⟨[(first, -1), (first + 3, 1)], 0⟩,
        ⟨[(first + 1, -(1 + 1))], 0⟩]
  else []

/-- The pairs of a row and a column on or above the diagonal, column by column. -/
def trianglePairs (dim : Nat) : List (Nat × Nat) :=
  (List.range dim).flatMap fun col => (List.range (col + 1)).map fun row => (row, col)

/-- The rows of larger blocks: the upper triangle of each. -/
def triangleRows (cone : Cone) : List (Row α) :=
  if 2 < cone.dim then
    (List.range cone.count).flatMap fun block =>
      (trianglePairs cone.dim).map fun (row, col) =>
        ⟨[(cone.blockOffset block + row * cone.dim + col,
            if row = col then -1 else -Scalar.rootTwo)], 0⟩
  else []

/-- Numbers the rows and lists their coefficients. -/
def rowsTriplets (rows : List (Row α)) : List (Triplet α) :=
  rows.zipIdx.flatMap fun (row, number) =>
    row.coeffs.map fun (col, value) => ⟨number, col, value⟩

/-! ### Checks -/

/-- Refuses a list of coefficients that names a column that is not there. -/
def checkCoeffs (columns : Nat) (coeffs : List (Nat × α)) : Except Error Unit :=
  match coeffs.find? fun entry => decide (columns ≤ entry.1) with
  | some (col, _) => .error (.indexOutOfRange ("column " ++ toString col) (toString columns))
  | none => .ok ()

/-- Refuses a problem whose cones do not have as many columns as it has, or that names a column
that is not there, in the objective first and then in the constraints. Where the cones start is
not looked at. -/
def checkColumns (problem : ConicProblem α) : Except Error Unit := do
  let declared := (problem.cones.map Cone.size).foldr (· + ·) 0
  if declared != problem.columns then
    throw (.invalidProblem (.coverage declared problem.columns))
  checkCoeffs problem.columns problem.objective.coeffs
  problem.constraints.forM fun constraint => checkCoeffs problem.columns constraint.coeffs

/-- Refuses a block that only a triangle cone could hold, if there is none. -/
def checkBlocks (triangleCone : Bool) (problem : ConicProblem α) : Except Error Unit :=
  if triangleCone then .ok ()
  else match problem.cones.find? fun cone => decide (2 < cone.dim) with
    | some cone => .error (.invalidProblem (.largeBlock cone.dim))
    | none => .ok ()

/-! ### Lowering -/

/-- The cost of each column, negated for an objective that is made large. -/
def costs (problem : ConicProblem α) : List α :=
  let sign : α := match problem.objective.sense with
    | .minimize => 1
    | .maximize => -1
  (problem.objective.coeffs.foldl
    (fun (costs : Array α) (col, value) => costs.modify col (· + sign * value))
    (Array.replicate problem.columns 0)).toList

/-- Lowers a problem, with or without a cone for the triangles of large blocks. -/
def ofConic (triangleCone : Bool) (problem : ConicProblem α) : Except Error (StandardForm α) := do
  checkColumns problem
  checkBlocks triangleCone problem
  let zeroRows := problem.constraints.filterMap equalityRow? ++ problem.cones.flatMap symmetryRows
  let nonnegRows := problem.constraints.filterMap inequalityRow? ++ problem.cones.flatMap entryRows
  let rows := zeroRows ++ nonnegRows ++ problem.cones.flatMap pairRows ++
    problem.cones.flatMap triangleRows
  let matrix ← Sparse.ofTriplets rows.length problem.columns (rowsTriplets rows)
  pure
    { quadratic := .empty problem.columns problem.columns
      cost := costs problem
      matrix
      bounds := rows.map Row.bound
      dims :=
        { zero := zeroRows.length
          nonneg := nonnegRows.length
          secondOrder := problem.cones.flatMap fun cone =>
            if cone.dim = 2 then List.replicate cone.count 3 else []
          triangles := problem.cones.flatMap fun cone =>
            if 2 < cone.dim then List.replicate cone.count cone.dim else [] } }

end StandardForm

end BlockCone
