/-
This file builds scalar linear expressions.

The leaves of an expression are numbers and inner products of a data matrix with a slice of a
variable; everything else is a sum. Building an expression checks shapes and evaluates nothing. An
inner product pairs the entries of the slice, in the order of its view, with the entries of the
matrix row by row, and can only be built when the extents agree, so whoever meets one need not
check again.
-/

import BlockCone.Variable
import BlockCone.Matrix

namespace BlockCone

/-- The inner product of a data matrix with a slice of the same extents. -/
structure DotTerm (α : Type) where
  weights : Matrix α
  slice : Slice
  fits : slice.shape.matchesMatrix weights.rows weights.cols = true

/-- A scalar linear expression. -/
inductive Expr (α : Type) where
  | dot (term : DotTerm α)
  | sum (children : List (Expr α))
  | constant (value : α)

namespace DotTerm

variable {α : Type}

/-- Pairs a matrix with a slice of the same extents. -/
def make (weights : Matrix α) (slice : Slice) : Except Error (DotTerm α) :=
  if fits : slice.shape.matchesMatrix weights.rows weights.cols = true then
    .ok ⟨weights, slice, fits⟩
  else
    .error (.shapeMismatch slice.shape.display
      ("(" ++ toString weights.rows ++ ", " ++ toString weights.cols ++ ") constant"))

/-- The coefficients of the entries of the variable that the slice selects: each offset of the
view with the entry of the matrix that it meets. -/
def coefficients (term : DotTerm α) : List (Nat × α) :=
  term.slice.view.flatIndices.zip term.weights.entries

end DotTerm

namespace Expr

variable {α : Type}

mutual

/-- The inner products of an expression from left to right, before some that are already
listed. -/
def termsBefore : Expr α → List (DotTerm α) → List (DotTerm α)
  | .dot term, later => term :: later
  | .sum children, later => allTermsBefore children later
  | .constant _, later => later

/-- The inner products of a list of expressions, before some that are already listed. -/
def allTermsBefore : List (Expr α) → List (DotTerm α) → List (DotTerm α)
  | [], later => later
  | first :: rest, later => termsBefore first (allTermsBefore rest later)

end

/-- The inner products of an expression from left to right, once for each use. -/
def terms (expr : Expr α) : List (DotTerm α) :=
  termsBefore expr []

/-- The number of inner products, counted once for each use. -/
def termCount (expr : Expr α) : Nat :=
  expr.terms.length

/-- Whether an expression uses no variable. -/
def isConstant (expr : Expr α) : Bool :=
  expr.termCount == 0

/-- Keeps the first of the handles that mean the same variable, behind those already seen. -/
def firstUses (seen : List Variable) : List Variable → List Variable
  | [] => seen.reverse
  | next :: rest =>
      if seen.any fun known => known.sameAs next then firstUses seen rest
      else firstUses (next :: seen) rest

/-- The variables of an expression in the order of their first use. -/
def usedVariables (expr : Expr α) : List Variable :=
  firstUses [] (expr.terms.map fun term => term.slice.source)

/-! ### Building expressions -/

/-- The inner product of a matrix and a slice. -/
def inner (weights : Matrix α) (slice : Slice) : Except Error (Expr α) := do
  let term ← DotTerm.make weights slice
  pure (.dot term)

/-- The sum of two expressions. -/
def add (left right : Expr α) : Expr α :=
  .sum [left, right]

/-- The sum of a list of expressions; the empty sum is zero. -/
def sumOf [Zero α] (children : List (Expr α)) : Expr α :=
  if children.isEmpty then .constant 0 else .sum children

/-- The sum of entries of a variable. One bad position fails the whole sum. -/
def sumOver [Scalar α] (source : Variable) (positions : List Position) :
    Except Error (Expr α) := do
  let terms ← positions.mapM fun position => do
    let entry ← source.element position
    inner ⟨1, 1, [1], rfl⟩ entry
  pure (sumOf terms)

/-- The sum of all diagonal entries of a variable. -/
def trace [Scalar α] (source : Variable) : Except Error (Expr α) :=
  sumOver source source.diagonal

end Expr

end BlockCone
