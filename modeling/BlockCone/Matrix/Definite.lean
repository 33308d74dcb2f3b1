/-
This file decides whether a matrix of doubles is positive semidefinite.

The eigenvalues of a symmetric matrix are at least `-tolerance` exactly when adding the tolerance
to the diagonal leaves no negative eigenvalue. Doubles are whole multiples of a common power of
two, so the question is asked of a matrix of integers, and answered without rounding by symmetric
elimination: a pivot must not be negative, a zero pivot needs a zero row, and a positive pivot
leaves its Schur complement to be judged. The complement is kept whole by multiplying with the
pivot; dividing by the pivot before it, which is exact, keeps the numbers small.

Only the lower triangle is read, as it stands for the whole of a matrix that is symmetric up to
the tolerance.
-/

import BlockCone.Matrix
import BlockCone.ScalarDouble

namespace BlockCone.Matrix

/-- Whether a symmetric integer matrix, given by its rows, is positive semidefinite. The divisor
is the last positive pivot, or one before the first. -/
def semidefinite : List (List Int) → Int → Bool
  | [], _ => true
  | [] :: _, _ => true
  | (pivot :: border) :: rest, divisor =>
      if pivot < 0 then false
      else if pivot = 0 then
        border.all (· == 0) && semidefinite (rest.map List.tail) divisor
      else
        semidefinite
          (rest.map fun row =>
            List.zipWith (fun inner edge => (pivot * inner - row.headD 0 * edge) / divisor)
              row.tail border)
          pivot
termination_by rows => rows.length
decreasing_by all_goals simp

/-- A finite double as a signed number of steps of a power of two. -/
def signedSteps? (value : Float) : Option (Int × Int) :=
  match Decimal.Binary.ofFloat value with
  | .finite negative steps power => some (if negative then -(steps : Int) else steps, power)
  | _ => none

/-- A signed number of steps of one power of two, counted in steps of a smaller one. -/
def rescaled (unit : Int) (number : Int × Int) : Int :=
  number.1 * (Nat.pow 2 (number.2 - unit).toNat : Int)

/-- Whether no eigenvalue of a symmetric matrix lies below `-tolerance`. A matrix with an entry
that is not finite has no eigenvalues to speak of, and none is at least a tolerance that is not a
number. -/
def eigenvaluesAtLeast (matrix : Matrix Float) (tolerance : Float) : Bool :=
  match matrix.entries.mapM signedSteps? with
  | none => false
  | some numbers =>
      match signedSteps? tolerance with
      | none => tolerance > 0.0
      | some shift =>
          let unit := numbers.foldl (fun least number => min least number.2) shift.2
          let lower (row col : Nat) : Int :=
            ((numbers[row * matrix.cols + col]?).map (rescaled unit)).getD 0
          semidefinite
            ((List.range matrix.rows).map fun row =>
              (List.range matrix.rows).map fun col =>
                if col = row then lower row row + rescaled unit shift
                else if col < row then lower row col else lower col row)
            1

/-- Whether a matrix is positive semidefinite up to a tolerance; no answer for a matrix that is not
symmetric. Symmetry is never asked for more closely than `1e-10`. -/
def isSemidefinite? (matrix : Matrix Float) (tolerance : Float) : Except Error (Option Bool) :=
  let slack := if 1e-10 ≤ tolerance then tolerance else 1e-10
  if matrix.isSymmetric slack then
    if matrix.rows = 0 then .error .emptyMatrix
    else .ok (some (matrix.eigenvaluesAtLeast tolerance))
  else .ok none

end BlockCone.Matrix
