/-
This file holds the points of the interior-point method and judges them.

The method works on the homogeneous form of a problem and its dual, in which two further
unknowns, `scale` and `gap`, tell the possible answers apart. A solution with a positive `scale`
is, divided by it, a solution of the problem; one with a positive `gap` proves that there is none,
because the problem or its dual is infeasible.

What speaks for an answer is measured once at every point, in the units of the problem as it was
given, and then held against tolerances: those that the settings ask for while an answer is looked
for, loose ones when the method has to stop without one, and strict ones, which tell a true answer
from one that the units of the problem make look like it.
-/

import BlockCone.InteriorPoint.Balance
import BlockCone.Outcome
import BlockCone.Settings

namespace BlockCone.InteriorPoint

open BlockCone.Wide BlockCone.Vec

/-- A point of the method. -/
structure Iterate where
  point : Vec
  slack : Vec
  dual : Vec
  scale : Wide
  gap : Wide

namespace Iterate

/-- The point at some distance in a direction. -/
def advance (iterate : Iterate) (distance : Wide) (direction : Iterate) : Iterate :=
  { point := addScaled iterate.point distance direction.point
    slack := addScaled iterate.slack distance direction.slack
    dual := addScaled iterate.dual distance direction.dual
    scale := iterate.scale + distance * direction.scale
    gap := iterate.gap + distance * direction.gap }

/-- The point of a program that belongs to a point of the scaled program. -/
def restore (factors : Factors) (iterate : Iterate) : Iterate :=
  { iterate with
    point := entrywise iterate.point factors.columns
    slack := Array.zipWith (· / ·) iterate.slack factors.rows
    dual := entrywise iterate.dual factors.rows }

end Iterate

/-- What a point leaves over in the homogeneous equations. -/
structure Residuals where
  /-- Of the dual equations, one for each column. -/
  columns : Vec
  /-- Of the primal equations, one for each row. -/
  rows : Vec
  /-- Of the equation between the objectives. -/
  objective : Wide

/-- The residuals of a point. -/
def residuals (program : Program) (iterate : Iterate) : Residuals :=
  { columns := addScaled (program.timesDual iterate.dual) iterate.scale program.cost
    rows := addScaled (addScaled (program.timesPoint iterate.point) 1 iterate.slack)
      (-iterate.scale) program.bounds
    objective := iterate.gap + dot program.cost iterate.point + dot program.bounds iterate.dual }

/-! ### Judging a point -/

/-- What speaks for an answer at a point. -/
structure Measures where
  /-- How many times `gap` is as large as `scale`. -/
  ratio : Float
  /-- The difference of the two objectives. -/
  gapAbs : Float
  /-- The same difference in proportion to the objectives. -/
  gapRel : Float
  /-- How far the primal equations are from being satisfied. -/
  primal : Float
  /-- How far the dual equations are from being satisfied. -/
  dual : Float
  /-- The value of the bounds at the duals; negative where they prove infeasibility. -/
  boundsValue : Float
  /-- The value that it would have if its terms had the same sign. -/
  boundsSpread : Float
  /-- How far the duals are from such a proof. -/
  boundsDefect : Float
  /-- Where the duals are such a proof but for a defect, every solution is at least as long. -/
  pointBeyond : Float
  /-- The value of the cost at the point; negative where it proves that there is no bound. -/
  costValue : Float
  /-- The value that it would have if its terms had the same sign. -/
  costSpread : Float
  /-- How far the point is from such a proof. -/
  costDefect : Float
  /-- Where the point is such a proof but for a defect, every dual solution is at least as long. -/
  dualBeyond : Float

/-- The inner product of two vectors, its terms taken as positive. -/
def spread (left right : Vec) : Wide :=
  (entrywise left right).foldl (fun sum term => sum + term.abs) 0

/-- Measures a point of a program. -/
def Measures.at (program : Program) (iterate : Iterate) : Measures :=
  let scale := iterate.scale
  let left := residuals program iterate
  let costValue := dot program.cost iterate.point
  let boundsValue := dot program.bounds iterate.dual
  let primalCost := costValue / scale
  let dualCost := -boundsValue / scale
  let gap := (primalCost - dualCost).abs
  let pointSize := Vec.length iterate.point
  let slackSize := Vec.length iterate.slack
  let dualSize := Vec.length iterate.dual
  let primalSize := largest program.bounds + (pointSize + slackSize) / scale
  let dualEquationSize := largest program.cost + (pointSize + dualSize) / scale
  let boundsDefect := Vec.length (program.timesDual iterate.dual)
  let costDefect :=
    Vec.length (addScaled (program.timesPoint iterate.point) 1 iterate.slack)
  { ratio := (iterate.gap / scale).toFloat
    gapAbs := gap.toFloat
    gapRel := (gap / larger 1 (smaller primalCost.abs dualCost.abs)).toFloat
    primal := (Vec.length left.rows / scale / larger 1 primalSize).toFloat
    dual := (Vec.length left.columns / scale / larger 1 dualEquationSize).toFloat
    boundsValue := boundsValue.toFloat
    boundsSpread := (spread program.bounds iterate.dual).toFloat
    boundsDefect := (boundsDefect / larger 1 dualSize).toFloat
    pointBeyond := -boundsValue.toFloat / boundsDefect.toFloat
    costValue := costValue.toFloat
    costSpread := (spread program.cost iterate.point).toFloat
    costDefect := (costDefect / larger 1 (pointSize + slackSize)).toFloat
    dualBeyond := -costValue.toFloat / costDefect.toFloat }

/-- How exact an answer has to be. -/
structure Tolerances where
  gapAbs : Float
  gapRel : Float
  feasibility : Float
  /-- How negative a value has to be in a proof that there is no solution. -/
  proofAbs : Float
  /-- The defect of such a proof in proportion to that value. -/
  proofRel : Float
  /-- The share of the value that its terms may cancel down to. -/
  proofShare : Float
  /-- The length of the solutions that such a proof leaves possible. -/
  proofBeyond : Float
  /-- The ratio from which on such a proof is looked for. -/
  proofRatio : Float

namespace Tolerances

/-- The exactness that settings ask for. -/
def asked (settings : Settings) : Tolerances :=
  ⟨settings.tolGapAbs, settings.tolGapRel, settings.tolFeas, 1e-8, 1e-8, 0.0, 0.0, 1e9⟩

/-- The exactness that is accepted when the method has to stop. -/
def reduced : Tolerances :=
  ⟨5e-5, 5e-5, 1e-4, 5e-12, 5e-5, 0.0, 0.0, 1e7⟩

/-- The exactness of an answer beyond doubt. A proof whose terms cancel down to the roundings of the
data proves nothing. -/
def strict : Tolerances :=
  ⟨1e-30, 1e-30, 1e-30, 0.0, 1e-8, 1e-14, 1e30, 1e9⟩

/-- The same for an answer other than the one that was found: a problem that has no solution may
have a proof of either kind, and then the kind that was found counts. -/
def stricter : Tolerances :=
  { strict with proofBeyond := 1e60 }

end Tolerances

namespace Measures

/-- Whether a point is a solution, up to its scale. -/
def isSolution (measures : Measures) (tolerances : Tolerances) : Bool :=
  measures.ratio ≤ 1.0 && measures.primal < tolerances.feasibility &&
    measures.dual < tolerances.feasibility &&
    (measures.gapAbs < tolerances.gapAbs || measures.gapRel < tolerances.gapRel)

/-- Whether the duals of a point prove that nothing satisfies the rows. -/
def isInfeasible (measures : Measures) (tolerances : Tolerances) : Bool :=
  tolerances.proofRatio < measures.ratio && measures.boundsValue < -tolerances.proofAbs &&
    measures.boundsDefect < -tolerances.proofRel * measures.boundsValue &&
    tolerances.proofShare * measures.boundsSpread < -measures.boundsValue &&
    tolerances.proofBeyond < measures.pointBeyond

/-- Whether a point proves that the objective has no bound. -/
def isUnbounded (measures : Measures) (tolerances : Tolerances) : Bool :=
  tolerances.proofRatio < measures.ratio && measures.costValue < -tolerances.proofAbs &&
    measures.costDefect < -tolerances.proofRel * measures.costValue &&
    tolerances.proofShare * measures.costSpread < -measures.costValue &&
    tolerances.proofBeyond < measures.dualBeyond

/-- Whether a point speaks for an answer. -/
def speaksFor (measures : Measures) (tolerances : Tolerances) : Status → Bool
  | .optimal => measures.isSolution tolerances
  | .infeasible => measures.isInfeasible tolerances
  | .unbounded => measures.isUnbounded tolerances
  | .failed _ => false

/-- The answer that a point gives, if it gives one. -/
def status? (measures : Measures) (tolerances : Tolerances) : Option Status :=
  [.optimal, .infeasible, .unbounded].find? (measures.speaksFor tolerances)

/-- The answer that a point puts beyond doubt where one was found, if it does. An optimum that was
found cannot turn out to be a proof that there is none. -/
def settled? (measures : Measures) (found : Status) : Option Status :=
  let others := if found.isOptimal then [] else [.optimal, .infeasible, .unbounded]
  if measures.speaksFor .strict found then some found
  else others.find? (measures.speaksFor .stricter)

end Measures

end BlockCone.InteriorPoint
