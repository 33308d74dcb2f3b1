/-
This file is a backend: a primal-dual interior-point method for the standard form.

The method follows the path on which all cones are equally far from their boundaries, from a point
that satisfies the equations as well as an interior point near it can. Each iteration solves one
system of linear equations twice: once heading straight for a solution, and once corrected for how
far that would go and for the curvature met on the way. Every iteration keeps the slacks and the
duals inside their cones.

The path is followed until an answer is as exact as the settings ask for. When the time or the
iterations are over before, one that is almost as exact is accepted.

How exact an answer is depends on the units of the problem: a solution far away, or a cost that is
large beside the coefficients, looks for a while like a proof that there is no solution. So an
answer that is found only says that the settings are satisfied. Which answer is given, and where it
is read off, is settled by following the path to an answer beyond doubt.
-/

import BlockCone.InteriorPoint.Equations
import BlockCone.InteriorPoint.Progress

namespace BlockCone.InteriorPoint

open BlockCone.Wide BlockCone.Vec BlockCone.Lorentz

/-! ### Where the method starts -/

/-- Moves the parts of a vector into their cones, all by the same multiple of the unit. -/
def intoCones (parts : List Vec) : List Vec :=
  let margins := parts.map margin
  let least := margins.foldl smaller (margins.headD 0)
  let positive := margins.foldl (fun sum value => sum + larger 0 value) 0
  let wanted := larger 1 (positive / (10 * ofNat parts.length))
  let shift := if 0 < least then wanted - least else -least + wanted
  if 0 < shift then parts.map fun part => addScaled part shift (unit part.size)
  else parts

/-- The point the method starts from. -/
def Iterate.start (program : Program) : Iterate :=
  let equations := Equations.prepare program (program.cones.map identity)
  let (point, slack) := equations.solve (zeros program.columns) program.bounds
  let (_, dual) := equations.solve (negated program.cost) (zeros program.rows.size)
  { point
    slack := program.join (intoCones (program.pieces (negated slack)))
    dual := (intoCones (program.pieces dual)).foldl (· ++ ·) (dual.extract 0 program.tight)
    scale := 1
    gap := 1 }

/-! ### One iteration -/

/-- What stays the same while one iteration solves for its directions. -/
structure Frame where
  program : Program
  iterate : Iterate
  left : Residuals
  scalings : List Scaling
  equations : Equations
  /-- The solution for the cost and the bounds. -/
  fixedPoint : Vec
  fixedDual : Vec

namespace Frame

/-- Prepares an iteration. -/
def prepare (program : Program) (iterate : Iterate) : Frame :=
  let scalings := List.zipWith scaling (program.pieces iterate.slack)
    (program.pieces iterate.dual)
  let equations := Equations.prepare program scalings
  let (fixedPoint, fixedDual) := equations.solve (negated program.cost) program.bounds
  { program
    iterate
    left := residuals program iterate
    scalings
    equations
    fixedPoint
    fixedDual }

/-- The direction that removes a share of the residuals. What the products of slacks and duals are
to lose is given by the change of the slacks that it asks for, and what the product of scale and
gap is to lose as a number. -/
def direction (frame : Frame) (share : Wide) (pull : Vec) (scaleChange : Wide) : Iterate :=
  let program := frame.program
  let iterate := frame.iterate
  let (point, dual) := frame.equations.solve (scaled (-share) frame.left.columns)
    (addScaled pull (-share) frame.left.rows)
  let objective (point dual : Vec) : Wide :=
    dot program.cost point + dot program.bounds dual
  let scale :=
    (scaleChange / iterate.scale - share * frame.left.objective - objective point dual) /
      (objective frame.fixedPoint frame.fixedDual - iterate.gap / iterate.scale)
  let dual := addScaled dual scale frame.fixedDual
  let twice := program.join (List.zipWith (fun (scaling : Scaling) part =>
    scaling.apply (scaling.apply part)) frame.scalings (program.pieces dual))
  { point := addScaled point scale frame.fixedPoint
    slack := negated (addScaled pull 1 twice)
    dual
    scale
    gap := -(scaleChange + iterate.gap * scale) / iterate.scale }

/-- How far one can go in a direction before a slack, a dual, the scale or the gap vanishes, but not
farther than the direction itself. -/
def reach (frame : Frame) (direction : Iterate) : Wide :=
  let program := frame.program
  let cones (points changes : Vec) : List Wide :=
    List.zipWith (Lorentz.reach 1) (program.pieces points) (program.pieces changes)
  (cones frame.iterate.slack direction.slack ++ cones frame.iterate.dual direction.dual).foldl
    smaller
    (smaller (reachZero 1 frame.iterate.scale direction.scale)
      (reachZero 1 frame.iterate.gap direction.gap))

/-- The mean product of slacks and duals. -/
def mean (frame : Frame) : Wide :=
  (dot frame.iterate.slack frame.iterate.dual + frame.iterate.scale * frame.iterate.gap) /
    ofNat (frame.program.cones.length + 1)

/-- The change of the slacks that makes the products of slacks and duals lose given amounts. -/
def pull (frame : Frame) (change : List Vec) : Vec :=
  frame.program.join (List.zipWith (fun (scaling : Scaling) part =>
    scaling.apply (divide scaling.middle part)) frame.scalings change)

end Frame

/-- The share of the way to the boundary that is gone. -/
def stepShare : Wide :=
  99 / 100

/-- The next point, and how far it is along the direction to it. The first step corrects only a
share of the curvature, as its starting point may be far from the path. -/
def advance (program : Program) (first : Bool) (iterate : Iterate) : Iterate × Wide :=
  let frame := Frame.prepare program iterate
  let straight := frame.direction 1 iterate.slack (iterate.scale * iterate.gap)
  let distance := frame.reach straight
  let centring := (1 - distance) * (1 - distance) * (1 - distance)
  let weight := if first then distance else 1
  let centre := centring * frame.mean
  let slacks := List.zipWith Scaling.applyInverse frame.scalings (program.pieces straight.slack)
  let duals := List.zipWith Scaling.apply frame.scalings (program.pieces straight.dual)
  let curvature := List.zipWith product slacks duals
  let change := List.zipWith (fun (scaling : Scaling) bend =>
    let middle := scaling.middle
    addScaled (addScaled (product middle middle) weight bend) (-centre) (unit middle.size))
    frame.scalings curvature
  let scaleChange := iterate.scale * iterate.gap + weight * straight.scale * straight.gap - centre
  let corrected := frame.direction (1 - centring) (frame.pull change) scaleChange
  let distance := stepShare * frame.reach corrected
  (iterate.advance distance corrected, distance)

/-- A step that is no longer than this is no progress. -/
def leastStep : Wide :=
  tenTo (-4)

/-! ### The method -/

/-- Why the method stops without an answer. -/
inductive Halt where
  /-- The iterations are over. -/
  | iterations
  /-- The time is over. -/
  | time
  /-- A step leads nowhere. -/
  | progress
  /-- The data are not numbers. -/
  | data

/-- The text of a reason. -/
def Halt.reason : Halt → String
  | .iterations => "Maximum iterations reached"
  | .time => "Time limit reached"
  | .progress => "Clarabel stopped with status InsufficientProgress"
  | .data => "Clarabel stopped with status NumericalError"

/-- Whether the time is over at once. No time passes in the logic, so a limit expires at once or
never: at once if it is under a microsecond, which not even the start can keep to. -/
def expires (settings : Settings) : Bool :=
  settings.timeLimit < 1e-6

/-- A program with the factors that balance it. -/
structure Task where
  program : Program
  factors : Factors
  scaled : Program
  settings : Settings

namespace Task

/-- Balances a program. -/
def ofProgram (program : Program) (settings : Settings) : Task :=
  let factors := Factors.balancing program
  ⟨program, factors, factors.scale program, settings⟩

/-- Measures a point of the scaled program. -/
def measure (task : Task) (iterate : Iterate) : Measures :=
  .at task.program (iterate.restore task.factors)

/-- The levels of all columns at a point. -/
def levels (task : Task) (iterate : Iterate) : Array Float :=
  (iterate.restore task.factors).point.map fun value => (value / iterate.scale).toFloat

/-- The answer that is true where one was found, with its levels. The path is followed from a point
on, for a number of steps at most, until an answer is beyond doubt. -/
def settle (task : Task) (found : Status) : Nat → Iterate → Option (Status × Array Float)
  | steps, iterate =>
      match (task.measure iterate).settled? found with
      | some status => some (status, task.levels iterate)
      | none =>
          match steps with
          | 0 => none
          | steps + 1 =>
              let (next, distance) := advance task.scaled false iterate
              if leastStep < distance then settle task found steps next else none

/-- The number of steps in which an answer has to be settled. -/
def settlingSteps : Nat := 120

/-- The answer that is given where one was found, with its levels. Bounds that were rounded may
contradict each other, and then nothing is a solution beyond doubt. So the answer is settled with
an allowance for roundings. What cannot be settled stays as it was found. -/
def verdict (task : Task) (found : Status) (iterate : Iterate) : Status × Array Float :=
  let relaxed := ofProgram task.program.relaxed task.settings
  (relaxed.settle found settlingSteps (.start relaxed.scaled)).getD (found, task.levels iterate)

/-- The answer that is given where one was found, with a number of iterations left. -/
def outcome (task : Task) (found : Status) (iterate : Iterate) (left : Nat) : Outcome Float :=
  let (status, levels) := task.verdict found iterate
  { status
    levels := if status.isOptimal then some levels else none
    seconds := 0.0
    iterations := task.settings.maxIter - left }

/-- The answer at a point where the method has to stop. -/
def stopped (task : Task) (halt : Halt) (iterate : Iterate) (left : Nat) : Outcome Float :=
  match (task.measure iterate).status? .reduced with
  | some found => task.outcome found iterate left
  | none =>
      { status := .failed halt.reason
        levels := none
        seconds := 0.0
        iterations := task.settings.maxIter - left }

/-- Follows the path for as many iterations as are left, from the first point or a later one. -/
def follow (task : Task) : Nat → Bool → Iterate → Outcome Float
  | left, first, iterate =>
      match (task.measure iterate).status? (.asked task.settings) with
      | some found => task.outcome found iterate left
      | none =>
          match left with
          | 0 => task.stopped .iterations iterate 0
          | left + 1 =>
              if expires task.settings then task.stopped .time iterate (left + 1)
              else
                let (next, distance) := advance task.scaled first iterate
                if leastStep < distance then follow task left false next
                else task.outcome (.failed Halt.progress.reason) iterate left

end Task

/-- The backend: lowers a problem without triangle cones and follows the path. It stops without an
answer where the rows that are left do not agree with their cones, and gives up where some of the
data are not numbers. -/
def backend (settings : Settings) (problem : ConicProblem Float) :
    Except Error (Outcome Float) :=
  match StandardForm.ofConic false problem with
  | .error error => .ok (.failure error.message)
  | .ok form => do
      match ← Program.ofStandardForm form with
      | none =>
          let halt : Halt := if settings.maxIter = 0 then .iterations
            else if expires settings then .time else .data
          pure (.failure halt.reason)
      | some program =>
          let task := Task.ofProgram program settings
          pure (task.follow settings.maxIter true (.start task.scaled))

end BlockCone.InteriorPoint
