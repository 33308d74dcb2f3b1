/-
This file is the model itself: a problem that is built up, solved once, and read.

A `Problem` collects block variables, an objective and constraints. Solving it hands its flat form
to a backend and keeps the answer; from then on it accepts no changes. Levels can be read if the
answer was optimal. An answer that contradicts itself, such as an optimum without levels, is kept
as a failure of the backend.

Every operation that changes a problem returns the changed one, and none when it fails. The
ownership of variables is checked wherever an expression or a slice comes in from outside.
-/

import BlockCone.Expr.Linearize
import BlockCone.Outcome

namespace BlockCone

/-- What an expression is optimized for. -/
structure Objective (α : Type) where
  sense : Sense
  expr : Expr α

/-- A constraint of a problem: an expression, and the bound it stands against. -/
structure Constraint (α : Type) where
  /-- The number of the constraint, in the order in which they were added. -/
  index : Nat
  expr : Expr α
  relation : Relation
  bound : α

/-- Whether the value of its expression satisfies a constraint within a tolerance. -/
def Constraint.isSatisfiedBy {α : Type} [Scalar α] (constraint : Constraint α)
    (value tolerance : α) : Bool :=
  constraint.relation.holds constraint.bound value tolerance

/-- The stage of a problem. -/
inductive Stage where
  /-- It accepts variables, an objective and constraints. -/
  | building
  /-- It was solved to optimality. -/
  | solved
  /-- Its solve ended in another way. -/
  | failed
deriving DecidableEq, Repr

/-- A model over stacks of positive semidefinite blocks. -/
structure Problem (α : Type) where
  id : ProblemId
  name : Option String
  /-- The declared variables, in order. -/
  declared : List Variable
  /-- The number of columns of all variables together. -/
  columns : Nat
  objective : Option (Objective α)
  /-- The constraints, in order. -/
  constraints : List (Constraint α)
  solution : Option (Solution α)

namespace Problem

variable {α : Type}

/-- A problem with nothing in it. -/
def new (id : ProblemId) (name : Option String) : Problem α :=
  ⟨id, name, [], 0, none, [], none⟩

/-- The stage of a problem. -/
def stage (problem : Problem α) : Stage :=
  match problem.solution with
  | none => .building
  | some solution => if solution.status.isOptimal then .solved else .failed

/-- Whether a problem was solved, in whatever way that ended. -/
def isFinalized (problem : Problem α) : Bool :=
  problem.solution.isSome

/-- Refuses a problem that was solved. -/
def requireBuilding (problem : Problem α) : Except Error Unit :=
  if problem.isFinalized then .error .problemFinalized else .ok ()

/-! ### Variables -/

/-- The number of column numbers there are, `2 ^ 64`. -/
def columnLimit : Nat := 18446744073709551616

/-- Declares a stack of `count` matrices of `dim` rows behind the variables that are there. -/
def declare (problem : Problem α) (name : Option String) (count dim : Nat) :
    Except Error (Variable × Problem α) := do
  problem.requireBuilding
  if count = 0 ∨ dim = 0 then
    throw (.invalidProblem (.emptyBlocks count dim))
  let stop := problem.columns + count * dim * dim
  if columnLimit ≤ stop then
    throw (.invalidProblem (.columnOverflow count dim))
  let fresh : Variable :=
    { owner := problem.id
      index := problem.declared.length
      offset := problem.columns
      name
      blocks := count
      dim }
  pure (fresh, { problem with declared := problem.declared ++ [fresh], columns := stop })

/-- Declares a variable in a domain, which has to be a cone. -/
def declareIn [Scalar α] (problem : Problem α) (name : Option String) (domain : Domain α) :
    Except Error (Variable × Problem α) :=
  match domain with
  | .semidefinite dim count => problem.declare name count dim
  | other => .error (.invalidProblem (.variableDomain other.display))

/-- Whether a variable was declared by this problem. -/
def owns (problem : Problem α) (used : Variable) : Bool :=
  used.owner == problem.id &&
    match problem.declared[used.index]? with
    | some source => source.sameAs used
    | none => false

/-- Refuses a variable of another problem. -/
def requireOwned (problem : Problem α) (used : Variable) : Except Error Unit :=
  if problem.owns used then .ok () else .error (.foreignVariable used.label)

/-- Refuses an expression that uses a variable of another problem, and names the first one. -/
def requireOwnedExpr (problem : Problem α) (expr : Expr α) : Except Error Unit :=
  expr.usedVariables.forM problem.requireOwned

/-! ### Objective and constraints -/

/-- Sets the objective, in place of any that was set before. -/
def setObjective (problem : Problem α) (sense : Sense) (expr : Expr α) :
    Except Error (Problem α) := do
  problem.requireBuilding
  problem.requireOwnedExpr expr
  pure { problem with objective := some ⟨sense, expr⟩ }

/-- Adds the constraint that an expression lies in a domain, which has to be one of numbers, and
returns its number. -/
def constrain [Scalar α] (problem : Problem α) (expr : Expr α) (domain : Domain α) :
    Except Error (Nat × Problem α) := do
  problem.requireBuilding
  problem.requireOwnedExpr expr
  match domain.relation? with
  | none => throw (.invalidProblem (.constraintDomain domain.display))
  | some (relation, bound) =>
      let index := problem.constraints.length
      pure (index,
        { problem with constraints := problem.constraints ++ [⟨index, expr, relation, bound⟩] })

/-! ### Solving -/

section Scalars

variable [Scalar α]

/-- The flat form of an objective. -/
def flatObjective : Option (Objective α) → LinearObjective α
  | none => .feasibility
  | some objective =>
      let form := objective.expr.linearForm
      ⟨objective.sense, form.columns, form.constant⟩

/-- The flat form of a constraint; the constant of its expression moves to the bound. -/
def flatConstraint (constraint : Constraint α) : LinearConstraint α :=
  let form := constraint.expr.linearForm
  ⟨form.columns, constraint.relation, constraint.bound - form.constant⟩

/-- The flat form of a problem. -/
def conicForm (problem : Problem α) : ConicProblem α :=
  { columns := problem.columns
    cones := problem.declared.map fun source => ⟨source.dim, source.blocks, source.offset⟩
    objective := flatObjective problem.objective
    constraints := problem.constraints.map flatConstraint }

/-- What is kept of an answer: levels only with an optimum, and an optimum only with as many levels
as there are columns. -/
def normalized (columns : Nat) (outcome : Outcome α) : Status × Option (Array α) :=
  match outcome.status, outcome.levels with
  | .optimal, some levels =>
      if levels.size = columns then (.optimal, some levels)
      else
        (.failed ("solution has " ++ toString levels.size ++ " entries, expected " ++
          toString columns), none)
  | .optimal, none => (.failed "optimal status without a solution vector", none)
  | status, _ => (status, none)

/-- Solves a problem with a backend and keeps the answer. -/
def solve (problem : Problem α) (backend : Backend α) : Except Error (Status × Problem α) := do
  problem.requireBuilding
  let conic := problem.conicForm
  let outcome := backend conic
  let (status, levels) := normalized conic.columns outcome
  let value ← levels.mapM conic.objectiveValue
  pure (status,
    { problem with
      solution := some ⟨status, value, levels, outcome.seconds, outcome.iterations⟩ })

/-- Solves a problem with a backend that may stop without an answer. The problem can still be
changed then. -/
def attempt (problem : Problem α) (backend : ConicProblem α → Except Error (Outcome α)) :
    Except Error (Status × Problem α) := do
  problem.requireBuilding
  let outcome ← backend problem.conicForm
  problem.solve fun _ => outcome

/-! ### Reading -/

/-- The terminal status of a problem, once it has one. -/
def status? (problem : Problem α) : Option Status :=
  problem.solution.map Solution.status

/-- The levels of all columns, which only an optimum has. -/
def levels (problem : Problem α) : Except Error (Array α) :=
  match problem.solution.bind Solution.levels with
  | some levels => .ok levels
  | none => .error .notSolved

/-- The levels of a slice, in the order of its view. -/
def level (problem : Problem α) (slice : Slice) : Except Error (List α) := do
  problem.requireOwned slice.source
  let levels ← problem.levels
  slice.view.flatIndices.mapM fun index => readPoint levels (slice.source.offset + index)

/-- The levels of a slice of at most two dimensions, as a matrix. -/
def levelMatrix (problem : Problem α) (slice : Slice) : Except Error (Matrix α) := do
  if 2 < slice.shape.rank then
    throw (.shapeMismatch "at most 2 dimensions" slice.shape.display)
  let values ← problem.level slice
  Matrix.ofValues values slice.shape.rows slice.shape.cols

/-- The value of the objective at the optimum. -/
def objectiveValue (problem : Problem α) : Except Error α :=
  match problem.solution.bind Solution.value with
  | some value => .ok value
  | none => .error .notSolved

/-- The value of an expression at the optimum. -/
def evaluate (problem : Problem α) (expr : Expr α) : Except Error α := do
  problem.requireOwnedExpr expr
  let levels ← problem.levels
  expr.linearForm.evaluate levels

end Scalars

end Problem

end BlockCone
