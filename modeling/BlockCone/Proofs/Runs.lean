/-
This file says how a problem can come about.

An `Operation` is one call on a problem with all its arguments, among them the backend of a solve,
which may answer anything. A call that fails leaves the problem as it was, so a list of calls leads
from a problem to exactly one other, whichever of them succeed. The one thing that a caller cannot
do is make up a handle, and an honest run is one in which every call uses only handles that were
issued before it.

What a single call can do is said once, in `Change`: nothing, or one of four named changes, each
with the checks that were passed before it. Whatever the four changes keep holds after every run.
-/

import BlockCone.Proofs.Ownership
import BlockCone.Report

namespace BlockCone

/-- A call on a problem. -/
inductive Operation (α : Type) where
  | declare (name : Option String) (count dim : Nat)
  | declareIn (name : Option String) (domain : Domain α)
  | setObjective (sense : Sense) (expr : Expr α)
  | constrain (expr : Expr α) (domain : Domain α)
  | solve (backend : Backend α)
  /-- A solve whose backend may stop without an answer. -/
  | attempt (backend : ConicProblem α → Except Error (Outcome α))
  | level (slice : Slice)
  | levelMatrix (slice : Slice)
  | objectiveValue
  | evaluate (expr : Expr α)
  | report (source : Variable) (threshold : α)

variable {α : Type}

/-- The handles that a call is given were issued before it. -/
def Operation.Honest (problem : Problem α) : Operation α → Prop
  | .setObjective _ expr | .constrain expr _ | .evaluate expr => problem.IssuedExpr expr
  | .level slice | .levelMatrix slice => problem.IssuedSlice slice
  | .report source _ => problem.Issued source
  | _ => True

namespace Problem

theorem isFinalized_eq_false_iff (problem : Problem α) :
    problem.isFinalized = false ↔ problem.solution = none := by
  rw [isFinalized, Option.isSome_eq_false_iff, Option.isNone_iff_eq_none]

theorem building_of_requireBuilding {problem : Problem α} {passed : Unit}
    (building : problem.requireBuilding = .ok passed) : problem.solution = none := by
  unfold requireBuilding at building
  split at building
  · exact absurd building (by simp)
  · rename_i notFinal
    exact problem.isFinalized_eq_false_iff.mp (by simpa using notFinal)

theorem requireBuilding_of_building {problem : Problem α} (building : problem.solution = none) :
    problem.requireBuilding = .ok () := by
  rw [requireBuilding, problem.isFinalized_eq_false_iff.mpr building]
  rfl

theorem requireBuilding_of_solution {problem : Problem α} (final : problem.solution ≠ none) :
    problem.requireBuilding = .error .problemFinalized := by
  have finalized : problem.isFinalized = true := by
    rw [isFinalized, Option.isSome_iff_ne_none]
    exact final
  rw [requireBuilding, finalized]
  rfl

end Problem

section Scalars

variable [Scalar α]

/-- The problem that a call leaves, unless it fails. -/
def Operation.carryOut (problem : Problem α) : Operation α → Except Error (Problem α)
  | .declare name count dim => do
      let (_, next) ← problem.declare name count dim
      pure next
  | .declareIn name domain => do
      let (_, next) ← problem.declareIn name domain
      pure next
  | .setObjective sense expr => problem.setObjective sense expr
  | .constrain expr domain => do
      let (_, next) ← problem.constrain expr domain
      pure next
  | .solve backend => do
      let (_, next) ← problem.solve backend
      pure next
  | .attempt backend => do
      let (_, next) ← problem.attempt backend
      pure next
  | .level slice => do
      let _ ← problem.level slice
      pure problem
  | .levelMatrix slice => do
      let _ ← problem.levelMatrix slice
      pure problem
  | .objectiveValue => do
      let _ ← problem.objectiveValue
      pure problem
  | .evaluate expr => do
      let _ ← problem.evaluate expr
      pure problem
  | .report source threshold => do
      let _ ← contributingBlocks problem source threshold
      pure problem

/-- The handle that a call returns, if it is a declaration that is accepted. -/
def Operation.declared? (problem : Problem α) : Operation α → Option Variable
  | .declare name count dim => (problem.declare name count dim).toOption.map Prod.fst
  | .declareIn name domain => (problem.declareIn name domain).toOption.map Prod.fst
  | _ => none

/-- The objective that a call sets. -/
def Operation.objective? : Operation α → Option (Objective α)
  | .setObjective sense expr => some ⟨sense, expr⟩
  | _ => none

/-- The condition that a call adds. -/
def Operation.condition? : Operation α → Option (Expr α × Relation × α)
  | .constrain expr domain => domain.relation?.map fun (relation, bound) => (expr, relation, bound)
  | _ => none

namespace Problem

/-- The problem after a call; a call that fails changes nothing. -/
def after (problem : Problem α) (operation : Operation α) : Problem α :=
  match operation.carryOut problem with
  | .ok next => next
  | .error _ => problem

/-- The problem after a list of calls. -/
def run (problem : Problem α) (operations : List (Operation α)) : Problem α :=
  operations.foldl after problem

/-- Every call of a list uses only handles that were issued before it. -/
def HonestRun (problem : Problem α) : List (Operation α) → Prop
  | [] => True
  | operation :: rest => operation.Honest problem ∧ (problem.after operation).HonestRun rest

/-- The calls of a list that succeed. -/
def accepted (problem : Problem α) : List (Operation α) → List (Operation α)
  | [] => []
  | operation :: rest =>
      match operation.carryOut problem with
      | .ok next => operation :: next.accepted rest
      | .error _ => problem.accepted rest

/-- The constraints of a problem without their numbers. -/
def conditions (problem : Problem α) : List (Expr α × Relation × α) :=
  problem.constraints.map fun constraint => (constraint.expr, constraint.relation, constraint.bound)

/-! ### What a call can do -/

/-- The handle of the next declaration. -/
def fresh (problem : Problem α) (name : Option String) (count dim : Nat) : Variable :=
  { owner := problem.id
    index := problem.declared.length
    offset := problem.columns
    name
    blocks := count
    dim }

/-- What a problem keeps of the answer of a backend. -/
def solutionOf (status : Status) (value : Option α) (levels : Option (Array α))
    (outcome : Outcome α) : Solution α :=
  ⟨status, value, levels, outcome.seconds, outcome.iterations⟩

/-- How a problem can be changed by one call, which is honest if its handles were issued. -/
inductive Change (problem : Problem α) (honest : Prop) : Problem α → Prop where
  | nothing : Change problem honest problem
  | declaration (name : Option String) (count dim : Nat) (building : problem.solution = none)
      (counted : 0 < count) (sized : 0 < dim)
      (room : problem.columns + count * dim * dim < columnLimit) :
      Change problem honest
        { problem with
          declared := problem.declared ++ [problem.fresh name count dim]
          columns := problem.columns + count * dim * dim }
  | objective (sense : Sense) (expr : Expr α) (building : problem.solution = none)
      (issued : honest → problem.IssuedExpr expr)
      (owned : problem.requireOwnedExpr expr = .ok ()) :
      Change problem honest { problem with objective := some ⟨sense, expr⟩ }
  | constraint (expr : Expr α) (relation : Relation) (bound : α)
      (building : problem.solution = none) (issued : honest → problem.IssuedExpr expr)
      (owned : problem.requireOwnedExpr expr = .ok ()) :
      Change problem honest
        { problem with
          constraints :=
            problem.constraints ++ [⟨problem.constraints.length, expr, relation, bound⟩] }
  | solution (outcome : Outcome α) (value : Option α) (building : problem.solution = none)
      (valued : (normalized problem.columns outcome).2.mapM problem.conicForm.objectiveValue =
        .ok value) :
      Change problem honest
        { problem with
          solution := some (solutionOf (normalized problem.columns outcome).1 value
            (normalized problem.columns outcome).2 outcome) }

/-! ### The calls that change a problem -/

/-- A declaration passes three checks and appends the next handle. -/
theorem declare_eq_ok {problem next : Problem α} {name : Option String} {count dim : Nat}
    {source : Variable} (declared : problem.declare name count dim = .ok (source, next)) :
    source = problem.fresh name count dim ∧
      next = { problem with
        declared := problem.declared ++ [problem.fresh name count dim]
        columns := problem.columns + count * dim * dim } ∧
      ∀ honest, Change problem honest next := by
  obtain ⟨_, building, checks⟩ := bind_eq_ok_iff.mp declared
  split at checks
  · obtain ⟨_, thrown, _⟩ := bind_eq_ok_iff.mp checks
    exact absurd thrown (throw_ne_ok _ _)
  · rename_i positive
    dsimp only at checks
    split at checks
    · obtain ⟨_, thrown, _⟩ := bind_eq_ok_iff.mp checks
      exact absurd thrown (throw_ne_ok _ _)
    · rename_i room
      obtain ⟨rfl, rfl⟩ := Prod.mk.inj (Except.ok.inj checks)
      exact ⟨rfl, rfl, fun honest => .declaration name count dim
        (building_of_requireBuilding building) (by omega) (by omega) (by omega)⟩

theorem declareIn_eq_ok {problem : Problem α} {name : Option String} {domain : Domain α}
    {answer : Variable × Problem α} (declared : problem.declareIn name domain = .ok answer) :
    ∃ count dim, problem.declare name count dim = .ok answer := by
  cases domain with
  | semidefinite dim count => exact ⟨count, dim, declared⟩
  | _ => exact absurd declared (by simp [declareIn])

/-- Setting the objective replaces it. -/
theorem setObjective_eq_ok {problem next : Problem α} {sense : Sense} {expr : Expr α}
    (accepted : problem.setObjective sense expr = .ok next) :
    next = { problem with objective := some ⟨sense, expr⟩ } ∧
      Change problem (problem.IssuedExpr expr) next := by
  obtain ⟨_, building, rest⟩ := bind_eq_ok_iff.mp accepted
  obtain ⟨_, owned, changed⟩ := bind_eq_ok_iff.mp rest
  obtain rfl := Except.ok.inj changed
  exact ⟨rfl, .objective sense expr (building_of_requireBuilding building)
    (fun issued => issued) owned⟩

/-- A constraint is appended with the relation and the bound of its domain. -/
theorem constrain_eq_ok {problem next : Problem α} {expr : Expr α} {domain : Domain α}
    {index : Nat} (accepted : problem.constrain expr domain = .ok (index, next)) :
    ∃ relation bound, domain.relation? = some (relation, bound) ∧
      index = problem.constraints.length ∧
      next = { problem with
        constraints :=
          problem.constraints ++ [⟨problem.constraints.length, expr, relation, bound⟩] } ∧
      Change problem (problem.IssuedExpr expr) next := by
  obtain ⟨_, building, rest⟩ := bind_eq_ok_iff.mp accepted
  obtain ⟨_, owned, changed⟩ := bind_eq_ok_iff.mp rest
  cases bounds : domain.relation? with
  | none =>
    rw [bounds] at changed
    exact absurd changed (throw_ne_ok _ _)
  | some pair =>
    obtain ⟨relation, bound⟩ := pair
    rw [bounds] at changed
    obtain ⟨rfl, rfl⟩ := Prod.mk.inj (Except.ok.inj changed)
    exact ⟨relation, bound, rfl, rfl, rfl,
      .constraint expr relation bound (building_of_requireBuilding building)
        (fun issued => issued) owned⟩

/-- Solving keeps what is kept of an answer, with the value of the objective, and nothing else. -/
theorem solve_eq_ok {problem next : Problem α} {backend : Backend α} {status : Status}
    (accepted : problem.solve backend = .ok (status, next)) :
    status = (normalized problem.columns (backend problem.conicForm)).1 ∧
      (∃ value, (normalized problem.columns (backend problem.conicForm)).2.mapM
          problem.conicForm.objectiveValue = .ok value ∧
        next = { problem with
          solution := some (solutionOf status value
            (normalized problem.columns (backend problem.conicForm)).2
            (backend problem.conicForm)) }) ∧
      ∀ honest, Change problem honest next := by
  obtain ⟨_, building, rest⟩ := bind_eq_ok_iff.mp accepted
  obtain ⟨value, valued, changed⟩ := bind_eq_ok_iff.mp rest
  obtain ⟨rfl, rfl⟩ := Prod.mk.inj (Except.ok.inj changed)
  exact ⟨rfl, ⟨value, valued, rfl⟩, fun honest =>
    .solution (backend problem.conicForm) value (building_of_requireBuilding building) valued⟩

/-- An attempt that answers is a solve. -/
theorem attempt_eq_ok {problem : Problem α}
    {backend : ConicProblem α → Except Error (Outcome α)} {answer : Status × Problem α}
    (accepted : problem.attempt backend = .ok answer) :
    ∃ always, problem.solve always = .ok answer := by
  obtain ⟨_, _, rest⟩ := bind_eq_ok_iff.mp accepted
  obtain ⟨outcome, _, solved⟩ := bind_eq_ok_iff.mp rest
  exact ⟨_, solved⟩

/-- What a call that succeeds does: one of the changes, after which the variables, the objective and
the conditions are those that were there and the one it brings. -/
structure Carried (problem next : Problem α) (operation : Operation α) : Prop where
  change : Change problem (operation.Honest problem) next
  declared_eq : next.declared = problem.declared ++ (operation.declared? problem).toList
  objective_eq : next.objective = operation.objective?.or problem.objective
  conditions_eq : next.conditions = problem.conditions ++ operation.condition?.toList

section Kinds

variable {problem next : Problem α} {operation : Operation α}

theorem Carried.of_same (change : Change problem (operation.Honest problem) next)
    (declared_eq : next.declared = problem.declared ++ (operation.declared? problem).toList)
    (noObjective : operation.objective? = none) (noCondition : operation.condition? = none)
    (sameObjective : next.objective = problem.objective)
    (sameConstraints : next.constraints = problem.constraints) :
    Carried problem next operation where
  change := change
  declared_eq := declared_eq
  objective_eq := by rw [noObjective, sameObjective, Option.none_or]
  conditions_eq := by
    rw [noCondition, conditions, sameConstraints, Option.toList_none, List.append_nil, conditions]

/-- A call that declares a variable brings the handle that it returns. -/
theorem Carried.of_declare {name : Option String} {count dim : Nat} {answer : Variable × Problem α}
    (declared : problem.declare name count dim = .ok answer)
    (returned : operation.declared? problem = some answer.1)
    (noObjective : operation.objective? = none) (noCondition : operation.condition? = none) :
    Carried problem answer.2 operation := by
  obtain ⟨handle, changed, change⟩ := declare_eq_ok declared
  exact .of_same (change _) (by rw [returned, handle, changed]; rfl) noObjective noCondition
    (by rw [changed]) (by rw [changed])

/-- A call that solves the problem brings neither a variable nor a condition. -/
theorem Carried.of_solve {backend : Backend α} {answer : Status × Problem α}
    (solved : problem.solve backend = .ok answer)
    (noDeclaration : operation.declared? problem = none)
    (noObjective : operation.objective? = none) (noCondition : operation.condition? = none) :
    Carried problem answer.2 operation := by
  obtain ⟨_, ⟨value, _, changed⟩, change⟩ := solve_eq_ok solved
  exact .of_same (change _) (by rw [noDeclaration, changed]; exact (List.append_nil _).symm)
    noObjective noCondition (by rw [changed]) (by rw [changed])

/-- A call that only computes something leaves everything as it is. -/
theorem Carried.of_read {β : Type} {computed : Except Error β}
    (read : (computed >>= fun _ => pure problem) = Except.ok next)
    (noDeclaration : operation.declared? problem = none)
    (noObjective : operation.objective? = none) (noCondition : operation.condition? = none) :
    Carried problem next operation := by
  obtain ⟨_, _, same⟩ := bind_eq_ok_iff.mp read
  obtain rfl := Except.ok.inj same
  exact .of_same .nothing (by rw [noDeclaration]; exact (List.append_nil _).symm)
    noObjective noCondition rfl rfl

theorem carried_of_carryOut (carried : operation.carryOut problem = .ok next) :
    Carried problem next operation := by
  cases operation with
  | declare name count dim =>
    obtain ⟨answer, declared, same⟩ := bind_eq_ok_iff.mp carried
    obtain rfl := Except.ok.inj same
    exact .of_declare declared (by rw [Operation.declared?, declared]; rfl) rfl rfl
  | declareIn name domain =>
    obtain ⟨answer, declared, same⟩ := bind_eq_ok_iff.mp carried
    obtain rfl := Except.ok.inj same
    obtain ⟨count, dim, inCone⟩ := declareIn_eq_ok declared
    exact .of_declare inCone (by rw [Operation.declared?, declared]; rfl) rfl rfl
  | setObjective sense expr =>
    obtain ⟨rfl, change⟩ := setObjective_eq_ok carried
    exact ⟨change, (List.append_nil _).symm, rfl, (List.append_nil _).symm⟩
  | constrain expr domain =>
    obtain ⟨⟨index, changed⟩, accepted, same⟩ := bind_eq_ok_iff.mp carried
    obtain rfl := Except.ok.inj same
    obtain ⟨relation, bound, bounds, _, rfl, change⟩ := constrain_eq_ok accepted
    refine ⟨change, (List.append_nil _).symm, rfl, ?_⟩
    rw [Operation.condition?, bounds, conditions, List.map_append]
    rfl
  | solve backend =>
    obtain ⟨answer, solved, same⟩ := bind_eq_ok_iff.mp carried
    obtain rfl := Except.ok.inj same
    exact .of_solve solved rfl rfl rfl
  | attempt backend =>
    obtain ⟨answer, tried, same⟩ := bind_eq_ok_iff.mp carried
    obtain rfl := Except.ok.inj same
    obtain ⟨always, solved⟩ := attempt_eq_ok tried
    exact .of_solve solved rfl rfl rfl
  | level slice => exact .of_read carried rfl rfl rfl
  | levelMatrix slice => exact .of_read carried rfl rfl rfl
  | objectiveValue => exact .of_read carried rfl rfl rfl
  | evaluate expr => exact .of_read carried rfl rfl rfl
  | report source threshold => exact .of_read carried rfl rfl rfl

end Kinds

theorem change_after (problem : Problem α) (operation : Operation α) :
    Change problem (operation.Honest problem) (problem.after operation) := by
  unfold after
  cases carried : operation.carryOut problem with
  | ok next => exact (carried_of_carryOut carried).change
  | error reason => exact .nothing

/-- The variables after a call are those before it and the one that it returns. -/
theorem declared_after (problem : Problem α) (operation : Operation α) :
    (problem.after operation).declared =
      problem.declared ++ (operation.declared? problem).toList := by
  unfold after
  cases carried : operation.carryOut problem with
  | ok next => exact (carried_of_carryOut carried).declared_eq
  | error reason =>
    have noDeclaration : operation.declared? problem = none := by
      cases operation with
      | declare name count dim =>
        rcases bind_eq_error_iff.mp carried with failed | ⟨_, _, ⟨⟩⟩
        rw [Operation.declared?, failed]
        rfl
      | declareIn name domain =>
        rcases bind_eq_error_iff.mp carried with failed | ⟨_, _, ⟨⟩⟩
        rw [Operation.declared?, failed]
        rfl
      | _ => rfl
    rw [noDeclaration]
    exact (List.append_nil _).symm

/-- The handle that a call returns is the next one of the problem. -/
theorem eq_fresh_of_declared? {problem : Problem α} {operation : Operation α} {handle : Variable}
    (returned : operation.declared? problem = some handle) :
    ∃ name count dim, handle = problem.fresh name count dim := by
  cases operation with
  | declare name count dim =>
    obtain ⟨answer, declared, rfl⟩ := Option.map_eq_some_iff.mp returned
    exact ⟨name, count, dim, (declare_eq_ok (toOption_eq_some_iff.mp declared)).1⟩
  | declareIn name domain =>
    obtain ⟨answer, declared, rfl⟩ := Option.map_eq_some_iff.mp returned
    obtain ⟨count, dim, inCone⟩ := declareIn_eq_ok (toOption_eq_some_iff.mp declared)
    exact ⟨name, count, dim, (declare_eq_ok inCone).1⟩
  | _ => cases returned

theorem Change.id_eq {problem next : Problem α} {honest : Prop}
    (change : Change problem honest next) : next.id = problem.id := by
  cases change <;> rfl

/-! ### Runs -/

theorem run_cons (problem : Problem α) (operation : Operation α) (rest : List (Operation α)) :
    problem.run (operation :: rest) = (problem.after operation).run rest := rfl

theorem run_append (problem : Problem α) (earlier later : List (Operation α)) :
    problem.run (earlier ++ later) = (problem.run earlier).run later :=
  List.foldl_append

/-- What every change keeps, honest or not, holds after every run, if it held before. -/
theorem run_induction {holds : Problem α → Prop}
    (keeps : ∀ problem honest next, holds problem → Change problem honest next → holds next)
    {problem : Problem α} (start : holds problem) (operations : List (Operation α)) :
    holds (problem.run operations) := by
  induction operations generalizing problem with
  | nil => exact start
  | cons operation rest inductionHypothesis =>
    rw [run_cons]
    exact inductionHypothesis (keeps problem _ _ start (change_after problem operation))

/-- What every honest change keeps holds after an honest run, if it held before. -/
theorem honestRun_induction {holds : Problem α → Prop}
    (keeps : ∀ problem honest next, honest → holds problem → Change problem honest next →
      holds next)
    {problem : Problem α} (start : holds problem) (operations : List (Operation α))
    (honest : problem.HonestRun operations) : holds (problem.run operations) := by
  induction operations generalizing problem with
  | nil => exact start
  | cons operation rest inductionHypothesis =>
    rw [run_cons]
    exact inductionHypothesis (keeps problem _ _ honest.1 start (change_after problem operation))
      honest.2

/-- The objective after a run is the last one that was accepted. -/
theorem run_objective (problem : Problem α) (operations : List (Operation α)) :
    (problem.run operations).objective =
      ((problem.accepted operations).filterMap Operation.objective?).getLast?.or
        problem.objective := by
  induction operations generalizing problem with
  | nil => rfl
  | cons operation rest inductionHypothesis =>
    rw [run_cons, inductionHypothesis, after, accepted]
    cases carried : operation.carryOut problem with
    | error reason => rfl
    | ok next =>
      show _ = ((operation :: next.accepted rest).filterMap Operation.objective?).getLast?.or _
      rw [(carried_of_carryOut carried).objective_eq]
      cases brought : operation.objective? with
      | none => rw [List.filterMap_cons_none brought, Option.none_or]
      | some objective =>
        rw [List.filterMap_cons_some brought, List.getLast?_cons]
        cases ((next.accepted rest).filterMap Operation.objective?).getLast? <;> rfl

/-- The conditions after a run are those that were accepted, in their order. -/
theorem run_conditions (problem : Problem α) (operations : List (Operation α)) :
    (problem.run operations).conditions =
      problem.conditions ++ (problem.accepted operations).filterMap Operation.condition? := by
  induction operations generalizing problem with
  | nil => exact (List.append_nil _).symm
  | cons operation rest inductionHypothesis =>
    rw [run_cons, inductionHypothesis, after, accepted]
    cases carried : operation.carryOut problem with
    | error reason => rfl
    | ok next =>
      show next.conditions ++ _ =
        _ ++ (operation :: next.accepted rest).filterMap Operation.condition?
      rw [(carried_of_carryOut carried).conditions_eq, List.append_assoc]
      cases brought : operation.condition? with
      | none => rw [List.filterMap_cons_none brought, Option.toList_none, List.nil_append]
      | some condition => rw [List.filterMap_cons_some brought]; rfl

/-- A problem that a run of calls leads to, whichever handles the calls use. -/
def Visited (problem : Problem α) : Prop :=
  ∃ id name operations, (Problem.new id name).run operations = problem

theorem Visited.run {problem : Problem α} (visited : problem.Visited)
    (later : List (Operation α)) : (problem.run later).Visited := by
  obtain ⟨id, name, operations, rfl⟩ := visited
  exact ⟨id, name, operations ++ later, run_append _ _ _⟩

/-- A problem that an honest run of calls leads to. -/
def Reachable (problem : Problem α) : Prop :=
  ∃ id name operations, (Problem.new id name).HonestRun operations ∧
    (Problem.new id name).run operations = problem

end Problem

end Scalars

/-! ### A short run -/

namespace Sample

/-- One block of two rows. -/
def handle : Variable := ⟨0, 0, 0, none, 1, 2⟩

/-- The block as a matrix. -/
def block : Slice := ⟨handle, ⟨0, [1, 2, 2], [4, 2, 1], .matrix 2 2⟩⟩

/-- An inner product with a matrix that is not symmetric. -/
def term : DotTerm ℚ := ⟨⟨2, 2, [1, 2, 0, 1], rfl⟩, block, rfl⟩

/-- A sum that meets every kind of expression. -/
def expr : Expr ℚ := .sum [.constant 3, .dot term]

/-- Declares the block and bounds the expression. -/
def operations : List (Operation ℚ) :=
  [.declare none 1 2, .constrain expr (.lessThan 5)]

/-- Answers with the identity matrix. -/
def backend : Backend ℚ := fun _ => ⟨.optimal, some #[1, 0, 0, 1], 0, 0⟩

theorem block_cut : handle.block 0 = .ok block := rfl

/-- The problem that they lead to. -/
def problem : Problem ℚ := (Problem.new 0 none).run operations

theorem expr_issued {known : Problem ℚ} (member : handle ∈ known.declared) :
    known.IssuedExpr expr := by
  intro used listed
  obtain rfl : used = Sample.term := List.mem_singleton.mp listed
  exact ⟨.block block_cut, fun _ => member⟩

theorem operations_honest : (Problem.new 0 none).HonestRun operations :=
  ⟨trivial, expr_issued (by decide), trivial⟩

theorem operations_append_honest {last : Operation ℚ} (honest : last.Honest problem) :
    (Problem.new 0 none).HonestRun (operations ++ [last]) :=
  ⟨trivial, expr_issued (by decide), honest, trivial⟩

end Sample

end BlockCone
