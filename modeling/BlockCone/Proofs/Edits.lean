/-
This file proves that a call which fails leaves a problem exactly as it was.

A call returns the changed problem, and none when it fails. A program that changes a problem in
place writes one field after the other, and what it wrote before a failure stays. An `Edit` is such
a program. The calls are written here as edits, each with its checks and its writes in their order,
and are proved to do what the calls do. No edit writes before its last check, so a failure leaves
every field as it was, and a success changes the fields that it is about.

An edit counts the columns of a new variable in three steps, each of which has to give a column
number. No step gives less than the one before it, so all of them do exactly if the last one does,
and none of them refuses a variable for which there is room.
-/

import BlockCone.Proofs.Lifecycle
import BlockCone.Proofs.Reading
import BlockCone.Proofs.Refusals

namespace BlockCone

variable {α β : Type}

/-- A program that changes a problem in place. -/
abbrev Edit (α β : Type) := EStateM Error (Problem α) β

namespace Edit

/-- How an edit ends that keeps what a call returns, and the problem as it is if the call fails. -/
def ending (problem : Problem α) :
    Except Error (β × Problem α) → EStateM.Result Error (Problem α) β
  | .ok (answer, next) => .ok answer next
  | .error reason => .error reason problem

/-- The edit that makes a call. -/
def ofCall (call : Problem α → Except Error (β × Problem α)) : Edit α β := fun problem =>
  ending problem (call problem)

/-- The edit that computes something from a problem and changes nothing. -/
def read (compute : Problem α → Except Error β) : Edit α β := fun problem =>
  match compute problem with
  | .ok answer => .ok answer problem
  | .error reason => .error reason problem

/-! ### The calls as edits -/

/-- A number that is one of a column, or of the end of the last one. -/
def column? (number : Nat) : Option Nat :=
  if number < Problem.columnLimit then some number else none

/-- The end of the columns of a new variable, counted in steps that may overflow. -/
def stop? (start count dim : Nat) : Option Nat := do
  let rows ← column? (count * dim)
  let size ← column? (rows * dim)
  column? (start + size)

/-- Declares a variable. The columns are counted up to its end before they are written, and the
variable is appended after that. -/
def declare (name : Option String) (count dim : Nat) : Edit α Variable := do
  read Problem.requireBuilding
  if count = 0 ∨ dim = 0 then
    throw (.invalidProblem (.emptyBlocks count dim))
  match stop? (← get).columns count dim with
  | none => throw (.invalidProblem (.columnOverflow count dim))
  | some stop =>
    let fresh := (← get).fresh name count dim
    modify fun problem => { problem with columns := stop }
    modify fun problem => { problem with declared := problem.declared ++ [fresh] }
    pure fresh

/-- Replaces the objective by one over variables of the problem. -/
def setObjective (sense : Sense) (expr : Expr α) : Edit α Unit := do
  read Problem.requireBuilding
  read fun problem => problem.requireOwnedExpr expr
  modify fun problem => { problem with objective := some ⟨sense, expr⟩ }

section Scalars

variable [Scalar α]

/-- Appends a constraint, whose number is the number of those before it. -/
def constrain (expr : Expr α) (domain : Domain α) : Edit α Nat := do
  read Problem.requireBuilding
  read fun problem => problem.requireOwnedExpr expr
  match domain.relation? with
  | none => throw (.invalidProblem (.constraintDomain domain.display))
  | some (relation, bound) =>
    let index := (← get).constraints.length
    modify fun problem =>
      { problem with constraints := problem.constraints ++ [⟨index, expr, relation, bound⟩] }
    pure index

/-- Hands the conic form to a backend and keeps what comes back. The value of the objective is the
last thing that can fail. -/
def solve (backend : Backend α) : Edit α Status := do
  read Problem.requireBuilding
  let conic := (← get).conicForm
  let outcome := backend conic
  let (status, levels) := Problem.normalized conic.columns outcome
  let value ← read fun _ => levels.mapM conic.objectiveValue
  modify fun problem =>
    { problem with
      solution := some ⟨status, value, levels, outcome.seconds, outcome.iterations⟩ }
  pure status

end Scalars

/-! ### Counting columns -/

theorem column?_of_lt {number : Nat} (small : number < Problem.columnLimit) :
    column? number = some number :=
  if_pos small

/-- The steps overflow exactly if there is no room for the variable. -/
theorem stop?_eq (start count : Nat) {dim : Nat} (sized : 0 < dim) :
    stop? start count dim = column? (start + count * dim * dim) := by
  have rows_le : count * dim ≤ count * dim * dim := Nat.le_mul_of_pos_right _ sized
  by_cases room : start + count * dim * dim < Problem.columnLimit
  · have rows : column? (count * dim) = some (count * dim) := column?_of_lt (by omega)
    have size : column? (count * dim * dim) = some (count * dim * dim) := column?_of_lt (by omega)
    rw [stop?, rows, Option.bind_eq_bind, Option.bind_some, size, Option.bind_some]
  · have full : column? (start + count * dim * dim) = none := if_neg room
    rw [stop?, full, Option.bind_eq_bind, Option.bind_eq_none_iff]
    intro rows counted
    rw [Option.bind_eq_none_iff]
    intro size sized
    rw [column?, Option.ite_none_right_eq_some] at counted sized
    rw [← Option.some.inj sized.2, ← Option.some.inj counted.2]
    exact full

/-! ### The edits do what the calls do -/

variable {γ : Type}

theorem read_bind_eq {compute : Problem α → Except Error γ} {next : γ → Edit α β}
    {call : γ → Except Error (β × Problem α)} {problem : Problem α}
    (same : ∀ answer, next answer problem = ending problem (call answer)) :
    (read compute >>= next) problem = ending problem (compute problem >>= call) := by
  show EStateM.bind (read compute) next problem = _
  cases computed : compute problem with
  | ok answer =>
    simp only [EStateM.bind, read, computed]
    exact same answer
  | error reason =>
    simp only [EStateM.bind, read, computed]
    rfl

theorem get_bind_eq (next : Problem α → Edit α β) (problem : Problem α) :
    (get >>= next : Edit α β) problem = next problem problem := rfl

theorem declare_eq_ofCall (name : Option String) (count dim : Nat) :
    (declare name count dim : Edit α Variable) =
      ofCall fun problem => problem.declare name count dim := by
  funext problem
  refine read_bind_eq fun _ => ?_
  by_cases empty : count = 0 ∨ dim = 0
  · simp only [if_pos empty]
    rfl
  · have positive : 0 < dim := by omega
    have counted := stop?_eq problem.columns count positive
    by_cases room : problem.columns + count * dim * dim < Problem.columnLimit
    · rw [column?_of_lt room] at counted
      simp only [if_neg empty, if_neg (Nat.not_le.mpr room), get_bind_eq, counted]
      rfl
    · have full : column? (problem.columns + count * dim * dim) = none := if_neg room
      rw [full] at counted
      simp only [if_neg empty, if_pos (Nat.not_lt.mp room), get_bind_eq, counted]
      rfl

theorem setObjective_eq_ofCall (sense : Sense) (expr : Expr α) :
    setObjective sense expr =
      ofCall fun problem =>
        problem.setObjective sense expr >>= fun next => pure ((), next) := by
  funext problem
  simp only [Problem.setObjective, bind_assoc, pure_bind]
  refine read_bind_eq fun _ => read_bind_eq fun _ => ?_
  rfl

theorem constrain_eq_ofCall [Scalar α] (expr : Expr α) (domain : Domain α) :
    constrain expr domain = ofCall fun problem => problem.constrain expr domain := by
  funext problem
  refine read_bind_eq fun _ => read_bind_eq fun _ => ?_
  cases domain.relation? with
  | none => rfl
  | some pair => rfl

theorem solve_eq_ofCall [Scalar α] (backend : Backend α) :
    solve backend = ofCall fun problem : Problem α => problem.solve backend := by
  funext problem
  refine read_bind_eq fun _ => ?_
  rw [get_bind_eq]
  exact read_bind_eq fun _ => rfl

/-! ### Failures leave no trace -/

/-- An edit makes a call. If there is a fault, it fails for the first one and leaves the problem as
it was; if there is none, it succeeds and has an effect. -/
structure Atomic (edit : Edit α β) (call : Problem α → Except Error (β × Problem α))
    (problem : Problem α) (faults : List (Prop × Error)) (effect : β → Problem α → Prop) :
    Prop where
  agrees : edit problem = ending problem (call problem)
  fails_iff : ∀ reason left,
    edit problem = .error reason left ↔ FirstFault faults reason ∧ left = problem
  succeeds : (∀ fault ∈ faults, ¬ fault.1) →
    ∃ answer next, edit problem = .ok answer next ∧ effect answer next

theorem Atomic.of_call {edit : Edit α β} {call : Problem α → Except Error (β × Problem α)}
    {problem : Problem α} {faults : List (Prop × Error)} {effect : β → Problem α → Prop}
    (same : edit = ofCall call) (fails : FailsWith faults (call problem))
    (effects : ∀ answer next, call problem = .ok (answer, next) → effect answer next) :
    Atomic edit call problem faults effect := by
  subst same
  refine ⟨rfl, fun reason left => ?_, fun noFault => ?_⟩
  · rw [← fails reason, ofCall]
    cases called : call problem with
    | ok pair => simp [ending]
    | error cause =>
      simp only [ending, EStateM.Result.error.injEq, Except.error.injEq]
      exact and_congr_right fun _ => eq_comm
  · obtain ⟨⟨answer, next⟩, called⟩ := fails.succeeds_iff.mpr noFault
    exact ⟨answer, next, by rw [ofCall, called]; rfl, effects answer next called⟩

end Edit

namespace Problem

variable {problem : Problem α}

/-- The faults of the inner products of an expression are the variables that were not declared. -/
theorem Arranged.foreignFaults_eq (arranged : problem.Arranged) {expr : Expr α}
    (issued : problem.IssuedExpr expr) :
    problem.foreignFaults expr = expr.terms.map fun term =>
      (term.slice.source ∉ problem.declared, .foreignVariable term.slice.source.label) := by
  refine List.map_congr_left fun term member => ?_
  have known : problem.owns term.slice.source = true ↔ term.slice.source ∈ problem.declared :=
    ⟨fun owned => (issued term member).2 (owner_of_owns owned), arranged.owns⟩
  rw [← known, Bool.not_eq_true]

variable [Scalar α]

/-- A solve is refused only if the problem was solved before. -/
theorem Sound.failsWith_solve (sound : problem.Sound) (backend : Backend α) :
    FailsWith [problem.finalFault] (problem.solve backend) := by
  intro reason
  by_cases building : problem.solution = none
  · obtain ⟨next, solved⟩ := sound.solve_succeeds building backend
    simp [solved, FirstFault, finalFault, building]
  · have refused : problem.solve backend = .error .problemFinalized :=
      bind_eq_error_iff.mpr (Or.inl (requireBuilding_of_solution building))
    simp [refused, FirstFault, finalFault, building, eq_comm]

/-- In every problem that can be reached, the four calls that change it are atomic. Each is refused
for the first of its faults: that the problem was solved before, then that a variable is not one of
the problem, from left to right, then what is wrong with the arguments, where the columns overflow
if there are more than `2 ^ 64 - 1`. -/
theorem edits_atomic (reached : problem.Reachable) :
    (∀ name count dim, Edit.Atomic (Edit.declare name count dim)
      (fun problem => problem.declare name count dim) problem
      [(problem.solution ≠ none, .problemFinalized),
        (count = 0 ∨ dim = 0, .invalidProblem (.emptyBlocks count dim)),
        (2 ^ 64 - 1 < problem.columns + count * dim * dim,
          .invalidProblem (.columnOverflow count dim))]
      fun handle next => handle = problem.fresh name count dim ∧
        next = { problem with
          declared := problem.declared ++ [handle]
          columns := problem.columns + count * dim * dim }) ∧
    (∀ sense expr, problem.IssuedExpr expr → Edit.Atomic (Edit.setObjective sense expr)
      (fun problem => problem.setObjective sense expr >>= fun next => pure ((), next)) problem
      ((problem.solution ≠ none, .problemFinalized) :: expr.terms.map fun term =>
        (term.slice.source ∉ problem.declared, .foreignVariable term.slice.source.label))
      fun _ next => next = { problem with objective := some ⟨sense, expr⟩ }) ∧
    (∀ expr domain, problem.IssuedExpr expr → Edit.Atomic (Edit.constrain expr domain)
      (fun problem => problem.constrain expr domain) problem
      ((problem.solution ≠ none, .problemFinalized) :: ((expr.terms.map fun term =>
        (term.slice.source ∉ problem.declared, .foreignVariable term.slice.source.label)) ++
          [(∃ dim count, domain = .semidefinite dim count,
            .invalidProblem (.constraintDomain domain.display))]))
      fun index next => index = problem.constraints.length ∧ ∃ relation bound,
        domain.relation? = some (relation, bound) ∧
          next = { problem with
            constraints := problem.constraints ++ [⟨index, expr, relation, bound⟩] }) ∧
    ∀ backend, Edit.Atomic (Edit.solve backend) (fun problem => problem.solve backend) problem
      [(problem.solution ≠ none, .problemFinalized)]
      fun status next =>
        status = (normalized problem.columns (backend problem.conicForm)).1 ∧
          ∃ value, (normalized problem.columns (backend problem.conicForm)).2.mapM
              problem.conicForm.objectiveValue = .ok value ∧
            next = { problem with
              solution := some (solutionOf status value
                (normalized problem.columns (backend problem.conicForm)).2
                (backend problem.conicForm)) } := by
  have sound := reached.sound
  refine ⟨fun name count dim => ?_, fun sense expr issued => ?_, fun expr domain issued => ?_,
    fun backend => ?_⟩
  · refine .of_call (Edit.declare_eq_ofCall name count dim) ?_ fun handle next declared => ?_
    · exact problem.failsWith_declare name count dim
    · obtain ⟨rfl, rfl, _⟩ := declare_eq_ok declared
      exact ⟨rfl, rfl⟩
  · refine .of_call (Edit.setObjective_eq_ofCall sense expr) ?_ fun answer next accepted => ?_
    · rw [← sound.foreignFaults_eq issued]
      exact (problem.failsWith_setObjective sense expr).map _
    · obtain ⟨changed, set, same⟩ := bind_eq_ok_iff.mp accepted
      obtain ⟨_, rfl⟩ := Prod.mk.inj (Except.ok.inj same)
      exact (setObjective_eq_ok set).1
  · refine .of_call (Edit.constrain_eq_ofCall expr domain) ?_ fun index next accepted => ?_
    · rw [← sound.foreignFaults_eq issued]
      exact problem.failsWith_constrain expr domain
    · obtain ⟨relation, bound, bounds, rfl, changed, _⟩ := constrain_eq_ok accepted
      exact ⟨rfl, relation, bound, bounds, changed⟩
  · refine .of_call (Edit.solve_eq_ofCall backend) (sound.failsWith_solve backend) ?_
    intro status next accepted
    obtain ⟨terminal, kept, _⟩ := solve_eq_ok accepted
    exact ⟨terminal, kept⟩

end Problem

/-! ### A problem that can still be changed -/

/-- The sample problem refuses an empty block and a cone for an expression, and accepts the
expression as its objective. -/
theorem Problem.edits_atomic_sample :
    Sample.problem.Reachable ∧ Sample.problem.IssuedExpr Sample.expr ∧
      Edit.declare none 0 2 Sample.problem =
        .error (.invalidProblem (.emptyBlocks 0 2)) Sample.problem ∧
      (∃ answer next, Edit.setObjective .minimize Sample.expr Sample.problem = .ok answer next ∧
        next = { Sample.problem with objective := some ⟨.minimize, Sample.expr⟩ }) ∧
      Edit.constrain Sample.expr (.semidefinite 2 1) Sample.problem =
        .error (.invalidProblem (.constraintDomain (Domain.semidefinite 2 1 : Domain ℚ).display))
          Sample.problem := by
  have reached : Sample.problem.Reachable := ⟨0, none, _, Sample.operations_honest, rfl⟩
  have known : Sample.handle ∈ Sample.problem.declared := List.mem_singleton.mpr rfl
  have issued := Sample.expr_issued known
  have building : Sample.problem.solution = none := rfl
  have uses : Sample.expr.terms = [Sample.term] := rfl
  have own : Sample.term.slice.source ∈ Sample.problem.declared := known
  obtain ⟨declaring, setting, constraining, _⟩ := edits_atomic reached
  refine ⟨reached, issued, ?_, ?_, ?_⟩
  · rw [(declaring none 0 2).fails_iff]
    simp [FirstFault, building]
  · refine (setting .minimize Sample.expr issued).succeeds ?_
    simp [uses, building, own]
  · rw [(constraining Sample.expr (.semidefinite 2 1) issued).fails_iff]
    simp [FirstFault, uses, building, own]

end BlockCone
