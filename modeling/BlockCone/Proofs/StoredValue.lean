/-
This file proves that what is stored of a solution is what reading it again computes.

The value of the objective is computed once, when the answer of the backend arrives, from the flat
form of the problem. Evaluating an expression later linearizes it afresh, and the left-hand side of
a row is weighed a third time. All three weigh the same list of coefficients, sorted in the same way
and added up from the same start, so they agree in the last bit, whatever addition and
multiplication are. What they read is the same as well: a problem that has a solution is frozen, so
no calls in between can move a level, a coefficient or the stored value.
-/

import BlockCone.Proofs.CanonicalRows
import BlockCone.Proofs.Lifecycle
import BlockCone.Proofs.Reading
import BlockCone.ScalarDouble

namespace BlockCone

variable {α : Type} [Scalar α]

/-! ### One computation -/

namespace LinearForm

/-- The sum of the coefficients times the levels at a vector, in the order of the columns. -/
def weightedLevels (form : LinearForm α) (point : Array α) : α :=
  Scalar.sum (form.columns.map fun entry => entry.2 * entryOf point entry.1)

end LinearForm

namespace Problem

variable {problem : Problem α}

/-- What an expression over the declared variables weighs with a level for each column. -/
theorem Sound.weighedSum_columns (sound : problem.Sound) {levels : Array α}
    (fits : levels.size = problem.columns) {expr : Expr α} (isOver : expr.Over problem.declared) :
    weighedSum expr.linearForm.columns levels = .ok (expr.linearForm.weightedLevels levels) :=
  weighedSum_eq_ok (sound.within_of_over fits isOver)

/-- With a level for each column an expression evaluates to what its form weighs, plus its
constant. -/
theorem Sound.evaluate_eq_weightedLevels (sound : problem.Sound) {levels : Array α}
    (present : problem.levels = .ok levels) (fits : levels.size = problem.columns)
    {expr : Expr α} (isOver : expr.Over problem.declared) :
    problem.evaluate expr =
      .ok (expr.linearForm.weightedLevels levels + expr.linearForm.constant) := by
  have evaluated : expr.linearForm.evaluate levels =
      .ok (expr.linearForm.weightedLevels levels + expr.linearForm.constant) :=
    bind_eq_ok_iff.mpr ⟨_, sound.weighedSum_columns fits isOver, rfl⟩
  exact bind_eq_ok_iff.mpr ⟨(), sound.requireOwnedExpr isOver,
    bind_eq_ok_iff.mpr ⟨levels, present, evaluated⟩⟩

/-- The value of the objective in the flat form is what the form of the objective weighs, plus its
constant. -/
theorem Sound.objectiveValue_conicForm (sound : problem.Sound) {levels : Array α}
    (fits : levels.size = problem.columns) {objective : Objective α}
    (present : problem.objective = some objective) :
    problem.conicForm.objectiveValue levels =
      .ok (objective.expr.linearForm.weightedLevels levels +
        objective.expr.linearForm.constant) := by
  have isOver := sound.objective_over objective present
  simp only [ConicProblem.objectiveValue, conicForm, present, flatObjective,
    sound.weighedSum_columns fits isOver]
  rfl

/-- The left-hand side of a row of the flat form is what the form of its constraint weighs. -/
theorem Sound.constraintValue_conicForm (sound : problem.Sound) {levels : Array α}
    (fits : levels.size = problem.columns) {index : Nat} {constraint : Constraint α}
    (present : problem.constraints[index]? = some constraint) :
    problem.conicForm.constraintValue index levels =
      .ok (some (constraint.expr.linearForm.weightedLevels levels)) := by
  have isOver := sound.constraints_over constraint (List.mem_of_getElem? present)
  have row : problem.conicForm.constraints[index]? = some (flatConstraint constraint) := by
    rw [conicForm, List.getElem?_map, present]
    rfl
  simp only [ConicProblem.constraintValue, row, flatConstraint,
    sound.weighedSum_columns fits isOver]
  rfl

/-! ### Reading again -/

/-- A solved problem has a level for each column, and it has stored the value of the objective at
these levels. -/
theorem Settled.stored (settled : problem.Settled) (solved : problem.stage = .solved) :
    problem.solution ≠ none ∧ ∃ levels value, problem.levels = .ok levels ∧
      levels.size = problem.columns ∧ problem.objectiveValue = .ok value ∧
      problem.conicForm.objectiveValue levels = .ok value := by
  cases settled with
  | building stage unsolved => exact absurd (stage.symm.trans solved) (by decide)
  | solved _ kept levels value present status levels_eq fits value_eq valued =>
    refine ⟨by simp [present], levels, value, ?_, fits, ?_, valued⟩
    · rw [Problem.levels, present, Option.bind_some, levels_eq]
    · rw [Problem.objectiveValue, present, Option.bind_some, value_eq]
  | failed stage kept present levels_eq value_eq =>
    exact absurd (stage.symm.trans solved) (by decide)

/-- After a problem was solved, whatever calls are made, the stored value of the objective is the
value that its expression evaluates to, and the expression of each constraint evaluates to the
left-hand side of its row at the levels plus the constant of its linear form. Both hold bit for bit,
also if other calls come between the two readings. -/
theorem evaluate_eq_stored (reached : problem.Reachable) (solved : problem.stage = .solved) :
    ∃ levels : Array α, levels.size = problem.columns ∧
      ∀ sooner later : List (Operation α),
        (problem.run sooner).levels = .ok levels ∧
        (∀ objective, (problem.run sooner).objective = some objective →
          ∃ value, (problem.run sooner).objectiveValue = .ok value ∧
            (problem.run later).evaluate objective.expr = .ok value) ∧
        ∀ index constraint, (problem.run sooner).constraints[index]? = some constraint →
          ∃ left form,
            (problem.run sooner).conicForm.constraintValue index levels = .ok (some left) ∧
            constraint.expr.linearize = .ok form ∧
            (problem.run later).evaluate constraint.expr = .ok (left + form.constant) := by
  have sound := reached.sound
  obtain ⟨final, levels, value, present, fits, stored, valued⟩ := reached.settled.stored solved
  have unchanged := (frozen_of_solution final).run
  refine ⟨levels, fits, fun sooner later => ?_⟩
  rw [unchanged sooner, unchanged later]
  refine ⟨present, fun objective isSet => ⟨value, stored, ?_⟩, fun index constraint isAdded => ?_⟩
  · rw [sound.evaluate_eq_weightedLevels present fits (sound.objective_over objective isSet),
      ← sound.objectiveValue_conicForm fits isSet, valued]
  · have isOver := sound.constraints_over constraint (List.mem_of_getElem? isAdded)
    exact ⟨_, _, sound.constraintValue_conicForm fits isAdded,
      Expr.linearize_eq_ok sound.sameStartSameSize isOver,
      sound.evaluate_eq_weightedLevels present fits isOver⟩

/-- An optimum with a level for each column solves a problem, and nothing else of it changes. -/
theorem Sound.after_solve (sound : problem.Sound) (building : problem.solution = none)
    (backend : Backend α) {levels : Array α}
    (optimal : normalized problem.columns (backend problem.conicForm) = (.optimal, some levels)) :
    ∃ kept, kept.status = .optimal ∧
      problem.after (.solve backend) = { problem with solution := some kept } := by
  obtain ⟨next, accepted⟩ := sound.solve_succeeds building backend
  obtain ⟨_, ⟨value, _, rfl⟩, _⟩ := solve_eq_ok accepted
  refine ⟨_, ?_, by rw [after, Operation.carryOut, accepted]; rfl⟩
  rw [optimal]
  rfl

end Problem

/-! ### Rounded numbers -/

namespace Sample

/-- An inner product with numbers that doubles round. -/
def tenths : DotTerm Float := ⟨⟨2, 2, [0.1, 0.2, 0.2, 0.7], rfl⟩, block, rfl⟩

/-- The inner product and a number. -/
def shifted : Expr Float := .sum [.constant 0.3, .dot tenths]

/-- Declares the block and uses the sum in the objective and in a constraint. -/
def roundedOperations : List (Operation Float) :=
  [.declare none 1 2, .setObjective .minimize shifted, .constrain shifted (.greaterThan 0.5)]

/-- Answers with a matrix of tenths. -/
def roundedBackend : Backend Float := fun _ => ⟨.optimal, some #[0.1, 0.3, 0.3, 0.9], 0.0, 1⟩

/-- The problem that was built and solved. -/
def rounded : Problem Float :=
  (Problem.new 0 none).run (roundedOperations ++ [.solve roundedBackend])

theorem shifted_issued {known : Problem Float} (member : handle ∈ known.declared) :
    known.IssuedExpr shifted := by
  intro used listed
  obtain rfl : used = tenths := List.mem_singleton.mp listed
  exact ⟨.block block_cut, fun _ => member⟩

theorem rounded_reachable : rounded.Reachable := by
  refine ⟨0, none, roundedOperations ++ [.solve roundedBackend], ?_, rfl⟩
  exact ⟨trivial, shifted_issued (by decide), shifted_issued (by decide), trivial, trivial⟩

theorem rounded_solved :
    rounded.stage = .solved ∧ rounded.objective = some ⟨.minimize, shifted⟩ := by
  have built : ((Problem.new 0 none).run roundedOperations).Reachable := by
    refine ⟨0, none, roundedOperations, ?_, rfl⟩
    exact ⟨trivial, shifted_issued (by decide), shifted_issued (by decide), trivial⟩
  obtain ⟨kept, optimal, solved⟩ := built.sound.after_solve rfl roundedBackend rfl
  have last : rounded = _ := (Problem.run_append _ roundedOperations [_]).trans solved
  rw [last]
  refine ⟨?_, rfl⟩
  rw [Problem.stage]
  simp only [optimal]
  rfl

end Sample

/-- The stored value of the rounded problem is still there after calls that are refused. -/
theorem Problem.evaluate_eq_stored_rounded :
    Sample.rounded.Reachable ∧ Sample.rounded.stage = .solved ∧
      ∃ value, Sample.rounded.objectiveValue = .ok value ∧
        (Sample.rounded.run [.declare none 1 1, .solve Sample.roundedBackend]).evaluate
          Sample.shifted = .ok value := by
  obtain ⟨solved, isSet⟩ := Sample.rounded_solved
  refine ⟨Sample.rounded_reachable, solved, ?_⟩
  obtain ⟨_, _, agree⟩ := evaluate_eq_stored Sample.rounded_reachable solved
  exact (agree [] _).2.1 _ isSet

end BlockCone
