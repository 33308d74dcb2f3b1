/-
This file proves that the flat form of a problem says what the problem says.

Three parts of a problem go into its flat form by three different ways. Expressions are collected
into coefficients, and their constants move to the other side; the objective keeps its constant;
and of each variable only its extents and its first column are written down. `FlatFaithful` puts
the three side by side, for one vector. What was asked for is taken from the calls that were
accepted: their conditions, in order, and the objective that was set last. On the other side stand
the functions that evaluate a flat problem, and for the blocks the function that reads them out of
a solution, which knows nothing of cones.
-/

import BlockCone.Proofs.FlatValues
import BlockCone.Proofs.Reading

namespace BlockCone

namespace Problem

/-! ### Blocks -/

section Scalars

variable {α : Type} [Scalar α] {problem : Problem α}

/-- The cone of a declared variable stands at its number. -/
theorem Sound.getElem?_cones (sound : problem.Sound) {source : Variable}
    (known : source ∈ problem.declared) :
    problem.conicForm.cones[source.index]? =
      some ⟨source.dim, source.blocks, source.offset⟩ := by
  rw [conicForm, List.getElem?_map, sound.getElem?_index known]
  rfl

/-- Reading a block of a solution takes each entry from its column of the cone. -/
theorem Sound.levelMatrix_block (sound : problem.Sound) {source : Variable}
    (known : source ∈ problem.declared) {block : Nat} (inside : block < source.blocks)
    {point : Array α} (fits : point.size = problem.columns) {kept : Solution α}
    (levels : kept.levels = some point) :
    ∃ slice matrix, source.block block = .ok slice ∧
      Problem.levelMatrix { problem with solution := some kept } slice = .ok matrix ∧
      matrix.rows = source.dim ∧ matrix.cols = source.dim ∧
      ∀ row < source.dim, ∀ col < source.dim,
        matrix.entry? row col = point[source.offset +
          (block * (source.dim * source.dim) + (row * source.dim + col))]? := by
  have solved : Sound { problem with solution := some kept } := { sound with }
  have present : Problem.levels { problem with solution := some kept } = .ok point := by
    rw [Problem.levels, Option.bind_some, levels]
  obtain ⟨slice, cut, read⟩ :=
    bind_eq_ok_iff.mp (solved.blockMatrix_eq_ok present fits known inside)
  refine ⟨slice, _, cut, read, rfl, rfl, fun row rowBound col colBound => ?_⟩
  have column := sound.blockColumn_lt known inside (Matrix.place_lt rowBound colBound)
  rw [← fits] at column
  rw [entry?_blockOf point source block rowBound colBound, Nat.mul_assoc, Nat.add_assoc,
    getElem?_eq_entryOf column]

end Scalars

/-! ### Conditions and the objective -/

variable {K : Type} [ExactScalar K] {problem : Problem K} {point : Array K}

/-- A flat constraint is satisfied exactly when the value of the expression stands in the relation
to the bound. -/
theorem Sound.constraint_faithful (sound : problem.Sound) (fits : point.size = problem.columns)
    {number : Nat} {constraint : Constraint K}
    (present : problem.constraints[number]? = some constraint) :
    ∃ flat value, problem.conicForm.constraints[number]? = some flat ∧
      problem.conicForm.constraintValue number point = .ok (some value) ∧
      (flat.relation.Compares value flat.bound ↔
        constraint.relation.Compares (constraint.expr.valueAt (entryOf point))
          constraint.bound) := by
  have isOver := sound.constraints_over constraint (List.mem_of_getElem? present)
  have flatPresent : problem.conicForm.constraints[number]? =
      some (flatConstraint constraint) := by
    rw [conicForm, List.getElem?_map, present]
    rfl
  refine ⟨flatConstraint constraint, _, flatPresent,
    ConicProblem.constraintValue_exact flatPresent (sound.within_of_over fits isOver), ?_⟩
  rw [← Expr.value_linearForm isOver (entryOf point)]
  exact Relation.compares_sub_iff _ _ _ _

/-- The flat objective has the value of the objective, and its sense. -/
theorem Sound.objective_faithful (sound : problem.Sound) (fits : point.size = problem.columns) :
    problem.conicForm.objectiveValue point =
        .ok ((problem.objective.map fun set => set.expr.valueAt (entryOf point)).getD 0) ∧
      problem.conicForm.objective.sense =
        (problem.objective.map Objective.sense).getD .minimize := by
  cases present : problem.objective with
  | none =>
    have flat : problem.conicForm.objective = .feasibility := by
      rw [conicForm, present]
      rfl
    have within : ∀ coeff ∈ problem.conicForm.objective.coeffs, coeff.1 < point.size := by
      rw [flat]
      exact fun coeff member => absurd member List.not_mem_nil
    rw [ConicProblem.objectiveValue_exact within, flat]
    refine ⟨?_, rfl⟩
    rw [LinearObjective.feasibility, weighed_nil, add_zero]
    rfl
  | some objective =>
    have isOver := sound.objective_over objective present
    have flat : problem.conicForm.objective =
        ⟨objective.sense, objective.expr.linearForm.columns,
          objective.expr.linearForm.constant⟩ := by
      rw [conicForm, present]
      rfl
    have within : ∀ coeff ∈ problem.conicForm.objective.coeffs, coeff.1 < point.size := by
      rw [flat]
      exact sound.within_of_over fits isOver
    rw [ConicProblem.objectiveValue_exact within, flat]
    refine ⟨?_, rfl⟩
    rw [Expr.value_linearForm isOver]
    rfl

/-! ### The flat form -/

/-- The flat form of a problem agrees, at a vector, with the conditions and the objective that were
asked for, and its cones with the blocks that are read out of a solution. -/
structure FlatFaithful (problem : Problem K) (conditions : List (Expr K × Relation × K))
    (objective : Option (Objective K)) (point : Array K) : Prop where
  count : problem.conicForm.constraints.length = conditions.length
  condition : ∀ number expr relation bound, conditions[number]? = some (expr, relation, bound) →
    ∃ flat value, problem.conicForm.constraints[number]? = some flat ∧
      problem.conicForm.constraintValue number point = .ok (some value) ∧
      (flat.relation.Compares value flat.bound ↔
        relation.Compares (expr.valueAt (entryOf point)) bound)
  objective_value : problem.conicForm.objectiveValue point =
    .ok ((objective.map fun set => set.expr.valueAt (entryOf point)).getD 0)
  sense : problem.conicForm.objective.sense = (objective.map Objective.sense).getD .minimize
  block : ∀ source ∈ problem.declared, ∀ block < source.blocks,
    ∀ kept : Solution K, kept.levels = some point →
      ∃ cone slice matrix, problem.conicForm.cones[source.index]? = some cone ∧
        source.block block = .ok slice ∧
        Problem.levelMatrix { problem with solution := some kept } slice = .ok matrix ∧
        matrix.rows = source.dim ∧ matrix.cols = source.dim ∧
        ∀ row < source.dim, ∀ col < source.dim,
          cone.blockOffset block + row * source.dim + col < point.size ∧
            matrix.entry? row col = point[cone.blockOffset block + row * source.dim + col]?

/-- After every run of honest calls the flat form is faithful to what the calls asked for, at
every vector of levels. -/
theorem conicForm_faithful (id : ProblemId) (name : Option String) (operations : List (Operation K))
    (honest : (Problem.new id name).HonestRun operations) (point : Array K)
    (fits : point.size = ((Problem.new id name).run operations).columns) :
    FlatFaithful ((Problem.new id name).run operations)
      (((Problem.new id name).accepted operations).filterMap Operation.condition?)
      (((Problem.new id name).accepted operations).filterMap Operation.objective?).getLast?
      point := by
  have sound : ((Problem.new id name).run operations).Sound :=
    Reachable.sound ⟨id, name, operations, honest, rfl⟩
  have conditions := run_conditions (Problem.new id name) operations
  have objective := run_objective (Problem.new id name) operations
  rw [show (Problem.new id name : Problem K).conditions = [] from rfl, List.nil_append]
    at conditions
  rw [show (Problem.new id name : Problem K).objective = none from rfl, Option.or_none]
    at objective
  rw [← conditions, ← objective]
  generalize (Problem.new id name).run operations = problem at sound fits
  obtain ⟨objectiveValue, sense⟩ := sound.objective_faithful fits
  refine ⟨by simp only [conicForm, Problem.conditions, List.length_map], ?_, objectiveValue, sense,
    ?_⟩
  · intro number expr relation bound asked
    rw [Problem.conditions, List.getElem?_map] at asked
    obtain ⟨constraint, present, same⟩ := Option.map_eq_some_iff.mp asked
    obtain ⟨rfl, rfl, rfl⟩ : constraint.expr = expr ∧ constraint.relation = relation ∧
        constraint.bound = bound := by simpa using same
    exact sound.constraint_faithful fits present
  · intro source known block inside kept levels
    obtain ⟨slice, matrix, cut, read, rows, cols, entries⟩ :=
      sound.levelMatrix_block known inside fits levels
    refine ⟨_, slice, matrix, sound.getElem?_cones known, cut, read, rows, cols, ?_⟩
    intro row rowBound col colBound
    have position : Cone.blockOffset ⟨source.dim, source.blocks, source.offset⟩ block +
        row * source.dim + col =
          source.offset + (block * (source.dim * source.dim) + (row * source.dim + col)) := by
      rw [Cone.blockOffset, Nat.mul_assoc, Nat.add_assoc, Nat.add_assoc]
    rw [position, fits]
    exact ⟨sound.blockColumn_lt known inside (Matrix.place_lt rowBound colBound),
      entries row rowBound col colBound⟩

/-- The flat form of a block with a bound and an objective. -/
theorem conicForm_faithful_block :
    (Problem.new 0 none).HonestRun
        (Sample.operations ++ [.setObjective .maximize Sample.expr]) ∧
      FlatFaithful
        ((Problem.new 0 none).run (Sample.operations ++ [.setObjective .maximize Sample.expr]))
        [(Sample.expr, .lessThan, 5)] (some ⟨.maximize, Sample.expr⟩) #[1, 2, 3, 4] := by
  have honest : (Problem.new 0 none).HonestRun
      (Sample.operations ++ [.setObjective .maximize Sample.expr]) :=
    Sample.operations_append_honest (Sample.expr_issued (by decide))
  exact ⟨honest, conicForm_faithful 0 none _ honest _ rfl⟩

end Problem

end BlockCone
