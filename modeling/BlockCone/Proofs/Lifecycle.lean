/-
This file proves what the stages of a problem promise, whatever backend solves it.

A backend may answer anything: an optimum without levels, an optimum with too many of them, or
levels that come with another status. What is kept of the answer is settled once, when it arrives.
`Settled` says what that leaves: a problem that is being built has no solution, a solved one has
exactly one level for each column and the value of its objective there, and a failed one has
neither. Every change keeps this, because the first thing that each of them asks for is that there
is no solution yet.

For the same reason a problem that has a solution never changes again. `Frozen` lists the calls
that are refused from then on; all others only read.
-/

import BlockCone.Proofs.Layout

namespace BlockCone

namespace Problem

variable {α : Type}

/-! ### What a backend's answer is worth -/

/-- An answer is kept as an optimum with a level for each column, or as a failure without levels. -/
theorem normalized_cases (columns : Nat) (outcome : Outcome α) :
    (∃ levels, levels.size = columns ∧ normalized columns outcome = (.optimal, some levels)) ∨
      ∃ status, status.isOptimal = false ∧ normalized columns outcome = (status, none) := by
  obtain ⟨status, levels, seconds, iterations⟩ := outcome
  cases status with
  | optimal =>
    cases levels with
    | none => exact Or.inr ⟨_, rfl, rfl⟩
    | some levels =>
      by_cases fits : levels.size = columns
      · exact Or.inl ⟨levels, fits, if_pos fits⟩
      · exact Or.inr ⟨_, rfl, if_neg fits⟩
  | infeasible => exact Or.inr ⟨.infeasible, rfl, rfl⟩
  | unbounded => exact Or.inr ⟨.unbounded, rfl, rfl⟩
  | failed reason => exact Or.inr ⟨.failed reason, rfl, rfl⟩

variable [Scalar α]

/-- The value of the objective reads no level that is not there. -/
theorem Sound.objectiveValue_succeeds {problem : Problem α} (sound : problem.Sound)
    {levels : Array α} (fits : levels.size = problem.columns) :
    ∃ value, problem.conicForm.objectiveValue levels = .ok value := by
  have within : ∀ coeff ∈ problem.conicForm.objective.coeffs, coeff.1 < levels.size := by
    intro coeff member
    cases present : problem.objective with
    | none =>
      simp only [conicForm, present, flatObjective, LinearObjective.feasibility] at member
      exact absurd member List.not_mem_nil
    | some objective =>
      simp only [conicForm, present, flatObjective] at member
      exact sound.within_of_over fits (sound.objective_over objective present) coeff member
  unfold ConicProblem.objectiveValue
  rw [weighedSum_eq_ok within]
  exact ⟨_, rfl⟩

/-- A problem that is being built can be solved with every backend. -/
theorem Sound.solve_succeeds {problem : Problem α} (sound : problem.Sound)
    (building : problem.solution = none) (backend : Backend α) :
    ∃ next, problem.solve backend =
      .ok ((normalized problem.columns (backend problem.conicForm)).1, next) := by
  have valued : ∃ value, (normalized problem.columns (backend problem.conicForm)).2.mapM
      problem.conicForm.objectiveValue = .ok value := by
    rcases normalized_cases problem.columns (backend problem.conicForm) with
      ⟨levels, fits, kept⟩ | ⟨status, _, kept⟩
    · obtain ⟨value, computed⟩ := sound.objectiveValue_succeeds fits
      refine ⟨some value, ?_⟩
      rw [kept]
      show (do let value ← problem.conicForm.objectiveValue levels; pure (some value)) = _
      rw [computed]
      rfl
    · exact ⟨none, by rw [kept]; rfl⟩
  obtain ⟨value, computed⟩ := valued
  refine ⟨_, bind_eq_ok_iff.mpr ⟨(), requireBuilding_of_building building,
    bind_eq_ok_iff.mpr ⟨value, computed, rfl⟩⟩⟩

/-! ### The invariant -/

/-- What a problem keeps in each stage. -/
inductive Settled (problem : Problem α) : Prop where
  | building (stage : problem.stage = .building) (unsolved : problem.solution = none)
  | solved (stage : problem.stage = .solved) (kept : Solution α) (levels : Array α) (value : α)
      (present : problem.solution = some kept) (status : kept.status = .optimal)
      (levels_eq : kept.levels = some levels) (fits : levels.size = problem.columns)
      (value_eq : kept.value = some value)
      (valued : problem.conicForm.objectiveValue levels = .ok value)
  | failed (stage : problem.stage = .failed) (kept : Solution α)
      (present : problem.solution = some kept) (levels_eq : kept.levels = none)
      (value_eq : kept.value = none)

theorem Settled.of_building {problem : Problem α} (unsolved : problem.solution = none) :
    problem.Settled :=
  .building (by rw [stage, unsolved]) unsolved

/-- The answer of a backend settles a problem. -/
theorem settled_solution {problem : Problem α} {outcome : Outcome α} {value : Option α}
    (valued : (normalized problem.columns outcome).2.mapM problem.conicForm.objectiveValue =
      .ok value) :
    Settled { problem with
      solution := some (solutionOf (normalized problem.columns outcome).1 value
        (normalized problem.columns outcome).2 outcome) } := by
  rcases normalized_cases problem.columns outcome with ⟨levels, fits, kept⟩ | ⟨status, bad, kept⟩
  · rw [kept] at valued ⊢
    obtain ⟨number, computed, rest⟩ := bind_eq_ok_iff.mp valued
    obtain rfl := Except.ok.inj rest
    exact .solved rfl _ levels number rfl rfl rfl fits rfl computed
  · rw [kept] at valued ⊢
    obtain rfl := Except.ok.inj valued
    refine .failed ?_ _ rfl rfl rfl
    show (if status.isOptimal then Stage.solved else Stage.failed) = .failed
    rw [bad]
    rfl

theorem Settled.change (problem : Problem α) (honest : Prop) (next : Problem α)
    (settled : problem.Settled) (change : Change problem honest next) : next.Settled := by
  cases change with
  | nothing => exact settled
  | declaration name count dim building counted sized room => exact .of_building building
  | objective sense expr building issued owned => exact .of_building building
  | constraint expr relation bound building issued owned => exact .of_building building
  | solution outcome value building valued => exact settled_solution valued

/-- Every run leads to a settled problem, whichever handles it uses. -/
theorem settled_run (id : ProblemId) (name : Option String) (operations : List (Operation α)) :
    ((Problem.new id name).run operations).Settled :=
  run_induction Settled.change (.of_building rfl) operations

theorem Visited.settled {problem : Problem α} (visited : problem.Visited) : problem.Settled := by
  obtain ⟨id, name, operations, rfl⟩ := visited
  exact settled_run id name operations

theorem Reachable.settled {problem : Problem α} (reached : problem.Reachable) :
    problem.Settled := by
  obtain ⟨id, name, operations, _, rfl⟩ := reached
  exact settled_run id name operations

/-- A solved problem has a level for each column. -/
theorem Settled.levels_eq_ok {problem : Problem α} (settled : problem.Settled)
    (solved : problem.stage = .solved) :
    ∃ levels, problem.levels = .ok levels ∧ levels.size = problem.columns := by
  cases settled with
  | building stage unsolved => exact absurd (stage.symm.trans solved) (by decide)
  | solved _ kept levels value present status levels_eq fits value_eq valued =>
    refine ⟨levels, ?_, fits⟩
    rw [Problem.levels, present, Option.bind_some, levels_eq]
  | failed stage kept present levels_eq value_eq =>
    exact absurd (stage.symm.trans solved) (by decide)

/-- A problem that is not solved has no levels. -/
theorem Settled.levels_eq_error {problem : Problem α} (settled : problem.Settled)
    (unsolved : problem.stage ≠ .solved) : problem.levels = .error .notSolved := by
  cases settled with
  | building stage absent => rw [Problem.levels, absent, Option.bind_none]
  | solved stage => exact absurd stage unsolved
  | failed stage kept present levels_eq =>
    rw [Problem.levels, present, Option.bind_some, levels_eq]

/-! ### A solution is final -/

/-- No call that would change a problem is accepted, and no calls change it. -/
structure Frozen (problem : Problem α) : Prop where
  declare : ∀ name count dim, problem.declare name count dim = .error .problemFinalized
  declareIn : ∀ name dim count,
    problem.declareIn name (.semidefinite dim count) = .error .problemFinalized
  setObjective : ∀ sense expr, problem.setObjective sense expr = .error .problemFinalized
  constrain : ∀ expr domain, problem.constrain expr domain = .error .problemFinalized
  solve : ∀ backend, problem.solve backend = .error .problemFinalized
  attempt : ∀ backend, problem.attempt backend = .error .problemFinalized
  run : ∀ later, problem.run later = problem

/-- Every change but none needs a problem that is being built. -/
theorem Change.eq_of_solution {problem next : Problem α} {honest : Prop}
    (change : Change problem honest next) (final : problem.solution ≠ none) : next = problem := by
  cases change with
  | nothing => rfl
  | declaration name count dim building => exact absurd building final
  | objective sense expr building => exact absurd building final
  | constraint expr relation bound building => exact absurd building final
  | solution outcome value building => exact absurd building final

theorem run_eq_of_solution {problem : Problem α} (final : problem.solution ≠ none)
    (later : List (Operation α)) : problem.run later = problem := by
  have keeps : ∀ reached honest next, reached = problem → Change reached honest next →
      next = problem := by
    rintro _ honest next rfl change
    exact change.eq_of_solution final
  exact run_induction keeps rfl later

/-- A problem with a solution is frozen. -/
theorem frozen_of_solution {problem : Problem α} (final : problem.solution ≠ none) :
    problem.Frozen := by
  have closed := requireBuilding_of_solution final
  have declare : ∀ name count dim,
      problem.declare name count dim = .error .problemFinalized := by
    intro name count dim
    rw [Problem.declare, closed]
    rfl
  refine ⟨declare, fun name dim count => declare name count dim, fun sense expr => ?_,
    fun expr domain => ?_, fun backend => ?_, fun backend => ?_, run_eq_of_solution final⟩
  · rw [Problem.setObjective, closed]
    rfl
  · rw [Problem.constrain, closed]
    rfl
  · rw [Problem.solve, closed]
    rfl
  · rw [Problem.attempt, closed]
    rfl

/-- After every run, with whatever backends, a problem is settled, and one that has a solution is
frozen. If the handles of the run were issued, a solve that is still possible succeeds. -/
theorem lifecycle_run (id : ProblemId) (name : Option String) (operations : List (Operation α)) :
    ((Problem.new id name).run operations).Settled ∧
      (((Problem.new id name).run operations).solution ≠ none →
        ((Problem.new id name).run operations).Frozen) ∧
      ((Problem.new id name).HonestRun operations →
        ((Problem.new id name).run operations).solution = none →
          ∀ backend, ∃ answer,
            ((Problem.new id name).run operations).solve backend = .ok answer) := by
  refine ⟨settled_run id name operations, frozen_of_solution, fun honest building backend => ?_⟩
  have reached : ((Problem.new id name).run operations).Reachable :=
    ⟨id, name, operations, honest, rfl⟩
  obtain ⟨next, solved⟩ := reached.sound.solve_succeeds building backend
  exact ⟨_, solved⟩

/-- A run that ends in an optimum, and the same run before it is solved. -/
theorem lifecycle_run_optimum :
    ((Problem.new 0 none).run (Sample.operations ++ [.solve Sample.backend])).stage = .solved ∧
      ((Problem.new 0 none).run (Sample.operations ++ [.solve Sample.backend])).Settled ∧
      ((Problem.new 0 none).run (Sample.operations ++ [.solve Sample.backend])).Frozen ∧
      (Problem.new 0 none).HonestRun Sample.operations ∧
      ∀ backend, ∃ answer, Sample.problem.solve backend = .ok answer := by
  have settled := lifecycle_run 0 none (Sample.operations ++ [.solve Sample.backend])
  refine ⟨rfl, settled.1, settled.2.1 ?_, Sample.operations_honest, ?_⟩
  · intro unsolved
    cases unsolved
  · exact (lifecycle_run 0 none Sample.operations).2.2 Sample.operations_honest rfl

end Problem

end BlockCone
