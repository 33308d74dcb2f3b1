/-
This file proves that the report misses no block of a semidefinite solution.

The report compares entries with their signs, so by itself it would pass over a block whose large
entries are negative. In a semidefinite block there is no such entry without a large one on the
diagonal: the quadratic form at two places bounds twice the magnitude of the entry between them by
the sum of the two on the diagonal, and of two numbers one is at least their mean. An entry that
exceeds the threshold with its sign exceeds it in magnitude as well, so comparing signed entries
comes to comparing magnitudes. This holds of exact levels.
-/

import BlockCone.Proofs.DiagonalTrace
import BlockCone.Proofs.Reports
import BlockCone.Proofs.Semidefinite

namespace BlockCone

variable {K : Type} [ExactScalar K] {problem : Problem K} {source : Variable}

/-- A block is active if one of its entries exceeds the threshold. -/
theorem isActive_iff_entry (levels : Array K) (source : Variable) (threshold : K) (number : Nat) :
    isActive levels source threshold number = true ↔
      ∃ row < source.dim, ∃ col < source.dim,
        threshold < (Problem.blockOf levels source number).entry row col := by
  simp only [isActive, List.any_eq_true, Scalar.below_iff, Matrix.mem_entries_iff]
  constructor
  · rintro ⟨_, ⟨row, rowInside, col, colInside, rfl⟩, exceeds⟩
    exact ⟨row, rowInside, col, colInside, exceeds⟩
  · rintro ⟨row, rowInside, col, colInside, exceeds⟩
    exact ⟨_, ⟨row, rowInside, col, colInside, rfl⟩, exceeds⟩

/-- In a semidefinite block the sign of a large entry does not matter. -/
theorem IsSemidefinite.exists_lt_iff_abs {dim : Nat} {entry : Nat → Nat → K}
    (holds : IsSemidefinite dim entry) (bound : K) :
    (∃ row < dim, ∃ col < dim, bound < entry row col) ↔
      ∃ row < dim, ∃ col < dim, bound < |entry row col| := by
  constructor
  · rintro ⟨row, rowInside, col, colInside, exceeds⟩
    exact ⟨row, rowInside, col, colInside, exceeds.trans_le (le_abs_self _)⟩
  · rintro ⟨row, rowInside, col, colInside, large⟩
    obtain ⟨place, inside, exceeds⟩ := holds.exists_lt_diagonal rowInside colInside large
    exact ⟨place, inside, place, inside, exceeds⟩

/-- When the blocks of a variable are semidefinite, the report on it has exactly the blocks with an
entry that exceeds the threshold in magnitude, although it compares the entries with their signs. So
it has every block with an entry below the negative of the threshold. -/
theorem Problem.report_misses_none (visited : problem.Visited) (solved : problem.stage = .solved)
    (known : source ∈ problem.declared)
    (definite : ∀ number matrix, problem.blockMatrix source number = .ok matrix →
      IsSemidefinite source.dim matrix.entry) (threshold : K) :
    (∀ number, (∃ matrix, problem.blockMatrix source number = .ok matrix) ↔
      number < source.blocks) ∧
    ∃ reports, contributingBlocks problem source threshold = .ok reports ∧
      (∀ number, (∃ report ∈ reports, report.block = number) ↔
        ∃ matrix, problem.blockMatrix source number = .ok matrix ∧
          ∃ row < source.dim, ∃ col < source.dim, threshold < |matrix.entry row col|) ∧
      ∀ number matrix, problem.blockMatrix source number = .ok matrix →
        (∃ row < source.dim, ∃ col < source.dim, matrix.entry row col < -threshold) →
          ∃ report ∈ reports, report.block = number := by
  have arranged := visited.arranged
  obtain ⟨levels, present, fits⟩ := visited.settled.levels_eq_ok solved
  have read : ∀ number matrix, problem.blockMatrix source number = .ok matrix ↔
      number < source.blocks ∧ blockOf levels source number = matrix :=
    fun _ _ => arranged.blockMatrix_eq_ok_iff present fits known
  have reported : ∀ number,
      (∃ report ∈ activeReports levels source threshold, report.block = number) ↔
        ∃ matrix, problem.blockMatrix source number = .ok matrix ∧
          ∃ row < source.dim, ∃ col < source.dim, threshold < |matrix.entry row col| := by
    intro number
    simp only [exists_report_iff, read, and_assoc, exists_and_left, exists_eq_left']
    refine and_congr_right fun inside => ?_
    rw [isActive_iff_entry]
    exact (definite number _ ((read number _).mpr ⟨inside, rfl⟩)).exists_lt_iff_abs threshold
  refine ⟨fun number => ?_, _, contributingBlocks_eq_ok arranged present fits known threshold,
    reported, fun number matrix cut negative => (reported number).mpr ⟨matrix, cut, ?_⟩⟩
  · simp only [read, exists_and_left, exists_eq', and_true]
  · obtain ⟨row, rowInside, col, colInside, small⟩ := negative
    exact ⟨row, rowInside, col, colInside, (lt_neg.mp small).trans_le (neg_le_abs _)⟩

/-- The first of the two blocks has the entries two and minus two, the second one is the
identity. -/
theorem Problem.report_misses_none_pair :
    Sample.pairProblem.Visited ∧ Sample.pairProblem.stage = .solved ∧
      Sample.pair ∈ Sample.pairProblem.declared ∧
      (∀ number matrix, Sample.pairProblem.blockMatrix Sample.pair number = .ok matrix →
        IsSemidefinite Sample.pair.dim matrix.entry) ∧
      ∃ reports, contributingBlocks Sample.pairProblem Sample.pair 1 = .ok reports ∧
        (∃ report ∈ reports, report.block = 0) ∧ ¬ ∃ report ∈ reports, report.block = 1 := by
  have first : Sample.pairProblem.blockMatrix Sample.pair 0 = .ok ⟨2, 2, [2, -2, -2, 2], rfl⟩ := rfl
  have second : Sample.pairProblem.blockMatrix Sample.pair 1 = .ok ⟨2, 2, [1, 0, 0, 1], rfl⟩ := rfl
  have definite : ∀ number matrix,
      Sample.pairProblem.blockMatrix Sample.pair number = .ok matrix →
        IsSemidefinite Sample.pair.dim matrix.entry := by
    intro number matrix read
    match number with
    | 0 =>
      obtain rfl := Except.ok.inj (first.symm.trans read)
      exact (isSemidefinite_two_iff _).mpr
        ⟨by decide +kernel, by decide +kernel, by decide +kernel⟩
    | 1 =>
      obtain rfl := Except.ok.inj (second.symm.trans read)
      exact (isSemidefinite_two_iff _).mpr
        ⟨by decide +kernel, by decide +kernel, by decide +kernel⟩
    | number + 2 =>
      obtain ⟨slice, cut, _⟩ := bind_eq_ok_iff.mp read
      have inside : number + 2 < 2 := Variable.number_lt_of_block cut
      omega
  obtain ⟨_, reports, reported, active, negative⟩ :=
    report_misses_none Sample.pairProblem_visited rfl Sample.pair_declared definite 1
  refine ⟨Sample.pairProblem_visited, rfl, Sample.pair_declared, definite, reports, reported,
    ?_, ?_⟩
  · exact negative 0 _ first ⟨0, by decide, 1, by decide, by decide +kernel⟩
  · rw [active]
    rintro ⟨matrix, read, large⟩
    obtain rfl := Except.ok.inj (second.symm.trans read)
    revert large
    decide +kernel

end BlockCone
