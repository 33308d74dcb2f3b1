/-
This file proves that evaluating an expression agrees with reading its slices.

Two paths lead from a solution to the value of an expression. Evaluating collects the expression
into rows, merges and sorts them, and weighs the levels. Reading lists the columns of a slice and
lays the levels out as a matrix. They meet in the inner product of a matrix with a slice: summed
over all places it is what the coefficients weigh, and summed row by row it is the Frobenius
product of the matrix with the one that is read. Everything above the leaves is the same on both
paths, whatever the leaves are worth.
-/

import BlockCone.Proofs.Lifecycle
import BlockCone.Proofs.Reading

namespace BlockCone

variable {K : Type} [ExactScalar K]

/-! ### The Frobenius product -/

/-- The sum of the products of the entries of two matrices, over the extents of the first. -/
def Matrix.frobenius (left right : Matrix K) : K :=
  ∑ row ∈ Finset.range left.rows, ∑ col ∈ Finset.range left.cols,
    left.entry row col * right.entry row col

/-- The places of a matrix are its rows one after another. -/
theorem sum_places (rows cols : Nat) (value : Nat → Nat → K) :
    ∑ place ∈ Finset.range (rows * cols), value (place / cols) (place % cols) =
      ∑ row ∈ Finset.range rows, ∑ col ∈ Finset.range cols, value row col := by
  induction rows with
  | zero => rw [Nat.zero_mul, Finset.sum_range_zero, Finset.sum_range_zero]
  | succ rows inductionHypothesis =>
    rw [Nat.succ_mul, Finset.sum_range_add, inductionHypothesis, Finset.sum_range_succ]
    congr 1
    refine Finset.sum_congr rfl fun col member => ?_
    obtain ⟨quotient, remainder⟩ := Matrix.div_mod_place rows (Finset.mem_range.mp member)
    rw [quotient, remainder]

/-- An inner product at the levels of a vector is the Frobenius product with the matrix that is
read from the same vector. -/
theorem DotTerm.valueAt_eq_frobenius {term : DotTerm K} {source : Variable}
    (cut : term.slice.CutFrom source) {levels : Array K} {matrix : Matrix K}
    (cols : matrix.cols = term.weights.cols)
    (read : matrix.entries = Problem.levelsOf levels term.slice) :
    term.valueAt (entryOf levels) = term.weights.frobenius matrix := by
  have filled : term.weights.rows * term.weights.cols = term.slice.view.flatIndices.length := by
    rw [← term.weights.size_eq, term.length_entries cut]
  have places : term.valueAt (entryOf levels) =
      ((List.range (term.weights.rows * term.weights.cols)).map fun place =>
        term.weights.entry (place / term.weights.cols) (place % term.weights.cols) *
          matrix.entry (place / term.weights.cols) (place % term.weights.cols)).sum := by
    unfold valueAt
    congr 1
    refine List.ext_getElem (by simp [filled]) fun place left right => ?_
    have listed : place < matrix.entries.length := by
      rw [read, Problem.levelsOf, List.length_map]
      simpa using left
    have entry := Matrix.entry_div_mod matrix listed
    simp only [cols, read, Problem.levelsOf, List.getElem_map] at entry
    simp only [List.getElem_map, List.getElem_zipIdx, List.getElem_range, Nat.zero_add, entry]
  rw [places]
  exact sum_places _ _ fun row col => term.weights.entry row col * matrix.entry row col

namespace Problem

/-- The Frobenius product of the matrix of a term with the matrix that is read for its slice. -/
def frobenius (problem : Problem K) (term : DotTerm K) : K :=
  match problem.levelMatrix term.slice with
  | .ok matrix => term.weights.frobenius matrix
  | .error _ => 0

variable {problem : Problem K}

/-- With a level for each column every term has the value of its Frobenius product. -/
theorem Sound.frobenius_eq (sound : problem.Sound) {levels : Array K}
    (present : problem.levels = .ok levels) (fits : levels.size = problem.columns)
    {term : DotTerm K} (cut : term.slice.CutFrom term.slice.source)
    (known : term.slice.source ∈ problem.declared) :
    (∃ matrix, problem.levelMatrix term.slice = .ok matrix ∧ matrix.rows = term.weights.rows ∧
        matrix.cols = term.weights.cols) ∧
      term.valueAt (entryOf levels) = problem.frobenius term := by
  obtain ⟨matrix, read, rows, cols, entries⟩ :=
    sound.levelMatrix_eq_ok present fits cut known term.fits
  refine ⟨⟨matrix, read, rows, cols⟩, ?_⟩
  rw [frobenius, read]
  exact DotTerm.valueAt_eq_frobenius cut cols entries

/-- With a level for each column an expression has its exact value there. -/
theorem Arranged.evaluate_eq_ok (arranged : problem.Arranged) {levels : Array K}
    (present : problem.levels = .ok levels) (fits : levels.size = problem.columns)
    {expr : Expr K} (isOver : expr.Over problem.declared) :
    problem.evaluate expr = .ok (expr.valueAt (entryOf levels)) := by
  exact bind_eq_ok_iff.mpr ⟨(), arranged.requireOwnedExpr isOver,
    bind_eq_ok_iff.mpr ⟨levels, present, arranged.evaluate_linearForm fits isOver⟩⟩

/-- In a solved problem the slice of every inner product is read as a matrix of the right extents,
and an expression evaluates to the value that it has with the Frobenius products of these. -/
theorem evaluate_eq_frobenius (reached : problem.Reachable) (solved : problem.stage = .solved)
    {expr : Expr K} (isOver : expr.Over problem.declared) :
    (∀ term ∈ expr.terms, ∃ matrix, problem.levelMatrix term.slice = .ok matrix ∧
        matrix.rows = term.weights.rows ∧ matrix.cols = term.weights.cols) ∧
      problem.evaluate expr = .ok (expr.valueWith problem.frobenius) := by
  obtain ⟨levels, present, fits⟩ := reached.settled.levels_eq_ok solved
  have leaf := fun term (member : term ∈ expr.terms) =>
    reached.sound.frobenius_eq present fits (isOver term member).1 (isOver term member).2
  refine ⟨fun term member => (leaf term member).1, ?_⟩
  rw [reached.sound.evaluate_eq_ok present fits isOver, Expr.valueAt]
  exact congrArg Except.ok (Expr.valueWith_congr expr fun term member => (leaf term member).2)

/-- An expression at the identity matrix. -/
theorem evaluate_eq_frobenius_identity :
    ((Problem.new 0 none).run (Sample.operations ++ [.solve Sample.backend])).stage = .solved ∧
      Sample.expr.Over
        ((Problem.new 0 none).run (Sample.operations ++ [.solve Sample.backend])).declared ∧
      ((Problem.new 0 none).run (Sample.operations ++ [.solve Sample.backend])).evaluate
          Sample.expr =
        .ok (Sample.expr.valueWith
          ((Problem.new 0 none).run (Sample.operations ++ [.solve Sample.backend])).frobenius) := by
  have honest : (Problem.new 0 none).HonestRun (Sample.operations ++ [.solve Sample.backend]) :=
    Sample.operations_append_honest trivial
  have reached :
      ((Problem.new 0 none).run (Sample.operations ++ [.solve Sample.backend])).Reachable :=
    ⟨0, none, _, honest, rfl⟩
  have isOver : Sample.expr.Over
      ((Problem.new 0 none).run (Sample.operations ++ [.solve Sample.backend])).declared := by
    intro term member
    obtain rfl : term = Sample.term := List.mem_singleton.mp member
    exact ⟨.block Sample.block_cut, List.mem_singleton.mpr rfl⟩
  exact ⟨rfl, isOver, (evaluate_eq_frobenius reached rfl isOver).2⟩

end Problem

end BlockCone
