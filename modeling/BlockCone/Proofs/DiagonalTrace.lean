/-
This file proves that the sum over the diagonal of a variable is the sum of the traces of its
blocks.

The diagonal is listed by counting: the counter is divided by the number of rows, the quotient is
the block, and the remainder is the row and the column. A counter below a product is a pair of
counters, so the positions come block by block and row by row, and none comes twice. Going from one
diagonal entry to the next passes one entry more than a row has, which is the distance of the
offsets.

Each offset is therefore used once, and a sum of one number is that number, also where adding
rounds. What remains is to read the same levels on the other path, as the diagonals of the matrices
of the blocks.
-/

import BlockCone.Proofs.Evaluation
import BlockCone.Proofs.PickedEntries

namespace BlockCone

/-! ### The diagonal -/

namespace Variable

variable {source : Variable}

/-- The diagonal comes block by block and row by row. -/
theorem diagonal_eq (source : Variable) :
    source.diagonal = (List.range source.blocks).flatMap fun number =>
      (List.range source.dim).map fun row => (number, row, row) := by
  rw [diagonal, range_mul, List.map_flatMap]
  refine List.flatMap_congr fun number _ => ?_
  rw [List.map_map]
  refine List.map_congr_left fun row member => ?_
  obtain ⟨quotient, remainder⟩ := Matrix.div_mod_place number (List.mem_range.mp member)
  simp only [Function.comp_apply, quotient, remainder]

theorem mem_diagonal {position : Position} :
    position ∈ source.diagonal ↔
      ∃ number row, number < source.blocks ∧ row < source.dim ∧ position = (number, row, row) := by
  simp only [diagonal_eq, List.mem_flatMap, List.mem_map, List.mem_range]
  constructor
  · rintro ⟨number, numbered, row, inside, rfl⟩
    exact ⟨number, row, numbered, inside, rfl⟩
  · rintro ⟨number, row, numbered, inside, rfl⟩
    exact ⟨number, numbered, row, inside, rfl⟩

theorem diagonal_pairwise (source : Variable) : source.diagonal.Pairwise Position.Before := by
  rw [diagonal_eq]
  refine List.pairwise_flatMap.mpr ⟨fun number _ => ?_, ?_⟩
  · rw [List.pairwise_map]
    exact List.pairwise_lt_range.imp fun before => Or.inr ⟨rfl, Or.inl before⟩
  · refine List.pairwise_lt_range.imp fun before left leftMember right rightMember => ?_
    obtain ⟨_, _, rfl⟩ := List.mem_map.mp leftMember
    obtain ⟨_, _, rfl⟩ := List.mem_map.mp rightMember
    exact Or.inl before

theorem has_of_mem_diagonal (source : Variable) :
    ∀ position ∈ source.diagonal, source.Has position := by
  intro position member
  obtain ⟨number, row, numbered, inside, rfl⟩ := mem_diagonal.mp member
  exact ⟨numbered, inside, inside⟩

/-- Positions in order have offsets in order. -/
theorem place_lt_place {left right : Position} (leftInside : source.Has left)
    (rightInside : source.Has right) (before : left.Before right) :
    source.place left < source.place right := by
  rw [← strided_eq_place, ← strided_eq_place]
  exact (lt_iff_strided_lt (has_iff.mp leftInside) (has_iff.mp rightInside)).mp
    ((Position.before_iff left right).mp before)

theorem place_diagonal_pairwise (source : Variable) :
    (source.diagonal.map source.place).Pairwise (· < ·) := by
  rw [List.pairwise_map]
  refine source.diagonal_pairwise.imp_of_mem fun leftMember rightMember before => ?_
  exact place_lt_place (source.has_of_mem_diagonal _ leftMember)
    (source.has_of_mem_diagonal _ rightMember) before

/-- The columns of the diagonal. -/
def diagonalColumns (source : Variable) : List Nat :=
  (List.range source.blocks).flatMap fun number =>
    (List.range source.dim).map fun row =>
      source.offset + number * source.dim * source.dim + row * (source.dim + 1)

theorem diagonalColumns_eq (source : Variable) :
    source.diagonalColumns =
      (source.diagonal.map source.place).map fun place => source.offset + place := by
  rw [diagonalColumns, diagonal_eq, List.map_map, List.map_flatMap]
  refine List.flatMap_congr fun number _ => ?_
  rw [List.map_map]
  refine List.map_congr_left fun row _ => ?_
  simp only [Function.comp_apply, place]
  ring

end Variable

/-! ### The sum of the diagonal -/

namespace Expr

variable {α : Type} [Scalar α]

/-- What is picked once has the coefficient one. -/
theorem sumFromFirst?_replicate_count {offsets : List Nat} (distinct : offsets.Nodup) (index : Nat)
    (value : α) :
    sumFromFirst? (List.replicate (offsets.count index) 1) = some value ↔
      index ∈ offsets ∧ value = 1 := by
  by_cases used : index ∈ offsets
  · simp [List.count_eq_one_of_mem distinct used, used, sumFromFirst?, eq_comm]
  · simp [List.count_eq_zero_of_not_mem used, used, sumFromFirst?]

/-- Where one does not compare equal to zero, the sum of the diagonal has the coefficient one at
each of its columns. -/
theorem columns_entrySum_diagonal (nonzero : Scalar.isZero (1 : α) = false) (source : Variable) :
    (entrySum source source.diagonal : Expr α).linearForm.columns =
      source.diagonalColumns.map fun column => (column, 1) := by
  have increasing := source.place_diagonal_pairwise
  have collected : (entrySum source source.diagonal : Expr α).linearForm.columns.Pairwise
      fun left right => left.1 < right.1 :=
    (linearize_entrySum source.has_of_mem_diagonal).2
  refine eq_of_increasing collected ?_ fun entry => ?_
  · rw [source.diagonalColumns_eq, List.pairwise_map, List.pairwise_map]
    exact increasing.imp fun before => Nat.add_lt_add_left before _
  · obtain ⟨column, value⟩ := entry
    have distinct : (source.diagonal.map source.place).Nodup := increasing.imp Nat.ne_of_lt
    simp only [mem_columns_entrySum_iff, sumFromFirst?_replicate_count distinct,
      source.diagonalColumns_eq, List.map_map, List.mem_map (b := (column, value)),
      Function.comp_apply, Prod.mk.injEq]
    constructor
    · rintro ⟨_, index, rfl, used, rfl⟩
      obtain ⟨position, listed, rfl⟩ := List.mem_map.mp used
      exact ⟨position, listed, rfl, rfl⟩
    · rintro ⟨position, listed, rfl, rfl⟩
      exact ⟨nonzero, _, rfl, List.mem_map_of_mem listed, rfl⟩

/-- For doubles one does not compare equal to zero. -/
theorem isZero_one_double : Scalar.isZero (1 : Float) = false := by
  decide +kernel

end Expr

/-! ### The traces of the blocks -/

variable {K : Type} [ExactScalar K]

/-- The sum of the entries on the diagonal of a matrix. -/
def Matrix.trace (matrix : Matrix K) : K :=
  ((List.range matrix.rows).map fun place => matrix.entry place place).sum

/-- The trace of a block adds up the levels at its diagonal. -/
theorem Problem.trace_blockOf (levels : Array K) (source : Variable) (number : Nat) :
    (blockOf levels source number).trace =
      ((List.range source.dim).map fun row =>
        entryOf levels (source.offset + source.place (number, row, row))).sum := by
  refine congrArg List.sum (List.map_congr_left fun row member => ?_)
  have inside : row < source.dim := List.mem_range.mp member
  rw [Matrix.entry, entry?_blockOf levels source number inside inside]
  rfl

/-- The levels of the diagonal, block by block, add up to the traces of the blocks. -/
theorem Problem.sum_diagonal_eq (levels : Array K) (source : Variable) :
    (source.diagonal.map fun position =>
        entryOf levels (source.offset + source.place position)).sum =
      ((List.range source.blocks).map fun number =>
        (blockOf levels source number).trace).sum := by
  rw [Variable.diagonal_eq, List.map_flatMap, List.flatMap_def, List.sum_flatten, List.map_map]
  refine congrArg List.sum (List.map_congr_left fun number _ => ?_)
  rw [trace_blockOf, Function.comp_apply, List.map_map]
  rfl

/-! ### The diagonal as a whole -/

namespace Variable

/-- The diagonal of a variable lists each of its positions once and in order. -/
structure ListsDiagonal (source : Variable) : Prop where
  listed : ∀ position, position ∈ source.diagonal ↔
    ∃ number row, number < source.blocks ∧ row < source.dim ∧ position = (number, row, row)
  distinct : source.diagonal.Nodup
  increasing : source.diagonal.Pairwise Position.Before

/-- The entries of the diagonal can be added up, and the sum has the coefficient one at each of
their columns and no constant part. -/
structure SumsDiagonal (α : Type) [Scalar α] (source : Variable) (sum : Expr α) : Prop where
  added : Expr.sumOver source source.diagonal = .ok sum
  traced : Expr.trace source = .ok sum
  linearized : sum.linearize = .ok sum.linearForm
  columns_eq : sum.linearForm.columns = source.diagonalColumns.map fun column => (column, 1)
  length_eq : sum.linearForm.columns.length = source.blocks * source.dim
  increasing : sum.linearForm.columns.Pairwise fun left right => left.1 < right.1
  constant_eq : sum.linearForm.constant = 0

theorem listsDiagonal (source : Variable) : source.ListsDiagonal where
  listed _ := mem_diagonal
  distinct := source.diagonal_pairwise.imp fun before same => by
    subst same
    rw [Position.before_iff] at before
    exact absurd before (lt_irrefl _)
  increasing := source.diagonal_pairwise

theorem length_diagonal (source : Variable) :
    source.diagonal.length = source.blocks * source.dim := by
  rw [diagonal, List.length_map, List.length_range]

theorem sumsDiagonal {α : Type} [Scalar α] (nonzero : Scalar.isZero (1 : α) = false)
    {source : Variable} (counted : 0 < source.blocks) (sized : 0 < source.dim) :
    source.SumsDiagonal α (Expr.entrySum source source.diagonal) := by
  have added : (Expr.sumOver source source.diagonal : Except Error (Expr α)) = .ok _ :=
    Expr.sumOver_eq_ok source.has_of_mem_diagonal
  obtain ⟨linearized, increasing⟩ :
      (Expr.entrySum source source.diagonal : Expr α).linearize = .ok _ ∧ _ :=
    Expr.linearize_entrySum source.has_of_mem_diagonal
  have columns := Expr.columns_entrySum_diagonal nonzero source
  refine ⟨added, added, linearized, columns, ?_, increasing, ?_⟩
  · rw [columns, source.diagonalColumns_eq, List.length_map, List.length_map, List.length_map,
      length_diagonal]
  · have some : source.diagonal ≠ [] := by
      rw [← List.length_pos_iff, length_diagonal]
      exact Nat.mul_pos counted sized
    rw [(Expr.linearForm_sums_reverse _).constant_eq, Expr.constants_entrySum, if_neg some]
    rfl

end Variable

/-- The diagonal of a variable with entries lists each of its positions once and in order. Adding
up the entries there succeeds and gives the coefficient one at each of their columns, in doubles
and exactly; and in a solved problem that declared the variable the sum evaluates to the sum of the
traces of the blocks. -/
theorem Variable.diagonal_is_trace {source : Variable} (counted : 0 < source.blocks)
    (sized : 0 < source.dim) :
    source.ListsDiagonal ∧ (∃ sum, source.SumsDiagonal Float sum) ∧
      ∀ (K : Type) [ExactScalar K], ∃ sum, source.SumsDiagonal K sum ∧
        ∀ problem : Problem K, problem.Visited → problem.stage = .solved →
          source ∈ problem.declared →
            ∃ matrices, (List.range source.blocks).mapM (problem.blockMatrix source) =
                .ok matrices ∧
              problem.evaluate sum = .ok (matrices.map Matrix.trace).sum := by
  refine ⟨source.listsDiagonal, ⟨_, sumsDiagonal Expr.isZero_one_double counted sized⟩,
    fun K _ => ⟨_, sumsDiagonal ((Scalar.isZero_eq_false_iff 1).mpr one_ne_zero) counted sized,
      fun problem visited solved known => ?_⟩⟩
  have arranged := visited.arranged
  obtain ⟨levels, present, fits⟩ := visited.settled.levels_eq_ok solved
  have isOver : (Expr.entrySum source source.diagonal : Expr K).Over problem.declared :=
    (Expr.over_entrySum source.has_of_mem_diagonal).mono fun other member => by
      rwa [List.mem_singleton.mp member]
  have read : (List.range source.blocks).mapM (problem.blockMatrix source) =
      .ok ((List.range source.blocks).map (Problem.blockOf levels source)) :=
    mapM_eq_ok _ fun number member =>
      arranged.blockMatrix_eq_ok present fits known (List.mem_range.mp member)
  refine ⟨_, read, ?_⟩
  rw [arranged.evaluate_eq_ok present fits isOver, Expr.valueAt_entrySum,
    Problem.sum_diagonal_eq, List.map_map]
  rfl

namespace Sample

/-- Two blocks of two rows. -/
def pair : Variable := ⟨0, 0, 0, none, 2, 2⟩

/-- Declares the blocks and answers with a block that has negative entries and the identity. -/
def pairOperations : List (Operation ℚ) :=
  [.declare none 2 2, .solve fun _ => ⟨.optimal, some #[2, -2, -2, 2, 1, 0, 0, 1], 0, 0⟩]

/-- The solved problem of the two blocks. -/
def pairProblem : Problem ℚ := (Problem.new 0 none).run pairOperations

theorem pairProblem_visited : pairProblem.Visited :=
  ⟨0, none, pairOperations, rfl⟩

theorem pair_declared : pair ∈ pairProblem.declared := List.mem_singleton.mpr rfl

end Sample

/-- The traces of the two blocks are four and two. -/
theorem Variable.diagonal_is_trace_pair :
    0 < Sample.pair.blocks ∧ 0 < Sample.pair.dim ∧ Sample.pairProblem.Visited ∧
      Sample.pairProblem.stage = .solved ∧ Sample.pair ∈ Sample.pairProblem.declared ∧
      Sample.pair.diagonal = [(0, 0, 0), (0, 1, 1), (1, 0, 0), (1, 1, 1)] ∧
      ∃ sum : Expr ℚ, Expr.sumOver Sample.pair Sample.pair.diagonal = .ok sum ∧
        sum.linearForm.columns = [(0, 1), (3, 1), (4, 1), (7, 1)] ∧
        Sample.pairProblem.evaluate sum = .ok 6 := by
  have traces := diagonal_is_trace (show 0 < Sample.pair.blocks by decide) (by decide)
  obtain ⟨sum, sums, evaluates⟩ := traces.2.2 ℚ
  obtain ⟨matrices, read, value⟩ :=
    evaluates Sample.pairProblem Sample.pairProblem_visited rfl Sample.pair_declared
  have blocks : (List.range Sample.pair.blocks).mapM (Sample.pairProblem.blockMatrix Sample.pair) =
      .ok [⟨2, 2, [2, -2, -2, 2], rfl⟩, ⟨2, 2, [1, 0, 0, 1], rfl⟩] := rfl
  have total : (matrices.map Matrix.trace).sum = 6 := by
    obtain rfl := Except.ok.inj (read.symm.trans blocks)
    decide +kernel
  exact ⟨by decide, by decide, Sample.pairProblem_visited, rfl, Sample.pair_declared, by decide,
    sum, sums.added, sums.columns_eq, total ▸ value⟩

end BlockCone
