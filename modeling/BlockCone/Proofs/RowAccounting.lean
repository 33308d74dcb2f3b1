/-
This file counts the rows of a lowered problem.

Every constraint has one row. A block of `dim` rows has `dim * dim` rows, but they come from
different families, and how they add up depends on its size: a pair of opposite entries is one
symmetry row, and what is left is one row for a single entry, three for two rows, and a triangle for
more. Pairs above the diagonal and the triangle on and above it make up the square. So there are as
many rows as constraints and columns together, whatever the cones are.

The cone dimensions say the same of the order. They cut the rows where one family ends and the next
begins, and inside the last two families where one block ends and the next begins. None of this
depends on the coefficients.
-/

import Mathlib.Algebra.BigOperators.Intervals
import BlockCone.Proofs.Lowering
import BlockCone.ScalarDouble

namespace BlockCone

/-! ### Elementary cones -/

/-- The elementary cones have as many rows as the dimensions say, if no triangle is left out. -/
theorem ConeDims.size_cones {dims : ConeDims} {triangleCone : Bool}
    (kept : triangleCone = true ∨ dims.triangles = []) :
    ((dims.cones triangleCone).map ElementaryCone.size).sum = dims.total := by
  have family : ∀ (kind : Nat → ElementaryCone) (rows : Nat), (kind rows).size = rows →
      ((if 0 < rows then [kind rows] else []).map ElementaryCone.size).sum = rows := by
    intro kind rows size
    split
    · rw [List.map_singleton, List.sum_singleton, size]
    · rw [List.map_nil, List.sum_nil]
      omega
  have triangles : ((if triangleCone then dims.triangles.map ElementaryCone.triangle else []).map
      ElementaryCone.size).sum = (dims.triangles.map triangleSize).sum := by
    rcases kept with rfl | none
    · rw [if_pos rfl, List.map_map]
      rfl
    · rw [none, List.map_nil, List.map_nil, ite_self, List.map_nil]
  have pairs : ((dims.secondOrder.map ElementaryCone.secondOrder).map ElementaryCone.size).sum =
      dims.secondOrder.sum := by
    rw [List.map_map]
    exact congrArg List.sum (List.map_id _)
  rw [cones, List.map_append, List.map_append, List.map_append, List.sum_append, List.sum_append,
    List.sum_append, family .zero _ rfl, family .nonneg _ rfl, pairs, triangles]
  rfl

/-- Leaving out triangles changes nothing where there are none. -/
theorem ConeDims.cones_eq {dims : ConeDims} {triangleCone : Bool}
    (kept : triangleCone = true ∨ dims.triangles = []) :
    dims.cones triangleCone = dims.cones true := by
  rcases kept with rfl | none
  · rfl
  · rw [cones, cones, none, List.map_nil, ite_self, ite_self]

namespace StandardForm

/-! ### Rows of a cone -/

theorem length_filter_above (dim row : Nat) :
    ((List.range dim).filter fun col => decide (row < col)).length = dim - 1 - row := by
  induction dim with
  | zero => simp
  | succ dim inductionHypothesis =>
    rw [List.range_succ, List.filter_append, List.length_append, inductionHypothesis]
    by_cases above : row < dim
    · rw [List.filter_singleton, decide_eq_true above, cond_true, List.length_singleton]
      omega
    · rw [List.filter_singleton, decide_eq_false above, cond_false, List.length_nil]
      omega

/-- Every unordered pair of different rows lies above the diagonal once. -/
theorem length_upperPairs (dim : Nat) : (upperPairs dim).length = dim * (dim - 1) / 2 := by
  have counted : (upperPairs dim).length = ∑ row ∈ Finset.range dim, (dim - 1 - row) := by
    simp only [upperPairs, List.length_flatMap, List.length_map, length_filter_above]
    rfl
  rw [counted, Finset.sum_range_reflect fun row => row, Finset.sum_range_id]

variable {α : Type} [Scalar α]

theorem length_symmetryRows (cone : Cone) :
    (symmetryRows cone : List (Row α)).length = cone.count * (cone.dim * (cone.dim - 1) / 2) := by
  unfold symmetryRows
  split
  · rename_i small
    have none : cone.dim * (cone.dim - 1) / 2 = 0 := by
      have tiny : cone.dim = 0 ∨ cone.dim = 1 := by omega
      rcases tiny with size | size <;> rw [size]
    rw [none, Nat.mul_zero, List.length_nil]
  · refine length_blockRows fun block => ?_
    rw [List.length_map, length_upperPairs]

theorem length_entryRows (cone : Cone) :
    (entryRows cone : List (Row α)).length = if cone.dim = 1 then cone.count else 0 := by
  unfold entryRows
  split
  · rw [List.length_map, List.length_range]
  · rfl

/-- A square consists of the pairs above its diagonal and of the triangle on and above it. -/
theorem square_eq (dim : Nat) : dim * (dim - 1) / 2 + triangleSize dim = dim * dim := by
  induction dim with
  | zero => rfl
  | succ dim inductionHypothesis =>
    have pairs : (dim + 1) * (dim + 1 - 1) / 2 = dim * (dim - 1) / 2 + dim := by
      rw [Nat.add_sub_cancel, ← Finset.sum_range_id dim, ← Finset.sum_range_succ,
        Finset.sum_range_id, Nat.add_sub_cancel]
    rw [pairs, triangleSize_succ]
    linarith

/-- The rows of a cone are as many as its columns. -/
theorem length_coneRows (cone : Cone) :
    (symmetryRows cone : List (Row α)).length + (entryRows cone : List (Row α)).length +
        (pairRows cone : List (Row α)).length + (triangleRows cone : List (Row α)).length =
      cone.size := by
  have square := square_eq cone.dim
  rw [length_symmetryRows, length_entryRows, length_pairRows, length_triangleRows, Cone.size,
    Nat.mul_assoc]
  rcases Nat.lt_or_ge 2 cone.dim with large | small
  · rw [if_neg (by omega), if_neg (by omega), if_pos large, Nat.add_zero,
      ← Nat.mul_add, square]
  · rw [if_neg (Nat.not_lt.mpr small)]
    have few : cone.dim = 0 ∨ cone.dim = 1 ∨ cone.dim = 2 := by omega
    rcases few with none | single | double
    · simp [none]
    · simp [single]
    · rw [double, if_neg (by decide), if_pos rfl]
      omega

/-- Every constraint is an equality or an inequality. -/
theorem length_constraintRows (constraints : List (LinearConstraint α)) :
    (constraints.filterMap equalityRow?).length + (constraints.filterMap inequalityRow?).length =
      constraints.length := by
  induction constraints with
  | nil => rfl
  | cons first rest inductionHypothesis =>
    obtain ⟨coeffs, relation, bound⟩ := first
    cases relation <;>
      simp only [equalityRow?, inequalityRow?, List.filterMap_cons, List.length_cons] <;> omega

/-! ### Rows of a problem -/

/-- The rows of all cones are as many as their columns. -/
theorem length_allConeRows (cones : List Cone) :
    (cones.flatMap symmetryRows : List (Row α)).length +
        (cones.flatMap entryRows : List (Row α)).length +
        (cones.flatMap pairRows : List (Row α)).length +
        (cones.flatMap triangleRows : List (Row α)).length =
      (cones.map Cone.size).foldr (· + ·) 0 := by
  induction cones with
  | nil => rfl
  | cons first rest inductionHypothesis =>
    have here := length_coneRows (α := α) first
    simp only [List.flatMap_cons, List.length_append, List.map_cons, List.foldr_cons]
    omega

theorem length_zeroRows (problem : ConicProblem α) :
    (zeroRows problem).length =
      (problem.constraints.countP fun constraint => decide (constraint.relation = .equalTo)) +
        (problem.cones.map fun cone => cone.count * cone.dim * (cone.dim - 1) / 2).sum := by
  have equalities : (problem.constraints.filterMap equalityRow?).length =
      problem.constraints.countP fun constraint => decide (constraint.relation = .equalTo) := by
    rw [List.length_filterMap_eq_countP]
    refine List.countP_congr fun constraint _ => ?_
    obtain ⟨coeffs, relation, bound⟩ := constraint
    cases relation <;> simp [equalityRow?]
  have symmetry : (fun cone : Cone => (symmetryRows cone : List (Row α)).length) =
      fun cone => cone.count * cone.dim * (cone.dim - 1) / 2 := by
    funext cone
    rw [length_symmetryRows, Nat.mul_assoc, Nat.mul_div_assoc _ (Nat.even_mul_pred_self _).two_dvd]
  rw [zeroRows, List.length_append, equalities, List.length_flatMap, symmetry]

theorem length_nonnegRows (problem : ConicProblem α) :
    (nonnegRows problem).length =
      (problem.constraints.countP fun constraint => decide (constraint.relation ≠ .equalTo)) +
        ((problem.cones.filter fun cone => decide (cone.dim = 1)).map Cone.count).sum := by
  have inequalities : (problem.constraints.filterMap inequalityRow?).length =
      problem.constraints.countP fun constraint => decide (constraint.relation ≠ .equalTo) := by
    rw [List.length_filterMap_eq_countP]
    refine List.countP_congr fun constraint _ => ?_
    obtain ⟨coeffs, relation, bound⟩ := constraint
    cases relation <;> simp [inequalityRow?]
  have entries : (problem.cones.map fun cone => (entryRows cone : List (Row α)).length).sum =
      ((problem.cones.filter fun cone => decide (cone.dim = 1)).map Cone.count).sum := by
    induction problem.cones with
    | nil => rfl
    | cons first rest inductionHypothesis =>
      rw [List.map_cons, List.sum_cons, inductionHypothesis, length_entryRows, List.filter_cons]
      by_cases single : first.dim = 1
      · rw [if_pos single, decide_eq_true single, if_pos rfl, List.map_cons, List.sum_cons]
      · rw [if_neg single, decide_eq_false single, if_neg Bool.false_ne_true, Nat.zero_add]
  rw [nonnegRows, List.length_append, inequalities, List.length_flatMap, entries]

/-- A problem whose columns are covered by its cones has as many rows as constraints and columns. -/
theorem length_allRows {problem : ConicProblem α}
    (covered : (problem.cones.map Cone.size).foldr (· + ·) 0 = problem.columns) :
    (allRows problem).length = problem.constraints.length + problem.columns := by
  have constraints := length_constraintRows problem.constraints
  have cones := length_allConeRows (α := α) problem.cones
  simp only [allRows, zeroRows, nonnegRows, List.length_append]
  omega

/-! ### The order of the rows -/

/-- The rows of one block of two rows. -/
def pairBlock (cone : Cone) (block : Nat) : List (Row α) :=
  let first := cone.blockOffset block
  [⟨[(first, -1), (first + 3, -1)], 0⟩,
    ⟨[(first, -1), (first + 3, 1)], 0⟩,
    ⟨[(first + 1, -(1 + 1))], 0⟩]

/-- The rows of one larger block. -/
def triangleBlock (cone : Cone) (block : Nat) : List (Row α) :=
  (trianglePairs cone.dim).map fun (row, col) =>
    ⟨[(cone.blockOffset block + row * cone.dim + col,
        if row = col then -1 else -Scalar.rootTwo)], 0⟩

/-- The rows of a problem, put together by the elementary cones that they belong to: equalities and
symmetry, inequalities and single entries, then block by block. -/
def rowPieces (problem : ConicProblem α) : List (ElementaryCone × List (Row α)) :=
  ElementaryCone.family .zero (zeroRows problem) ++
    ElementaryCone.family .nonneg (nonnegRows problem) ++
    ElementaryCone.ofBlocks problem.cones (fun cone => cone.dim = 2) (fun _ => .secondOrder 3)
      pairBlock ++
    ElementaryCone.ofBlocks problem.cones (fun cone => 2 < cone.dim)
      (fun cone => .triangle cone.dim)
      triangleBlock

theorem rowPieces_fst (problem : ConicProblem α) :
    (rowPieces problem).map Prod.fst = (rowDims problem).cones true :=
  map_fst_pieces problem rfl rfl

theorem rowPieces_snd (problem : ConicProblem α) :
    (rowPieces problem).flatMap Prod.snd = allRows problem := by
  simp only [rowPieces, allRows, List.flatMap_append, ElementaryCone.family_snd,
    ElementaryCone.ofBlocks_snd]
  rfl

theorem rowPieces_full (problem : ConicProblem α) :
    ∀ piece ∈ rowPieces problem, piece.2.length = piece.1.size :=
  length_of_mem_pieces (fun _ _ => rfl) fun cone block => by
    rw [triangleBlock, List.length_map, length_trianglePairs]

/-! ### Accounting -/

/-- The numbers of rows and columns of a lowered problem, in terms of what it was made from. -/
structure Accounts (form : StandardForm α) (problem : ConicProblem α) : Prop where
  cols : form.matrix.cols = problem.columns
  cost : form.cost.length = problem.columns
  bounds : form.bounds.length = form.matrix.rows
  total : form.dims.total = form.matrix.rows
  rows : form.matrix.rows = problem.constraints.length + problem.columns
  zero : form.dims.zero =
    (problem.constraints.countP fun constraint => decide (constraint.relation = .equalTo)) +
      (problem.cones.map fun cone => cone.count * cone.dim * (cone.dim - 1) / 2).sum
  nonneg : form.dims.nonneg =
    (problem.constraints.countP fun constraint => decide (constraint.relation ≠ .equalTo)) +
      ((problem.cones.filter fun cone => decide (cone.dim = 1)).map Cone.count).sum
  secondOrder : form.dims.secondOrder =
    (problem.cones.filter fun cone => decide (cone.dim = 2)).flatMap fun cone =>
      List.replicate cone.count 3
  triangles : form.dims.triangles =
    (problem.cones.filter fun cone => decide (2 < cone.dim)).flatMap fun cone =>
      List.replicate cone.count cone.dim

/-- The elementary cones are as many rows as the matrix has, and cut its rows into the pieces that
belong to them. -/
structure Divides (cones : List ElementaryCone) (form : StandardForm α)
    (problem : ConicProblem α) : Prop where
  sizes : (cones.map ElementaryCone.size).sum = form.matrix.rows
  matrix : form.matrix =
    .assemble (allRows problem).length problem.columns (rowsTriplets (allRows problem))
  bounds : form.bounds = (allRows problem).map Row.bound
  cut : ElementaryCone.cut cones (allRows problem) = rowPieces problem
  full : ∀ piece ∈ rowPieces problem, piece.2.length = piece.1.size

theorem flatMap_ite_eq_flatMap_filter {β : Type} (cones : List Cone) (chosen : Cone → Bool)
    (values : Cone → List β) :
    (cones.flatMap fun cone => if chosen cone then values cone else []) =
      (cones.filter chosen).flatMap values := by
  induction cones with
  | nil => rfl
  | cons first rest inductionHypothesis =>
    rw [List.flatMap_cons, inductionHypothesis, List.filter_cons]
    split
    · rw [List.flatMap_cons]
    · rfl

/-- Without large blocks there are no triangles. -/
theorem triangles_eq_nil {problem : ConicProblem α}
    (small : ∀ cone ∈ problem.cones, 0 < cone.count → cone.dim ≤ 2) :
    (rowDims problem).triangles = [] := by
  refine List.flatMap_eq_nil_iff.mpr fun cone member => ?_
  split
  · rename_i large
    rw [List.replicate_eq_nil_iff]
    by_contra blocks
    exact absurd (small cone member (Nat.pos_of_ne_zero blocks)) (Nat.not_le.mpr large)
  · rfl

/-- A lowered problem has a row for every constraint and every column, each family is as large as
the constraints and blocks ask for, and the elementary cones divide the rows in their order, unless
there are triangles and the solver has no cone for them. -/
theorem ofConic_accounts {triangleCone : Bool} {problem : ConicProblem α} {form : StandardForm α}
    (lowered : ofConic triangleCone problem = .ok form) :
    form.Accounts problem ∧
      ∀ solverHasTriangles : Bool,
        (solverHasTriangles = true ∨
          ∀ cone ∈ problem.cones, 0 < cone.count → cone.dim ≤ 2) →
        Divides (form.dims.cones solverHasTriangles) form problem := by
  obtain ⟨_, columns, _⟩ := bind_eq_ok_iff.mp lowered
  obtain ⟨covered, _⟩ := checkColumns_eq_ok_iff.mp columns
  obtain ⟨_, rfl, _⟩ := ofConic_eq_ok lowered
  constructor
  · exact
      { cols := rfl
        cost := length_costs problem
        bounds := List.length_map _
        total := total_rowDims problem
        rows := length_allRows covered
        zero := length_zeroRows problem
        nonneg := length_nonnegRows problem
        secondOrder := by
          rw [← flatMap_ite_eq_flatMap_filter]
          simp only [decide_eq_true_eq]
          rfl
        triangles := by
          rw [← flatMap_ite_eq_flatMap_filter]
          simp only [decide_eq_true_eq]
          rfl }
  · intro solverHasTriangles able
    have kept : solverHasTriangles = true ∨ (rowDims problem).triangles = [] :=
      able.imp id triangles_eq_nil
    refine ⟨(ConeDims.size_cones kept).trans (total_rowDims problem), rfl, rfl, ?_,
      rowPieces_full problem⟩
    show ElementaryCone.cut ((rowDims problem).cones solverHasTriangles) (allRows problem) = _
    rw [ConeDims.cones_eq kept, ← rowPieces_fst, ← rowPieces_snd]
    exact ElementaryCone.cut_pieces _ (rowPieces_full problem)

/-- Cones of every kind, among them one without rows and one without blocks, and a constraint of
each relation. -/
def assortedProblem : ConicProblem Float where
  columns := 24
  cones := [⟨0, 5, 0⟩, ⟨2, 3, 2⟩, ⟨1, 0, 9⟩, ⟨3, 1, 14⟩, ⟨1, 2, 0⟩, ⟨1, 1, 23⟩]
  objective := ⟨.maximize, [(5, 1.5), (0, -2.0), (5, 1.0)], 7.0⟩
  constraints :=
    [⟨[(13, 1.0), (1, 0.5)], .equalTo, 4.0⟩, ⟨[(4, 1.0)], .greaterThan, 0.0⟩, ⟨[], .lessThan, 1.0⟩]

/-- The assorted problem has seven zero rows, five nonnegative ones, three cones of three rows and
one triangle of six, and a solver with triangles is handed cones of twenty-seven rows. -/
theorem ofConic_accounts_assorted :
    ∃ form, ofConic true assortedProblem = .ok form ∧ form.matrix.rows = 27 ∧
      form.dims = ⟨7, 5, [3, 3, 3], [3]⟩ ∧
      ((form.dims.cones true).map ElementaryCone.size).sum = 27 := by
  have lowered : ∃ form, ofConic true assortedProblem = .ok form := ⟨_, rfl⟩
  obtain ⟨form, made⟩ := lowered
  obtain ⟨accounts, divides⟩ := ofConic_accounts made
  have rows : form.matrix.rows = 27 := accounts.rows
  refine ⟨form, made, rows, ?_, (divides true (Or.inl rfl)).sizes.trans rows⟩
  have zero : form.dims.zero = 7 := accounts.zero
  have nonneg : form.dims.nonneg = 5 := accounts.nonneg
  have secondOrder : form.dims.secondOrder = [3, 3, 3] := accounts.secondOrder
  have triangles : form.dims.triangles = [3] := accounts.triangles
  rw [← zero, ← nonneg, ← secondOrder, ← triangles]

end StandardForm

end BlockCone
