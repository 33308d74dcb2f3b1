/-
This file proves that lowering a flat problem keeps its meaning.

A lowered problem is a sparse matrix with a list of bounds, and nothing in it tells which row came
from where. The proof puts the rows back: assembling neither loses nor invents a coefficient, so
the slack at a point is the list of the slacks of the rows, and the cone dimensions cut this list
exactly where one family of rows ends and the next begins. What each family asks for is known, and
for every block the families together ask that it is positive semidefinite.

The cost goes the same way. Each coefficient of the objective is added to the cost of its column,
so the cost of a point is what the objective weighs there, up to a sign.
-/

import BlockCone.Proofs.Lowered

namespace BlockCone

/-! ### Feasible points -/

namespace ConicProblem

variable {K : Type} [ExactScalar K]

/-- A point satisfies every constraint, and every block that it holds, row by row from the first
column of the block, is positive semidefinite. -/
structure IsFeasible (problem : ConicProblem K) (point : Array K) : Prop where
  constraint : ∀ number constraint, problem.constraints[number]? = some constraint →
    ∃ value, problem.constraintValue number point = .ok (some value) ∧
      constraint.relation.Compares value constraint.bound
  block : ∀ cone ∈ problem.cones, ∀ block < cone.count,
    IsSemidefinite cone.dim (cone.entryAt block (entryOf point))

end ConicProblem

namespace StandardForm

variable {K : Type} [ExactScalar K]

/-! ### The slack -/

/-- The triplets of one row weigh what the row weighs, and nothing in any other row. -/
theorem tripletSum_row (coeffs : List (Nat × K)) (number wanted : Nat) (level : Nat → K) :
    (tripletSum (coeffs.map fun (col, value) => (⟨number, col, value⟩ : Triplet K)) fun row col =>
      if row = wanted then level col else 0) =
      if number = wanted then weighed coeffs level else 0 := by
  induction coeffs with
  | nil => rw [List.map_nil, tripletSum_nil, weighed_nil, ite_self]
  | cons entry rest inductionHypothesis =>
    rw [List.map_cons, tripletSum_cons, inductionHypothesis, weighed_cons]
    by_cases same : number = wanted
    · simp only [if_pos same]
    · simp only [if_neg same, mul_zero, add_zero]

/-- Among the triplets of numbered rows only those of the wanted row weigh anything. -/
theorem tripletSum_numbered (rows : List (Row K)) (start wanted : Nat) (level : Nat → K) :
    (tripletSum ((rows.zipIdx start).flatMap fun (row, number) =>
        row.coeffs.map fun (col, value) => (⟨number, col, value⟩ : Triplet K)) fun row col =>
      if row = wanted then level col else 0) =
      if start ≤ wanted then
        ((rows[wanted - start]?).map fun row => weighed row.coeffs level).getD 0
      else 0 := by
  induction rows generalizing start with
  | nil => simp
  | cons first rest inductionHypothesis =>
    rw [List.zipIdx_cons, List.flatMap_cons, tripletSum_append, tripletSum_row,
      inductionHypothesis]
    -- The first row carries the number `start`, and all later ones carry larger numbers.
    rcases Nat.lt_trichotomy start wanted with before | rfl | after
    · rw [if_neg (Nat.ne_of_lt before), if_pos (Nat.succ_le_of_lt before),
        if_pos (Nat.le_of_lt before), zero_add,
        show wanted - start = wanted - (start + 1) + 1 by omega, List.getElem?_cons_succ]
    · rw [if_pos rfl, if_neg (Nat.not_succ_le_self start), if_pos (Nat.le_refl start),
        Nat.sub_self, add_zero, List.getElem?_cons_zero]
      rfl
    · rw [if_neg (Nat.ne_of_gt after), if_neg (by omega), if_neg (by omega), add_zero]

/-- The product of an assembled row with a vector is what the row weighs there. -/
theorem rowTimes_assemble {rows : List (Row K)} {columns : Nat}
    (within : ∀ triplet ∈ rowsTriplets rows, triplet.col < columns) {number : Nat} {row : Row K}
    (present : rows[number]? = some row) (level : Nat → K) :
    (Sparse.assemble rows.length columns (rowsTriplets rows)).rowTimes level number =
      weighed row.coeffs level := by
  have inside : ∀ stored ∈ (Sparse.assemble rows.length columns (rowsTriplets rows)).entries,
      stored.col < columns := by
    intro stored member
    obtain ⟨named, namedMember, _, sameCol⟩ := Sparse.position_assemble member
    rw [← sameCol]
    exact within named namedMember
  have sum : (Sparse.assemble rows.length columns (rowsTriplets rows)).rowTimes level number = _ :=
    Sparse.sum_lookup (Sparse.assemble_pairwise rows.length columns (rowsTriplets rows)) inside
      number level
  rw [Sparse.tripletSum_assemble, rowsTriplets, tripletSum_numbered, if_pos (Nat.zero_le number),
    Nat.sub_zero, present] at sum
  exact sum

/-- The slack of assembled rows is the list of their slacks. -/
theorem slack_eq {form : StandardForm K} {rows : List (Row K)} {columns : Nat}
    (within : ∀ triplet ∈ rowsTriplets rows, triplet.col < columns)
    (matrix : form.matrix = .assemble rows.length columns (rowsTriplets rows))
    (bounds : form.bounds = rows.map Row.bound) (point : Array K) :
    form.slack point = rows.map fun row => row.slack (entryOf point) := by
  unfold slack
  rw [matrix, bounds]
  refine List.ext_getElem (by simp) fun number left right => ?_
  have bound : number < rows.length := by simpa using right
  simp only [List.getElem_map, List.getElem_zipIdx, Nat.zero_add]
  rw [rowTimes_assemble within (List.getElem?_eq_getElem bound), Row.slack]

/-! ### The parts of the slack -/

/-- The parts of the slack at a vector, with the cones they belong to. -/
def pieces (problem : ConicProblem K) (level : Nat → K) : List (ElementaryCone × List K) :=
  ElementaryCone.family .zero ((zeroRows problem).map fun row => row.slack level) ++
    ElementaryCone.family .nonneg ((nonnegRows problem).map fun row => row.slack level) ++
    ElementaryCone.ofBlocks problem.cones (fun cone => cone.dim = 2) (fun _ => .secondOrder 3)
      (fun cone block => pairPart (cone.entryAt block level)) ++
    ElementaryCone.ofBlocks problem.cones (fun cone => 2 < cone.dim)
      (fun cone => .triangle cone.dim)
      (fun cone block => trianglePart cone.dim (cone.entryAt block level))

theorem pieces_fst (problem : ConicProblem K) (level : Nat → K) :
    (pieces problem level).map Prod.fst = (rowDims problem).cones true :=
  map_fst_pieces problem (List.length_map _) (List.length_map _)

theorem pieces_snd (problem : ConicProblem K) (level : Nat → K) :
    (pieces problem level).flatMap Prod.snd =
      (allRows problem).map fun row => row.slack level := by
  simp only [pieces, allRows, List.flatMap_append, List.map_append, ElementaryCone.family_snd,
    ElementaryCone.ofBlocks_snd, List.map_flatMap, slack_pairRows, slack_triangleRows]

theorem pieces_full (problem : ConicProblem K) (level : Nat → K) :
    ∀ piece ∈ pieces problem level, piece.2.length = piece.1.size :=
  length_of_mem_pieces (fun _ _ => rfl) fun cone _ => by
    rw [trianglePart, List.length_map, length_trianglePairs]

/-- Every part lies in its cone exactly when the families of rows say what they say. -/
theorem pieces_contained_iff (problem : ConicProblem K) (level : Nat → K) :
    (∀ piece ∈ pieces problem level, piece.1.Contains piece.2) ↔
      (∀ constraint ∈ problem.constraints,
        constraint.relation.Compares (weighed constraint.coeffs level) constraint.bound) ∧
      ∀ cone ∈ problem.cones, ∀ block < cone.count,
        IsSemidefinite cone.dim (cone.entryAt block level) := by
  have zero : (∀ piece ∈ ElementaryCone.family .zero
      ((zeroRows problem).map fun row => row.slack level), piece.1.Contains piece.2) ↔
      (∀ row ∈ problem.constraints.filterMap equalityRow?, row.slack level = 0) ∧
        ∀ cone ∈ problem.cones, ∀ block < cone.count, ∀ row < cone.dim, ∀ col < cone.dim,
          cone.entryAt block level row col = cone.entryAt block level col row := by
    rw [ElementaryCone.forall_mem_family (by simp [ElementaryCone.Contains])]
    simp only [ElementaryCone.Contains, List.forall_mem_map, zeroRows, List.forall_mem_append,
      List.forall_mem_flatMap, symmetryRows_iff]
  have nonneg : (∀ piece ∈ ElementaryCone.family .nonneg
      ((nonnegRows problem).map fun row => row.slack level), piece.1.Contains piece.2) ↔
      (∀ row ∈ problem.constraints.filterMap inequalityRow?, 0 ≤ row.slack level) ∧
        ∀ cone ∈ problem.cones, ∀ block < cone.count,
          cone.dim = 1 → 0 ≤ cone.entryAt block level 0 0 := by
    rw [ElementaryCone.forall_mem_family (by simp [ElementaryCone.Contains])]
    simp only [ElementaryCone.Contains, List.forall_mem_map, nonnegRows, List.forall_mem_append,
      List.forall_mem_flatMap, entryRows_iff]
  simp only [pieces, List.forall_mem_append, zero, nonneg, ElementaryCone.forall_mem_ofBlocks,
    ← block_iff, ← constraints_iff]
  constructor
  · rintro ⟨⟨⟨⟨equal, symmetric⟩, atLeast, single⟩, double⟩, large⟩
    exact ⟨⟨equal, atLeast⟩, fun cone member block inside =>
      ⟨symmetric cone member block inside, single cone member block inside,
        double cone member block inside, large cone member block inside⟩⟩
  · rintro ⟨⟨equal, atLeast⟩, blocks⟩
    exact ⟨⟨⟨⟨equal, fun cone member block inside => (blocks cone member block inside).1⟩,
      atLeast, fun cone member block inside => (blocks cone member block inside).2.1⟩,
      fun cone member block inside => (blocks cone member block inside).2.2.1⟩,
      fun cone member block inside => (blocks cone member block inside).2.2.2⟩

/-! ### The cost -/

/-- Adding to one cost adds to the cost of a vector. -/
theorem sum_modify (costs : Array K) {col : Nat} (bound : col < costs.size) (more : K)
    (level : Nat → K) :
    ∑ place ∈ Finset.range costs.size, entryOf (costs.modify col (· + more)) place * level place =
      (∑ place ∈ Finset.range costs.size, entryOf costs place * level place) +
        more * level col := by
  have pointwise : ∀ place ∈ Finset.range costs.size,
      entryOf (costs.modify col (· + more)) place * level place =
        entryOf costs place * level place + if col = place then more * level col else 0 := by
    intro place member
    have inside : place < costs.size := Finset.mem_range.mp member
    unfold entryOf
    rw [Array.getElem?_modify, Array.getElem?_eq_getElem inside]
    by_cases same : col = place
    · rw [if_pos same, if_pos same, Option.map_some, Option.getD_some, Option.getD_some, add_mul,
        same]
    · rw [if_neg same, if_neg same, add_zero]
  rw [Finset.sum_congr rfl pointwise, Finset.sum_add_distrib, Finset.sum_ite_eq,
    if_pos (Finset.mem_range.mpr bound)]

/-- Adding the coefficients of an objective one after another adds what they weigh. -/
theorem sum_foldl_modify (coeffs : List (Nat × K)) (sign : K) (level : Nat → K) (costs : Array K)
    (within : ∀ entry ∈ coeffs, entry.1 < costs.size) :
    ∑ place ∈ Finset.range costs.size,
        entryOf (coeffs.foldl (fun (costs : Array K) (col, value) =>
          costs.modify col (· + sign * value)) costs) place * level place =
      (∑ place ∈ Finset.range costs.size, entryOf costs place * level place) +
        sign * weighed coeffs level := by
  induction coeffs generalizing costs with
  | nil => rw [List.foldl_nil, weighed_nil, mul_zero, add_zero]
  | cons entry rest inductionHypothesis =>
    have deeper := inductionHypothesis (costs.modify entry.1 (· + sign * entry.2))
      fun later member => by
        rw [Array.size_modify]
        exact within later (List.mem_cons_of_mem _ member)
    rw [Array.size_modify] at deeper
    rw [List.foldl_cons, deeper, sum_modify costs (within entry List.mem_cons_self), weighed_cons]
    ring

/-- The sign with which the cost stands for the objective. -/
def costSign (sense : Sense) : K :=
  match sense with
  | .minimize => 1
  | .maximize => -1

theorem length_costs {α : Type} [Scalar α] (problem : ConicProblem α) :
    (costs problem).length = problem.columns := by
  have kept : ∀ (coeffs : List (Nat × α)) (sign : α) (start : Array α),
      (coeffs.foldl (fun (costs : Array α) (col, value) =>
        costs.modify col (· + sign * value)) start).size = start.size := by
    intro coeffs sign start
    induction coeffs generalizing start with
    | nil => rfl
    | cons entry rest inductionHypothesis =>
      rw [List.foldl_cons, inductionHypothesis, Array.size_modify]
  rw [costs, Array.length_toList, kept, Array.size_replicate]

/-- The cost of a vector is what the objective weighs there, with the sign of its sense. -/
theorem sum_costs {problem : ConicProblem K}
    (within : ∀ entry ∈ problem.objective.coeffs, entry.1 < problem.columns) (level : Nat → K) :
    ∑ place ∈ Finset.range problem.columns, ((costs problem)[place]?).getD 0 * level place =
      costSign problem.objective.sense * weighed problem.objective.coeffs level := by
  have added := sum_foldl_modify problem.objective.coeffs (costSign problem.objective.sense) level
    (Array.replicate problem.columns 0) (by simpa using within)
  have none : ∀ place ∈ Finset.range problem.columns,
      entryOf (Array.replicate problem.columns (0 : K)) place * level place = 0 := by
    intro place member
    rw [entryOf, Array.getElem?_replicate, if_pos (Finset.mem_range.mp member), Option.getD_some,
      zero_mul]
  rw [Array.size_replicate, Finset.sum_eq_zero none, zero_add] at added
  rw [← added]
  refine Finset.sum_congr rfl fun place _ => ?_
  rw [costs, Array.getElem?_toList]
  rfl

/-! ### Lowering -/

/-- A lowered problem has the extents of the problem that it was made from. -/
structure HasExtentsOf (form : StandardForm K) (problem : ConicProblem K) : Prop where
  cost : form.cost.length = problem.columns
  cols : form.matrix.cols = problem.columns
  rows : form.matrix.rows = form.bounds.length
  total : form.dims.total = form.bounds.length
  blocks : ∀ cone ∈ problem.cones, ∀ block < cone.count, ∀ row < cone.dim, ∀ col < cone.dim,
    cone.blockOffset block + row * cone.dim + col < problem.columns

/-- A point is feasible exactly when all constraints compare and all blocks are positive
semidefinite. -/
theorem Within.isFeasible_iff {problem : ConicProblem K} (within : Within problem) {point : Array K}
    (fits : point.size = problem.columns) :
    problem.IsFeasible point ↔
      (∀ constraint ∈ problem.constraints,
        constraint.relation.Compares (weighed constraint.coeffs (entryOf point))
          constraint.bound) ∧
      ∀ cone ∈ problem.cones, ∀ block < cone.count,
        IsSemidefinite cone.dim (cone.entryAt block (entryOf point)) := by
  have computed : ∀ number constraint, problem.constraints[number]? = some constraint →
      problem.constraintValue number point =
        .ok (some (weighed constraint.coeffs (entryOf point))) := by
    intro number constraint present
    refine ConicProblem.constraintValue_exact present fun entry member => ?_
    rw [fits]
    exact within.constraint constraint (List.mem_of_getElem? present) entry member
  constructor
  · rintro ⟨constraints, blocks⟩
    refine ⟨fun constraint member => ?_, blocks⟩
    obtain ⟨number, present⟩ := List.mem_iff_getElem?.mp member
    obtain ⟨value, evaluated, compares⟩ := constraints number constraint present
    rw [computed number constraint present] at evaluated
    rwa [Option.some.inj (Except.ok.inj evaluated)]
  · rintro ⟨constraints, blocks⟩
    refine ⟨fun number constraint present => ?_, blocks⟩
    exact ⟨_, computed number constraint present,
      constraints constraint (List.mem_of_getElem? present)⟩

/-- A lowered problem has the same feasible points, and its cost at a point is the value of the
objective without its constant, negated for an objective that is made large. -/
theorem ofConic_faithful {triangleCone : Bool} {problem : ConicProblem K} {form : StandardForm K}
    (lowered : ofConic triangleCone problem = .ok form) :
    HasExtentsOf form problem ∧
      ∀ point : Array K, point.size = problem.columns →
        (form.IsFeasible point ↔ problem.IsFeasible point) ∧
        ∃ value, problem.objectiveValue point = .ok value ∧
          form.costAt point =
            match problem.objective.sense with
            | .minimize => value - problem.objective.constant
            | .maximize => -(value - problem.objective.constant) := by
  obtain ⟨within, rfl, triplets⟩ := ofConic_eq_ok lowered
  refine ⟨⟨length_costs problem, rfl, (List.length_map _).symm, ?_,
    fun cone known block inside row rowBound col colBound =>
      within.blockColumn_lt known inside rowBound colBound⟩, fun point fits => ⟨?_, ?_⟩⟩
  · rw [List.length_map]
    exact total_rowDims problem
  · rw [within.isFeasible_iff fits, ← pieces_contained_iff, IsFeasible, slack_eq triplets rfl rfl,
      ← pieces_fst problem (entryOf point), ← pieces_snd,
      ElementaryCone.cut_pieces _ (pieces_full problem _)]
    exact forall₂_congr fun piece member =>
      and_iff_right (pieces_full problem (entryOf point) piece member)
  · have objective : ∀ entry ∈ problem.objective.coeffs, entry.1 < point.size := by
      rw [fits]
      exact within.objective
    refine ⟨_, ConicProblem.objectiveValue_exact objective, ?_⟩
    rw [costAt, fits, sum_costs within.objective, add_sub_cancel_right]
    cases problem.objective.sense with
    | minimize => exact one_mul _
    | maximize => exact neg_one_mul _

/-- A problem with a block of each kind, and columns that are named twice. -/
def mixedProblem : ConicProblem ℚ where
  columns := 14
  cones := [⟨2, 1, 1⟩, ⟨3, 1, 5⟩, ⟨1, 1, 0⟩]
  objective := ⟨.maximize, [(5, 1), (0, 2), (5, 1)], 7⟩
  constraints := [⟨[(13, 1), (1, 1), (13, 2)], .equalTo, 4⟩, ⟨[(4, 1)], .greaterThan, 0⟩]

theorem ofConic_faithful_mixed :
    ∃ form, ofConic true mixedProblem = .ok form ∧ HasExtentsOf form mixedProblem ∧
      (form.IsFeasible (Array.replicate 14 1) ↔
        mixedProblem.IsFeasible (Array.replicate 14 1)) := by
  have lowered : ∃ form, ofConic true mixedProblem = .ok form := ⟨_, rfl⟩
  obtain ⟨form, made⟩ := lowered
  have faithful := ofConic_faithful made
  exact ⟨form, made, faithful.1, (faithful.2 _ (Array.size_replicate ..)).1⟩

end StandardForm

end BlockCone
