/-
This file says what is known of a flat problem once it has been lowered.

Lowering checks a problem, lists its rows and assembles them. `allRows` is that list and `rowDims`
counts its families, and `ofConic_eq_ok` says that a lowered problem consists of nothing else. The
checks on the way are all that is ever needed of the problem: every column that is named exists, in
the constraints and the objective because they are looked through, and in the blocks because a row
that named another column would not have fitted into the matrix. No one looks at where the cones
start, but every entry of a block is named by some row.
-/

import BlockCone.Proofs.LoweredRows

namespace BlockCone

namespace StandardForm

/-! ### Rows and checks -/

section Scalars

variable {α : Type}

theorem checkCoeffs_eq_ok_iff {columns : Nat} {coeffs : List (Nat × α)} :
    checkCoeffs columns coeffs = .ok () ↔ ∀ entry ∈ coeffs, entry.1 < columns := by
  unfold checkCoeffs
  split
  · rename_i column value found
    refine iff_of_false (by simp) fun within => ?_
    have outside : columns ≤ column := by simpa using List.find?_some found
    exact absurd (within _ (List.mem_of_find?_eq_some found)) (Nat.not_lt.mpr outside)
  · rename_i absent
    refine iff_of_true rfl fun entry member => ?_
    simpa using List.find?_eq_none.mp absent entry member

/-- The columns are accepted exactly if the cones have as many and only such are named. -/
theorem checkColumns_eq_ok_iff {problem : ConicProblem α} :
    checkColumns problem = .ok () ↔
      (problem.cones.map Cone.size).foldr (· + ·) 0 = problem.columns ∧
        (∀ entry ∈ problem.objective.coeffs, entry.1 < problem.columns) ∧
          ∀ constraint ∈ problem.constraints, ∀ entry ∈ constraint.coeffs,
            entry.1 < problem.columns := by
  simp only [checkColumns, ← checkCoeffs_eq_ok_iff, ← forM_eq_ok_iff]
  split
  · rename_i differs
    refine iff_of_false (fun checked => ?_) fun accepted => ?_
    · obtain ⟨_, thrown, _⟩ := bind_eq_ok_iff.mp checked
      exact throw_ne_ok _ _ thrown
    · exact absurd accepted.1 (by simpa using differs)
  · rename_i same
    rw [bind_eq_ok_iff]
    constructor
    · rintro ⟨_, objectiveChecked, constraintsChecked⟩
      exact ⟨by simpa using same, objectiveChecked, constraintsChecked⟩
    · rintro ⟨_, objectiveChecked, constraintsChecked⟩
      exact ⟨(), objectiveChecked, constraintsChecked⟩

/-- The triplets of numbered rows lie inside a matrix exactly if the rows name only its columns. -/
theorem rowsTriplets_within_iff {rows : List (Row α)} {columns : Nat} :
    (∀ triplet ∈ rowsTriplets rows, triplet.row < rows.length ∧ triplet.col < columns) ↔
      ∀ row ∈ rows, ∀ entry ∈ row.coeffs, entry.1 < columns := by
  simp only [rowsTriplets, List.forall_mem_flatMap, List.forall_mem_map]
  constructor
  · intro within row member entry listed
    obtain ⟨number, bound, rfl⟩ := List.mem_iff_getElem.mp member
    have numbered : (rows[number], number) ∈ rows.zipIdx := by
      rw [List.mem_zipIdx_iff_getElem?]
      exact List.getElem?_eq_getElem bound
    exact (within _ numbered entry listed).2
  · rintro within ⟨row, number⟩ numbered entry listed
    rw [List.mem_zipIdx_iff_getElem?] at numbered
    obtain ⟨bound, _⟩ := List.getElem?_eq_some_iff.mp numbered
    exact ⟨bound, within row (List.mem_of_getElem? numbered) entry listed⟩

variable [Scalar α]

/-- The rows whose slack is zero. -/
def zeroRows (problem : ConicProblem α) : List (Row α) :=
  problem.constraints.filterMap equalityRow? ++ problem.cones.flatMap symmetryRows

/-- The rows whose slack is nonnegative. -/
def nonnegRows (problem : ConicProblem α) : List (Row α) :=
  problem.constraints.filterMap inequalityRow? ++ problem.cones.flatMap entryRows

/-- All rows in their order. -/
def allRows (problem : ConicProblem α) : List (Row α) :=
  zeroRows problem ++ nonnegRows problem ++ problem.cones.flatMap pairRows ++
    problem.cones.flatMap triangleRows

/-- The sizes of the families of rows. -/
def rowDims (problem : ConicProblem α) : ConeDims where
  zero := (zeroRows problem).length
  nonneg := (nonnegRows problem).length
  secondOrder := problem.cones.flatMap fun cone =>
    if cone.dim = 2 then List.replicate cone.count 3 else []
  triangles := problem.cones.flatMap fun cone =>
    if 2 < cone.dim then List.replicate cone.count cone.dim else []

/-- The columns that a problem names are there. -/
structure Within (problem : ConicProblem α) : Prop where
  objective : ∀ entry ∈ problem.objective.coeffs, entry.1 < problem.columns
  constraint : ∀ constraint ∈ problem.constraints, ∀ entry ∈ constraint.coeffs,
    entry.1 < problem.columns
  row : ∀ row ∈ allRows problem, ∀ entry ∈ row.coeffs, entry.1 < problem.columns

/-- Lowering succeeds only with the assembled rows, and only if all columns are there. -/
theorem ofConic_eq_ok {triangleCone : Bool} {problem : ConicProblem α} {form : StandardForm α}
    (lowered : ofConic triangleCone problem = .ok form) :
    Within problem ∧
      form =
        { quadratic := .empty problem.columns problem.columns
          cost := costs problem
          matrix := .assemble (allRows problem).length problem.columns
            (rowsTriplets (allRows problem))
          bounds := (allRows problem).map Row.bound
          dims := rowDims problem } ∧
      ∀ triplet ∈ rowsTriplets (allRows problem), triplet.col < problem.columns := by
  obtain ⟨_, columnsChecked, rest⟩ := bind_eq_ok_iff.mp lowered
  obtain ⟨_, _, made⟩ := bind_eq_ok_iff.mp rest
  obtain ⟨matrix, assembled, same⟩ := bind_eq_ok_iff.mp made
  obtain ⟨rfl, inside⟩ := Sparse.ofTriplets_eq_ok_iff.mp assembled
  obtain ⟨_, objective, constraints⟩ := checkColumns_eq_ok_iff.mp columnsChecked
  exact ⟨⟨objective, constraints, rowsTriplets_within_iff.mp inside⟩, (Except.ok.inj same).symm,
    fun triplet member => (inside triplet member).2⟩

/-! ### Columns of blocks -/

/-- A row is one of a constraint or one of a cone. -/
theorem mem_allRows {problem : ConicProblem α} {row : Row α} :
    row ∈ allRows problem ↔
      (∃ constraint ∈ problem.constraints,
        equalityRow? constraint = some row ∨ inequalityRow? constraint = some row) ∨
      ∃ cone ∈ problem.cones, row ∈ symmetryRows cone ∨ row ∈ entryRows cone ∨
        row ∈ pairRows cone ∨ row ∈ triangleRows cone := by
  simp only [allRows, zeroRows, nonnegRows, List.mem_append, List.mem_flatMap, List.mem_filterMap,
    and_or_left, exists_or]
  grind

section Columns

variable {problem : ConicProblem α} {cone : Cone} {block : Nat}

theorem Within.offDiagonal_lt (within : Within problem) (known : cone ∈ problem.cones)
    (inside : block < cone.count) {first second : Nat} (above : first < second)
    (bound : second < cone.dim) :
    cone.blockOffset block + first * cone.dim + second < problem.columns ∧
      cone.blockOffset block + second * cone.dim + first < problem.columns := by
  have made : (⟨[(cone.blockOffset block + first * cone.dim + second, 1),
      (cone.blockOffset block + second * cone.dim + first, -1)], 0⟩ : Row α) ∈
        symmetryRows cone := by
    rw [symmetryRows, if_neg (by omega)]
    exact List.mem_flatMap.mpr ⟨block, List.mem_range.mpr inside,
      List.mem_map.mpr ⟨(first, second), mem_upperPairs.mpr ⟨above, bound⟩, rfl⟩⟩
  have named := within.row _ (mem_allRows.mpr (Or.inr ⟨cone, known, Or.inl made⟩))
  exact ⟨named _ List.mem_cons_self, named _ (List.mem_cons_of_mem _ List.mem_cons_self)⟩

theorem Within.diagonal_lt (within : Within problem) (known : cone ∈ problem.cones)
    (inside : block < cone.count) {row : Nat} (bound : row < cone.dim) :
    cone.blockOffset block + row * cone.dim + row < problem.columns := by
  rcases Nat.lt_or_ge 2 cone.dim with large | small
  · have made : (⟨[(cone.blockOffset block + row * cone.dim + row,
        if row = row then -1 else -Scalar.rootTwo)], 0⟩ : Row α) ∈ triangleRows cone := by
      rw [triangleRows, if_pos large]
      exact List.mem_flatMap.mpr ⟨block, List.mem_range.mpr inside, List.mem_map.mpr
        ⟨(row, row), List.mem_of_getElem? (getElem?_trianglePairs (Nat.le_refl row) bound), rfl⟩⟩
    have listed := mem_allRows.mpr (Or.inr ⟨cone, known, Or.inr (Or.inr (Or.inr made))⟩)
    exact within.row _ listed _ List.mem_cons_self
  · rcases Nat.le_iff_lt_or_eq.mp small with tiny | double
    · have single : cone.dim = 1 := by omega
      have made : (⟨[(cone.blockOffset block, -1)], 0⟩ : Row α) ∈ entryRows cone := by
        rw [entryRows, if_pos single]
        exact List.mem_map.mpr ⟨block, List.mem_range.mpr inside, rfl⟩
      have listed := mem_allRows.mpr (Or.inr ⟨cone, known, Or.inr (Or.inl made)⟩)
      have named := within.row _ listed _ List.mem_cons_self
      rwa [show row = 0 by omega, Nat.zero_mul, Nat.add_zero]
    · have made : (⟨[(cone.blockOffset block, -1), (cone.blockOffset block + 3, -1)], 0⟩ : Row α) ∈
          pairRows cone := by
        rw [pairRows, if_pos double]
        exact List.mem_flatMap.mpr ⟨block, List.mem_range.mpr inside, List.mem_cons_self⟩
      have named := within.row _
        (mem_allRows.mpr (Or.inr ⟨cone, known, Or.inr (Or.inr (Or.inl made))⟩))
      rw [double] at bound ⊢
      interval_cases row
      · exact named _ List.mem_cons_self
      · exact named _ (List.mem_cons_of_mem _ List.mem_cons_self)

/-- Every entry of every block is a column: some row names it. -/
theorem Within.blockColumn_lt (within : Within problem) (known : cone ∈ problem.cones)
    (inside : block < cone.count) {row col : Nat} (rowBound : row < cone.dim)
    (colBound : col < cone.dim) :
    cone.blockOffset block + row * cone.dim + col < problem.columns := by
  rcases Nat.lt_trichotomy row col with above | rfl | below
  · exact (within.offDiagonal_lt known inside above colBound).1
  · exact within.diagonal_lt known inside rowBound
  · exact (within.offDiagonal_lt known inside below rowBound).2

end Columns

/-! ### Numbers of rows -/

/-- A family with as many rows for every block has that many for each. -/
theorem length_blockRows {β : Type} {count size : Nat} {rows : Nat → List β}
    (same : ∀ block, (rows block).length = size) :
    ((List.range count).flatMap rows).length = count * size := by
  rw [List.length_flatMap, funext same, List.map_const', List.length_range, List.sum_replicate,
    smul_eq_mul]

theorem length_pairRows (cone : Cone) :
    (pairRows cone : List (Row α)).length = if cone.dim = 2 then cone.count * 3 else 0 := by
  unfold pairRows
  split
  · exact length_blockRows fun block => rfl
  · rfl

theorem length_triangleRows (cone : Cone) :
    (triangleRows cone : List (Row α)).length =
      if 2 < cone.dim then cone.count * triangleSize cone.dim else 0 := by
  unfold triangleRows
  split
  · refine length_blockRows fun block => ?_
    rw [List.length_map, length_trianglePairs]
  · rfl

theorem length_flatMap_eq_sum {β : Type} {cones : List Cone} {rows : Cone → List β}
    {sizes : Cone → List Nat} (same : ∀ cone, (rows cone).length = (sizes cone).sum) :
    (cones.flatMap rows).length = (cones.flatMap sizes).sum := by
  induction cones with
  | nil => rfl
  | cons first rest inductionHypothesis =>
    rw [List.flatMap_cons, List.length_append, same, inductionHypothesis, List.flatMap_cons,
      List.sum_append]

/-- The cones have as many rows as there are. -/
theorem total_rowDims (problem : ConicProblem α) :
    (rowDims problem).total = (allRows problem).length := by
  have pairs : (problem.cones.flatMap pairRows : List (Row α)).length =
      (rowDims problem).secondOrder.sum := by
    refine length_flatMap_eq_sum fun cone => ?_
    rw [length_pairRows]
    split
    · rw [List.sum_replicate, smul_eq_mul]
    · rfl
  have triangles : (problem.cones.flatMap triangleRows : List (Row α)).length =
      ((rowDims problem).triangles.map triangleSize).sum := by
    rw [rowDims, List.map_flatMap]
    refine length_flatMap_eq_sum fun cone => ?_
    rw [length_triangleRows]
    split
    · rw [List.map_replicate, List.sum_replicate, smul_eq_mul]
    · rfl
  rw [allRows, List.length_append, List.length_append, List.length_append, pairs, triangles]
  rfl

/-- Parts for the families of rows and for the blocks belong to the elementary cones in their
order. -/
theorem map_fst_pieces {β : Type} (problem : ConicProblem α) {zero nonneg : List β}
    {pair triangle : Cone → Nat → List β} (zeroLength : zero.length = (zeroRows problem).length)
    (nonnegLength : nonneg.length = (nonnegRows problem).length) :
    (ElementaryCone.family .zero zero ++ ElementaryCone.family .nonneg nonneg ++
        ElementaryCone.ofBlocks problem.cones (fun cone => cone.dim = 2) (fun _ => .secondOrder 3)
          pair ++
        ElementaryCone.ofBlocks problem.cones (fun cone => 2 < cone.dim)
          (fun cone => .triangle cone.dim) triangle).map Prod.fst =
      (rowDims problem).cones true := by
  simp only [List.map_append, ElementaryCone.family_fst, ElementaryCone.ofBlocks_fst, zeroLength,
    nonnegLength, ConeDims.cones, rowDims, if_true, List.map_flatMap]
  congr 1
  · congr 1
    refine List.flatMap_congr fun cone _ => ?_
    split
    · rw [List.map_replicate]
    · rfl
  · refine List.flatMap_congr fun cone _ => ?_
    split
    · rw [List.map_replicate]
    · rfl

/-- Parts with as many entries as their blocks have rows are as long as their elementary cones. -/
theorem length_of_mem_pieces {β : Type} {cones : List Cone} {zero nonneg : List β}
    {pair triangle : Cone → Nat → List β} (pairs : ∀ cone block, (pair cone block).length = 3)
    (triangles : ∀ cone block, (triangle cone block).length = triangleSize cone.dim) :
    ∀ piece ∈ ElementaryCone.family .zero zero ++ ElementaryCone.family .nonneg nonneg ++
        ElementaryCone.ofBlocks cones (fun cone => cone.dim = 2) (fun _ => .secondOrder 3) pair ++
        ElementaryCone.ofBlocks cones (fun cone => 2 < cone.dim) (fun cone => .triangle cone.dim)
          triangle, piece.2.length = piece.1.size := by
  have family (kind : Nat → ElementaryCone) (rows : List β)
      (counted : ∀ count, (kind count).size = count) :
      ∀ piece ∈ ElementaryCone.family kind rows, piece.2.length = piece.1.size := by
    rw [ElementaryCone.forall_mem_family (counted 0).symm]
    exact (counted _).symm
  simp only [List.forall_mem_append, ElementaryCone.forall_mem_ofBlocks]
  exact ⟨⟨⟨family .zero zero fun _ => rfl, family .nonneg nonneg fun _ => rfl⟩,
    fun cone _ block _ _ => pairs cone block⟩, fun cone _ block _ _ => triangles cone block⟩

end Scalars

end StandardForm

end BlockCone
