/-
This file says when lowering a problem steps outside of its matrix.

Lowering looks through the columns that the objective and the constraints name, and it counts the
columns of the cones, but it does not look at where the cones start. The rows of a cone name only
columns of the cone, and together they name all of them, so the checks are enough exactly when
every cone that has entries ends inside the problem. A flat problem that was put together by hand
or read from a file need not be like that: its cones may have the right number of columns and
still lie elsewhere, and the checks accept it.
-/

import BlockCone.Proofs.Lowered
import BlockCone.Proofs.Slices
import BlockCone.ScalarDouble

namespace BlockCone

/-! ### Columns of cones -/

namespace Cone

/-- A cone that has entries ends inside the columns. -/
def Fits (cone : Cone) (columns : Nat) : Prop :=
  0 < cone.count → 0 < cone.dim → cone.offset + cone.size ≤ columns

/-- A column holds an entry of one of the blocks. -/
def Holds (cone : Cone) (column : Nat) : Prop :=
  ∃ block < cone.count, ∃ row < cone.dim, ∃ col < cone.dim,
    cone.blockOffset block + row * cone.dim + col = column

variable {cone : Cone} {block row col columns : Nat}

/-- The columns of a cone are consecutive, so its entries lie before its end. -/
theorem blockOffset_add_lt (inside : block < cone.count) (rowBound : row < cone.dim)
    (colBound : col < cone.dim) :
    cone.blockOffset block + row * cone.dim + col < cone.offset + cone.size := by
  have place := Matrix.place_lt inside (Matrix.place_lt rowBound colBound)
  rw [blockOffset, size, Nat.mul_assoc, Nat.mul_assoc]
  omega

/-- A cone fits exactly if all of its entries are columns that are there. -/
theorem fits_iff : cone.Fits columns ↔ ∀ column, cone.Holds column → column < columns := by
  constructor
  · rintro fits _ ⟨block, inside, row, rowBound, col, colBound, rfl⟩
    have ends := fits (Nat.zero_lt_of_lt inside) (Nat.zero_lt_of_lt rowBound)
    exact (blockOffset_add_lt inside rowBound colBound).trans_le ends
  · intro every blocks rows
    obtain ⟨block, lastBlock⟩ := Nat.exists_eq_succ_of_ne_zero blocks.ne'
    obtain ⟨row, lastRow⟩ := Nat.exists_eq_succ_of_ne_zero rows.ne'
    -- the last entry of the last block is the last column of the cone
    have last := every _ ⟨block, by omega, row, by omega, row, by omega, rfl⟩
    have ends : cone.blockOffset block + row * cone.dim + row + 1 = cone.offset + cone.size := by
      rw [blockOffset, size, lastBlock, lastRow]
      simp only [Nat.succ_eq_add_one]
      ring
    omega

end Cone

namespace StandardForm

/-! ### Refusals of the checks -/

section Checks

variable {α : Type}

theorem checkCoeffs_ne_outOfBounds (columns : Nat) (coeffs : List (Nat × α)) :
    checkCoeffs columns coeffs ≠ .error .outOfBounds := by
  unfold checkCoeffs
  split <;> simp

/-- The check of the columns names a column or a number of columns when it refuses. -/
theorem checkColumns_ne_outOfBounds (problem : ConicProblem α) :
    checkColumns problem ≠ .error .outOfBounds := by
  intro failed
  unfold checkColumns at failed
  dsimp only at failed
  split at failed
  · exact absurd failed (by simp [throw, throwThe, MonadExceptOf.throw, bind, Except.bind])
  · rcases bind_eq_error_iff.mp failed with objective | ⟨_, _, constraints⟩
    · exact checkCoeffs_ne_outOfBounds _ _ objective
    · obtain ⟨constraint, _, refused⟩ := forM_eq_error constraints
      exact checkCoeffs_ne_outOfBounds _ _ refused

/-- The check of the blocks refuses the first cone that is too large, and names its dimension. -/
theorem checkBlocks_eq_error_iff {triangleCone : Bool} {problem : ConicProblem α} {reason : Error} :
    checkBlocks triangleCone problem = .error reason ↔
      triangleCone = false ∧ ∃ cone,
        problem.cones.find? (fun cone => decide (2 < cone.dim)) = some cone ∧
          reason = .invalidProblem (.largeBlock cone.dim) := by
  unfold checkBlocks
  cases triangleCone with
  | true => simp
  | false =>
    cases problem.cones.find? fun cone => decide (2 < cone.dim) with
    | none => simp
    | some cone => simp [eq_comm]

theorem checkBlocks_ne_outOfBounds (triangleCone : Bool) (problem : ConicProblem α) :
    checkBlocks triangleCone problem ≠ .error .outOfBounds := by
  rw [Ne, checkBlocks_eq_error_iff]
  rintro ⟨_, _, _, impossible⟩
  exact absurd impossible (by simp)

end Checks

variable {α : Type} [Scalar α]

/-! ### Columns of rows -/

section Rows

variable {cone : Cone} {row : Row α}

theorem holds_of_mem_symmetryRows (member : row ∈ symmetryRows cone) :
    ∀ entry ∈ row.coeffs, cone.Holds entry.1 := by
  unfold symmetryRows at member
  split at member
  · exact absurd member List.not_mem_nil
  · obtain ⟨block, blockMember, listed⟩ := List.mem_flatMap.mp member
    obtain ⟨⟨first, second⟩, pair, rfl⟩ := List.mem_map.mp listed
    have inside := List.mem_range.mp blockMember
    obtain ⟨above, bound⟩ := mem_upperPairs.mp pair
    simp only [List.forall_mem_cons, List.not_mem_nil, false_implies, implies_true, and_true]
    exact ⟨⟨block, inside, first, above.trans bound, second, bound, rfl⟩,
      ⟨block, inside, second, bound, first, above.trans bound, rfl⟩⟩

theorem holds_of_mem_entryRows (member : row ∈ entryRows cone) :
    ∀ entry ∈ row.coeffs, cone.Holds entry.1 := by
  unfold entryRows at member
  split at member
  · rename_i single
    obtain ⟨block, blockMember, rfl⟩ := List.mem_map.mp member
    simp only [List.forall_mem_singleton]
    refine ⟨block, List.mem_range.mp blockMember, 0, by omega, 0, by omega, ?_⟩
    rw [Nat.zero_mul, Nat.add_zero]
  · exact absurd member List.not_mem_nil

theorem holds_of_mem_pairRows (member : row ∈ pairRows cone) :
    ∀ entry ∈ row.coeffs, cone.Holds entry.1 := by
  unfold pairRows at member
  split at member
  · rename_i double
    obtain ⟨block, blockMember, listed⟩ := List.mem_flatMap.mp member
    have entryHeld : ∀ first < 2, ∀ second < 2,
        cone.Holds (cone.blockOffset block + (first * 2 + second)) := by
      intro first firstBound second secondBound
      refine ⟨block, List.mem_range.mp blockMember, first, by omega, second, by omega, ?_⟩
      rw [double, Nat.add_assoc]
    have corner := entryHeld 0 Nat.two_pos 0 Nat.two_pos
    have beside := entryHeld 0 Nat.two_pos 1 Nat.one_lt_two
    have opposite := entryHeld 1 Nat.one_lt_two 1 Nat.one_lt_two
    simp only [List.mem_cons, List.not_mem_nil, or_false] at listed
    rcases listed with rfl | rfl | rfl
    all_goals
      simp only [List.forall_mem_cons, List.not_mem_nil, false_implies, implies_true, and_true]
    · exact ⟨corner, opposite⟩
    · exact ⟨corner, opposite⟩
    · exact beside
  · exact absurd member List.not_mem_nil

theorem mem_trianglePairs {dim first second : Nat} (member : (first, second) ∈ trianglePairs dim) :
    first ≤ second ∧ second < dim := by
  simp only [trianglePairs, List.mem_flatMap, List.mem_range, List.mem_map, Prod.mk.injEq] at member
  obtain ⟨_, bound, _, notBelow, rfl, rfl⟩ := member
  exact ⟨Nat.lt_succ_iff.mp notBelow, bound⟩

theorem holds_of_mem_triangleRows (member : row ∈ triangleRows cone) :
    ∀ entry ∈ row.coeffs, cone.Holds entry.1 := by
  unfold triangleRows at member
  split at member
  · obtain ⟨block, blockMember, listed⟩ := List.mem_flatMap.mp member
    obtain ⟨⟨first, second⟩, pair, rfl⟩ := List.mem_map.mp listed
    obtain ⟨notBelow, bound⟩ := mem_trianglePairs pair
    simp only [List.forall_mem_singleton]
    exact ⟨block, List.mem_range.mp blockMember, first, notBelow.trans_lt bound, second, bound, rfl⟩
  · exact absurd member List.not_mem_nil

/-- The row of a constraint names the columns that the constraint names. -/
theorem constraint_row_within {constraint : LinearConstraint α} {columns : Nat}
    (made : equalityRow? constraint = some row ∨ inequalityRow? constraint = some row)
    (within : ∀ entry ∈ constraint.coeffs, entry.1 < columns) :
    ∀ entry ∈ row.coeffs, entry.1 < columns := by
  obtain ⟨coeffs, relation, bound⟩ := constraint
  cases relation with
  | equalTo =>
    simp only [equalityRow?, inequalityRow?, Option.some.injEq, reduceCtorEq, or_false] at made
    exact made ▸ within
  | lessThan =>
    simp only [equalityRow?, inequalityRow?, Option.some.injEq, reduceCtorEq, false_or] at made
    exact made ▸ within
  | greaterThan =>
    simp only [equalityRow?, inequalityRow?, Option.some.injEq, reduceCtorEq, false_or] at made
    rw [← made]
    simpa only [List.forall_mem_map] using within

/-- All rows name columns that are there exactly if the cones fit. -/
theorem allRows_within_iff {problem : ConicProblem α} (checked : checkColumns problem = .ok ()) :
    (∀ row ∈ allRows problem, ∀ entry ∈ row.coeffs, entry.1 < problem.columns) ↔
      ∀ cone ∈ problem.cones, cone.Fits problem.columns := by
  obtain ⟨_, objective, constraints⟩ := checkColumns_eq_ok_iff.mp checked
  constructor
  · intro rows cone known
    have within : Within problem := ⟨objective, constraints, rows⟩
    rw [Cone.fits_iff]
    rintro _ ⟨block, inside, row, rowBound, col, colBound, rfl⟩
    exact within.blockColumn_lt known inside rowBound colBound
  · intro fits row member
    rcases mem_allRows.mp member with ⟨constraint, listed, made⟩ | ⟨cone, known, made⟩
    · exact constraint_row_within made (constraints constraint listed)
    · have held : ∀ entry ∈ row.coeffs, cone.Holds entry.1 := by
        rcases made with symmetry | entry | pair | triangle
        · exact holds_of_mem_symmetryRows symmetry
        · exact holds_of_mem_entryRows entry
        · exact holds_of_mem_pairRows pair
        · exact holds_of_mem_triangleRows triangle
      intro entry listed
      exact Cone.fits_iff.mp (fits cone known) _ (held entry listed)

end Rows

/-! ### Leaving the matrix -/

/-- Lowering fails in one of its checks, or because a cone leaves the matrix. -/
theorem ofConic_eq_error_iff {triangleCone : Bool} {problem : ConicProblem α} {reason : Error} :
    ofConic triangleCone problem = .error reason ↔
      checkColumns problem = .error reason ∨
        checkColumns problem = .ok () ∧
          (checkBlocks triangleCone problem = .error reason ∨
            checkBlocks triangleCone problem = .ok () ∧ reason = .outOfBounds ∧
              ∃ cone ∈ problem.cones, ¬ cone.Fits problem.columns) := by
  have leaves (checked : checkColumns problem = .ok ()) :
      (¬ ∀ triplet ∈ rowsTriplets (allRows problem),
          triplet.row < (allRows problem).length ∧ triplet.col < problem.columns) ↔
        ∃ cone ∈ problem.cones, ¬ cone.Fits problem.columns := by
    rw [rowsTriplets_within_iff, allRows_within_iff checked]
    push Not
    rfl
  constructor
  · intro failed
    rcases bind_eq_error_iff.mp failed with columns | ⟨_, columns, rest⟩
    · exact Or.inl columns
    · refine Or.inr ⟨columns, ?_⟩
      rcases bind_eq_error_iff.mp rest with blocks | ⟨_, blocks, assembly⟩
      · exact Or.inl blocks
      · rcases bind_eq_error_iff.mp assembly with refused | ⟨_, _, impossible⟩
        · obtain ⟨rfl, outside⟩ := Sparse.ofTriplets_eq_error_iff.mp refused
          exact Or.inr ⟨blocks, rfl, (leaves columns).mp outside⟩
        · exact absurd impossible (by simp [pure, Except.pure])
  · rintro (columns | ⟨columns, rest⟩)
    · exact bind_eq_error_iff.mpr (Or.inl columns)
    · refine bind_eq_error_iff.mpr (Or.inr ⟨(), columns, ?_⟩)
      rcases rest with blocks | ⟨blocks, rfl, outside⟩
      · exact bind_eq_error_iff.mpr (Or.inl blocks)
      · refine bind_eq_error_iff.mpr (Or.inr ⟨(), blocks, bind_eq_error_iff.mpr (Or.inl ?_)⟩)
        exact Sparse.ofTriplets_eq_error_iff.mpr ⟨rfl, (leaves columns).mpr outside⟩

/-- Lowering steps outside of its matrix exactly if it accepts a problem with a cone that does not
end inside the columns. -/
theorem ofConic_eq_outOfBounds_iff (triangleCone : Bool) (problem : ConicProblem α) :
    ofConic triangleCone problem = .error .outOfBounds ↔
      checkColumns problem = .ok () ∧ checkBlocks triangleCone problem = .ok () ∧
        ∃ cone ∈ problem.cones, ¬ cone.Fits problem.columns := by
  simp only [ofConic_eq_error_iff, checkColumns_ne_outOfBounds, checkBlocks_ne_outOfBounds,
    false_or, true_and]

/-- The checks accept a cone of one column that starts beyond the only column there is. -/
theorem ofConic_strayCone :
    let problem : ConicProblem Float := ⟨1, [⟨1, 1, 5⟩], .feasibility, []⟩
    checkColumns problem = .ok () ∧ checkBlocks false problem = .ok () ∧
      ofConic false problem = .error .outOfBounds :=
  ⟨rfl, rfl, rfl⟩

end StandardForm

end BlockCone
