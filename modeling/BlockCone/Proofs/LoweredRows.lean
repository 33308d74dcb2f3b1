/-
This file says what the rows of a lowered problem ask for, family by family.

A row leaves the slack `bound - coefficients * point`. The rows of a constraint leave a slack with
the right sign exactly when the constraint holds. The symmetry rows of a cone leave nothing exactly
when all its blocks are symmetric, and the remaining rows of a block hand its entries to the cone
that its size calls for: one entry as it is, two rows as the three numbers of a second-order cone,
and more as a scaled triangle. `block_iff` puts the families together again: what they ask of one
block is that it is positive semidefinite.
-/

import BlockCone.Proofs.ElementaryCones
import BlockCone.Proofs.FlatValues

namespace BlockCone

variable {K : Type} [ExactScalar K]

/-- The slack that a row leaves at a vector. -/
def Row.slack (row : Row K) (level : Nat → K) : K :=
  row.bound - weighed row.coeffs level

/-- The entry of a block at a row and a column of the block. -/
def Cone.entryAt (cone : Cone) (block : Nat) (level : Nat → K) (row col : Nat) : K :=
  level (cone.blockOffset block + row * cone.dim + col)

namespace StandardForm

/-! ### Constraints -/

theorem weighed_negated (coeffs : List (Nat × K)) (level : Nat → K) :
    weighed (coeffs.map fun (col, value) => (col, -value)) level = -weighed coeffs level := by
  induction coeffs with
  | nil => rw [List.map_nil, weighed_nil, neg_zero]
  | cons entry rest inductionHypothesis =>
    rw [List.map_cons, weighed_cons, inductionHypothesis, weighed_cons, neg_mul, neg_add]

/-- A constraint has one row, whose slack has the right sign exactly when the constraint holds. -/
theorem constraint_iff (constraint : LinearConstraint K) (level : Nat → K) :
    (∀ row, equalityRow? constraint = some row → row.slack level = 0) ∧
        (∀ row, inequalityRow? constraint = some row → 0 ≤ row.slack level) ↔
      constraint.relation.Compares (weighed constraint.coeffs level) constraint.bound := by
  obtain ⟨coeffs, relation, bound⟩ := constraint
  cases relation with
  | equalTo =>
    simp only [equalityRow?, inequalityRow?, Row.slack, Relation.Compares, Option.some.injEq,
      forall_eq', reduceCtorEq, false_implies, implies_true, and_true]
    exact sub_eq_zero.trans eq_comm
  | lessThan =>
    simp only [equalityRow?, inequalityRow?, Row.slack, Relation.Compares, Option.some.injEq,
      forall_eq', reduceCtorEq, false_implies, implies_true, true_and]
    exact sub_nonneg
  | greaterThan =>
    simp only [equalityRow?, inequalityRow?, Row.slack, Relation.Compares, Option.some.injEq,
      forall_eq', reduceCtorEq, false_implies, implies_true, true_and, weighed_negated]
    rw [sub_neg_eq_add, neg_add_eq_sub, sub_nonneg]

theorem constraints_iff (constraints : List (LinearConstraint K)) (level : Nat → K) :
    (∀ row ∈ constraints.filterMap equalityRow?, row.slack level = 0) ∧
        (∀ row ∈ constraints.filterMap inequalityRow?, 0 ≤ row.slack level) ↔
      ∀ constraint ∈ constraints,
        constraint.relation.Compares (weighed constraint.coeffs level) constraint.bound := by
  simp only [List.mem_filterMap, ← constraint_iff]
  constructor
  · rintro ⟨equal, atLeast⟩ constraint member
    exact ⟨fun row made => equal row ⟨constraint, member, made⟩,
      fun row made => atLeast row ⟨constraint, member, made⟩⟩
  · intro holds
    refine ⟨?_, ?_⟩
    · rintro row ⟨constraint, member, made⟩
      exact (holds constraint member).1 row made
    · rintro row ⟨constraint, member, made⟩
      exact (holds constraint member).2 row made

/-! ### Blocks -/

theorem mem_upperPairs {dim row col : Nat} :
    (row, col) ∈ upperPairs dim ↔ row < col ∧ col < dim := by
  simp only [upperPairs, List.mem_flatMap, List.mem_range, List.mem_map, List.mem_filter,
    decide_eq_true_eq, Prod.mk.injEq]
  constructor
  · rintro ⟨first, _, second, ⟨inside, above⟩, rfl, rfl⟩
    exact ⟨above, inside⟩
  · rintro ⟨above, inside⟩
    exact ⟨row, above.trans inside, col, ⟨inside, above⟩, rfl, rfl⟩

/-- The symmetry rows of a cone leave nothing exactly when its blocks are symmetric. -/
theorem symmetryRows_iff (cone : Cone) (level : Nat → K) :
    (∀ row ∈ symmetryRows cone, row.slack level = 0) ↔
      ∀ block < cone.count, ∀ row < cone.dim, ∀ col < cone.dim,
        cone.entryAt block level row col = cone.entryAt block level col row := by
  have slack : ∀ left right : Nat,
      Row.slack ⟨[(left, 1), (right, -1)], 0⟩ level = 0 ↔ level left = level right := by
    intro left right
    rw [Row.slack, weighed_cons, weighed_cons, weighed_nil, one_mul, neg_one_mul, add_zero,
      zero_sub, neg_eq_zero, ← sub_eq_add_neg, sub_eq_zero]
  unfold symmetryRows
  by_cases small : cone.dim < 2
  · rw [if_pos small]
    refine iff_of_true (fun row member => absurd member List.not_mem_nil) ?_
    intro block _ row rowBound col colBound
    rw [show row = col by omega]
  · rw [if_neg small]
    simp only [List.forall_mem_flatMap, List.mem_range, List.forall_mem_map]
    refine forall₂_congr fun block _ => ?_
    constructor
    · intro every row rowBound col colBound
      rcases Nat.lt_trichotomy row col with above | rfl | below
      · exact (slack _ _).mp (every (row, col) (mem_upperPairs.mpr ⟨above, colBound⟩))
      · rfl
      · exact ((slack _ _).mp (every (col, row) (mem_upperPairs.mpr ⟨below, rowBound⟩))).symm
    · rintro symmetric ⟨row, col⟩ member
      obtain ⟨above, inside⟩ := mem_upperPairs.mp member
      exact (slack _ _).mpr (symmetric row (above.trans inside) col inside)

/-- The rows of blocks of one entry ask that the entries are not negative. -/
theorem entryRows_iff (cone : Cone) (level : Nat → K) :
    (∀ row ∈ entryRows cone, 0 ≤ row.slack level) ↔
      ∀ block < cone.count, cone.dim = 1 → 0 ≤ cone.entryAt block level 0 0 := by
  have slack : ∀ col : Nat, Row.slack ⟨[(col, -1)], 0⟩ level = level col := by
    intro col
    rw [Row.slack, weighed_cons, weighed_nil, neg_one_mul, add_zero, zero_sub, neg_neg]
  unfold entryRows
  by_cases single : cone.dim = 1
  · rw [if_pos single]
    simp only [List.forall_mem_map, List.mem_range, slack, single, forall_const, Cone.entryAt,
      Nat.zero_mul, Nat.add_zero]
  · rw [if_neg single]
    refine iff_of_true (fun row member => absurd member List.not_mem_nil) ?_
    exact fun block _ isSingle => absurd isSingle single

/-- The three numbers that a block of two rows hands to its second-order cone. -/
def pairPart (entry : Nat → Nat → K) : List K :=
  [entry 0 0 + entry 1 1, entry 0 0 - entry 1 1, (1 + 1) * entry 0 1]

theorem slack_pairRows (cone : Cone) (level : Nat → K) :
    (pairRows cone).map (fun row => row.slack level) =
      if cone.dim = 2 then
        (List.range cone.count).flatMap fun block => pairPart (cone.entryAt block level)
      else [] := by
  unfold pairRows
  split
  · rename_i double
    rw [List.map_flatMap]
    refine List.flatMap_congr fun block _ => ?_
    simp only [List.map_cons, List.map_nil, Row.slack, weighed_cons, weighed_nil, pairPart,
      Cone.entryAt, double]
    refine congr (congrArg List.cons ?_) (congr (congrArg List.cons ?_) (congrArg (· :: []) ?_)) <;>
      ring_nf
  · rfl

theorem slack_triangleRows (cone : Cone) (level : Nat → K) :
    (triangleRows cone).map (fun row => row.slack level) =
      if 2 < cone.dim then
        (List.range cone.count).flatMap fun block =>
          trianglePart cone.dim (cone.entryAt block level)
      else [] := by
  unfold triangleRows
  split
  · rw [List.map_flatMap]
    refine List.flatMap_congr fun block _ => ?_
    rw [trianglePart, List.map_map]
    refine List.map_congr_left fun pair _ => ?_
    obtain ⟨row, col⟩ := pair
    have scale : (if row = col then -1 else -Scalar.rootTwo : K) = -triangleScale row col := by
      unfold triangleScale
      split <;> rfl
    show Row.slack ⟨[(_, if row = col then -1 else -Scalar.rootTwo)], 0⟩ level = _
    rw [Row.slack, scale, weighed_cons, weighed_nil, neg_mul, add_zero, zero_sub, neg_neg]
    rfl
  · rfl

theorem contains_pairPart_iff (entry : Nat → Nat → K) :
    (ElementaryCone.secondOrder 3).Contains (pairPart entry) ↔
      0 ≤ entry 0 0 + entry 1 1 ∧
        (entry 0 0 - entry 1 1) * (entry 0 0 - entry 1 1) + 2 * entry 0 1 * (2 * entry 0 1) ≤
          (entry 0 0 + entry 1 1) * (entry 0 0 + entry 1 1) := by
  simp only [ElementaryCone.Contains, pairPart, List.cons.injEq, and_true, one_add_one_eq_two]
  constructor
  · rintro ⟨_, _, _, ⟨rfl, rfl, rfl⟩, cone⟩
    exact cone
  · intro cone
    exact ⟨_, _, _, ⟨rfl, rfl, rfl⟩, cone⟩

/-- What the families of rows ask of one block is that it is positive semidefinite. -/
theorem block_iff (dim : Nat) (entry : Nat → Nat → K) :
    (∀ row < dim, ∀ col < dim, entry row col = entry col row) ∧
        (dim = 1 → 0 ≤ entry 0 0) ∧
        (dim = 2 → (ElementaryCone.secondOrder 3).Contains (pairPart entry)) ∧
        (2 < dim → (ElementaryCone.triangle dim).Contains (trianglePart dim entry)) ↔
      IsSemidefinite dim entry := by
  rcases Nat.lt_or_ge 2 dim with large | small
  · constructor
    · rintro ⟨symmetric, _, _, triangle⟩
      exact (isSemidefinite_mirrored_iff symmetric).mp (triangle large)
    · intro holds
      refine ⟨holds.symmetric, fun single => ?_, fun double => ?_, fun _ => ?_⟩
      · omega
      · omega
      · exact (isSemidefinite_mirrored_iff holds.symmetric).mpr holds
  · rw [contains_pairPart_iff]
    interval_cases dim
    · exact iff_of_true ⟨(isSemidefinite_zero entry).symmetric, by simp, by simp, by simp⟩
        (isSemidefinite_zero entry)
    · rw [isSemidefinite_one_iff]
      constructor
      · rintro ⟨_, single, _, _⟩
        exact single rfl
      · intro nonneg
        have holds := (isSemidefinite_one_iff entry).mpr nonneg
        exact ⟨holds.symmetric, fun _ => nonneg, by simp, by simp⟩
    · rw [isSemidefinite_two_iff]
      constructor
      · rintro ⟨symmetric, _, double, _⟩
        exact ⟨symmetric 0 Nat.two_pos 1 Nat.one_lt_two, double rfl⟩
      · intro cone
        have holds := (isSemidefinite_two_iff entry).mpr cone
        exact ⟨holds.symmetric, by simp, fun _ => cone.2, by simp⟩

end StandardForm

end BlockCone
