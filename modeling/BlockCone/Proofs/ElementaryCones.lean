/-
This file says which points satisfy a standard form.

The rows of a standard form leave a slack, the bounds less the product of the matrix with the
point, and the slack is cut into parts, one for each elementary cone. A part of a second-order cone
has three numbers here, and a part of a triangle stands for a symmetric matrix: its upper triangle,
column by column, with the entries off the diagonal scaled. `mirrored` undoes the scaling and fills
in the lower half, so a triangle asks that this matrix is positive semidefinite.

Two facts prepare the lowering. A list that is put together from parts of the right lengths is cut
into these parts again, and the place of an entry in a triangle is found by counting the columns
before it.
-/

import BlockCone.Proofs.Assembly
import BlockCone.Proofs.Coefficients
import BlockCone.Proofs.Semidefinite
import BlockCone.StandardForm

namespace BlockCone

/-! ### Cutting -/

namespace ElementaryCone

/-- What is put together from full parts is cut into these parts. -/
theorem cut_pieces {β : Type} (pieces : List (ElementaryCone × List β))
    (full : ∀ piece ∈ pieces, piece.2.length = piece.1.size) :
    cut (pieces.map Prod.fst) (pieces.flatMap Prod.snd) = pieces := by
  induction pieces with
  | nil => rfl
  | cons first rest inductionHypothesis =>
    obtain ⟨cone, part⟩ := first
    have length : part.length = cone.size := full (cone, part) List.mem_cons_self
    have deeper := inductionHypothesis fun piece member =>
      full piece (List.mem_cons_of_mem _ member)
    rw [List.map_cons, List.flatMap_cons, cut, ← length, List.take_left, List.drop_left, deeper]

/-- The part of a family of rows, unless the family is empty. -/
def family {β : Type} (kind : Nat → ElementaryCone) (part : List β) :
    List (ElementaryCone × List β) :=
  if 0 < part.length then [(kind part.length, part)] else []

/-- A part for each block of the cones of some sizes. -/
def ofBlocks {β : Type} (cones : List Cone) (chosen : Cone → Prop) [DecidablePred chosen]
    (kind : Cone → ElementaryCone) (part : Cone → Nat → List β) :
    List (ElementaryCone × List β) :=
  cones.flatMap fun cone =>
    if chosen cone then (List.range cone.count).map fun block => (kind cone, part cone block)
    else []

section Pieces

variable {β : Type} {kind : Nat → ElementaryCone} {rows : List β}

theorem family_fst :
    (family kind rows).map Prod.fst = if 0 < rows.length then [kind rows.length] else [] := by
  unfold family
  split <;> rfl

theorem family_snd : (family kind rows).flatMap Prod.snd = rows := by
  unfold family
  split
  · rw [List.flatMap_singleton]
  · rename_i none
    rw [List.length_eq_zero_iff.mp (Nat.eq_zero_of_not_pos none)]
    rfl

theorem mem_family {piece : ElementaryCone × List β} (member : piece ∈ family kind rows) :
    piece = (kind rows.length, rows) := by
  unfold family at member
  split at member
  · exact List.mem_singleton.mp member
  · exact absurd member List.not_mem_nil

/-- What holds of an empty part holds of the parts of a family exactly when it holds of all its
rows together. -/
theorem forall_mem_family {holds : ElementaryCone × List β → Prop} (empty : holds (kind 0, [])) :
    (∀ piece ∈ family kind rows, holds piece) ↔ holds (kind rows.length, rows) := by
  constructor
  · intro every
    cases rows with
    | nil => exact empty
    | cons first rest => exact every _ (List.mem_singleton.mpr rfl)
  · intro all piece member
    rw [mem_family member]
    exact all

variable {cones : List Cone} {chosen : Cone → Prop} [DecidablePred chosen]
  {cone : Cone → ElementaryCone} {part : Cone → Nat → List β}

theorem ofBlocks_fst :
    (ofBlocks cones chosen cone part).map Prod.fst =
      cones.flatMap fun stack =>
        if chosen stack then List.replicate stack.count (cone stack) else [] := by
  rw [ofBlocks, List.map_flatMap]
  refine List.flatMap_congr fun stack _ => ?_
  split
  · rw [List.map_map]
    show (List.range stack.count).map (fun _ => cone stack) = _
    rw [List.map_const', List.length_range]
  · rfl

theorem ofBlocks_snd :
    (ofBlocks cones chosen cone part).flatMap Prod.snd =
      cones.flatMap fun stack =>
        if chosen stack then (List.range stack.count).flatMap (part stack) else [] := by
  rw [ofBlocks, List.flatMap_assoc]
  refine List.flatMap_congr fun stack _ => ?_
  split
  · rw [List.flatMap_map]
  · rfl

theorem mem_ofBlocks {piece : ElementaryCone × List β} :
    piece ∈ ofBlocks cones chosen cone part ↔
      ∃ stack ∈ cones, ∃ block < stack.count, chosen stack ∧
        piece = (cone stack, part stack block) := by
  simp only [ofBlocks, List.mem_flatMap]
  refine exists_congr fun stack => and_congr_right fun _ => ?_
  split
  · rename_i suits
    simp only [List.mem_map, List.mem_range, suits, true_and]
    exact exists_congr fun block => and_congr_right fun _ => eq_comm
  · rename_i unfit
    simp only [List.not_mem_nil, unfit, false_and, and_false, exists_false]

theorem forall_mem_ofBlocks {holds : ElementaryCone × List β → Prop} :
    (∀ piece ∈ ofBlocks cones chosen cone part, holds piece) ↔
      ∀ stack ∈ cones, ∀ block < stack.count, chosen stack →
        holds (cone stack, part stack block) := by
  simp only [mem_ofBlocks]
  constructor
  · intro every stack member block inside suits
    exact every _ ⟨stack, member, block, inside, suits, rfl⟩
  · rintro every piece ⟨stack, member, block, inside, suits, rfl⟩
    exact every stack member block inside suits

end Pieces

end ElementaryCone

/-! ### Triangles -/

theorem triangleSize_succ (dim : Nat) : triangleSize (dim + 1) = triangleSize dim + (dim + 1) := by
  unfold triangleSize
  have product : (dim + 1) * (dim + 1 + 1) = dim * (dim + 1) + (dim + 1) * 2 := by ring
  rw [product, Nat.add_mul_div_right _ _ Nat.two_pos]

namespace StandardForm

theorem trianglePairs_succ (dim : Nat) :
    trianglePairs (dim + 1) =
      trianglePairs dim ++ (List.range (dim + 1)).map fun row => (row, dim) := by
  unfold trianglePairs
  conv_lhs => rw [List.range_succ, List.flatMap_append, List.flatMap_singleton]

theorem length_trianglePairs (dim : Nat) : (trianglePairs dim).length = triangleSize dim := by
  induction dim with
  | zero => rfl
  | succ dim inductionHypothesis =>
    rw [trianglePairs_succ, List.length_append, inductionHypothesis, List.length_map,
      List.length_range, triangleSize_succ]

/-- An entry comes behind the columns before its own and the entries above it. -/
theorem getElem?_trianglePairs {dim row col : Nat} (above : row ≤ col) (inside : col < dim) :
    (trianglePairs dim)[triangleSize col + row]? = some (row, col) := by
  induction dim with
  | zero => exact absurd inside (Nat.not_lt_zero col)
  | succ dim inductionHypothesis =>
    rw [trianglePairs_succ]
    rcases Nat.lt_succ_iff_lt_or_eq.mp inside with earlier | rfl
    · have found := inductionHypothesis earlier
      rw [List.getElem?_append_left (List.getElem?_eq_some_iff.mp found).1, found]
    · have behind : triangleSize col + row - (trianglePairs col).length = row := by
        rw [length_trianglePairs, Nat.add_sub_cancel_left]
      rw [List.getElem?_append_right (by rw [length_trianglePairs]; exact Nat.le_add_right _ _),
        behind, List.getElem?_map, List.getElem?_range (Nat.lt_succ_of_le above), Option.map_some]

end StandardForm

/-! ### Points of a standard form -/

variable {K : Type} [ExactScalar K]

/-- The scale of an entry of a triangle. -/
def triangleScale (row col : Nat) : K :=
  if row = col then 1 else Scalar.rootTwo

theorem triangleScale_ne_zero (row col : Nat) : (triangleScale row col : K) ≠ 0 := by
  unfold triangleScale
  split
  · exact one_ne_zero
  · exact Scalar.rootTwo_ne_zero

/-- The symmetric matrix that a triangle stands for. -/
def mirrored (part : List K) (row col : Nat) : K :=
  (part[triangleSize (max row col) + min row col]?).getD 0 / triangleScale row col

/-- A part of the slack lies in its elementary cone. -/
def ElementaryCone.Contains : ElementaryCone → List K → Prop
  | .zero _, part => ∀ value ∈ part, value = 0
  | .nonneg _, part => ∀ value ∈ part, 0 ≤ value
  | .secondOrder _, part => ∃ first second third, part = [first, second, third] ∧ 0 ≤ first ∧
      second * second + third * third ≤ first * first
  | .triangle dim, part => IsSemidefinite dim (mirrored part)

/-- The product of one row of a sparse matrix with a vector. -/
def Sparse.rowTimes (matrix : Sparse K) (level : Nat → K) (row : Nat) : K :=
  ∑ col ∈ Finset.range matrix.cols, (matrix.lookup row col).getD 0 * level col

namespace StandardForm

/-- What the rows leave of the bounds at a point. -/
def slack (form : StandardForm K) (point : Array K) : List K :=
  form.bounds.zipIdx.map fun (bound, row) => bound - form.matrix.rowTimes (entryOf point) row

/-- Every part of the slack is full and lies in its cone. -/
def IsFeasible (form : StandardForm K) (point : Array K) : Prop :=
  ∀ piece ∈ ElementaryCone.cut (form.dims.cones true) (form.slack point),
    piece.2.length = piece.1.size ∧ piece.1.Contains piece.2

/-- The cost of a point. -/
def costAt (form : StandardForm K) (point : Array K) : K :=
  ∑ col ∈ Finset.range point.size, (form.cost[col]?).getD 0 * entryOf point col

/-- The upper triangle of a matrix, column by column and scaled. -/
def trianglePart (dim : Nat) (entry : Nat → Nat → K) : List K :=
  (trianglePairs dim).map fun (row, col) => triangleScale row col * entry row col

/-- A triangle stands for the upper half of its matrix, mirrored. -/
theorem mirrored_trianglePart {dim row col : Nat} (entry : Nat → Nat → K) (rowBound : row < dim)
    (colBound : col < dim) :
    mirrored (trianglePart dim entry) row col = entry (min row col) (max row col) := by
  have found := getElem?_trianglePairs (min_le_max (a := row) (b := col)) (max_lt rowBound colBound)
  have scale : (triangleScale (min row col) (max row col) : K) = triangleScale row col := by
    unfold triangleScale
    rcases Nat.le_total row col with below | above
    · rw [min_eq_left below, max_eq_right below]
    · rw [min_eq_right above, max_eq_left above]
      exact if_congr eq_comm rfl rfl
  rw [mirrored, trianglePart, List.getElem?_map, found, Option.map_some, Option.getD_some]
  show triangleScale (min row col) (max row col) * _ / triangleScale row col = _
  rw [scale, mul_div_cancel_left₀ _ (triangleScale_ne_zero row col)]

/-- A symmetric matrix is positive semidefinite exactly when its triangle says so. -/
theorem isSemidefinite_mirrored_iff {dim : Nat} {entry : Nat → Nat → K}
    (symmetric : ∀ row < dim, ∀ col < dim, entry row col = entry col row) :
    IsSemidefinite dim (mirrored (trianglePart dim entry)) ↔ IsSemidefinite dim entry := by
  refine isSemidefinite_congr fun row rowBound col colBound => ?_
  rw [mirrored_trianglePart entry rowBound colBound]
  rcases Nat.le_total row col with below | above
  · rw [min_eq_left below, max_eq_right below]
  · rw [min_eq_right above, max_eq_left above, symmetric col colBound row rowBound]

end StandardForm

end BlockCone
