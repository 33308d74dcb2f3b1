/-
This file says which slices a program can hold, and where their entries lie.

A slice is never put together by hand: it is cut from a variable, as a whole, as a box, as a block
or as one entry, and may then be presented under other shapes. `CutFrom` is that history, and
`Selects` is the same history with the two corners of the box that was cut. All of it comes down to
one fact, `IsBox`: the view selects a box that fits into the variable, and its shape has as many
entries as the box. So every offset it lists is an offset of the variable, and the entries of a
block are consecutive.
-/

import BlockCone.Proofs.Fallible
import BlockCone.Proofs.Listing
import BlockCone.Variable

namespace BlockCone

open Shape

/-! ### Views of boxes -/

/-- Presenting a view under a shape with as many entries replaces its shape. -/
theorem View.reshape_eq_ok_iff {view reshaped : View} {shape : Shape} :
    view.reshape shape = .ok reshaped ↔
      shape.size = view.size ∧ { view with shape } = reshaped := by
  rw [View.reshape, ← beq_iff_eq]
  split <;> simp_all

/-- A view selects the box at a corner of an array, under a shape with as many entries. -/
structure View.IsBox (view : View) (corner dims : List Nat) : Prop where
  offset_eq : view.offset = strided corner (stridesOf dims)
  strides_eq : view.strides = stridesOf dims
  fits : BoxFits corner view.extents dims
  presented : view.shape.size = view.size

namespace View.IsBox

variable {view : View} {corner dims : List Nat}

/-- A box meets only entries of its array. -/
theorem indexAt_lt (box : view.IsBox corner dims) {place : Nat} (bound : place < view.size) :
    view.indexAt place < volume dims := by
  rw [View.indexAt, box.offset_eq, box.strides_eq]
  exact strided_add_lt box.fits (coordinates_lt bound)

theorem index_lt (box : view.IsBox corner dims) {index : Nat} (listed : index ∈ view.flatIndices) :
    index < volume dims := by
  rw [View.flatIndices_eq, List.mem_map] at listed
  obtain ⟨place, member, rfl⟩ := listed
  exact box.indexAt_lt (List.mem_range.mp member)

/-- Presenting a box under another shape leaves the box. -/
theorem reshape {shape : Shape} {reshaped : View} (box : view.IsBox corner dims)
    (accepted : view.reshape shape = .ok reshaped) : reshaped.IsBox corner dims := by
  obtain ⟨same, rfl⟩ := View.reshape_eq_ok_iff.mp accepted
  exact ⟨box.offset_eq, box.strides_eq, box.fits, same⟩

end View.IsBox

theorem boxFits_whole (dims : List Nat) : BoxFits (dims.map fun _ => 0) dims dims := by
  induction dims with
  | nil => exact .nil
  | cons dim dims inductionHypothesis => exact .cons (Nat.zero_add dim).le inductionHypothesis

theorem strided_zeros (dims strides : List Nat) : strided (dims.map fun _ => 0) strides = 0 := by
  induction dims generalizing strides with
  | nil => rfl
  | cons dim dims inductionHypothesis =>
    cases strides with
    | nil => rfl
    | cons stride strides =>
      show 0 * stride + strided (dims.map fun _ => 0) strides = 0
      rw [inductionHypothesis, Nat.zero_mul]

/-- The whole of an array is a box. -/
theorem View.full_isBox (shape : Shape) :
    (View.full shape).IsBox (shape.dims.map fun _ => 0) shape.dims :=
  ⟨(strided_zeros shape.dims _).symm, rfl, boxFits_whole shape.dims, rfl⟩

/-- The box between two corners of an array fits into it. -/
theorem boxFits_of_le {start stop dims : List Nat} (ordered : List.Forall₂ (· ≤ ·) start stop)
    (inside : List.Forall₂ (· ≤ ·) stop dims) :
    BoxFits start (List.zipWith (fun first last => last - first) start stop) dims := by
  induction ordered generalizing dims with
  | nil =>
    cases inside
    exact .nil
  | cons notBehind _ inductionHypothesis =>
    cases inside with
    | cons reach inside =>
      refine .cons ?_ (inductionHypothesis inside)
      rwa [Nat.add_sub_cancel' notBehind]

/-- The bounds that selecting checks. -/
theorem select_checked_iff {start stop dims : List Nat} (startLength : start.length = dims.length)
    (stopLength : stop.length = dims.length) :
    ((start.zip stop).zip dims).all
        (fun ((first, last), dim) => decide (last ≤ dim) && decide (first < last)) = true ↔
      List.Forall₂ (· < ·) start stop ∧ List.Forall₂ (· ≤ ·) stop dims := by
  induction dims generalizing start stop with
  | nil =>
    obtain rfl := List.eq_nil_of_length_eq_zero startLength
    obtain rfl := List.eq_nil_of_length_eq_zero stopLength
    simp
  | cons dim dims inductionHypothesis =>
    obtain ⟨first, start, rfl⟩ := List.exists_of_length_succ start startLength
    obtain ⟨last, stop, rfl⟩ := List.exists_of_length_succ stop stopLength
    have rest := inductionHypothesis (Nat.succ.inj startLength) (Nat.succ.inj stopLength)
    simp only [List.zip_cons_cons, List.all_cons, Bool.and_eq_true, decide_eq_true_eq, rest,
      List.forall₂_cons]
    tauto

/-- Selecting succeeds with the box between two corners, and only if it is not empty and fits. -/
theorem Shape.select_eq_ok {shape : Shape} {start stop : List Nat} {view : View}
    (selected : shape.select start stop = .ok view) :
    view.IsBox start shape.dims ∧
      view.extents = List.zipWith (fun first last => last - first) start stop ∧
      List.Forall₂ (· < ·) start stop ∧ List.Forall₂ (· ≤ ·) stop shape.dims := by
  unfold Shape.select at selected
  split at selected
  · exact absurd selected (by simp)
  · rename_i arity
    split at selected
    · rename_i checked
      obtain rfl := Except.ok.inj selected
      simp only [rank, Bool.or_eq_true, bne_iff_ne, not_or, not_not] at arity
      obtain ⟨nonempty, inside⟩ := (select_checked_iff arity.1 arity.2).mp checked
      have fits := boxFits_of_le (nonempty.imp fun _ _ => Nat.le_of_lt) inside
      exact ⟨⟨rfl, rfl, fits, rfl⟩, rfl, nonempty, inside⟩
    · exact absurd selected (by simp)

/-! ### Slices of variables -/

/-- The coordinates of a position. -/
def Position.coords : Position → List Nat
  | (block, row, col) => [block, row, col]

namespace Slice

/-- The slices that can be had of a variable. -/
inductive CutFrom (source : Variable) : Slice → Prop where
  | all : CutFrom source source.all
  | slice {start stop : List Nat} {cut : Slice} :
      source.slice start stop = .ok cut → CutFrom source cut
  | block {number : Nat} {cut : Slice} : source.block number = .ok cut → CutFrom source cut
  | element {position : Position} {cut : Slice} :
      source.element position = .ok cut → CutFrom source cut
  | reshape {cut reshaped : Slice} {shape : Shape} :
      CutFrom source cut → cut.reshape shape = .ok reshaped → CutFrom source reshaped

/-- A slice selects a box of its variable. -/
def IsBoxOf (slice : Slice) (source : Variable) : Prop :=
  slice.source = source ∧ ∃ corner, slice.view.IsBox corner source.shape.dims

/-- A slice selects the box of its variable from one corner up to another. -/
structure IsBoxBetween (slice : Slice) (source : Variable) (start stop : List Nat) : Prop where
  source_eq : slice.source = source
  isBox : slice.view.IsBox start source.shape.dims
  extents_eq : slice.view.extents = List.zipWith (fun first last => last - first) start stop

theorem IsBoxBetween.reshape {slice reshaped : Slice} {source : Variable} {start stop : List Nat}
    {shape : Shape} (between : slice.IsBoxBetween source start stop)
    (accepted : slice.reshape shape = .ok reshaped) : reshaped.IsBoxBetween source start stop := by
  obtain ⟨view, presented, rest⟩ := bind_eq_ok_iff.mp accepted
  obtain rfl := Except.ok.inj rest
  refine ⟨between.source_eq, between.isBox.reshape presented, ?_⟩
  obtain ⟨_, rfl⟩ := View.reshape_eq_ok_iff.mp presented
  exact between.extents_eq

theorem isBoxBetween_slice {source : Variable} {start stop : List Nat} {cut : Slice}
    (accepted : source.slice start stop = .ok cut) : cut.IsBoxBetween source start stop := by
  obtain ⟨view, selected, rest⟩ := bind_eq_ok_iff.mp accepted
  obtain rfl := Except.ok.inj rest
  obtain ⟨isBox, extents, _⟩ := Shape.select_eq_ok selected
  exact ⟨rfl, isBox, extents⟩

/-- The box of a slice that was cut from a variable: from one position up to another. Presenting
the slice under another shape does not change it. -/
inductive Selects (source : Variable) : Slice → Position → Position → Prop where
  | all : Selects source source.all (0, 0, 0) (source.blocks, source.dim, source.dim)
  | slice {start stop : Position} {cut : Slice} :
      source.slice start.coords stop.coords = .ok cut → Selects source cut start stop
  | block {number : Nat} {cut : Slice} :
      source.block number = .ok cut →
        Selects source cut (number, 0, 0) (number + 1, source.dim, source.dim)
  | element {block row col : Nat} {cut : Slice} :
      source.element (block, row, col) = .ok cut →
        Selects source cut (block, row, col) (block + 1, row + 1, col + 1)
  | reshape {cut reshaped : Slice} {start stop : Position} {shape : Shape} :
      Selects source cut start stop → cut.reshape shape = .ok reshaped →
        Selects source reshaped start stop

/-- Every slice that can be had of a variable selects a box. -/
theorem CutFrom.exists_selects {source : Variable} {cut : Slice} (history : CutFrom source cut) :
    ∃ start stop, Selects source cut start stop := by
  induction history with
  | all => exact ⟨_, _, .all⟩
  | @slice start stop cut accepted =>
    obtain ⟨view, selected, _⟩ := bind_eq_ok_iff.mp accepted
    obtain ⟨_, _, nonempty, inside⟩ := Shape.select_eq_ok selected
    have stopArity : stop.length = 3 := inside.length_eq
    have startArity : start.length = 3 := nonempty.length_eq.trans stopArity
    match start, stop, startArity, stopArity with
    | [firstBlock, firstRow, firstCol], [lastBlock, lastRow, lastCol], _, _ =>
      exact ⟨(firstBlock, firstRow, firstCol), (lastBlock, lastRow, lastCol), .slice accepted⟩
  | block accepted => exact ⟨_, _, .block accepted⟩
  | @element position cut accepted =>
    obtain ⟨block, row, col⟩ := position
    exact ⟨_, _, .element accepted⟩
  | reshape _ accepted selected =>
    obtain ⟨start, stop, selects⟩ := selected
    exact ⟨start, stop, .reshape selects accepted⟩

theorem Selects.isBoxBetween {source : Variable} {cut : Slice} {start stop : Position}
    (selects : Selects source cut start stop) :
    cut.IsBoxBetween source start.coords stop.coords := by
  induction selects with
  | all => exact ⟨rfl, View.full_isBox source.shape, rfl⟩
  | slice accepted => exact isBoxBetween_slice accepted
  | @block number cut accepted =>
    unfold Variable.block at accepted
    split at accepted
    · obtain ⟨box, cutBox, presented⟩ := bind_eq_ok_iff.mp accepted
      exact (isBoxBetween_slice cutBox).reshape presented
    · exact absurd accepted (by simp)
  | element accepted =>
    unfold Variable.element at accepted
    obtain ⟨_, _, rest⟩ := bind_eq_ok_iff.mp accepted
    obtain ⟨box, cutBox, presented⟩ := bind_eq_ok_iff.mp rest
    exact (isBoxBetween_slice cutBox).reshape presented
  | reshape _ accepted between => exact between.reshape accepted

/-- Every slice that can be had of a variable selects a box of it. -/
theorem CutFrom.isBoxOf {source : Variable} {cut : Slice} (history : CutFrom source cut) :
    cut.IsBoxOf source := by
  obtain ⟨start, stop, selects⟩ := history.exists_selects
  exact ⟨selects.isBoxBetween.source_eq, _, selects.isBoxBetween.isBox⟩

/-- A slice lists offsets of entries of its variable. -/
theorem CutFrom.index_lt {source : Variable} {cut : Slice} (history : CutFrom source cut)
    {index : Nat} (listed : index ∈ cut.view.flatIndices) : index < source.size := by
  obtain ⟨_, corner, box⟩ := history.isBoxOf
  exact box.index_lt listed

/-- The shape of a slice has as many entries as the slice lists. -/
theorem CutFrom.shape_size {source : Variable} {cut : Slice} (history : CutFrom source cut) :
    cut.shape.size = cut.view.flatIndices.length := by
  obtain ⟨_, corner, box⟩ := history.isBoxOf
  rw [View.length_flatIndices]
  exact box.presented

end Slice

/-! ### Blocks -/

/-- Places of a matrix are counted row after row. -/
theorem Matrix.place_lt {rows cols row col : Nat} (rowBound : row < rows) (colBound : col < cols) :
    row * cols + col < rows * cols := by
  have room : (row + 1) * cols ≤ rows * cols := Nat.mul_le_mul_right _ rowBound
  rw [Nat.add_mul, Nat.one_mul] at room
  omega

/-- Dividing a place gives back the row and the column that it was counted from. -/
theorem Matrix.div_mod_place (row : Nat) {cols col : Nat} (inside : col < cols) :
    (row * cols + col) / cols = row ∧ (row * cols + col) % cols = col := by
  have positive := Nat.zero_lt_of_lt inside
  rw [Nat.add_comm]
  exact ⟨by rw [Nat.add_mul_div_right _ _ positive, Nat.div_eq_of_lt inside, Nat.zero_add],
    by rw [Nat.add_mul_mod_self_right, Nat.mod_eq_of_lt inside]⟩

namespace Variable

theorem size_eq (source : Variable) : source.size = source.blocks * source.dim * source.dim := by
  show source.blocks * (source.dim * (source.dim * 1)) = _
  rw [Nat.mul_one, Nat.mul_assoc]

theorem number_lt_of_block {source : Variable} {number : Nat} {slice : Slice}
    (cut : source.block number = .ok slice) : number < source.blocks := by
  unfold block at cut
  split at cut
  · assumption
  · exact absurd cut (by simp)

/-- The view of one block: the whole of the block's rows and columns, as a matrix. -/
theorem block_eq_ok {source : Variable} {number : Nat} (inside : number < source.blocks)
    (rows : 0 < source.dim) :
    source.block number = .ok ⟨source,
      { offset := number * (source.dim * source.dim)
        extents := [1, source.dim, source.dim]
        strides := [source.dim * source.dim, source.dim, 1]
        shape := .matrix source.dim source.dim }⟩ := by
  have whole : number + 1 ≤ source.blocks := inside
  simp [block, inside, whole, slice, select, Variable.shape, rank, rows, Slice.reshape,
    View.reshape, View.size, Shape.size, Shape.matrix, strided, strides, stridesOf, bind,
    Except.bind, pure, Except.pure]

/-- The entries of a block are consecutive. -/
theorem flatIndices_block {source : Variable} {number : Nat} {slice : Slice}
    (inside : number < source.blocks) (rows : 0 < source.dim)
    (cut : source.block number = .ok slice) :
    slice.view.flatIndices =
      (List.range (source.dim * source.dim)).map fun place =>
        number * (source.dim * source.dim) + place := by
  rw [block_eq_ok inside rows] at cut
  obtain rfl := Except.ok.inj cut
  rw [View.flatIndices_eq]
  have size : View.size ⟨number * (source.dim * source.dim), [1, source.dim, source.dim],
      [source.dim * source.dim, source.dim, 1], .matrix source.dim source.dim⟩ =
      volume [1, source.dim, source.dim] := rfl
  have square : volume [1, source.dim, source.dim] = source.dim * source.dim := by
    simp only [volume_cons, volume_nil, Nat.mul_one, Nat.one_mul]
  rw [size, square]
  refine List.map_congr_left fun place member => ?_
  have bound : place < volume [1, source.dim, source.dim] := by
    rw [square]
    exact List.mem_range.mp member
  have back := strided_coordinates bound
  simp only [stridesOf, List.foldr_cons, List.foldr_nil, Nat.mul_one] at back
  rw [View.indexAt, back]

/-- Every block can be cut out, as a square matrix. -/
theorem exists_block {source : Variable} {number : Nat} (inside : number < source.blocks)
    (rows : 0 < source.dim) :
    ∃ slice, source.block number = .ok slice ∧ slice.source = source ∧
      slice.shape.matchesMatrix source.dim source.dim = true := by
  refine ⟨_, block_eq_ok inside rows, rfl, ?_⟩
  show (Shape.matrix source.dim source.dim).matchesMatrix source.dim source.dim = true
  simp [matchesMatrix, matrix, rank, Shape.rows, Shape.cols]

end Variable

end BlockCone
