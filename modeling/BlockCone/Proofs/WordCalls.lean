/-
This file proves that the calls of a model never leave the words.

The only check that a model makes on its size is the one of a declaration: the columns of all
variables together have to be fewer than `2 ^ 64`, and the number of blocks and the number of rows
are positive. It is enough for everything that is computed from a declared variable afterwards,
whatever the arguments. The entries of a variable are fewer than the columns, so its extents fit,
and so do those of every slice that can be cut from it. A coordinate or a block that is as large as
a word can be is refused by a comparison before one is added to it, and every other number is
smaller than a number of entries or of columns. What is added to the first column of a variable is
an entry of it, which is a column of the problem.

Each call is written as a program in words, step by step in the order of the calculation, and is
proved to come to what the call comes to: the same answer or the same refusal, and never a trap.
-/

import BlockCone.Proofs.RightToLeft
import BlockCone.Proofs.WellFormed
import BlockCone.Proofs.Words

namespace BlockCone

namespace Word

variable {α β γ : Type}

/-- Programs that come to what calls come to, one after another. -/
theorem mapM_eq_kept {items : List β} {program : β → Except Halt γ} {call : β → Except Error γ}
    (each : ∀ item ∈ items, program item = kept (call item)) :
    items.mapM program = kept (items.mapM call) := by
  induction items with
  | nil => rfl
  | cons first rest inductionHypothesis =>
    obtain ⟨here, later⟩ := List.forall_mem_cons.mp each
    rw [List.mapM_cons, List.mapM_cons, kept_bind, here, inductionHypothesis later]
    congr 1
    funext answer
    rw [kept_bind]
    rfl

/-! ### Programs for variables -/

/-- The box of a variable between two corners. -/
def slice (source : Variable) (start stop : List Nat) : Except Halt Slice := do
  let view ← select source.shape start stop
  pure ⟨source, view⟩

/-- Presents a slice under another shape. -/
def present (slice : Slice) (shape : Shape) : Except Halt Slice := do
  let view ← reshape slice.view shape
  pure { slice with view }

/-- One block, behind the check of its number. -/
def block (source : Variable) (number : Nat) : Except Halt Slice :=
  if number < source.blocks then do
    let next ← add number 1
    let box ← slice source [number, 0, 0] [next, source.dim, source.dim]
    present box (.matrix source.dim source.dim)
  else
    .error (.refused
      (.indexOutOfRange ("block " ++ toString number) (toString source.blocks ++ " blocks")))

/-- The entry of a variable at a position, which has a block, a row and a column. -/
def offsetOf (source : Variable) (position : Position) : Except Halt Nat :=
  flatOffset source.shape [position.1, position.2.1, position.2.2]

/-- One entry, behind the check of its coordinates. -/
def element (source : Variable) (position : Position) : Except Halt Slice := do
  let (number, row, col) := position
  let _ ← offsetOf source position
  let nextNumber ← add number 1
  let nextRow ← add row 1
  let nextCol ← add col 1
  let box ← slice source [number, row, col] [nextNumber, nextRow, nextCol]
  present box .scalar

/-- The positions on the diagonals of all blocks. They are counted through, and the count of each is
divided into its block and its row. -/
def diagonal (source : Variable) : Except Halt (List Position) := do
  let count ← mul source.blocks source.dim
  (List.range count).mapM fun place => do
    let number ← div place source.dim
    let row ← mod place source.dim
    let col ← mod place source.dim
    pure (number, row, col)

/-- The entries of a variable at positions, up to the first that is outside. -/
def pick (source : Variable) (positions : List Position) : Except Halt (List Nat) :=
  positions.mapM (offsetOf source)

end Word

/-! ### Variables -/

namespace Variable

variable {source : Variable}

/-- The calls on a variable come to what they come to with unbounded numbers. -/
structure CallsInWords (source : Variable) : Prop where
  size : Word.product source.shape.dims = .ok source.size
  flatOffset : ∀ coords,
    Word.flatOffset source.shape coords = Word.kept (source.shape.flatOffset coords)
  coordsOf : ∀ offset, Word.coordsOf source.shape offset = Word.kept (source.shape.coordsOf offset)
  all : Word.full source.shape = .ok source.all.view
  slice : ∀ start stop, Word.slice source start stop = Word.kept (source.slice start stop)
  block : ∀ number, Word.block source number = Word.kept (source.block number)
  element : ∀ position, Word.element source position = Word.kept (source.element position)
  diagonal : Word.diagonal source = .ok source.diagonal
  pick : ∀ positions, Word.pick source positions = Word.kept (source.pick positions)

theorem slice_eq_kept (fits : FitsWords source.shape.dims) (start stop : List Nat) :
    Word.slice source start stop = Word.kept (source.slice start stop) := by
  rw [Word.slice, Word.select_eq_kept fits.counted, slice, Word.kept_bind]
  rfl

/-- A box that was just cut is presented under a shape whose entries can be counted. -/
theorem slice_present_eq_kept (fits : FitsWords source.shape.dims) {start stop : List Nat}
    {shape : Shape} (counted : Word.product shape.dims = .ok shape.size) :
    (Word.slice source start stop >>= fun box => Word.present box shape) =
      Word.kept (source.slice start stop >>= fun box => box.reshape shape) := by
  rw [slice_eq_kept fits, Word.kept_bind]
  cases cut : source.slice start stop with
  | error reason => rfl
  | ok box =>
    obtain ⟨view, selected, rest⟩ := bind_eq_ok_iff.mp cut
    obtain rfl := Except.ok.inj rest
    obtain ⟨isBox, extents, nonempty, _⟩ := Shape.select_eq_ok selected
    have sized := Word.size_eq_ok (isBox.inWords extents nonempty fits)
    show Word.present ⟨source, view⟩ shape = Word.kept (Slice.reshape ⟨source, view⟩ shape)
    rw [Word.present, Word.reshape_eq_kept sized counted, Slice.reshape, Word.kept_bind]
    rfl

theorem block_eq_kept (fits : FitsWords source.shape.dims) (number : Nat) :
    Word.block source number = Word.kept (source.block number) := by
  rw [Word.block, block]
  split
  · rename_i inside
    have blocks : source.blocks < Problem.columnLimit := fits.dim_lt _ List.mem_cons_self
    have counted : Word.product (Shape.matrix source.dim source.dim).dims =
        .ok (Shape.matrix source.dim source.dim).size := Word.product_eq_ok fits.inner.counted.outer
    rw [Word.add_eq_ok (by omega), Word.ok_bind, slice_present_eq_kept fits counted]
  · rfl

/-- The coordinates of an entry are checked before they are increased. -/
theorem element_eq_kept (fits : FitsWords source.shape.dims) (position : Position) :
    Word.element source position = Word.kept (source.element position) := by
  obtain ⟨number, row, col⟩ := position
  show (Word.flatOffset source.shape [number, row, col] >>= _) = _
  rw [Word.flatOffset_eq_kept fits.counted, element, Word.kept_bind]
  show _ = (Word.kept (source.shape.flatOffset [number, row, col]) >>= _)
  cases found : source.shape.flatOffset [number, row, col] with
  | error reason => rfl
  | ok offset =>
    -- the offset was found, so one more than each coordinate is at most an extent
    obtain ⟨inside, _⟩ := flatOffset_eq_ok_iff.mp found
    obtain _ | ⟨numberInside, _ | ⟨rowInside, _ | ⟨colInside, _⟩⟩⟩ := inside
    have blocks : source.blocks < Problem.columnLimit := fits.dim_lt _ List.mem_cons_self
    have dim : source.dim < Problem.columnLimit :=
      fits.dim_lt _ (List.mem_cons_of_mem _ List.mem_cons_self)
    show (Word.add number 1 >>= fun nextNumber => Word.add row 1 >>= fun nextRow =>
      Word.add col 1 >>= fun nextCol =>
        Word.slice source [number, row, col] [nextNumber, nextRow, nextCol] >>= fun box =>
          Word.present box .scalar) = _
    rw [Word.add_eq_ok (by omega), Word.ok_bind, Word.add_eq_ok (by omega), Word.ok_bind,
      Word.add_eq_ok (by omega), Word.ok_bind, slice_present_eq_kept fits rfl]
    rfl

theorem diagonal_eq_ok (fits : FitsWords source.shape.dims) :
    Word.diagonal source = .ok source.diagonal := by
  have positive : 0 < source.dim :=
    fits.positive _ (List.mem_cons_of_mem _ List.mem_cons_self)
  have rows : source.blocks * source.dim < Problem.columnLimit := by
    refine Nat.lt_of_le_of_lt (Nat.mul_le_mul_left source.blocks ?_) fits.room
    exact Nat.le_mul_of_pos_right _ (volume_pos_iff.mpr fits.inner.inner.positive)
  rw [Word.diagonal, Word.mul_eq_ok rows, Word.ok_bind, diagonal]
  refine mapM_eq_ok _ fun place _ => ?_
  rw [Word.div_eq_ok positive, Word.ok_bind, Word.mod_eq_ok positive]
  rfl

/-- A variable whose extents fit has all of its calls in words. -/
theorem callsInWords (fits : FitsWords source.shape.dims) : source.CallsInWords where
  size := Word.product_eq_ok fits.counted.outer
  flatOffset := Word.flatOffset_eq_kept fits.counted
  coordsOf := Word.coordsOf_eq_kept fits.counted
  all := Word.full_eq_ok fits.counted
  slice := slice_eq_kept fits
  block := block_eq_kept fits
  element := element_eq_kept fits
  diagonal := diagonal_eq_ok fits
  pick _ := Word.mapM_eq_kept fun _ _ => Word.flatOffset_eq_kept fits.counted _

end Variable

/-! ### Slices -/

namespace Slice

variable {slice : Slice} {source : Variable}

/-- The calls on a slice come to what they come to with unbounded numbers. A shape under which it
is to be presented is one whose own entries can be counted. -/
structure CallsInWords (slice : Slice) : Prop where
  size : Word.product slice.view.extents = .ok slice.view.size
  isContiguous : Word.isContiguous slice.view = .ok slice.view.isContiguous
  flatIndices : Word.flatIndices slice.view = .ok slice.view.flatIndices
  reshape : ∀ shape, Word.product shape.dims = .ok shape.size →
    Word.present slice shape = Word.kept (slice.reshape shape)

/-- A slice of a variable with entries leaves no dimension empty. -/
theorem Selects.nonempty {start stop : Position} (selects : Selects source slice start stop)
    (positive : ∀ dim ∈ source.shape.dims, 0 < dim) :
    List.Forall₂ (· < ·) start.coords stop.coords := by
  have blocks : 0 < source.blocks := positive _ List.mem_cons_self
  have dim : 0 < source.dim := positive _ (List.mem_cons_of_mem _ List.mem_cons_self)
  induction selects with
  | all => exact .cons blocks (.cons dim (.cons dim .nil))
  | slice accepted =>
    obtain ⟨view, selected, _⟩ := bind_eq_ok_iff.mp accepted
    exact (Shape.select_eq_ok selected).2.2.1
  | block _ => exact .cons (Nat.lt_succ_self _) (.cons dim (.cons dim .nil))
  | element _ =>
    exact .cons (Nat.lt_succ_self _) (.cons (Nat.lt_succ_self _) (.cons (Nat.lt_succ_self _) .nil))
  | reshape _ _ inductionHypothesis => exact inductionHypothesis

theorem CutFrom.inWords (history : CutFrom source slice) (fits : FitsWords source.shape.dims) :
    slice.view.InWords := by
  obtain ⟨start, stop, selects⟩ := history.exists_selects
  have between := selects.isBoxBetween
  exact between.isBox.inWords between.extents_eq (selects.nonempty fits.positive) fits

theorem CutFrom.callsInWords (history : CutFrom source slice)
    (fits : FitsWords source.shape.dims) : slice.CallsInWords where
  size := Word.size_eq_ok (history.inWords fits)
  isContiguous := Word.isContiguous_eq_ok (history.inWords fits)
  flatIndices := Word.flatIndices_eq_ok (history.inWords fits)
  reshape shape counted := by
    have sized := Word.size_eq_ok (history.inWords fits)
    rw [Word.present, Word.reshape_eq_kept sized counted, Slice.reshape, Word.kept_bind]
    rfl

end Slice

/-! ### Expressions -/

namespace Word

variable {α : Type} [Scalar α]

/-- The coefficients of an inner product: each offset of the slice with the entry of the matrix at
its place, which has to be there. -/
def coefficients (term : DotTerm α) : Except Halt (List (Nat × α)) := do
  let indices ← flatIndices term.slice.view
  indices.zipIdx.mapM fun (index, place) => do
    let row ← div place term.weights.cols
    let col ← mod place term.weights.cols
    match term.weights.entry? row col with
    | none => .error .trap
    | some value => pure (index, value)

/-- Takes in a leaf. A row is as long as its variable. -/
def take (gathered : Gathered α) : Leaf α → Except Halt (Gathered α)
  | .term term => do
      let _ ← product term.slice.source.shape.dims
      let coefficients ← coefficients term
      pure { gathered with
        rows := Gathered.addTo term.slice.source coefficients gathered.rows }
  | .number value => pure (gathered.takeConstant value)

/-- The linear form of an expression. Its leaves are taken in from the last to the first. -/
def linearForm (expr : Expr α) : Except Halt (LinearForm α) := do
  let gathered ← expr.leaves.reverse.foldlM take ⟨[], 0⟩
  pure gathered.toForm

/-- The coefficients of a row, each at the first column of its variable plus its entry. -/
def movedRow (offset : Nat) (row : Sparse α) : Except Halt (List (Nat × α)) :=
  row.rowEntries.mapM fun (col, value) => do
    let column ← add offset col
    pure (column, value)

/-- The coefficients of a linear form by the columns of the problem, without those that are zero. -/
def columns (form : LinearForm α) : Except Halt (List (Nat × α)) := do
  let moved ← form.rows.mapM fun (offset, row) => movedRow offset row
  pure ((moved.flatten.filter fun (_, value) => !Scalar.isZero value).mergeSort
    fun left right => decide (left.1 ≤ right.1))

theorem coefficients_eq_ok {term : DotTerm α} {source : Variable}
    (cut : term.slice.CutFrom source) (fits : FitsWords source.shape.dims) :
    coefficients term = .ok term.coefficients := by
  rw [coefficients, flatIndices_eq_ok (cut.inWords fits), ok_bind, DotTerm.coefficients_eq cut]
  refine mapM_eq_ok _ fun (index, place) member => ?_
  have bound : place < term.weights.entries.length := by
    rw [term.length_entries cut]
    exact (List.mem_zipIdx' member).1
  obtain ⟨positive, found⟩ := term.weights.place_div_mod bound
  show (div place term.weights.cols >>= fun row => mod place term.weights.cols >>= fun col => _) =
    .ok (index, term.weights.entry (place / term.weights.cols) (place % term.weights.cols))
  rw [div_eq_ok positive, ok_bind, mod_eq_ok positive, ok_bind, term.weights.entry_div_mod bound]
  simp only [found]
  rfl

theorem foldlM_take_eq_ok {leaves : List (Leaf α)}
    (each : ∀ term ∈ leaves.filterMap Leaf.term?,
      term.slice.CutFrom term.slice.source ∧ FitsWords term.slice.source.shape.dims)
    (gathered : Gathered α) :
    leaves.foldlM take gathered = .ok (leaves.foldl Gathered.take gathered) := by
  induction leaves generalizing gathered with
  | nil => rfl
  | cons leaf leaves inductionHypothesis =>
    rw [List.foldlM_cons, List.foldl_cons]
    cases leaf with
    | term used =>
      obtain ⟨⟨cut, fits⟩, later⟩ := List.forall_mem_cons.mp each
      rw [take, product_eq_ok fits.counted.outer, ok_bind, coefficients_eq_ok cut fits, ok_bind]
      exact inductionHypothesis later _
    | number value => exact inductionHypothesis each _

/-- The linear form of an expression over variables whose extents fit stays in words. -/
theorem linearForm_eq_ok {declared : List Variable} {expr : Expr α} (isOver : expr.Over declared)
    (fits : ∀ source ∈ declared, FitsWords source.shape.dims) :
    linearForm expr = .ok expr.linearForm := by
  have each : ∀ term ∈ expr.leaves.reverse.filterMap Leaf.term?,
      term.slice.CutFrom term.slice.source ∧ FitsWords term.slice.source.shape.dims := by
    intro term member
    rw [List.filterMap_reverse, List.mem_reverse, Expr.filterMap_term?_leaves] at member
    exact ⟨(isOver term member).1, fits _ (isOver term member).2⟩
  rw [linearForm, foldlM_take_eq_ok each, ok_bind, ← Gathered.visit_eq_foldl]
  rfl

theorem columns_eq_ok {form : LinearForm α}
    (small : ∀ row ∈ form.rows, ∀ coeff ∈ row.2.rowEntries,
      row.1 + coeff.1 < Problem.columnLimit) :
    columns form = .ok form.columns := by
  have moved : (form.rows.mapM fun (offset, row) => movedRow offset row) =
      .ok (form.rows.map fun (offset, row) =>
        row.rowEntries.map fun (col, value) => (offset + col, value)) := by
    refine mapM_eq_ok _ fun row rowMember => mapM_eq_ok _ fun coeff member => ?_
    show (add row.1 coeff.1 >>= fun column => pure (column, coeff.2)) = _
    rw [add_eq_ok (small row rowMember coeff member)]
    rfl
  rw [columns, moved, ok_bind, ← List.flatMap_def]
  rfl

/-! ### Programs for problems -/

/-- The levels of a slice: each listed entry is moved by the first column of its variable. -/
def level (problem : Problem α) (slice : Slice) : Except Halt (List α) := do
  kept (problem.requireOwned slice.source)
  let levels ← kept problem.levels
  let indices ← flatIndices slice.view
  indices.mapM fun index => do
    let column ← add slice.source.offset index
    kept (readPoint levels column)

/-- The objective over the columns of the problem. A problem without one asks for any point that
meets its constraints. -/
def flatObjective : Option (Objective α) → Except Halt (LinearObjective α)
  | none => pure .feasibility
  | some objective => do
      let form ← linearForm objective.expr
      let coeffs ← columns form
      pure ⟨objective.sense, coeffs, form.constant⟩

/-- A constraint over the columns of the problem. The constant of its expression goes to the other
side of the relation. -/
def flatConstraint (constraint : Constraint α) : Except Halt (LinearConstraint α) := do
  let form ← linearForm constraint.expr
  let coeffs ← columns form
  pure ⟨coeffs, constraint.relation, constraint.bound - form.constant⟩

/-- The conic form of a problem: the objective is linearized first, then the constraints in their
order. -/
def conicForm (problem : Problem α) : Except Halt (ConicProblem α) := do
  let objective ← flatObjective problem.objective
  let constraints ← problem.constraints.mapM flatConstraint
  pure
    { columns := problem.columns
      cones := problem.declared.map fun source => ⟨source.dim, source.blocks, source.offset⟩
      objective
      constraints }

/-! ### Programs for cones -/

/-- The number of columns of a cone, from the number of rows of all of its blocks. -/
def coneSize (cone : Cone) : Except Halt Nat := do
  let rows ← mul cone.count cone.dim
  mul rows cone.dim

/-- The number of columns of cones together, added up from the first to the last. -/
def totalSize (cones : List Cone) : Except Halt Nat :=
  sumOf (cones.map coneSize)

/-- The first column of a block of a cone, behind all blocks before it. -/
def blockOffset (cone : Cone) (block : Nat) : Except Halt Nat := do
  let rows ← mul block cone.dim
  let entries ← mul rows cone.dim
  add cone.offset entries

/-- The column of an entry of a block. -/
def entryColumn (cone : Cone) (block row col : Nat) : Except Halt Nat := do
  let first ← blockOffset cone block
  let rows ← mul row cone.dim
  let start ← add first rows
  add start col

/-- The number of entries of a triangle with its diagonal, half of what is computed before the last
step. -/
def triangleSize (dim : Nat) : Except Halt Nat := do
  let next ← add dim 1
  let twice ← mul dim next
  div twice 2

end Word

/-! ### Cones -/

namespace Cone

/-- What is computed of a cone comes to what it comes to with unbounded numbers. -/
structure CallsInWords (cone : Cone) : Prop where
  size : Word.coneSize cone = .ok cone.size
  /-- Where a block starts, or where the last one ends. -/
  blockOffset : ∀ block ≤ cone.count, Word.blockOffset cone block = .ok (cone.blockOffset block)
  /-- An entry by its place in the block. -/
  placeColumn : ∀ block < cone.count, ∀ place < cone.dim * cone.dim,
    Word.add (cone.blockOffset block) place = .ok (cone.blockOffset block + place)
  /-- An entry by its row and its column. -/
  entryColumn : ∀ block < cone.count, ∀ row < cone.dim, ∀ col < cone.dim,
    Word.entryColumn cone block row col = .ok (cone.blockOffset block + row * cone.dim + col)
  triangleSize : Word.triangleSize cone.dim = .ok (triangleSize cone.dim)

/-- The triangle of a matrix with words for its entries has a word for twice its size. -/
theorem triangleSize_eq_ok {dim : Nat} (square : dim * dim < Problem.columnLimit) :
    Word.triangleSize dim = .ok (BlockCone.triangleSize dim) := by
  -- the limit is a square, so a number whose square is below it is below its root
  have limit : Problem.columnLimit = 4294967296 * 4294967296 := rfl
  have small : dim < 4294967296 := by
    by_contra large
    have squares := Nat.mul_le_mul (Nat.le_of_not_lt large) (Nat.le_of_not_lt large)
    omega
  have twice : dim * (dim + 1) < Problem.columnLimit := by
    calc dim * (dim + 1) ≤ dim * 4294967296 := Nat.mul_le_mul_left _ small
      _ < 4294967296 * 4294967296 := (Nat.mul_lt_mul_right (by omega)).mpr small
      _ = Problem.columnLimit := limit.symm
  rw [Word.triangleSize, Word.add_eq_ok (by omega), Word.ok_bind, Word.mul_eq_ok twice,
    Word.ok_bind, Word.div_eq_ok (by omega)]
  rfl

variable {cone : Cone} {block : Nat}

theorem block_rows_le (sized : 0 < cone.dim) (inside : block ≤ cone.count) :
    block * cone.dim ≤ cone.size :=
  (Nat.mul_le_mul_right _ inside).trans (Nat.le_mul_of_pos_right _ sized)

theorem block_entries_le (inside : block ≤ cone.count) :
    block * cone.dim * cone.dim ≤ cone.size :=
  Nat.mul_le_mul_right _ (Nat.mul_le_mul_right _ inside)

/-- A block ends where its cone ends or before. -/
theorem blockOffset_add_square_le (inside : block < cone.count) :
    cone.blockOffset block + cone.dim * cone.dim ≤ cone.offset + cone.size := by
  have entries := block_entries_le (Nat.succ_le_of_lt inside)
  rw [Nat.succ_mul, Nat.add_mul] at entries
  rw [blockOffset]
  omega

theorem coneSize_eq_ok (sized : 0 < cone.dim) (room : cone.size < Problem.columnLimit) :
    Word.coneSize cone = .ok cone.size := by
  have rows := block_rows_le sized (le_refl cone.count)
  rw [Word.coneSize, Word.mul_eq_ok (by omega), Word.ok_bind]
  exact Word.mul_eq_ok room

/-- The product of the dimensions comes first, and the first column of the cone is added last. -/
theorem blockOffset_eq_ok (sized : 0 < cone.dim)
    (room : cone.offset + cone.size < Problem.columnLimit) (inside : block ≤ cone.count) :
    Word.blockOffset cone block = .ok (cone.blockOffset block) := by
  have rows := block_rows_le sized inside
  have entries := block_entries_le inside
  rw [Word.blockOffset, Word.mul_eq_ok (by omega), Word.ok_bind, Word.mul_eq_ok (by omega),
    Word.ok_bind, Word.add_eq_ok (by omega)]
  rfl

theorem entryColumn_eq_ok (room : cone.offset + cone.size < Problem.columnLimit)
    (inside : block < cone.count) {row col : Nat} (rowInside : row < cone.dim)
    (colInside : col < cone.dim) :
    Word.entryColumn cone block row col =
      .ok (cone.blockOffset block + row * cone.dim + col) := by
  have last := blockOffset_add_lt inside rowInside colInside
  rw [Word.entryColumn, blockOffset_eq_ok (Nat.zero_lt_of_lt rowInside) room inside.le,
    Word.ok_bind, Word.mul_eq_ok (by omega), Word.ok_bind, Word.add_eq_ok (by omega),
    Word.ok_bind, Word.add_eq_ok (by omega)]

/-- A cone that ends at a word has all that is computed of it in words. -/
theorem callsInWords (counted : 0 < cone.count) (sized : 0 < cone.dim)
    (room : cone.offset + cone.size < Problem.columnLimit) : cone.CallsInWords where
  size := coneSize_eq_ok sized (by omega)
  blockOffset _ inside := blockOffset_eq_ok sized room inside
  placeColumn block inside place below := by
    have last := blockOffset_add_square_le inside
    exact Word.add_eq_ok (by omega)
  entryColumn _ inside _ rowInside _ colInside :=
    entryColumn_eq_ok room inside rowInside colInside
  triangleSize := triangleSize_eq_ok (by
    have first := blockOffset_add_square_le counted
    omega)

end Cone

/-! ### Problems -/

namespace Problem

variable {α : Type} {problem : Problem α}

theorem Arranged.fitsWords (arranged : problem.Arranged) :
    ∀ source ∈ problem.declared, FitsWords source.shape.dims := by
  intro source known
  obtain ⟨counted, sized⟩ := arranged.positive source known
  have entries := arranged.size_pos known
  have last := arranged.column_lt known (Nat.sub_one_lt entries.ne')
  have limit := arranged.columns_lt
  refine ⟨?_, ?_⟩
  · exact List.forall_mem_cons.mpr ⟨counted, List.forall_mem_cons.mpr ⟨sized,
      List.forall_mem_cons.mpr ⟨sized, List.forall_mem_nil _⟩⟩⟩
  · show source.size < columnLimit
    omega

/-- What is read for a slice stays in words, also if the problem does not know its variable. -/
theorem Sound.level_eq_kept (sound : problem.Sound) {slice : Slice}
    (issued : problem.IssuedSlice slice) :
    Word.level problem slice = Word.kept (problem.level slice) := by
  rw [Word.level, level, Word.kept_bind]
  cases owned : problem.requireOwned slice.source with
  | error reason => rfl
  | ok passed =>
    have known := issued.2 (owner_of_owns ((problem.requireOwned_eq_ok_iff _).mp owned))
    show (Word.kept problem.levels >>= _) = Word.kept (problem.levels >>= _)
    rw [Word.kept_bind]
    congr 1
    funext levels
    rw [Word.flatIndices_eq_ok (issued.1.inWords (sound.fitsWords _ known)), Word.ok_bind]
    refine Word.mapM_eq_kept fun index listed => ?_
    have column := sound.column_lt known (issued.1.index_lt listed)
    rw [Word.add_eq_ok (column.trans sound.columns_lt), Word.ok_bind]

variable [Scalar α]

/-- An expression over the declared variables is brought into columns in words. -/
theorem Sound.columns_linearForm_eq_ok (sound : problem.Sound) {expr : Expr α}
    (isOver : expr.Over problem.declared) :
    Word.linearForm expr = .ok expr.linearForm ∧
      Word.columns expr.linearForm = .ok expr.linearForm.columns := by
  refine ⟨Word.linearForm_eq_ok isOver sound.fitsWords, Word.columns_eq_ok ?_⟩
  intro row rowMember coeff stored
  obtain ⟨source, known, start, inside⟩ :=
    Expr.mem_rows sound.sameStartSameSize isOver rowMember stored
  rw [← start]
  exact (sound.column_lt known inside).trans sound.columns_lt

theorem Sound.conicForm_eq_ok (sound : problem.Sound) :
    Word.conicForm problem = .ok problem.conicForm := by
  have objective : Word.flatObjective problem.objective =
      .ok (flatObjective problem.objective) := by
    cases present : problem.objective with
    | none => rfl
    | some objective =>
      obtain ⟨collected, listed⟩ :=
        sound.columns_linearForm_eq_ok (sound.objective_over objective present)
      rw [Word.flatObjective, collected, Word.ok_bind, listed]
      rfl
  have constraints : problem.constraints.mapM Word.flatConstraint =
      .ok (problem.constraints.map flatConstraint) := by
    refine mapM_eq_ok _ fun constraint member => ?_
    obtain ⟨collected, listed⟩ :=
      sound.columns_linearForm_eq_ok (sound.constraints_over constraint member)
    rw [Word.flatConstraint, collected, Word.ok_bind, listed]
    rfl
  rw [Word.conicForm, objective, Word.ok_bind, constraints]
  rfl

theorem Sound.cone_callsInWords (sound : problem.Sound) {cone : Cone}
    (member : cone ∈ problem.conicForm.cones) : cone.CallsInWords := by
  have inside := (sound.wellFormed.tiles.bounds member).2
  obtain ⟨source, known, rfl⟩ := List.mem_map.mp member
  obtain ⟨counted, sized⟩ := sound.positive source known
  exact Cone.callsInWords counted sized (Nat.lt_of_le_of_lt inside sound.columns_lt)

theorem Sound.totalSize_eq_ok (sound : problem.Sound) :
    Word.totalSize problem.conicForm.cones = .ok problem.columns := by
  have total : (problem.conicForm.cones.map Cone.size).foldr (· + ·) 0 = problem.columns :=
    (Nat.zero_add _).symm.trans sound.wellFormed.tiles.total
  rw [Word.totalSize, Word.sumOf_eq_ok _ (total ▸ sound.columns_lt), total]
  rw [List.forall₂_map_left_iff, List.forall₂_map_right_iff, List.forall₂_same]
  exact fun cone member => (sound.cone_callsInWords member).size

/-- Everything that is computed of a problem comes to what it comes to with unbounded numbers: the
calls on its variables and on the slices that are cut from them, the levels of a slice, the flat
form and its cones. -/
structure StaysInWords (problem : Problem α) : Prop where
  handles : ∀ source ∈ problem.declared, source.CallsInWords
  slices : ∀ source ∈ problem.declared, ∀ slice : Slice, slice.CutFrom source →
    slice.CallsInWords
  level : ∀ slice, problem.IssuedSlice slice →
    Word.level problem slice = Word.kept (problem.level slice)
  conicForm : Word.conicForm problem = .ok problem.conicForm
  cones : ∀ cone ∈ problem.conicForm.cones, cone.CallsInWords
  total : Word.totalSize problem.conicForm.cones = .ok problem.columns

/-- The check of a declaration is enough: whatever can be reached and whatever arguments calls are
given, no sum and no product is larger than a word, no difference is below zero and nothing is
divided by zero. -/
theorem staysInWords (reached : problem.Reachable) : problem.StaysInWords where
  handles source known := Variable.callsInWords (reached.sound.fitsWords source known)
  slices source known _ cut := cut.callsInWords (reached.sound.fitsWords source known)
  level _ issued := reached.sound.level_eq_kept issued
  conicForm := reached.sound.conicForm_eq_ok
  cones _ member := reached.sound.cone_callsInWords member
  total := reached.sound.totalSize_eq_ok

end Problem

/-! ### A block with almost as many entries as there are words -/

namespace Sample

/-- One block of as many rows as a problem can have. -/
def vastHandle : Variable := ⟨0, 0, 0, none, 1, 4294967295⟩

/-- The problem that declares it. -/
def vast : Problem ℚ := (Problem.new 0 none).run [.declare none 1 4294967295]

theorem vast_reachable : vast.Reachable :=
  ⟨0, none, [.declare none 1 4294967295], ⟨trivial, trivial⟩, rfl⟩

theorem vastHandle_declared : vastHandle ∈ vast.declared := List.mem_singleton.mpr rfl

end Sample

/-- The largest word is refused as the number of a block, although adding one to it is a trap. The
last entry of the block is found. -/
theorem Problem.staysInWords_vast :
    Sample.vast.Reachable ∧ Sample.vastHandle ∈ Sample.vast.declared ∧
      Word.add 18446744073709551615 1 = .error .trap ∧
      (∃ reason, Word.element Sample.vastHandle (18446744073709551615, 0, 0) =
        .error (.refused reason)) ∧
      (∃ slice, Word.element Sample.vastHandle (0, 4294967294, 4294967294) = .ok slice ∧
        slice.view.offset = 18446744065119617024) ∧
      Word.totalSize Sample.vast.conicForm.cones = .ok 18446744065119617025 := by
  have stays := staysInWords Sample.vast_reachable
  have calls := stays.handles _ Sample.vastHandle_declared
  have last : Sample.vastHandle.element (0, 4294967294, 4294967294) =
      .ok ⟨Sample.vastHandle, ⟨18446744065119617024, [1, 1, 1],
        [18446744065119617025, 4294967295, 1], .scalar⟩⟩ := rfl
  have outside : ∃ reason, Sample.vastHandle.element (18446744073709551615, 0, 0) =
      .error reason := ⟨_, rfl⟩
  obtain ⟨reason, refused⟩ := outside
  exact ⟨Sample.vast_reachable, Sample.vastHandle_declared, rfl,
    ⟨reason, (calls.element _).trans (congrArg Word.kept refused)⟩,
    ⟨_, (calls.element _).trans (congrArg Word.kept last), rfl⟩, stays.total.trans rfl⟩

end BlockCone
