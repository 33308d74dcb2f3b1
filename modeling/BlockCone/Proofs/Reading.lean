/-
This file proves that the levels of every slice of a declared variable can be read.

Reading has three chances to fail: the problem may not know the variable, a level may not be there,
and the levels may not fill the matrix. A handle that was declared is known, its entries are
columns, and a slice that lines up with a matrix lists as many entries as the matrix holds; so with
a level for each column none of the three happens, and what is read at each place of the slice is
the level of the column that the slice lists there. A block lists consecutive entries, so its matrix
is filled from where it starts.
-/

import BlockCone.Proofs.Layout

namespace BlockCone

namespace Problem

variable {α : Type} {problem : Problem α}

theorem Arranged.owns (arranged : problem.Arranged) {source : Variable}
    (known : source ∈ problem.declared) : problem.owns source = true := by
  rw [Problem.owns, arranged.getElem?_index known, arranged.owner_eq source known,
    beq_self_eq_true, Bool.true_and]
  exact (Variable.sameAs_iff source source).mpr ⟨rfl, rfl⟩

/-- An expression over the declared variables is accepted. -/
theorem Arranged.requireOwnedExpr (arranged : problem.Arranged) {expr : Expr α}
    (isOver : expr.Over problem.declared) : problem.requireOwnedExpr expr = .ok () := by
  rw [requireOwnedExpr_eq_ok_iff]
  intro term member
  exact arranged.owns (isOver term member).2

/-- What was read is laid out as a matrix, if there is as much of it as the shape needs. -/
theorem levelMatrix_of_level {slice : Slice} {values : List α} (low : slice.shape.rank ≤ 2)
    (read : problem.level slice = .ok values)
    (filled : values.length = slice.shape.rows * slice.shape.cols) :
    problem.levelMatrix slice = .ok ⟨slice.shape.rows, slice.shape.cols, values, filled⟩ := by
  unfold levelMatrix
  rw [if_neg (Nat.not_lt.mpr low), read]
  show Matrix.ofValues values slice.shape.rows slice.shape.cols = _
  rw [Matrix.ofValues, dif_pos filled]

/-- Every entry of a block of a declared variable is a column. -/
theorem Arranged.blockColumn_lt (arranged : problem.Arranged) {source : Variable}
    (known : source ∈ problem.declared) {number place : Nat} (inside : number < source.blocks)
    (bound : place < source.dim * source.dim) :
    source.offset + (number * (source.dim * source.dim) + place) < problem.columns := by
  refine arranged.column_lt known ?_
  rw [Variable.size_eq, Nat.mul_assoc]
  exact Matrix.place_lt inside bound

/-- The levels of one block of a variable. -/
def blockMatrix (problem : Problem α) (source : Variable) (number : Nat) :
    Except Error (Matrix α) := do
  let slice ← source.block number
  problem.levelMatrix slice

variable [Scalar α]

/-- What is read for a slice: the level of each column that it lists. -/
def levelsOf (levels : Array α) (slice : Slice) : List α :=
  slice.view.flatIndices.map fun index => entryOf levels (slice.source.offset + index)

theorem Arranged.level_eq_ok (arranged : problem.Arranged) {levels : Array α}
    (present : problem.levels = .ok levels) (fits : levels.size = problem.columns) {slice : Slice}
    (cut : slice.CutFrom slice.source) (known : slice.source ∈ problem.declared) :
    problem.level slice = .ok (levelsOf levels slice) := by
  have owned := (problem.requireOwned_eq_ok_iff slice.source).mpr (arranged.owns known)
  refine bind_eq_ok_iff.mpr ⟨(), owned, bind_eq_ok_iff.mpr ⟨levels, present, ?_⟩⟩
  refine mapM_eq_ok _ fun index listed => readPoint_eq_ok ?_
  rw [fits]
  exact arranged.column_lt known (cut.index_lt listed)

/-- A slice that lines up with a matrix is read as a matrix of these extents. -/
theorem Arranged.levelMatrix_eq_ok (arranged : problem.Arranged) {levels : Array α}
    (present : problem.levels = .ok levels) (fits : levels.size = problem.columns) {slice : Slice}
    (cut : slice.CutFrom slice.source) (known : slice.source ∈ problem.declared) {rows cols : Nat}
    (shaped : slice.shape.matchesMatrix rows cols = true) :
    ∃ matrix, problem.levelMatrix slice = .ok matrix ∧ matrix.rows = rows ∧ matrix.cols = cols ∧
      matrix.entries = levelsOf levels slice := by
  have filled : (levelsOf levels slice).length = rows * cols := by
    rw [levelsOf, List.length_map, ← cut.shape_size]
    exact Shape.size_of_matchesMatrix shaped
  simp only [Shape.matchesMatrix, Bool.and_eq_true, beq_iff_eq, decide_eq_true_eq] at shaped
  obtain ⟨⟨low, rfl⟩, rfl⟩ := shaped
  have read := arranged.level_eq_ok present fits cut known
  exact ⟨_, levelMatrix_of_level low read filled, rfl, rfl, rfl⟩

/-! ### Blocks -/

/-- One block of a variable, filled with levels from where it starts. -/
def blockOf (levels : Array α) (source : Variable) (number : Nat) : Matrix α where
  rows := source.dim
  cols := source.dim
  entries := (List.range (source.dim * source.dim)).map fun place =>
    entryOf levels (source.offset + (number * (source.dim * source.dim) + place))
  size_eq := by rw [List.length_map, List.length_range]

/-- With a level for each column every block of a declared variable is read. -/
theorem Arranged.blockMatrix_eq_ok (arranged : problem.Arranged) {levels : Array α}
    (present : problem.levels = .ok levels) (fits : levels.size = problem.columns)
    {source : Variable} (known : source ∈ problem.declared) {number : Nat}
    (inside : number < source.blocks) :
    problem.blockMatrix source number = .ok (blockOf levels source number) := by
  have rows := (arranged.positive source known).2
  obtain ⟨slice, cut, same, shaped⟩ := Variable.exists_block inside rows
  have listed := Variable.flatIndices_block inside rows cut
  obtain ⟨⟨height, width, entries, filled⟩, read, rfl, rfl, rfl⟩ :=
    arranged.levelMatrix_eq_ok present fits (same ▸ .block cut) (same ▸ known) shaped
  rw [blockMatrix, cut]
  show problem.levelMatrix slice = _
  rw [read]
  simp only [blockOf, levelsOf, listed, same, List.map_map]
  rfl

theorem Arranged.blockMatrix_eq_ok_iff (arranged : problem.Arranged) {levels : Array α}
    (present : problem.levels = .ok levels) (fits : levels.size = problem.columns)
    {source : Variable} (known : source ∈ problem.declared) {number : Nat} {matrix : Matrix α} :
    problem.blockMatrix source number = .ok matrix ↔
      number < source.blocks ∧ blockOf levels source number = matrix := by
  constructor
  · intro read
    obtain ⟨slice, cut, _⟩ := bind_eq_ok_iff.mp read
    have inside := Variable.number_lt_of_block cut
    exact ⟨inside, Except.ok.inj
      ((arranged.blockMatrix_eq_ok present fits known inside).symm.trans read)⟩
  · rintro ⟨inside, rfl⟩
    exact arranged.blockMatrix_eq_ok present fits known inside

theorem entry?_blockOf (levels : Array α) (source : Variable) (number : Nat) {row col : Nat}
    (rowInside : row < source.dim) (colInside : col < source.dim) :
    Matrix.entry? (blockOf levels source number) row col =
      some (entryOf levels
        (source.offset + (number * source.dim * source.dim + row * source.dim + col))) := by
  have place := Matrix.place_lt rowInside colInside
  rw [Matrix.entry?, if_pos (show col < (blockOf levels source number).cols from colInside)]
  show ((List.range (source.dim * source.dim)).map fun place => entryOf levels
    (source.offset + (number * (source.dim * source.dim) + place)))[row * source.dim + col]? = _
  rw [List.getElem?_map, List.getElem?_range place, Option.map_some, Nat.mul_assoc, Nat.add_assoc]

end Problem

end BlockCone
