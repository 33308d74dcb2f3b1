/-
This file proves that an inner product is well formed once it was built.

Building one compares the extents of a matrix with the shape of a slice, and nothing is checked
afterwards. Listing the coefficients divides the place of each entry by the number of columns and
reads the matrix there. That this cannot fail rests on facts from elsewhere: the variable was
declared with entries, so no slice of it is empty; no presentation changes how many entries a slice
has; and the matrix has as many entries as the shape. So there are as many places as entries of the
matrix, the number of columns is positive, and quotient and remainder run through the rows and
columns of the matrix. The places of a slice, on the other side, have different offsets, since a box
lists its offsets in increasing order whatever the shape under which it is presented.
-/

import BlockCone.Proofs.Enumeration
import BlockCone.Proofs.Extraction
import BlockCone.Proofs.WordCalls

namespace BlockCone

/-! ### Shapes and matrices that line up -/

/-- The extents of the matrices that a shape lines up with. A number counts as a matrix of one
entry and a vector as a column. -/
inductive Shape.LinesUp : Shape → Nat → Nat → Prop where
  | scalar : LinesUp .scalar 1 1
  | vector (length : Nat) : LinesUp (.vector length) length 1
  | matrix (rows cols : Nat) : LinesUp (.matrix rows cols) rows cols

theorem Shape.matchesMatrix_iff_linesUp (shape : Shape) (rows cols : Nat) :
    shape.matchesMatrix rows cols = true ↔ shape.LinesUp rows cols := by
  constructor
  · intro fits
    obtain ⟨dims⟩ := shape
    simp only [matchesMatrix, rank, Shape.rows, Shape.cols, Bool.and_eq_true,
      beq_iff_eq] at fits
    obtain ⟨⟨low, rfl⟩, rfl⟩ := fits
    rcases dims with _ | ⟨first, _ | ⟨second, _ | ⟨third, rest⟩⟩⟩
    · exact .scalar
    · exact .vector first
    · exact .matrix first second
    · exact absurd low (by simp)
  · rintro (_ | _ | _) <;>
      simp [matchesMatrix, rank, Shape.rows, Shape.cols, Shape.scalar, Shape.vector, Shape.matrix]

/-- A shape that lines up with a matrix is no deeper than one. -/
theorem Shape.LinesUp.rank_le {shape : Shape} {rows cols : Nat}
    (linesUp : shape.LinesUp rows cols) : shape.rank ≤ 2 := by
  cases linesUp with
  | scalar => exact Nat.zero_le 2
  | vector _ => exact Nat.le_succ 1
  | matrix _ _ => exact le_rfl

/-! ### Entries of slices -/

/-- A slice lists each of its entries once. -/
theorem Slice.CutFrom.nodup {source : Variable} {cut : Slice} (history : CutFrom source cut) :
    cut.view.flatIndices.Nodup := by
  obtain ⟨_, corner, box⟩ := history.isBoxOf
  exact box.flatIndices_increasing.imp Nat.ne_of_lt

namespace DotTerm

variable {α : Type}

/-! ### Building a term -/

/-- When a matrix is paired with a slice, and what is said otherwise. -/
structure Pairs (weights : Matrix α) (slice : Slice) : Prop where
  succeeds_iff : (∃ term, make weights slice = .ok term) ↔
    slice.shape.LinesUp weights.rows weights.cols
  shallow : (∃ term, make weights slice = .ok term) → slice.shape.rank ≤ 2
  refused : ¬ slice.shape.LinesUp weights.rows weights.cols →
    make weights slice = .error (.shapeMismatch slice.shape.display
      ("(" ++ toString weights.rows ++ ", " ++ toString weights.cols ++ ") constant"))
  kept : ∀ term, make weights slice = .ok term → term.weights = weights ∧ term.slice = slice

theorem pairs (weights : Matrix α) (slice : Slice) : Pairs weights slice := by
  have succeeds : (∃ term, make weights slice = .ok term) ↔
      slice.shape.LinesUp weights.rows weights.cols := by
    rw [← Shape.matchesMatrix_iff_linesUp, make]
    split
    · rename_i fits
      exact iff_of_true ⟨_, rfl⟩ fits
    · rename_i apart
      refine iff_of_false ?_ apart
      rintro ⟨_, ⟨⟩⟩
  refine ⟨succeeds, fun made => (succeeds.mp made).rank_le, fun apart => ?_, fun term made => ?_⟩
  · rw [← Shape.matchesMatrix_iff_linesUp] at apart
    rw [make, dif_neg apart]
  · unfold make at made
    split at made
    · obtain rfl := Except.ok.inj made
      exact ⟨rfl, rfl⟩
    · exact absurd made (by simp)

/-! ### Listing the coefficients -/

variable [Scalar α]

/-- The coefficients of a term whose slice was cut from a variable. -/
structure MeetsOnce (term : DotTerm α) (source : Variable) : Prop where
  /-- Nothing is divided by zero, and nothing is read outside of the matrix. -/
  inWords : Word.coefficients term = .ok term.coefficients
  length_eq : term.coefficients.length = term.slice.view.size
  presented : term.slice.shape.size = term.slice.view.size
  distinct : (term.coefficients.map Prod.fst).Nodup
  inside : ∀ coefficient ∈ term.coefficients, coefficient.1 < source.size
  /-- The entry at a row and a column is met by the entry of the slice at its place. -/
  met : ∀ row col, row < term.weights.rows → col < term.weights.cols →
    ∃ index value, term.slice.view.flatIndices[row * term.weights.cols + col]? = some index ∧
      term.weights.entry? row col = some value ∧
      term.coefficients[row * term.weights.cols + col]? = some (index, value)
  /-- There are no other places, and no two entries share one. -/
  once : ∀ place < term.coefficients.length, ∃! position : Nat × Nat,
    position.1 < term.weights.rows ∧ position.2 < term.weights.cols ∧
      position.1 * term.weights.cols + position.2 = place

variable {term : DotTerm α} {source : Variable}

theorem length_coefficients (cut : term.slice.CutFrom source) :
    term.coefficients.length = term.slice.view.flatIndices.length := by
  rw [coefficients_eq cut, List.length_map, List.length_zipIdx]

theorem map_fst_coefficients (cut : term.slice.CutFrom source) :
    term.coefficients.map Prod.fst = term.slice.view.flatIndices := by
  rw [coefficients_eq cut, List.map_map]
  exact List.zipIdx_map_fst 0 _

/-- The matrix has one entry for each coefficient. -/
theorem length_coefficients_eq_mul (cut : term.slice.CutFrom source) :
    term.coefficients.length = term.weights.rows * term.weights.cols := by
  rw [length_coefficients cut, ← term.length_entries cut, term.weights.size_eq]

theorem meetsOnce (cut : term.slice.CutFrom source) (fits : FitsWords source.shape.dims) :
    term.MeetsOnce source where
  inWords := Word.coefficients_eq_ok cut fits
  length_eq := by rw [length_coefficients cut, View.length_flatIndices]
  presented := by rw [cut.shape_size, View.length_flatIndices]
  distinct := by
    rw [map_fst_coefficients cut]
    exact cut.nodup
  inside coefficient member := by
    refine cut.index_lt ?_
    rw [← map_fst_coefficients cut]
    exact List.mem_map_of_mem member
  met row col rowInside colInside := by
    have bound := Matrix.place_lt rowInside colInside
    rw [← length_coefficients_eq_mul cut] at bound
    have inEntries := bound
    rw [length_coefficients cut, ← term.length_entries cut] at inEntries
    rw [length_coefficients cut] at bound
    obtain ⟨quotient, remainder⟩ := Matrix.div_mod_place row colInside
    obtain ⟨_, found⟩ := term.weights.place_div_mod inEntries
    rw [quotient, remainder] at found
    refine ⟨_, _, List.getElem?_eq_getElem bound, found, ?_⟩
    rw [coefficients, List.getElem?_zip_eq_some]
    exact ⟨List.getElem?_eq_getElem bound, List.getElem?_eq_getElem inEntries⟩
  once place bound := by
    rw [length_coefficients_eq_mul cut] at bound
    have positive : 0 < term.weights.cols :=
      Nat.pos_of_ne_zero fun zero => by simp [zero] at bound
    refine ⟨(place / term.weights.cols, place % term.weights.cols),
      ⟨(Nat.div_lt_iff_lt_mul positive).mpr bound, Nat.mod_lt place positive,
        Nat.div_add_mod' place _⟩, ?_⟩
    rintro ⟨row, col⟩ ⟨_, colInside, rfl⟩
    obtain ⟨quotient, remainder⟩ := Matrix.div_mod_place row colInside
    rw [quotient, remainder]

/-- For the slices of a declared variable: a matrix is paired with one exactly if it lines up with
the shape, and every term over one lists its coefficients without a fault, each entry of the slice
once and each entry of the matrix once, in the order of their places. -/
theorem pairs_meets_once {problem : Problem α} (visited : problem.Visited)
    (declared : source ∈ problem.declared) :
    (∀ (weights : Matrix α) (slice : Slice), slice.CutFrom source → Pairs weights slice) ∧
      ∀ term : DotTerm α, term.slice.CutFrom source → term.MeetsOnce source :=
  ⟨fun weights slice _ => pairs weights slice,
    fun _ cut => meetsOnce cut (visited.arranged.fitsWords source declared)⟩

end DotTerm

namespace Sample

/-- A column of two numbers. -/
def weightColumn : Matrix ℚ := ⟨2, 1, [5, 7], rfl⟩

end Sample

/-- The second column of the block is met by a matrix of one column, entry by entry, and not by one
of one row. -/
theorem DotTerm.pairs_meets_once_column :
    ∃ term, make Sample.weightColumn Sample.column = .ok term ∧
      term.coefficients = [(1, 5), (3, 7)] ∧ term.MeetsOnce Sample.handle ∧
      make (⟨1, 2, [5, 7], rfl⟩ : Matrix ℚ) Sample.column =
        .error (.shapeMismatch "(2,)" "(1, 2) constant") := by
  have visited : Sample.problem.Visited := ⟨0, none, Sample.operations, rfl⟩
  have declared : Sample.handle ∈ Sample.problem.declared := List.mem_singleton.mpr rfl
  have cut : Sample.column.CutFrom Sample.handle :=
    .reshape (.slice Sample.strip_cut) Sample.column_presented
  obtain ⟨pairing, meeting⟩ := pairs_meets_once visited declared
  obtain ⟨term, made⟩ :=
    (pairing Sample.weightColumn Sample.column cut).succeeds_iff.mpr (.vector 2)
  obtain ⟨weights, slice⟩ := (pairing _ _ cut).kept term made
  refine ⟨term, made, ?_, meeting term (slice ▸ cut), ?_⟩
  · rw [coefficients, weights, slice]
    rfl
  · refine (pairing ⟨1, 2, [5, 7], rfl⟩ Sample.column cut).refused ?_
    rintro ⟨⟩

end BlockCone
