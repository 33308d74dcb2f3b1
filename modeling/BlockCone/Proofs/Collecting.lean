/-
This file proves that collecting an expression into its linear form keeps its meaning.

The traversal takes parts off a stack, and two quantities follow it. The first is the value of
everything gathered so far plus the value of everything still on the stack, which no step changes:
a term moves its coefficients from one side to the other, a constant its value, and a sum is
replaced by its parts. When the stack is empty the gathered coefficients have the value of the
expression; assembling the rows, sorting the columns and dropping zeros keep it.

The second is where the coefficients lie. The variables of one problem start at different columns,
so each gathered row belongs to one variable and all its coefficients are entries of that variable.
This needs no law of arithmetic and holds for doubles too.
-/

import Mathlib.Tactic.Abel
import BlockCone.Proofs.Assembly
import BlockCone.Proofs.Expressions
import BlockCone.Expr.Linearize

namespace BlockCone

/-! ### A matrix meets a slice -/

/-- A shape that lines up with a matrix has as many entries. -/
theorem Shape.size_of_matchesMatrix {shape : Shape} {rows cols : Nat}
    (fits : shape.matchesMatrix rows cols = true) : shape.size = rows * cols := by
  obtain ⟨dims⟩ := shape
  simp only [matchesMatrix, rank, Shape.rows, Shape.cols, Bool.and_eq_true, beq_iff_eq] at fits
  obtain ⟨⟨low, rfl⟩, rfl⟩ := fits
  rcases dims with _ | ⟨first, _ | ⟨second, _ | ⟨third, rest⟩⟩⟩
  · rfl
  · rfl
  · show first * (second * 1) = first * second
    rw [Nat.mul_one]
  · exact absurd low (by simp)

/-- Entries are stored row after row, so a place among them is a row and a column of the matrix. -/
theorem Matrix.place_div_mod {α : Type} (matrix : Matrix α) {place : Nat}
    (bound : place < matrix.entries.length) :
    0 < matrix.cols ∧
      matrix.entry? (place / matrix.cols) (place % matrix.cols) = some matrix.entries[place] := by
  have positive : 0 < matrix.cols := by
    by_contra zero
    rw [matrix.size_eq, Nat.eq_zero_of_not_pos zero, Nat.mul_zero] at bound
    exact absurd bound (Nat.not_lt_zero place)
  refine ⟨positive, ?_⟩
  unfold entry?
  rw [if_pos (Nat.mod_lt place positive), Nat.div_add_mod', List.getElem?_eq_getElem bound]

theorem Matrix.entry_div_mod {α : Type} [Scalar α] (matrix : Matrix α) {place : Nat}
    (bound : place < matrix.entries.length) :
    matrix.entry (place / matrix.cols) (place % matrix.cols) = matrix.entries[place] := by
  rw [entry, (matrix.place_div_mod bound).2, Option.getD_some]

/-- The entries of a matrix are those at its rows and columns. -/
theorem Matrix.mem_entries_iff {α : Type} [Scalar α] (matrix : Matrix α) (value : α) :
    value ∈ matrix.entries ↔
      ∃ row < matrix.rows, ∃ col < matrix.cols, matrix.entry row col = value := by
  constructor
  · intro listed
    obtain ⟨place, bound, rfl⟩ := List.mem_iff_getElem.mp listed
    obtain ⟨positive, _⟩ := matrix.place_div_mod bound
    refine ⟨place / matrix.cols, ?_, place % matrix.cols, Nat.mod_lt place positive,
      matrix.entry_div_mod bound⟩
    rw [Nat.div_lt_iff_lt_mul positive, ← matrix.size_eq]
    exact bound
  · rintro ⟨row, rowInside, col, colInside, rfl⟩
    have bound := Matrix.place_lt rowInside colInside
    rw [← matrix.size_eq] at bound
    rw [entry, entry?, if_pos colInside, List.getElem?_eq_getElem bound, Option.getD_some]
    exact List.getElem_mem bound

namespace DotTerm

/-- A slice that can be had lists as many entries as the matrix of its term holds. -/
theorem length_entries {α : Type} {term : DotTerm α} {source : Variable}
    (cut : term.slice.CutFrom source) :
    term.weights.entries.length = term.slice.view.flatIndices.length := by
  rw [term.weights.size_eq, ← Shape.size_of_matchesMatrix term.fits, cut.shape_size]

/-- Each entry of the slice meets the entry of the matrix at its place, row after row. -/
theorem coefficients_eq {α : Type} [Scalar α] {term : DotTerm α} {source : Variable}
    (cut : term.slice.CutFrom source) :
    term.coefficients = term.slice.view.flatIndices.zipIdx.map fun (index, place) =>
      (index, term.weights.entry (place / term.weights.cols) (place % term.weights.cols)) := by
  have sameLength := term.length_entries cut
  refine List.ext_getElem (by simp [coefficients, sameLength]) fun place left right => ?_
  have bound : place < term.weights.entries.length := by
    rw [sameLength]
    simpa using right
  simp only [coefficients, List.getElem_zip, List.getElem_map, List.getElem_zipIdx, Nat.zero_add,
    term.weights.entry_div_mod bound]

end DotTerm

section Exact

variable {K : Type} [ExactScalar K]

/-- The value of a term is what its coefficients weigh at the columns of its variable. -/
theorem DotTerm.valueAt_eq {term : DotTerm K} {source : Variable}
    (cut : term.slice.CutFrom source) (level : Nat → K) :
    term.valueAt level =
      weighed term.coefficients fun index => level (term.slice.source.offset + index) := by
  rw [DotTerm.valueAt, weighed, DotTerm.coefficients_eq cut, List.map_map]
  rfl

end Exact

/-! ### The traversal -/

namespace Gathered

section Exact

variable {K : Type} [ExactScalar K]

/-- The value of what has been gathered, at a vector of levels. -/
def valueAt (gathered : Gathered K) (level : Nat → K) : K :=
  gathered.constant +
    (gathered.rows.map fun entry =>
      weighed entry.2.latest fun index => level (entry.1 + index)).sum

/-- The value of a term's coefficients at the columns of its variable. -/
def leafAt (level : Nat → K) (term : DotTerm K) : K :=
  weighed term.coefficients fun index => level (term.slice.source.offset + index)

theorem sum_addTo (source : Variable) (coefficients : List (Nat × K))
    (rows : List (Nat × GatheredRow K)) (level : Nat → K) :
    ((addTo source coefficients rows).map fun entry =>
        weighed entry.2.latest fun index => level (entry.1 + index)).sum =
      weighed coefficients (fun index => level (source.offset + index)) +
        (rows.map fun entry =>
          weighed entry.2.latest fun index => level (entry.1 + index)).sum := by
  induction rows with
  | nil => simp only [addTo, List.map_cons, List.sum_cons, weighed_reverse, List.map_nil]
  | cons first rest inductionHypothesis =>
    obtain ⟨offset, row⟩ := first
    rw [addTo]
    split
    · simp only [List.map_cons, List.sum_cons, weighed_reverse]
    · split
      · rename_i same
        simp only [List.map_cons, List.sum_cons, weighed_append, weighed_reverse, same, add_assoc]
      · rw [List.map_cons, List.sum_cons, inductionHypothesis, List.map_cons, List.sum_cons]
        abel

theorem valueAt_takeTerm (gathered : Gathered K) (term : DotTerm K) (level : Nat → K) :
    (gathered.takeTerm term).valueAt level = gathered.valueAt level + leafAt level term := by
  unfold valueAt takeTerm leafAt
  rw [sum_addTo]
  abel

theorem valueAt_takeConstant (gathered : Gathered K) (value : K) (level : Nat → K) :
    (gathered.takeConstant value).valueAt level = gathered.valueAt level + value := by
  unfold valueAt takeConstant
  simp only
  abel

/-- Visiting the stack adds the value of everything on it. -/
theorem valueAt_visit (stack : List (Expr K)) (gathered : Gathered K) (level : Nat → K) :
    (visit stack gathered).valueAt level =
      gathered.valueAt level + Expr.totalWith (leafAt level) stack := by
  fun_induction visit stack gathered with
  | case1 gathered => rw [Expr.totalWith, add_zero]
  | case2 term stack gathered inductionHypothesis =>
    rw [inductionHypothesis, valueAt_takeTerm, Expr.totalWith, Expr.valueWith, add_assoc]
  | case3 value stack gathered inductionHypothesis =>
    rw [inductionHypothesis, valueAt_takeConstant, Expr.totalWith, Expr.valueWith, add_assoc]
  | case4 children stack gathered inductionHypothesis =>
    rw [List.unattach_reverse, List.unattach_attach] at inductionHypothesis
    rw [inductionHypothesis, Expr.totalWith_append, Expr.totalWith_reverse, Expr.totalWith,
      Expr.valueWith]

end Exact

section Within

variable {α : Type}

/-- Every row belongs to a variable of a list and has only entries of that variable. -/
def RowsWithin (declared : List Variable) (rows : List (Nat × GatheredRow α)) : Prop :=
  ∀ entry ∈ rows, ∃ source ∈ declared, source.offset = entry.1 ∧ source.size = entry.2.size ∧
    ∀ coeff ∈ entry.2.latest, coeff.1 < source.size

/-- Variables that start at the same column have the same size. -/
def SameStartSameSize (declared : List Variable) : Prop :=
  ∀ left ∈ declared, ∀ right ∈ declared, left.offset = right.offset → left.size = right.size

variable {declared : List Variable}

theorem RowsWithin.addTo {rows : List (Nat × GatheredRow α)} {source : Variable}
    {coefficients : List (Nat × α)} (apart : SameStartSameSize declared)
    (within : RowsWithin declared rows) (known : source ∈ declared)
    (small : ∀ coeff ∈ coefficients, coeff.1 < source.size) :
    RowsWithin declared (addTo source coefficients rows) := by
  have fresh : RowsWithin declared [(source.offset, ⟨source.size, coefficients.reverse⟩)] := by
    intro entry member
    obtain rfl := List.mem_singleton.mp member
    exact ⟨source, known, rfl, rfl, fun coeff listed => small coeff (List.mem_reverse.mp listed)⟩
  induction rows with
  | nil => exact fresh
  | cons first rest inductionHypothesis =>
    obtain ⟨offset, row⟩ := first
    obtain ⟨head, tail⟩ := List.forall_mem_cons.mp within
    rw [Gathered.addTo]
    split
    · exact List.forall_mem_cons.mpr ⟨fresh _ List.mem_cons_self, within⟩
    · split
      · rename_i same
        obtain ⟨present, presentKnown, start, size, inside⟩ := head
        have sameSize := apart source known present presentKnown (same.trans start.symm)
        have new : ∀ coeff ∈ coefficients.reverse, coeff.1 < present.size := by
          intro coeff listed
          rw [← sameSize]
          exact small coeff (List.mem_reverse.mp listed)
        exact List.forall_mem_cons.mpr
          ⟨⟨present, presentKnown, start, size, List.forall_mem_append.mpr ⟨new, inside⟩⟩, tail⟩
      · exact List.forall_mem_cons.mpr ⟨head, inductionHypothesis tail⟩

/-- Visiting parts over some variables gathers only entries of these variables. -/
theorem RowsWithin.visit [Add α] (apart : SameStartSameSize declared) (stack : List (Expr α))
    (gathered : Gathered α) (isOver : ∀ expr ∈ stack, expr.Over declared)
    (within : RowsWithin declared gathered.rows) :
    RowsWithin declared (visit stack gathered).rows := by
  fun_induction Gathered.visit stack gathered with
  | case1 gathered => exact within
  | case2 term stack gathered inductionHypothesis =>
    obtain ⟨cut, known⟩ := isOver (.dot term) List.mem_cons_self term List.mem_cons_self
    refine inductionHypothesis (fun expr member => isOver expr (List.mem_cons_of_mem _ member))
      (within.addTo apart known fun coeff listed => ?_)
    exact cut.index_lt (List.of_mem_zip listed).1
  | case3 value stack gathered inductionHypothesis =>
    exact inductionHypothesis (fun expr member => isOver expr (List.mem_cons_of_mem _ member))
      within
  | case4 children stack gathered inductionHypothesis =>
    rw [List.unattach_reverse, List.unattach_attach] at inductionHypothesis
    refine inductionHypothesis (fun expr member => ?_) within
    rcases List.mem_append.mp member with part | later
    · exact Expr.over_sum.mp (isOver (.sum children) List.mem_cons_self) expr
        (List.mem_reverse.mp part)
    · exact isOver expr (List.mem_cons_of_mem _ later)

/-- What is gathered from an expression over some variables are entries of these variables. -/
theorem rowsWithin_of_over [Zero α] [Add α] (apart : SameStartSameSize declared) {expr : Expr α}
    (isOver : expr.Over declared) : RowsWithin declared (Gathered.visit [expr] ⟨[], 0⟩).rows :=
  .visit apart [expr] ⟨[], 0⟩ (fun part listed => by rwa [List.mem_singleton.mp listed])
    fun entry listed => absurd listed List.not_mem_nil

end Within

end Gathered

/-! ### The linear form -/

theorem mem_rowTriplets {α : Type} {entries : List (Nat × α)} {triplet : Triplet α}
    (member : triplet ∈ rowTriplets entries) :
    ∃ entry ∈ entries, triplet = ⟨0, entry.1, entry.2⟩ := by
  obtain ⟨entry, listed, rfl⟩ := List.mem_map.mp member
  exact ⟨entry, listed, rfl⟩

namespace Expr

/-- The rows of an expression over the variables of one problem are rows of these variables, and
store entries of them. -/
theorem mem_rows {α : Type} [Scalar α] {declared : List Variable}
    (apart : Gathered.SameStartSameSize declared) {expr : Expr α} (isOver : expr.Over declared)
    {row : Nat × Sparse α} (member : row ∈ expr.linearForm.rows) {coeff : Nat × α}
    (stored : coeff ∈ row.2.rowEntries) :
    ∃ source ∈ declared, source.offset = row.1 ∧ coeff.1 < source.size := by
  obtain ⟨gathered, gatheredMember, rfl⟩ := List.mem_map.mp member
  obtain ⟨source, known, start, size, inside⟩ :=
    Gathered.rowsWithin_of_over apart isOver gathered gatheredMember
  obtain ⟨triplet, tripletMember, rfl⟩ := List.mem_map.mp stored
  obtain ⟨named, namedMember, _, sameCol⟩ := Sparse.position_assemble tripletMember
  obtain ⟨entry, listed, rfl⟩ := mem_rowTriplets namedMember
  refine ⟨source, known, start, ?_⟩
  show triplet.col < source.size
  rw [← sameCol]
  exact inside entry (List.mem_reverse.mp listed)

/-- The columns of an expression over the variables of one problem are entries of these
variables. -/
theorem mem_columns {α : Type} [Scalar α] {declared : List Variable}
    (apart : Gathered.SameStartSameSize declared) {expr : Expr α} (isOver : expr.Over declared)
    {coeff : Nat × α} (member : coeff ∈ expr.linearForm.columns) :
    ∃ source ∈ declared, ∃ index < source.size, coeff.1 = source.offset + index := by
  simp only [LinearForm.columns, List.mem_mergeSort, List.mem_filter, List.mem_flatMap,
    List.mem_map] at member
  obtain ⟨⟨row, rowMember, entry, stored, rfl⟩, _⟩ := member
  obtain ⟨source, known, start, inside⟩ := mem_rows apart isOver rowMember stored
  exact ⟨source, known, entry.1, inside, by rw [start]⟩

section Exact

variable {K : Type} [ExactScalar K]

theorem weighed_rowEntries (matrix : Sparse K) (level : Nat → K) :
    weighed matrix.rowEntries level = tripletSum matrix.entries fun _ col => level col := by
  simp only [weighed, tripletSum, Sparse.rowEntries, List.map_map]
  rfl

theorem tripletSum_rowTriplets (entries : List (Nat × K)) (level : Nat → K) :
    (tripletSum (rowTriplets entries) fun _ col => level col) = weighed entries level := by
  simp only [weighed, tripletSum, rowTriplets, List.map_map]
  rfl

/-- Assembling and sorting keep the value of what was gathered. -/
theorem value_toForm (gathered : Gathered K) (level : Nat → K) :
    weighed gathered.toForm.columns level + gathered.toForm.constant = gathered.valueAt level := by
  have rows : weighed gathered.toForm.columns level =
      (gathered.rows.map fun entry =>
        weighed entry.2.latest fun index => level (entry.1 + index)).sum := by
    unfold LinearForm.columns Gathered.toForm
    rw [weighed_perm (List.mergeSort_perm _ _) level, weighed_filter_nonzero, List.flatMap_map,
      weighed_flatMap]
    congr 1
    refine List.map_congr_left fun entry _ => ?_
    rw [weighed_shift, weighed_rowEntries, Sparse.tripletSum_assemble, tripletSum_rowTriplets,
      weighed_reverse]
  rw [rows, add_comm]
  rfl

/-- The linear form of an expression has the value of the expression, at every vector. -/
theorem value_linearForm {declared : List Variable} {expr : Expr K} (isOver : expr.Over declared)
    (level : Nat → K) :
    weighed expr.linearForm.columns level + expr.linearForm.constant = expr.valueAt level := by
  have leaves : expr.valueWith (Gathered.leafAt level) = expr.valueAt level := by
    refine valueWith_congr expr fun term member => ?_
    exact (DotTerm.valueAt_eq (isOver term member).1 level).symm
  rw [linearForm, value_toForm, Gathered.valueAt_visit, totalWith, totalWith, leaves]
  simp only [Gathered.valueAt, List.map_nil, List.sum_nil, zero_add, add_zero]

end Exact

end Expr

end BlockCone
