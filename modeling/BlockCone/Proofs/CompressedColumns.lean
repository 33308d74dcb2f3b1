/-
This file says that an assembled matrix can be read in compressed columns and loses nothing.

A matrix in compressed columns is three lists: where each column starts, and the row and the value
of each entry. They determine it if the entries of a column are exactly those from its start up to
the start of the next one. The starts are found by walking along the entries, counting those of one
column and going on behind them. Because the entries are stored in order, what is left of them in
front of a column are all entries from this column on, and what has been counted are all entries
before it; that is the invariant of the walk. So the starts are counts that grow with the column,
from nothing to everything, and the entries between two of them are those of one column.

What is stored at a position is the sum of the values that were given for it, from the first on and
in their order. An entry of a matrix in order is the only one at its position, so the sum of two
matrices adds two values where both store one and keeps a single value where only one does. No law
of addition is used.
-/

import Mathlib.Data.List.TakeWhile
import BlockCone.Proofs.Assembly

namespace BlockCone

variable {α : Type}

/-! ### Counting columns -/

namespace Triplet

/-- The entries of one column. -/
def inColumn (col : Nat) (entries : List (Triplet α)) : List (Triplet α) :=
  entries.filter fun entry => entry.col == col

/-- The entries from one column on. -/
def fromColumn (col : Nat) (entries : List (Triplet α)) : List (Triplet α) :=
  entries.filter fun entry => decide (col ≤ entry.col)

/-- The number of entries before a column. -/
def countBefore (col : Nat) (entries : List (Triplet α)) : Nat :=
  entries.countP fun entry => decide (entry.col < col)

theorem mem_inColumn {col : Nat} {entries : List (Triplet α)} {entry : Triplet α} :
    entry ∈ inColumn col entries ↔ entry ∈ entries ∧ entry.col = col := by
  rw [inColumn, List.mem_filter, beq_iff_eq]

theorem countBefore_zero (entries : List (Triplet α)) : countBefore 0 entries = 0 :=
  List.countP_eq_zero.mpr fun entry _ => by simp

theorem countBefore_succ (col : Nat) (entries : List (Triplet α)) :
    countBefore (col + 1) entries = countBefore col entries + (inColumn col entries).length := by
  induction entries with
  | nil => rfl
  | cons first rest inductionHypothesis =>
    unfold countBefore inColumn at inductionHypothesis ⊢
    rw [List.countP_cons, List.countP_cons, List.filter_cons, inductionHypothesis]
    rcases Nat.lt_trichotomy first.col col with before | rfl | after
    · rw [if_pos (decide_eq_true (Nat.lt_succ_of_lt before)), if_pos (decide_eq_true before),
        if_neg (by simpa using before.ne)]
      omega
    · rw [if_pos (decide_eq_true (Nat.lt_succ_self _)), if_neg (by simp),
        if_pos (beq_self_eq_true _), List.length_cons]
      omega
    · rw [if_neg (by simpa using after), if_neg (by simpa using after.le),
        if_neg (by simpa using after.ne'), Nat.add_zero, Nat.add_zero]

theorem countBefore_mono {first second : Nat} (notAfter : first ≤ second)
    (entries : List (Triplet α)) : countBefore first entries ≤ countBefore second entries :=
  List.countP_mono_left fun entry _ before => by
    simp only [decide_eq_true_eq] at before ⊢
    exact Nat.lt_of_lt_of_le before notAfter

/-- In order, the entries from a column on are those of the column and then those from the next. -/
theorem fromColumn_eq {entries : List (Triplet α)}
    (ordered : entries.Pairwise fun left right => left.col ≤ right.col) (col : Nat) :
    fromColumn col entries = inColumn col entries ++ fromColumn (col + 1) entries := by
  induction entries with
  | nil => rfl
  | cons first rest inductionHypothesis =>
    obtain ⟨least, orderedRest⟩ := List.pairwise_cons.mp ordered
    have deeper := inductionHypothesis orderedRest
    unfold fromColumn inColumn at deeper ⊢
    rw [List.filter_cons, List.filter_cons, List.filter_cons, deeper]
    rcases Nat.lt_trichotomy first.col col with before | rfl | after
    · rw [if_neg (by simpa using before), if_neg (by simpa using before.ne),
        if_neg (by simpa using before.le)]
    · rw [if_pos (by simp), if_pos (by simp), if_neg (by simp), List.cons_append]
    · have none : rest.filter (fun entry => entry.col == col) = [] :=
        List.filter_eq_nil_iff.mpr fun entry member => by
          have later := least entry member
          simp only [beq_iff_eq]
          omega
      rw [none, if_pos (by simpa using after.le), if_neg (by simpa using after.ne'),
        if_pos (by simpa using after), List.nil_append, List.nil_append]

/-- In order, behind the entries before a column stand the entries from it on. -/
theorem drop_countBefore {entries : List (Triplet α)}
    (ordered : entries.Pairwise fun left right => left.col ≤ right.col) (col : Nat) :
    entries.drop (countBefore col entries) = fromColumn col entries := by
  induction col with
  | zero =>
    rw [countBefore_zero, List.drop_zero, fromColumn, List.filter_eq_self.mpr]
    exact fun entry _ => decide_eq_true (Nat.zero_le _)
  | succ col inductionHypothesis =>
    rw [countBefore_succ, ← List.drop_drop, inductionHypothesis, fromColumn_eq ordered,
      List.drop_left]

end Triplet

open Triplet

/-! ### The walk along the entries -/

namespace Sparse

/-- From a column on the walk counts the entries before each column. -/
theorem offsetsFrom_eq {entries : List (Triplet α)}
    (ordered : entries.Pairwise fun left right => left.col ≤ right.col) (columns col : Nat) :
    offsetsFrom columns col (countBefore col entries) (fromColumn col entries) =
      (List.range' col (columns + 1)).map fun later => countBefore later entries := by
  induction columns generalizing col with
  | zero => rfl
  | succ columns inductionHypothesis =>
    have stops : (fromColumn (col + 1) entries).takeWhile (fun entry => entry.col == col) = [] := by
      refine List.takeWhile_eq_nil_iff.mpr fun nonempty here => ?_
      have later := (List.mem_filter.mp (List.get_mem _ ⟨0, nonempty⟩)).2
      rw [decide_eq_true_eq, beq_iff_eq.mp here] at later
      exact Nat.not_succ_le_self col later
    have here : (fromColumn col entries).takeWhile (fun entry => entry.col == col) =
        inColumn col entries := by
      rw [fromColumn_eq ordered, List.takeWhile_append_of_pos, stops, List.append_nil]
      exact fun entry member => beq_iff_eq.mpr (mem_inColumn.mp member).2
    rw [offsetsFrom, here, ← countBefore_succ, List.range'_succ, List.map_cons]
    congr 1
    rw [fromColumn_eq ordered, List.drop_left]
    exact inductionHypothesis (col + 1)

/-- A matrix of given extents whose entries lie inside of it, in strict order of storage. -/
structure StoredIn (rows cols : Nat) (matrix : Sparse α) : Prop where
  rows_eq : matrix.rows = rows
  cols_eq : matrix.cols = cols
  ordered : matrix.entries.Pairwise Before
  within : ∀ entry ∈ matrix.entries, entry.row < rows ∧ entry.col < cols

/-- The rows and values from where a column starts up to where the next one does. -/
def column (matrix : Sparse α) (col : Nat) : List (Nat × α) :=
  ((matrix.rowIndices.zip matrix.values).drop (matrix.colOffsets.getD col 0)).take
    (matrix.colOffsets.getD (col + 1) 0 - matrix.colOffsets.getD col 0)

/-- The three lists of a matrix are a matrix in compressed columns, and the entries of each column
are those that the matrix has in it. -/
structure IsCompressed (matrix : Sparse α) : Prop where
  length_offsets : matrix.colOffsets.length = matrix.cols + 1
  start : matrix.colOffsets[0]? = some 0
  stop : matrix.colOffsets[matrix.cols]? = some matrix.stored
  nondecreasing : matrix.colOffsets.Pairwise (· ≤ ·)
  length_rows : matrix.rowIndices.length = matrix.stored
  length_values : matrix.values.length = matrix.stored
  rows_within : ∀ row ∈ matrix.rowIndices, row < matrix.rows
  /-- Inside of a column the rows are strictly increasing. -/
  increasing : ∀ col < matrix.cols,
    (matrix.column col).Pairwise fun upper lower => upper.1 < lower.1
  mem_column : ∀ col < matrix.cols, ∀ row value,
    (row, value) ∈ matrix.column col ↔ matrix.lookup row col = some value
  lookup_within : ∀ row col value, matrix.lookup row col = some value →
    row < matrix.rows ∧ col < matrix.cols

namespace StoredIn

variable {rows cols : Nat} {matrix : Sparse α}

theorem columns_ordered (stored : matrix.StoredIn rows cols) :
    matrix.entries.Pairwise fun left right => left.col ≤ right.col :=
  stored.ordered.imp Before.col_le

theorem colOffsets_eq (stored : matrix.StoredIn rows cols) :
    matrix.colOffsets = (List.range (cols + 1)).map fun col => countBefore col matrix.entries := by
  have walked := offsetsFrom_eq stored.columns_ordered cols 0
  rw [countBefore_zero, ← drop_countBefore stored.columns_ordered, countBefore_zero,
    List.drop_zero, ← List.range_eq_range'] at walked
  rw [colOffsets, stored.cols_eq, walked]

theorem getElem?_colOffsets (stored : matrix.StoredIn rows cols) {col : Nat} (inside : col ≤ cols) :
    matrix.colOffsets[col]? = some (countBefore col matrix.entries) := by
  rw [stored.colOffsets_eq, List.getElem?_map, List.getElem?_range (Nat.lt_succ_of_le inside)]
  rfl

theorem countBefore_cols (stored : matrix.StoredIn rows cols) :
    countBefore cols matrix.entries = matrix.stored :=
  List.countP_eq_length.mpr fun entry member => decide_eq_true (stored.within entry member).2

/-- What stands between two starts are the entries of a column. -/
theorem column_eq (stored : matrix.StoredIn rows cols) {col : Nat} (inside : col < cols) :
    matrix.column col =
      (inColumn col matrix.entries).map fun entry => (entry.row, entry.value) := by
  have here := stored.getElem?_colOffsets inside.le
  have next := stored.getElem?_colOffsets (Nat.succ_le_of_lt inside)
  rw [column, List.getD_eq_getElem?_getD, List.getD_eq_getElem?_getD, here, next, rowIndices,
    values, List.zip_map']
  simp only [Option.getD_some]
  rw [← List.map_drop, ← List.map_take, drop_countBefore stored.columns_ordered,
    fromColumn_eq stored.columns_ordered, Nat.succ_eq_add_one, countBefore_succ,
    Nat.add_sub_cancel_left, List.take_left]

theorem lookup_eq_some_iff (stored : matrix.StoredIn rows cols) {row col : Nat} {value : α} :
    matrix.lookup row col = some value ↔ ⟨row, col, value⟩ ∈ matrix.entries :=
  Sparse.lookup_eq_some_iff stored.ordered

/-- A matrix that is stored in order can be read in compressed columns. -/
theorem isCompressed (stored : matrix.StoredIn rows cols) : matrix.IsCompressed where
  length_offsets := by
    rw [stored.colOffsets_eq, List.length_map, List.length_range, stored.cols_eq]
  start := by rw [stored.getElem?_colOffsets (Nat.zero_le _), countBefore_zero]
  stop := by rw [stored.cols_eq, stored.getElem?_colOffsets le_rfl, stored.countBefore_cols]
  nondecreasing := by
    rw [stored.colOffsets_eq, List.pairwise_map]
    exact List.pairwise_lt_range.imp fun before => countBefore_mono before.le _
  length_rows := List.length_map ..
  length_values := List.length_map ..
  rows_within := by
    rw [stored.rows_eq]
    exact List.forall_mem_map.mpr fun entry member => (stored.within entry member).1
  increasing := by
    rw [stored.cols_eq]
    intro col inside
    rw [stored.column_eq inside, List.pairwise_map]
    refine (stored.ordered.filter _).imp_of_mem fun upperMember lowerMember before => ?_
    have upperHere := (mem_inColumn.mp upperMember).2
    have lowerHere := (mem_inColumn.mp lowerMember).2
    exact before.row_lt (upperHere.trans lowerHere.symm)
  mem_column := by
    rw [stored.cols_eq]
    intro col inside row value
    rw [stored.column_eq inside, stored.lookup_eq_some_iff, List.mem_map]
    constructor
    · rintro ⟨entry, member, same⟩
      obtain ⟨rfl, rfl⟩ := Prod.mk.inj same
      obtain ⟨listed, rfl⟩ := mem_inColumn.mp member
      exact listed
    · intro listed
      exact ⟨_, mem_inColumn.mpr ⟨listed, rfl⟩, rfl⟩
  lookup_within := by
    rw [stored.rows_eq, stored.cols_eq]
    intro row col value found
    exact stored.within _ (stored.lookup_eq_some_iff.mp found)

end StoredIn

/-! ### Assembling -/

theorem storedIn_assemble [Add α] {rows cols : Nat} {triplets : List (Triplet α)}
    (within : ∀ triplet ∈ triplets, triplet.row < rows ∧ triplet.col < cols) :
    (assemble rows cols triplets).StoredIn rows cols where
  rows_eq := rfl
  cols_eq := rfl
  ordered := assemble_pairwise rows cols triplets
  within := by
    intro entry member
    obtain ⟨named, namedMember, sameRow, sameCol⟩ := position_assemble member
    rw [← sameRow, ← sameCol]
    exact within named namedMember

end Sparse

/-- The triplets of parallel lists, as many as the shortest of them has. -/
def Triplet.ofLists (rowList colList : List Nat) (values : List α) : List (Triplet α) :=
  ((rowList.zip colList).zip values).map fun ((row, col), value) => ⟨row, col, value⟩

theorem Triplet.getElem?_ofLists {rowList colList : List Nat} {values : List α} {place : Nat}
    {triplet : Triplet α} :
    (Triplet.ofLists rowList colList values)[place]? = some triplet ↔
      rowList[place]? = some triplet.row ∧ colList[place]? = some triplet.col ∧
        values[place]? = some triplet.value := by
  obtain ⟨row, col, value⟩ := triplet
  rw [ofLists, List.getElem?_map, Option.map_eq_some_iff]
  constructor
  · rintro ⟨⟨⟨_, _⟩, _⟩, found, same⟩
    obtain ⟨rfl, rfl, rfl⟩ := Triplet.mk.inj same
    obtain ⟨positions, valueFound⟩ := List.getElem?_zip_eq_some.mp found
    obtain ⟨rowFound, colFound⟩ := List.getElem?_zip_eq_some.mp positions
    exact ⟨rowFound, colFound, valueFound⟩
  · rintro ⟨rowFound, colFound, valueFound⟩
    exact ⟨((row, col), value), List.getElem?_zip_eq_some.mpr
      ⟨List.getElem?_zip_eq_some.mpr ⟨rowFound, colFound⟩, valueFound⟩, rfl⟩

/-- A position is named where both of its coordinates stand and there is a value. -/
theorem Triplet.exists_mem_ofLists_iff {rowList colList : List Nat} {values : List α}
    {row col : Nat} :
    (∃ triplet ∈ Triplet.ofLists rowList colList values, triplet.row = row ∧ triplet.col = col) ↔
      ∃ place < values.length, rowList[place]? = some row ∧ colList[place]? = some col := by
  constructor
  · rintro ⟨triplet, member, rfl, rfl⟩
    obtain ⟨place, found⟩ := List.mem_iff_getElem?.mp member
    obtain ⟨rowFound, colFound, valueFound⟩ := Triplet.getElem?_ofLists.mp found
    exact ⟨place, (List.getElem?_eq_some_iff.mp valueFound).1, rowFound, colFound⟩
  · rintro ⟨place, inside, rowFound, colFound⟩
    exact ⟨⟨row, col, values[place]⟩, List.mem_iff_getElem?.mpr ⟨place,
      Triplet.getElem?_ofLists.mpr ⟨rowFound, colFound, List.getElem?_eq_getElem inside⟩⟩, rfl, rfl⟩

/-! ### Adding -/

theorem Triplet.contributions_append (row col : Nat) (left right : List (Triplet α)) :
    contributions row col (left ++ right) =
      contributions row col left ++ contributions row col right := by
  rw [contributions, List.filter_append, List.map_append]
  rfl

namespace Sparse

/-- In order, a position has the value that is stored there and no other. -/
theorem contributions_eq_lookup {rows cols : Nat} {entries : List (Triplet α)}
    (ordered : entries.Pairwise Before) (row col : Nat) :
    contributions row col entries = (lookup ⟨rows, cols, entries⟩ row col).toList := by
  induction entries with
  | nil => rfl
  | cons first rest inductionHypothesis =>
    obtain ⟨least, orderedRest⟩ := List.pairwise_cons.mp ordered
    rw [contributions_cons, lookup_cons]
    split
    · rename_i here
      obtain ⟨rfl, rfl⟩ := here
      have nothing : contributions first.row first.col rest = [] :=
        contributions_eq_nil fun entry member => (least entry member).apart
      rw [nothing]
      rfl
    · exact inductionHypothesis orderedRest

variable [Add α] {rows cols : Nat} {left right : Sparse α}

/-- Two values at one position are added, and one alone is kept. -/
theorem lookup_assemble_append (leftStored : left.StoredIn rows cols)
    (rightStored : right.StoredIn rows cols) (row col : Nat) :
    (assemble rows cols (left.entries ++ right.entries)).lookup row col =
      Option.merge (· + ·) (left.lookup row col) (right.lookup row col) := by
  have fromLeft : contributions row col left.entries = (left.lookup row col).toList :=
    contributions_eq_lookup leftStored.ordered row col
  have fromRight : contributions row col right.entries = (right.lookup row col).toList :=
    contributions_eq_lookup rightStored.ordered row col
  rw [lookup_assemble, contributions_append, fromLeft, fromRight]
  cases left.lookup row col <;> cases right.lookup row col <;> rfl

/-- Matrices of equal extents can be added, entry by entry. -/
theorem StoredIn.add_eq_ok (leftStored : left.StoredIn rows cols)
    (rightStored : right.StoredIn rows cols) :
    left.add right = .ok (assemble rows cols (left.entries ++ right.entries)) ∧
      (assemble rows cols (left.entries ++ right.entries)).StoredIn rows cols := by
  have within := List.forall_mem_append.mpr ⟨leftStored.within, rightStored.within⟩
  refine ⟨?_, storedIn_assemble within⟩
  rw [add, leftStored.rows_eq, leftStored.cols_eq]
  exact ofTriplets_eq_ok_iff.mpr ⟨rfl, within⟩

/-- Parallel lists whose triplets lie inside of a matrix are assembled to it in compressed columns.
A position is stored exactly if it was named, with the sum of its values in the order in which they
were given. The sum of two matrices of these extents is one in compressed columns that stores what
either stores, with the sum of two values where both do. -/
theorem compressed_ofLists (rows cols : Nat) :
    (∀ (rowList colList : List Nat) (values : List α),
      (∀ triplet ∈ Triplet.ofLists rowList colList values,
        triplet.row < rows ∧ triplet.col < cols) →
      ∃ matrix, ofLists rows cols rowList colList values = .ok matrix ∧
        matrix.StoredIn rows cols ∧ matrix.IsCompressed ∧
        (∀ row col, (∃ value, matrix.lookup row col = some value) ↔
          ∃ place < values.length, rowList[place]? = some row ∧ colList[place]? = some col) ∧
        ∀ row col, matrix.lookup row col =
          sumFromFirst? (contributions row col (Triplet.ofLists rowList colList values))) ∧
    ∀ left right : Sparse α, left.StoredIn rows cols → right.StoredIn rows cols →
      ∃ sum, left.add right = .ok sum ∧ sum.StoredIn rows cols ∧ sum.IsCompressed ∧
        ∀ row col, sum.lookup row col =
          Option.merge (· + ·) (left.lookup row col) (right.lookup row col) := by
  refine ⟨fun rowList colList values within => ?_, fun left right leftStored rightStored => ?_⟩
  · have stored := storedIn_assemble within
    refine ⟨_, ofTriplets_eq_ok_iff.mpr ⟨rfl, within⟩, stored, stored.isCompressed,
      fun row col => ?_, lookup_assemble rows cols _⟩
    rw [← Triplet.exists_mem_ofLists_iff]
    constructor
    · rintro ⟨value, found⟩
      exact position_assemble (stored.lookup_eq_some_iff.mp found)
    · rintro ⟨named, member, rfl, rfl⟩
      obtain ⟨entry, entryMember, sameRow, sameCol⟩ := exists_assemble rows cols member
      rw [sameRow, sameCol]
      exact ⟨entry.value, stored.lookup_eq_some_iff.mpr entryMember⟩
  · obtain ⟨added, stored⟩ := leftStored.add_eq_ok rightStored
    exact ⟨_, added, stored, stored.isCompressed, lookup_assemble_append leftStored rightStored⟩

/-- Two values that cancel leave a zero behind, which is not the same as nothing. -/
theorem compressed_ofLists_cancelled :
    (∀ triplet ∈ Triplet.ofLists [1, 0, 1, 0] [2, 0, 2, 0, 5] [(3 : Int), 1, -3],
      triplet.row < 2 ∧ triplet.col < 3) ∧
    ∃ matrix : Sparse Int, ofLists 2 3 [1, 0, 1, 0] [2, 0, 2, 0, 5] [3, 1, -3] = .ok matrix ∧
      matrix.IsCompressed ∧ matrix.lookup 1 2 = some 0 ∧ matrix.lookup 0 1 = none ∧
      ∃ sum, matrix.add matrix = .ok sum ∧ sum.IsCompressed ∧ sum.lookup 0 0 = some 2 := by
  have within : ∀ triplet ∈ Triplet.ofLists [1, 0, 1, 0] [2, 0, 2, 0, 5] [(3 : Int), 1, -3],
      triplet.row < 2 ∧ triplet.col < 3 := by
    simp [Triplet.ofLists]
  obtain ⟨assembles, adds⟩ := compressed_ofLists (α := Int) 2 3
  obtain ⟨matrix, assembled, stored, compressed, _, found⟩ := assembles _ _ _ within
  obtain ⟨sum, added, _, sumCompressed, sumFound⟩ := adds matrix matrix stored stored
  refine ⟨within, matrix, assembled, compressed, (found 1 2).trans rfl, (found 0 1).trans rfl,
    sum, added, sumCompressed, ?_⟩
  rw [sumFound, found]
  rfl

end Sparse

end BlockCone
