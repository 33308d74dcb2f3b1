/-
This file says that linear forms are added as what they stand for.

A form has at most one row for each column at which a row may start, so it is known by what is found
there. In a sum one finds the row that either form has alone, or, where both have one, the row that
the entries of the two assemble to together. That description has the laws of addition: the entries
of two rows may change places, and assembling what was assembled before is assembling all of it at
once, because in exact arithmetic a row is known by the positions that were named and by the sums of
what was given for them. A position whose value is zero stays named.

What a form is worth at a vector follows its rows into the sum. Adding one row to a form adds its
worth, whether it finds its place among the others or meets a row there, and the rows of the second
form come one after another. A vector that is long enough for both forms is so for the sum, where no
coefficient is other than zero if it is zero in both.

The columns that a solver is given are all entries of all rows, moved to where the row starts.
Entries of different rows may land on the same column; sorting keeps each of them and only those
that are zero are left out.
-/

import BlockCone.Proofs.PlainFold

namespace BlockCone

variable {K : Type} [ExactScalar K]

/-! ### Rows of a sum -/

namespace Sparse

/-- The sum of two rows weighs what both weigh. -/
theorem weighed_rowEntries_add {left right sum : Sparse K} (added : left.add right = .ok sum)
    (level : Nat → K) :
    weighed sum.rowEntries level =
      weighed left.rowEntries level + weighed right.rowEntries level := by
  obtain ⟨rfl, _⟩ := ofTriplets_eq_ok_iff.mp added
  simp only [Expr.weighed_rowEntries, tripletSum_assemble, tripletSum_append]

end Sparse

namespace LinearForm

/-- A form whose rows start at increasing columns. A row that starts at a column has a length that
depends on the column, and is stored in order. -/
structure StoredIn (size : Nat → Nat) (form : LinearForm K) : Prop where
  increasing : form.rows.Pairwise fun first second => first.1 < second.1
  row : ∀ entry ∈ form.rows, entry.2.StoredIn 1 (size entry.1)

/-- The row of a sum at a column, from the rows that the two forms have there. -/
def joined (size : Nat) : Option (Sparse K) → Option (Sparse K) → Option (Sparse K) :=
  Option.merge fun left right => .assemble 1 size (left.entries ++ right.entries)

theorem joined_comm (size : Nat) (left right : Option (Sparse K)) :
    joined size left right = joined size right left := by
  cases left with
  | none => cases right <;> rfl
  | some left =>
    cases right with
    | none => rfl
    | some right => exact congrArg some (Sparse.assemble_perm List.perm_append_comm)

theorem joined_assoc (size : Nat) (left middle right : Option (Sparse K)) :
    joined size (joined size left middle) right = joined size left (joined size middle right) := by
  cases left with
  | none => cases middle <;> cases right <;> rfl
  | some left =>
    cases middle with
    | none => cases right <;> rfl
    | some middle =>
      cases right with
      | none => rfl
      | some right =>
        refine congrArg some ?_
        show Sparse.assemble 1 size ((Sparse.assemble 1 size _).entries ++ right.entries) =
          Sparse.assemble 1 size (left.entries ++ (Sparse.assemble 1 size _).entries)
        rw [Sparse.assemble_assemble_append, Sparse.assemble_append_assemble, List.append_assoc]

/-- A row of a sum comes from one form alone or from both. -/
theorem joined_eq_some {size : Nat} {left right : Option (Sparse K)} {row : Sparse K}
    (found : joined size left right = some row) :
    left = some row ∨ right = some row ∨ ∃ present other, left = some present ∧
      right = some other ∧ Sparse.assemble 1 size (present.entries ++ other.entries) = row := by
  cases left with
  | none =>
    cases right with
    | none => cases found
    | some other => exact Or.inr (Or.inl found)
  | some present =>
    cases right with
    | none => exact Or.inl found
    | some other => exact Or.inr (Or.inr ⟨present, other, rfl, rfl, Option.some.inj found⟩)

/-- If two values do not cancel, or one stands alone, one of them is not zero. -/
theorem exists_ne_zero_of_merge {left right : Option K} {value : K}
    (merged : Option.merge (· + ·) left right = some value) (nonzero : value ≠ 0) :
    (∃ part, left = some part ∧ part ≠ 0) ∨ ∃ part, right = some part ∧ part ≠ 0 := by
  cases left with
  | none =>
    cases right with
    | none => cases merged
    | some second => exact Or.inr ⟨value, merged, nonzero⟩
  | some first =>
    cases right with
    | none => exact Or.inl ⟨value, merged, nonzero⟩
    | some second =>
      have sum : first + second = value := Option.some.inj merged
      by_cases vanishes : first = 0
      · rw [vanishes, zero_add] at sum
        exact Or.inr ⟨second, rfl, sum ▸ nonzero⟩
      · exact Or.inl ⟨first, rfl, vanishes⟩

namespace StoredIn

variable {size : Nat → Nat} {form left right : LinearForm K}

theorem zero : (LinearForm.zero : LinearForm K).StoredIn size where
  increasing := List.Pairwise.nil
  row := fun _ member => absurd member List.not_mem_nil

omit [ExactScalar K] in
theorem row_of_lookup (stored : form.StoredIn size) {offset : Nat} {row : Sparse K}
    (found : form.rows.lookup offset = some row) : row.StoredIn 1 (size offset) :=
  stored.row _ ((lookup_eq_some_iff stored.increasing).mp found)

/-- The rows at a column join to the row of the sum. -/
theorem joins (leftStored : left.StoredIn size) (rightStored : right.StoredIn size)
    (offset : Nat) : Joins (left.rows.lookup offset) (right.rows.lookup offset)
      (joined (size offset) (left.rows.lookup offset) (right.rows.lookup offset)) := by
  cases leftFound : left.rows.lookup offset with
  | none =>
    cases right.rows.lookup offset with
    | none => exact .keep none
    | some row => exact .put row
  | some present =>
    cases rightFound : right.rows.lookup offset with
    | none => exact .keep (some present)
    | some row =>
      have added := (leftStored.row_of_lookup leftFound).add_eq_ok
        (rightStored.row_of_lookup rightFound)
      exact .merge added.1

theorem joined_storedIn (leftStored : left.StoredIn size) (rightStored : right.StoredIn size)
    {offset : Nat} {row : Sparse K}
    (found : joined (size offset) (left.rows.lookup offset) (right.rows.lookup offset) =
      some row) : row.StoredIn 1 (size offset) := by
  rcases joined_eq_some found with alone | alone | ⟨present, other, here, there, rfl⟩
  · exact leftStored.row_of_lookup alone
  · exact rightStored.row_of_lookup alone
  · exact ((leftStored.row_of_lookup here).add_eq_ok (rightStored.row_of_lookup there)).2

/-- Two forms add up to one that has the joined rows, and the sum of the constants. -/
theorem exists_add (leftStored : left.StoredIn size) (rightStored : right.StoredIn size) :
    ∃ sum, left.add right = .ok sum ∧ sum.StoredIn size ∧
      (∀ offset, sum.rows.lookup offset =
        joined (size offset) (left.rows.lookup offset) (right.rows.lookup offset)) ∧
      sum.constant = left.constant + right.constant := by
  obtain ⟨merged, computed, increasing, found⟩ :=
    foldlM_insertRow_eq_ok leftStored.increasing rightStored.increasing
      (leftStored.joins rightStored)
  refine ⟨⟨merged, left.constant + right.constant⟩, ?_, ⟨increasing, ?_⟩, found, rfl⟩
  · rw [LinearForm.add, computed]
    rfl
  · intro entry member
    have here := (lookup_eq_some_iff increasing).mpr member
    exact leftStored.joined_storedIn rightStored ((found entry.1).symm.trans here)

/-! ### Laws of addition -/

theorem add_swap (leftStored : left.StoredIn size) (rightStored : right.StoredIn size) :
    right.add left = left.add right := by
  obtain ⟨sum, added, stored, rows, constant⟩ := leftStored.exists_add rightStored
  obtain ⟨other, otherAdded, otherStored, otherRows, otherConstant⟩ :=
    rightStored.exists_add leftStored
  have same : other = sum := by
    refine eq_of_lookup_rows_eq otherStored.increasing stored.increasing (fun offset => ?_) ?_
    · rw [otherRows, rows, joined_comm]
    · rw [otherConstant, constant, add_comm]
  rw [added, otherAdded, same]

theorem zero_add_eq_ok (stored : form.StoredIn size) :
    LinearForm.zero.add form = .ok form := by
  obtain ⟨sum, added, sumStored, rows, constant⟩ := StoredIn.zero.exists_add stored
  have same : sum = form := by
    refine eq_of_lookup_rows_eq sumStored.increasing stored.increasing (fun offset => ?_) ?_
    · rw [rows]
      cases form.rows.lookup offset <;> rfl
    · exact constant.trans (zero_add _)
  rw [added, same]

/-- Three forms add up to the same from the left and from the right. -/
theorem add_regroup {first second third : LinearForm K} (firstStored : first.StoredIn size)
    (secondStored : second.StoredIn size) (thirdStored : third.StoredIn size) :
    ∃ total, (first.add second >>= fun sum => sum.add third) = .ok total ∧
      (second.add third >>= fun sum => first.add sum) = .ok total := by
  obtain ⟨early, earlyAdded, earlyStored, earlyRows, earlyConstant⟩ :=
    firstStored.exists_add secondStored
  obtain ⟨total, added, stored, rows, constant⟩ := earlyStored.exists_add thirdStored
  obtain ⟨late, lateAdded, lateStored, lateRows, lateConstant⟩ :=
    secondStored.exists_add thirdStored
  obtain ⟨other, otherAdded, otherStored, otherRows, otherConstant⟩ :=
    firstStored.exists_add lateStored
  have same : other = total := by
    refine eq_of_lookup_rows_eq otherStored.increasing stored.increasing (fun offset => ?_) ?_
    · rw [otherRows, lateRows, rows, earlyRows, joined_assoc]
    · rw [otherConstant, lateConstant, constant, earlyConstant, add_assoc]
  refine ⟨total, ?_, ?_⟩
  · rw [earlyAdded]
    exact added
  · rw [lateAdded, ← same]
    exact otherAdded

end StoredIn

/-! ### Columns -/

/-- The entries of a row over the columns of all variables together. -/
def landing (entry : Nat × Sparse K) : List (Nat × K) :=
  entry.2.rowEntries.map fun coeff => (entry.1 + coeff.1, coeff.2)

theorem mem_columns_iff {form : LinearForm K} {coeff : Nat × K} :
    coeff ∈ form.columns ↔ coeff.2 ≠ 0 ∧ ∃ entry ∈ form.rows, coeff ∈ landing entry := by
  rw [columns, List.mem_mergeSort, List.mem_filter, List.mem_flatMap, and_comm]
  simp [landing]

/-- Neither the order of the columns nor those that are left out matter to what they weigh. -/
theorem weighed_columns (form : LinearForm K) (level : Nat → K) :
    weighed form.columns level = weighed (form.rows.flatMap landing) level := by
  rw [columns, weighed_perm (List.mergeSort_perm _ _), weighed_filter_nonzero]
  rfl

/-- The sum of the coefficients at a column. -/
def totalAt (col : Nat) (coeffs : List (Nat × K)) : K :=
  ((coeffs.filter fun coeff => coeff.1 == col).map Prod.snd).sum

theorem totalAt_eq_weighed (col : Nat) (coeffs : List (Nat × K)) :
    totalAt col coeffs = weighed coeffs (unitAt col) := by
  induction coeffs with
  | nil => rfl
  | cons first rest inductionHypothesis =>
    rw [totalAt] at inductionHypothesis ⊢
    rw [weighed_cons, unitAt, List.filter_cons]
    by_cases here : first.1 = col
    · rw [if_pos (by simpa using here), if_pos here, List.map_cons, List.sum_cons,
        inductionHypothesis, mul_one]
    · rw [if_neg (by simpa using here), if_neg here, inductionHypothesis, mul_zero,
        zero_add]

/-- The columns of a form are sorted and none of them is zero, and at every column they come to
what the rows bring there. -/
structure Collected (form : LinearForm K) : Prop where
  sorted : form.columns.Pairwise fun left right => left.1 ≤ right.1
  nonzero : ∀ coeff ∈ form.columns, coeff.2 ≠ 0
  total : ∀ col, totalAt col form.columns =
    (form.rows.map fun entry => totalAt col (landing entry)).sum

theorem collected (form : LinearForm K) : form.Collected where
  sorted := by
    have sorted : form.columns.Pairwise fun left right => decide (left.1 ≤ right.1) :=
      List.pairwise_mergeSort (fun _ _ _ => by simpa using Nat.le_trans)
        (fun left right => by simpa using Nat.le_total left.1 right.1) _
    exact sorted.imp of_decide_eq_true
  nonzero := fun _ member => (mem_columns_iff.mp member).1
  total := by
    intro col
    rw [totalAt_eq_weighed, weighed_columns, weighed_flatMap]
    simp only [totalAt_eq_weighed]

/-! ### Worth -/

/-- Adding a row to others adds what it weighs. -/
theorem weighed_insertRow {offset : Nat} {row : Sparse K} {rows inserted : List (Nat × Sparse K)}
    (computed : insertRow offset row rows = .ok inserted) (level : Nat → K) :
    weighed (inserted.flatMap landing) level =
      weighed (rows.flatMap landing) level + weighed (landing (offset, row)) level := by
  induction rows generalizing inserted with
  | nil =>
    obtain rfl := Except.ok.inj computed
    rw [List.flatMap_singleton, List.flatMap_nil, weighed_nil, zero_add]
  | cons first rest inductionHypothesis =>
    obtain ⟨other, present⟩ := first
    rw [insertRow] at computed
    split at computed
    · obtain rfl := Except.ok.inj computed
      rw [List.flatMap_cons, weighed_append, add_comm]
    · split at computed
      · rename_i same
        subst same
        obtain ⟨sum, added, rest⟩ := bind_eq_ok_iff.mp computed
        obtain rfl := Except.ok.inj rest
        have joinedWeight : weighed (landing (offset, sum)) level =
            weighed (landing (offset, present)) level + weighed (landing (offset, row)) level := by
          simp only [landing, weighed_shift, Sparse.weighed_rowEntries_add added]
        rw [List.flatMap_cons, List.flatMap_cons, weighed_append, weighed_append, joinedWeight,
          add_right_comm]
      · obtain ⟨merged, deeper, rest⟩ := bind_eq_ok_iff.mp computed
        obtain rfl := Except.ok.inj rest
        rw [List.flatMap_cons, List.flatMap_cons, weighed_append, weighed_append,
          inductionHypothesis deeper, add_assoc]

/-- Adding rows one after another adds what each of them weighs. -/
theorem weighed_foldlM_insertRow {left right merged : List (Nat × Sparse K)}
    (computed : right.foldlM (fun rows (offset, row) => insertRow offset row rows) left =
      .ok merged) (level : Nat → K) :
    weighed (merged.flatMap landing) level =
      weighed (left.flatMap landing) level + weighed (right.flatMap landing) level := by
  induction right generalizing left with
  | nil =>
    obtain rfl := Except.ok.inj computed
    rw [List.flatMap_nil, weighed_nil, add_zero]
  | cons first rest inductionHypothesis =>
    rw [List.foldlM_cons] at computed
    obtain ⟨inserted, here, later⟩ := bind_eq_ok_iff.mp computed
    rw [inductionHypothesis later, weighed_insertRow here, List.flatMap_cons, weighed_append,
      add_assoc]

/-- The columns of a sum weigh what those of both forms weigh. -/
theorem weighed_columns_add {left right sum : LinearForm K} (added : left.add right = .ok sum)
    (level : Nat → K) :
    weighed sum.columns level = weighed left.columns level + weighed right.columns level := by
  obtain ⟨merged, computed, rest⟩ := bind_eq_ok_iff.mp added
  obtain rfl := Except.ok.inj rest
  simp only [weighed_columns]
  exact weighed_foldlM_insertRow computed level

/-- A vector has an entry for each column of a form. -/
def Reaches (form : LinearForm K) (point : Array K) : Prop :=
  ∀ coeff ∈ form.columns, coeff.1 < point.size

theorem evaluate_eq_ok {form : LinearForm K} {point : Array K} (reaches : form.Reaches point) :
    form.evaluate point = .ok (weighed form.columns (entryOf point) + form.constant) := by
  rw [evaluate, weighedSum_exact reaches]
  rfl

namespace StoredIn

variable {size : Nat → Nat} {form left right sum : LinearForm K}

/-- The columns of a form are those of its rows at which a value other than zero is stored. -/
theorem exists_mem_columns_iff (stored : form.StoredIn size) {column : Nat} :
    (∃ coeff ∈ form.columns, coeff.1 = column) ↔
      ∃ offset row col value, form.rows.lookup offset = some row ∧
        row.lookup 0 col = some value ∧ value ≠ 0 ∧ offset + col = column := by
  constructor
  · rintro ⟨coeff, member, rfl⟩
    obtain ⟨nonzero, ⟨offset, row⟩, rowMember, landed⟩ := mem_columns_iff.mp member
    obtain ⟨_, listed, rfl⟩ := List.mem_map.mp landed
    obtain ⟨⟨entryRow, col, value⟩, entryMember, rfl⟩ := List.mem_map.mp listed
    have rowStored := stored.row _ rowMember
    obtain rfl : entryRow = 0 := Nat.lt_one_iff.mp (rowStored.within _ entryMember).1
    exact ⟨offset, row, col, value, (lookup_eq_some_iff stored.increasing).mpr rowMember,
      rowStored.lookup_eq_some_iff.mpr entryMember, nonzero, rfl⟩
  · rintro ⟨offset, row, col, value, found, valueFound, nonzero, rfl⟩
    have entryMember := (stored.row_of_lookup found).lookup_eq_some_iff.mp valueFound
    have landed : (offset + col, value) ∈ landing (offset, row) :=
      List.mem_map.mpr ⟨(col, value), List.mem_map.mpr ⟨_, entryMember, rfl⟩, rfl⟩
    exact ⟨_, mem_columns_iff.mpr ⟨nonzero, _,
      (lookup_eq_some_iff stored.increasing).mp found, landed⟩, rfl⟩

/-- What is long enough for two forms is long enough for their sum. -/
theorem reaches_add (leftStored : left.StoredIn size) (rightStored : right.StoredIn size)
    (added : left.add right = .ok sum) {point : Array K} (leftReaches : left.Reaches point)
    (rightReaches : right.Reaches point) : sum.Reaches point := by
  obtain ⟨_, computed, sumStored, rows, _⟩ := leftStored.exists_add rightStored
  obtain rfl := Except.ok.inj (computed.symm.trans added)
  intro coeff member
  obtain ⟨offset, row, col, value, found, valueFound, nonzero, lands⟩ :=
    sumStored.exists_mem_columns_iff.mp ⟨coeff, member, rfl⟩
  -- it is enough to find the column in one of the two forms
  suffices named : (∃ other ∈ left.columns, other.1 = coeff.1) ∨
      ∃ other ∈ right.columns, other.1 = coeff.1 by
    rcases named with ⟨other, listed, same⟩ | ⟨other, listed, same⟩
    · exact same ▸ leftReaches other listed
    · exact same ▸ rightReaches other listed
  rw [leftStored.exists_mem_columns_iff, rightStored.exists_mem_columns_iff]
  rw [rows] at found
  rcases joined_eq_some found with alone | alone | ⟨present, other, here, there, rfl⟩
  · exact Or.inl ⟨offset, row, col, value, alone, valueFound, nonzero, lands⟩
  · exact Or.inr ⟨offset, row, col, value, alone, valueFound, nonzero, lands⟩
  · rw [Sparse.lookup_assemble_append (leftStored.row_of_lookup here)
      (rightStored.row_of_lookup there)] at valueFound
    rcases exists_ne_zero_of_merge valueFound nonzero with
      ⟨part, stands, partNonzero⟩ | ⟨part, stands, partNonzero⟩
    · exact Or.inl ⟨offset, present, col, part, here, stands, partNonzero, lands⟩
    · exact Or.inr ⟨offset, other, col, part, there, stands, partNonzero, lands⟩

end StoredIn

/-- Forms whose rows at a common column have one length add up, and a sum is worth what its parts
are worth at every vector that is long enough for both. As forms, with their rows, the stored
positions, the values and the constant, the sums do not depend on the order or the grouping of the
parts, and the form without rows adds nothing. The columns of a form are sorted and not zero, and
come to what all rows bring to each column. -/
theorem add_homomorphic {size : Nat → Nat} {first second third : LinearForm K}
    (firstStored : first.StoredIn size) (secondStored : second.StoredIn size)
    (thirdStored : third.StoredIn size) :
    (∃ sum, first.add second = .ok sum ∧ second.add first = .ok sum ∧ sum.StoredIn size ∧
      ∀ point, first.Reaches point → second.Reaches point →
        ∃ firstValue secondValue, first.evaluate point = .ok firstValue ∧
          second.evaluate point = .ok secondValue ∧
          sum.evaluate point = .ok (firstValue + secondValue)) ∧
      (∃ total, (first.add second >>= fun sum => sum.add third) = .ok total ∧
        (second.add third >>= fun sum => first.add sum) = .ok total) ∧
      (zero.add first = .ok first ∧ first.add zero = .ok first) ∧ first.Collected := by
  refine ⟨?_, firstStored.add_regroup secondStored thirdStored, ⟨firstStored.zero_add_eq_ok, ?_⟩,
    first.collected⟩
  · obtain ⟨sum, added, stored, _, constant⟩ := firstStored.exists_add secondStored
    refine ⟨sum, added, (firstStored.add_swap secondStored).trans added, stored,
      fun point firstReaches secondReaches => ?_⟩
    refine ⟨_, _, evaluate_eq_ok firstReaches, evaluate_eq_ok secondReaches, ?_⟩
    rw [evaluate_eq_ok (firstStored.reaches_add secondStored added firstReaches secondReaches),
      weighed_columns_add added, constant, add_add_add_comm]
  · rw [StoredIn.zero.add_swap firstStored, firstStored.zero_add_eq_ok]

end LinearForm

namespace Sample

/-- Two rows that land on a common column, where they cancel. One of them stores a zero. -/
def overlapping : LinearForm ℚ :=
  ⟨[(0, ⟨1, 3, [⟨0, 0, 1⟩, ⟨0, 2, 2⟩]⟩), (2, ⟨1, 2, [⟨0, 0, -2⟩, ⟨0, 1, 0⟩]⟩)], 1⟩

/-- A row that takes back an entry of the first of them. -/
def cancelling : LinearForm ℚ := ⟨[(0, ⟨1, 3, [⟨0, 0, -1⟩]⟩)], 2⟩

/-- The lengths of their rows. -/
def rowLength (offset : Nat) : Nat := if offset = 0 then 3 else 2

theorem overlapping_storedIn : overlapping.StoredIn rowLength where
  increasing := by simp [overlapping]
  row := by
    intro entry member
    simp only [overlapping, List.mem_cons, List.not_mem_nil, or_false] at member
    rcases member with rfl | rfl <;>
      exact ⟨rfl, rfl, by simp [Triplet.Before], by simp [rowLength]⟩

theorem cancelling_storedIn : cancelling.StoredIn rowLength where
  increasing := by simp [cancelling]
  row := by
    intro entry member
    obtain rfl := List.mem_singleton.mp member
    exact ⟨rfl, rfl, by simp, by simp [rowLength]⟩

end Sample

/-- Overlapping rows and one that cancels, at a vector. -/
theorem LinearForm.add_homomorphic_overlapping :
    Sample.overlapping.StoredIn Sample.rowLength ∧ Sample.cancelling.StoredIn Sample.rowLength ∧
      Sample.overlapping.Reaches #[1, 2, 3, 4] ∧ Sample.cancelling.Reaches #[1, 2, 3, 4] ∧
      ∃ sum, Sample.overlapping.add Sample.cancelling = .ok sum ∧
        Sample.cancelling.add Sample.overlapping = .ok sum ∧
        ∃ left right, Sample.overlapping.evaluate #[1, 2, 3, 4] = .ok left ∧
          Sample.cancelling.evaluate #[1, 2, 3, 4] = .ok right ∧
          sum.evaluate #[1, 2, 3, 4] = .ok (left + right) := by
  have reached : ∀ form ∈ [Sample.overlapping, Sample.cancelling],
      form.Reaches #[1, 2, 3, 4] := by
    intro form member coeff listed
    obtain ⟨_, entry, entryMember, landed⟩ := mem_columns_iff.mp listed
    simp only [List.mem_cons, List.not_mem_nil, or_false] at member
    rcases member with rfl | rfl <;>
      simp [Sample.overlapping, Sample.cancelling] at entryMember <;>
      rcases entryMember with rfl | rfl <;>
      simp [landing, Sparse.rowEntries] at landed <;>
      rcases landed with rfl | rfl <;> simp
  have leftReaches := reached Sample.overlapping (by simp)
  have rightReaches := reached Sample.cancelling (by simp)
  obtain ⟨⟨sum, added, swapped, _, worth⟩, _⟩ := LinearForm.add_homomorphic
    Sample.overlapping_storedIn Sample.cancelling_storedIn Sample.overlapping_storedIn
  exact ⟨Sample.overlapping_storedIn, Sample.cancelling_storedIn, leftReaches, rightReaches, sum,
    added, swapped, worth _ leftReaches rightReaches⟩

end BlockCone
