/-
This file proves that linearizing an expression is the same as adding it up from its parts.

Read plainly, the linear form of an expression is built by recursion: a number is a constant form,
an inner product a form with one row, and a sum adds the forms of its parts one by one. Linearizing
takes the leaves in another order and assembles each row only once. Both meet in what they hold.
For each column at which a variable starts there is a row exactly if some term has a variable that
starts there, and the row is the one that all coefficients of these terms assemble to; the constant
is the sum of all numbers. `Sums` says that of a form.

A form is known by what it sums. Adding two forms sums the terms of both, because assembling the
entries of two assembled rows gives what their coefficients assemble to together: a position is
stored if it was named, be its value zero or not, and in exact arithmetic its value is the sum of
all that was named there. For the same reason the order of the terms does not matter.
-/

import BlockCone.Proofs.CompressedColumns
import BlockCone.Proofs.Traversal

namespace BlockCone

/-! ### Assembling what was assembled -/

section Exact

variable {K : Type}

/-- A position is named by one of some triplets. -/
def Named (triplets : List (Triplet K)) (row col : Nat) : Prop :=
  ∃ triplet ∈ triplets, triplet.row = row ∧ triplet.col = col

theorem named_append {left right : List (Triplet K)} {row col : Nat} :
    Named (left ++ right) row col ↔ Named left row col ∨ Named right row col := by
  simp only [Named, List.mem_append, or_and_right, exists_or]

variable [ExactScalar K]

/-- One at a position and zero elsewhere. -/
def positionAt (row col otherRow otherCol : Nat) : K :=
  if otherRow = row ∧ otherCol = col then 1 else 0

/-- The sum over a position that is stored once is the value that is stored. -/
theorem tripletSum_positionAt {entries : List (Triplet K)}
    (sorted : entries.Pairwise Triplet.Before) {stored : Triplet K} (member : stored ∈ entries) :
    tripletSum entries (positionAt stored.row stored.col) = stored.value := by
  induction entries with
  | nil => exact absurd member List.not_mem_nil
  | cons first rest inductionHypothesis =>
    obtain ⟨least, sortedRest⟩ := List.pairwise_cons.mp sorted
    rw [tripletSum_cons]
    rcases List.mem_cons.mp member with rfl | later
    · have absent : tripletSum rest (positionAt stored.row stored.col) = 0 := by
        refine List.sum_eq_zero fun value listed => ?_
        obtain ⟨entry, entryMember, rfl⟩ := List.mem_map.mp listed
        rw [positionAt, if_neg (least entry entryMember).apart, mul_zero]
      rw [absent, positionAt, if_pos ⟨rfl, rfl⟩, mul_one, add_zero]
    · have elsewhere : ¬ (first.row = stored.row ∧ first.col = stored.col) :=
        fun same => (least stored later).apart ⟨same.1.symm, same.2.symm⟩
      rw [inductionHypothesis sortedRest later, positionAt, if_neg elsewhere, mul_zero, zero_add]

namespace Sparse

theorem named_assemble {rows cols : Nat} {triplets : List (Triplet K)} {row col : Nat} :
    Named (assemble rows cols triplets).entries row col ↔ Named triplets row col := by
  constructor
  · rintro ⟨stored, member, rfl, rfl⟩
    exact position_assemble member
  · rintro ⟨named, member, rfl, rfl⟩
    obtain ⟨stored, storedMember, sameRow, sameCol⟩ := exists_assemble rows cols member
    exact ⟨stored, storedMember, sameRow.symm, sameCol.symm⟩

/-- What is stored are the named positions, each with the sum of what was named there. -/
theorem mem_assemble_iff {rows cols : Nat} {triplets : List (Triplet K)} {stored : Triplet K} :
    stored ∈ (assemble rows cols triplets).entries ↔
      Named triplets stored.row stored.col ∧
        stored.value = tripletSum triplets (positionAt stored.row stored.col) := by
  have valueOf : ∀ entry ∈ (assemble rows cols triplets).entries,
      entry.value = tripletSum triplets (positionAt entry.row entry.col) := by
    intro entry member
    rw [← tripletSum_assemble rows cols]
    exact (tripletSum_positionAt (assemble_pairwise rows cols triplets) member).symm
  constructor
  · intro member
    exact ⟨position_assemble member, valueOf stored member⟩
  · rintro ⟨⟨named, namedMember, sameRow, sameCol⟩, value⟩
    obtain ⟨entry, member, row, col⟩ := exists_assemble rows cols namedMember
    have own := valueOf entry member
    rw [← row, ← col, sameRow, sameCol, ← value] at own
    have same : entry = stored := by
      obtain ⟨entryRow, entryCol, entryValue⟩ := entry
      obtain ⟨storedRow, storedCol, storedValue⟩ := stored
      simp only at row col own sameRow sameCol
      rw [← row, ← col, sameRow, sameCol, own]
    rwa [← same]

/-- Triplets that name the same positions and have the same sums assemble to the same matrix. -/
theorem assemble_congr {rows cols : Nat} {left right : List (Triplet K)}
    (samePositions : ∀ row col, Named left row col ↔ Named right row col)
    (sameSums : ∀ factor, tripletSum left factor = tripletSum right factor) :
    assemble rows cols left = assemble rows cols right := by
  have irreflexive : Std.Irrefl (Triplet.Before (α := K)) :=
    ⟨fun _ before => before.asymm before⟩
  have antisymmetric : Std.Antisymm (Triplet.Before (α := K)) :=
    ⟨fun _ _ before after => absurd after before.asymm⟩
  have sameEntries : (assemble rows cols left).entries = (assemble rows cols right).entries :=
    (assemble_pairwise rows cols left).eq_of_mem_iff (assemble_pairwise rows cols right)
      fun stored => by rw [mem_assemble_iff, mem_assemble_iff, samePositions, sameSums]
  exact congrArg (Sparse.mk rows cols) sameEntries

theorem assemble_perm {rows cols : Nat} {left right : List (Triplet K)} (same : left.Perm right) :
    assemble rows cols left = assemble rows cols right := by
  refine assemble_congr (fun row col => ?_) fun factor => (same.map _).sum_eq
  simp only [Named, same.mem_iff]

/-- Entries that were assembled before assemble with others to what all of them do at once. -/
theorem assemble_assemble_append (rows cols : Nat) (left right : List (Triplet K)) :
    assemble rows cols ((assemble rows cols left).entries ++ right) =
      assemble rows cols (left ++ right) := by
  refine assemble_congr (fun row col => ?_) fun factor => ?_
  · rw [named_append, named_append, named_assemble]
  · rw [tripletSum_append, tripletSum_append, tripletSum_assemble]

theorem assemble_append_assemble (rows cols : Nat) (left right : List (Triplet K)) :
    assemble rows cols (left ++ (assemble rows cols right).entries) =
      assemble rows cols (left ++ right) := by
  rw [assemble_perm List.perm_append_comm, assemble_assemble_append,
    assemble_perm List.perm_append_comm]

/-- The sum of two assembled matrices is what their triplets assemble to together. -/
theorem add_assemble {rows cols : Nat} {left right : List (Triplet K)}
    (within : ∀ triplet ∈ left ++ right, triplet.row < rows ∧ triplet.col < cols) :
    (assemble rows cols left).add (assemble rows cols right) =
      .ok (assemble rows cols (left ++ right)) := by
  obtain ⟨leftWithin, rightWithin⟩ := List.forall_mem_append.mp within
  rw [((storedIn_assemble leftWithin).add_eq_ok (storedIn_assemble rightWithin)).1,
    assemble_assemble_append, assemble_append_assemble]

end Sparse

end Exact

/-! ### Adding rows -/

section Rows

variable {α : Type} [Scalar α]

/-- Two rows at one column, of which either may be missing, add up to a third. -/
inductive Joins : Option (Sparse α) → Option (Sparse α) → Option (Sparse α) → Prop where
  | keep (present : Option (Sparse α)) : Joins present none present
  | put (row : Sparse α) : Joins none (some row) (some row)
  | merge {present row sum : Sparse α} (added : present.add row = .ok sum) :
      Joins (some present) (some row) (some sum)

namespace LinearForm

/-- Adding a row joins it to what is at its column and leaves the other columns alone. -/
theorem insertRow_eq_ok {rows : List (Nat × Sparse α)} {offset : Nat} {row sum : Sparse α}
    (increasing : rows.Pairwise fun first second => first.1 < second.1)
    (joins : Joins (rows.lookup offset) (some row) (some sum)) :
    ∃ inserted, insertRow offset row rows = .ok inserted ∧
      (inserted.Pairwise fun first second => first.1 < second.1) ∧
      ∀ key, inserted.lookup key = if key = offset then some sum else rows.lookup key := by
  induction rows with
  | nil =>
    obtain _ | _ | _ := joins
    exact ⟨[(offset, row)], rfl, List.pairwise_singleton _ _, fun key => lookup_cons_eq_ite ..⟩
  | cons first rest inductionHypothesis =>
    obtain ⟨other, present⟩ := first
    obtain ⟨least, increasingRest⟩ := List.pairwise_cons.mp increasing
    rw [insertRow]
    split
    · rename_i before
      have after := forall_before_of_before increasing before
      rw [lookup_eq_none_of_before after] at joins
      obtain _ | _ | _ := joins
      exact ⟨_, rfl, List.pairwise_cons.mpr ⟨after, increasing⟩, fun key => lookup_cons_eq_ite ..⟩
    · split
      · rename_i equal
        subst equal
        rw [lookup_cons_eq_ite, if_pos rfl] at joins
        obtain _ | _ | added := joins
        refine ⟨(offset, sum) :: rest, by rw [added]; rfl,
          List.pairwise_cons.mpr ⟨least, increasingRest⟩, fun key => ?_⟩
        rw [lookup_cons_eq_ite, lookup_cons_eq_ite]
        by_cases same : key = offset
        · rw [if_pos same, if_pos same]
        · rw [if_neg same, if_neg same, if_neg same]
      · rename_i notBefore different
        rw [lookup_cons_eq_ite, if_neg different] at joins
        obtain ⟨inserted, computed, insertedIncreasing, found⟩ :=
          inductionHypothesis increasingRest joins
        have after : ∀ entry ∈ inserted, other < entry.1 := by
          rintro ⟨key, value⟩ member
          have here := (lookup_eq_some_iff insertedIncreasing).mpr member
          rw [found] at here
          split at here
          · rename_i same
            show other < key
            omega
          · exact least _ ((lookup_eq_some_iff increasingRest).mp here)
        refine ⟨(other, present) :: inserted, by rw [computed]; rfl,
          List.pairwise_cons.mpr ⟨after, insertedIncreasing⟩, fun key => ?_⟩
        rw [lookup_cons_eq_ite, lookup_cons_eq_ite, found]
        by_cases same : key = other
        · have elsewhere : key ≠ offset := fun equal => different (equal.symm.trans same)
          rw [if_pos same, if_neg elsewhere, if_pos same]
        · rw [if_neg same, if_neg same]

/-- Adding rows in order joins them at each column. -/
theorem foldlM_insertRow_eq_ok {left right : List (Nat × Sparse α)}
    {total : Nat → Option (Sparse α)}
    (leftIncreasing : left.Pairwise fun first second => first.1 < second.1)
    (rightIncreasing : right.Pairwise fun first second => first.1 < second.1)
    (joins : ∀ offset, Joins (left.lookup offset) (right.lookup offset) (total offset)) :
    ∃ merged, right.foldlM (fun rows (offset, row) => insertRow offset row rows) left = .ok merged ∧
      (merged.Pairwise fun first second => first.1 < second.1) ∧
      ∀ offset, merged.lookup offset = total offset := by
  induction right generalizing left with
  | nil =>
    refine ⟨left, rfl, leftIncreasing, fun offset => ?_⟩
    have here := joins offset
    generalize left.lookup offset = present at here ⊢
    generalize total offset = sum at here ⊢
    obtain _ | _ | _ := here
    rfl
  | cons first rest inductionHypothesis =>
    obtain ⟨offset, row⟩ := first
    obtain ⟨least, increasingRest⟩ := List.pairwise_cons.mp rightIncreasing
    have here := joins offset
    rw [lookup_cons_eq_ite, if_pos rfl] at here
    obtain ⟨sum, totalHere⟩ : ∃ sum, total offset = some sum := by
      generalize left.lookup offset = present at here
      generalize total offset = sum at here ⊢
      cases here <;> exact ⟨_, rfl⟩
    rw [totalHere] at here
    obtain ⟨inserted, computed, insertedIncreasing, found⟩ := insertRow_eq_ok leftIncreasing here
    obtain ⟨merged, computedRest, result⟩ := inductionHypothesis insertedIncreasing increasingRest
      fun key => by
        rw [found]
        by_cases same : key = offset
        · rw [if_pos same, same, lookup_eq_none_of_before least, totalHere]
          exact .keep _
        · rw [if_neg same]
          have there := joins key
          rwa [lookup_cons_eq_ite, if_neg same] at there
    refine ⟨merged, ?_, result⟩
    simp only [List.foldlM_cons, computed]
    exact computedRest

end LinearForm

end Rows

/-! ### What a form sums -/

namespace DotTerm

variable {α : Type}

/-- The slices of some terms were cut from variables of a list. -/
def AllOver (declared : List Variable) (terms : List (DotTerm α)) : Prop :=
  ∀ term ∈ terms, term.slice.CutFrom term.slice.source ∧ term.slice.source ∈ declared

/-- The row of the variable at a column, as long as that of the first term there. -/
def rowOf [Add α] (terms : List (DotTerm α)) (offset : Nat) : Option (Sparse α) :=
  (startingAt offset terms).head?.map fun first =>
    .assemble 1 first.slice.source.size (rowTriplets (coefficientsAt offset terms))

variable {declared : List Variable} {terms : List (DotTerm α)} {offset : Nat}

theorem AllOver.append {left right : List (DotTerm α)} :
    AllOver declared (left ++ right) ↔ AllOver declared left ∧ AllOver declared right :=
  List.forall_mem_append

/-- Variables that start at one column have one size. -/
theorem AllOver.size_eq (isOver : AllOver declared terms)
    (apart : Gathered.SameStartSameSize declared) {left right : DotTerm α}
    (leftMember : left ∈ startingAt offset terms) (rightMember : right ∈ startingAt offset terms) :
    left.slice.source.size = right.slice.source.size := by
  obtain ⟨leftListed, leftStart⟩ := List.mem_filter.mp leftMember
  obtain ⟨rightListed, rightStart⟩ := List.mem_filter.mp rightMember
  exact apart _ (isOver left leftListed).2 _ (isOver right rightListed).2
    ((beq_iff_eq.mp leftStart).trans (beq_iff_eq.mp rightStart).symm)

/-- The coefficients at a column lie inside of the variable that starts there. -/
theorem AllOver.index_lt (isOver : AllOver declared terms)
    (apart : Gathered.SameStartSameSize declared) {first : DotTerm α}
    (firstMember : first ∈ startingAt offset terms) :
    ∀ triplet ∈ rowTriplets (coefficientsAt offset terms),
      triplet.row < 1 ∧ triplet.col < first.slice.source.size := by
  intro triplet member
  obtain ⟨entry, listed, rfl⟩ := mem_rowTriplets member
  obtain ⟨term, termMember, coefficient⟩ := List.mem_flatMap.mp listed
  rw [isOver.size_eq apart firstMember termMember]
  exact ⟨Nat.one_pos,
    (isOver term (List.mem_filter.mp termMember).1).1.index_lt (List.of_mem_zip coefficient).1⟩

theorem rowTriplets_append (left right : List (Nat × α)) :
    rowTriplets (left ++ right) = rowTriplets left ++ rowTriplets right :=
  List.map_append ..

/-- The first of the terms at a column decides how long the row is. -/
theorem rowOf_eq [Add α] {first : DotTerm α} {rest : List (DotTerm α)}
    (here : startingAt offset terms = first :: rest) :
    rowOf terms offset =
      some (.assemble 1 first.slice.source.size (rowTriplets (coefficientsAt offset terms))) := by
  rw [rowOf, here]
  rfl

theorem rowOf_eq_none [Add α] (nowhere : startingAt offset terms = []) :
    rowOf terms offset = none := by
  rw [rowOf, nowhere]
  rfl

section Exact

variable {K : Type} [ExactScalar K]

/-- The rows of two lists of terms add up to the row of both together. -/
theorem AllOver.joins_rowOf {left right : List (DotTerm K)}
    (isOver : AllOver declared (left ++ right)) (apart : Gathered.SameStartSameSize declared)
    (offset : Nat) :
    Joins (rowOf left offset) (rowOf right offset) (rowOf (left ++ right) offset) := by
  have both := startingAt_append offset left right
  have coefficients := coefficientsAt_append offset left right
  cases fromLeft : startingAt offset left with
  | nil =>
    rw [fromLeft, List.nil_append] at both
    have noneLeft : coefficientsAt offset left = [] := by rw [coefficientsAt, fromLeft]; rfl
    rw [noneLeft, List.nil_append] at coefficients
    have same : rowOf (left ++ right) offset = rowOf right offset := by
      rw [rowOf, rowOf, both, coefficients]
    rw [same, rowOf_eq_none fromLeft]
    cases rowOf right offset with
    | none => exact .keep none
    | some row => exact .put row
  | cons first rest =>
    rw [fromLeft] at both
    cases fromRight : startingAt offset right with
    | nil =>
      have noneRight : coefficientsAt offset right = [] := by rw [coefficientsAt, fromRight]; rfl
      rw [noneRight, List.append_nil] at coefficients
      have same : rowOf (left ++ right) offset = rowOf left offset := by
        rw [rowOf_eq both, rowOf_eq fromLeft, coefficients]
      rw [same, rowOf_eq_none fromRight]
      exact .keep _
    | cons second others =>
      rw [fromRight] at both
      have firstMember : first ∈ startingAt offset (left ++ right) := by simp [both]
      have secondMember : second ∈ startingAt offset (left ++ right) := by simp [both]
      have within := isOver.index_lt apart firstMember
      rw [rowOf_eq both, rowOf_eq fromLeft, rowOf_eq fromRight,
        isOver.size_eq apart secondMember firstMember]
      rw [coefficients, rowTriplets_append] at within ⊢
      exact .merge (Sparse.add_assemble within)

/-- The order of the terms does not matter to the rows. -/
theorem AllOver.rowOf_perm {left right : List (DotTerm K)} (isOver : AllOver declared left)
    (apart : Gathered.SameStartSameSize declared) (same : left.Perm right) (offset : Nat) :
    rowOf left offset = rowOf right offset := by
  have samePart : (startingAt offset left).Perm (startingAt offset right) := same.filter _
  have sameCoefficients : (rowTriplets (coefficientsAt offset left)).Perm
      (rowTriplets (coefficientsAt offset right)) := (samePart.flatMap_right _).map _
  cases fromLeft : startingAt offset left with
  | nil =>
    rw [fromLeft] at samePart
    rw [rowOf_eq_none fromLeft, rowOf_eq_none samePart.nil_eq.symm]
  | cons first rest =>
    cases fromRight : startingAt offset right with
    | nil =>
      rw [fromRight] at samePart
      exact absurd (fromLeft.symm.trans samePart.eq_nil) (List.cons_ne_nil first rest)
    | cons second others =>
      have firstMember : first ∈ startingAt offset left := by simp [fromLeft]
      have secondMember : second ∈ startingAt offset left :=
        samePart.mem_iff.mpr (by simp [fromRight])
      rw [rowOf_eq fromLeft, rowOf_eq fromRight, isOver.size_eq apart firstMember secondMember,
        Sparse.assemble_perm sameCoefficients]

end Exact

end DotTerm

namespace LinearForm

/-- A form is the sum of some terms and a number: it has the rows of the terms, in order, and the
number for its constant. -/
structure Sums {α : Type} [Add α] (form : LinearForm α) (terms : List (DotTerm α)) (number : α) :
    Prop where
  increasing : form.rows.Pairwise fun first second => first.1 < second.1
  row_eq : ∀ offset, form.rows.lookup offset = DotTerm.rowOf terms offset
  constant_eq : form.constant = number

/-- A form with rows in strict order is known by what is found at each column and by its
constant. -/
theorem eq_of_lookup_rows_eq {α : Type} {left right : LinearForm α}
    (leftIncreasing : left.rows.Pairwise fun first second => first.1 < second.1)
    (rightIncreasing : right.rows.Pairwise fun first second => first.1 < second.1)
    (sameRows : ∀ offset, left.rows.lookup offset = right.rows.lookup offset)
    (sameConstant : left.constant = right.constant) : left = right := by
  have rows := eq_of_lookup_eq leftIncreasing rightIncreasing sameRows
  obtain ⟨leftRows, leftConstant⟩ := left
  exact congr (congrArg LinearForm.mk rows) sameConstant

/-- A form is known by what it sums. -/
theorem Sums.unique {α : Type} [Add α] {left right : LinearForm α} {terms : List (DotTerm α)}
    {number : α} (leftSums : left.Sums terms number) (rightSums : right.Sums terms number) :
    left = right := by
  refine eq_of_lookup_rows_eq leftSums.increasing rightSums.increasing (fun offset => ?_) ?_
  · rw [leftSums.row_eq, rightSums.row_eq]
  · rw [leftSums.constant_eq, rightSums.constant_eq]

/-- A form is constant exactly if it sums no term. -/
theorem Sums.isConstant_eq {α : Type} [Scalar α] {form : LinearForm α} {terms : List (DotTerm α)}
    {number : α} (sums : form.Sums terms number) : form.isConstant = terms.isEmpty := by
  cases terms with
  | nil =>
    cases rows : form.rows with
    | nil => rw [isConstant, rows]; rfl
    | cons first rest =>
      have found := sums.row_eq first.1
      rw [rows, lookup_cons_eq_ite, if_pos rfl] at found
      cases found
  | cons term rest =>
    cases rows : form.rows with
    | nil =>
      have found := sums.row_eq term.slice.source.offset
      have here : DotTerm.startingAt term.slice.source.offset (term :: rest) =
          term :: DotTerm.startingAt term.slice.source.offset rest :=
        List.filter_cons_of_pos (beq_self_eq_true _)
      rw [rows, DotTerm.rowOf_eq here] at found
      cases found
    | cons first others => rw [isConstant, rows]; rfl

section Exact

variable {K : Type} [ExactScalar K] {declared : List Variable}

theorem sums_scalar (value : K) : (scalar value).Sums [] value where
  increasing := List.Pairwise.nil
  row_eq _ := rfl
  constant_eq := rfl

/-- An inner product over a variable makes a form. -/
theorem term_sums {used : DotTerm K} (cut : used.slice.CutFrom used.slice.source) :
    ∃ form, term used.slice.source.offset used.slice.source.size used.coefficients = .ok form ∧
      form.Sums [used] 0 := by
  have within : ∀ triplet ∈ rowTriplets used.coefficients,
      triplet.row < 1 ∧ triplet.col < used.slice.source.size := by
    intro triplet member
    obtain ⟨entry, listed, rfl⟩ := mem_rowTriplets member
    exact ⟨Nat.one_pos, cut.index_lt (List.of_mem_zip listed).1⟩
  have row := Sparse.ofTriplets_eq_ok_iff.mpr ⟨rfl, within⟩
  refine ⟨_, by rw [term, row]; rfl, List.pairwise_singleton _ _, fun offset => ?_, rfl⟩
  rw [lookup_cons_eq_ite]
  by_cases same : offset = used.slice.source.offset
  · subst same
    rw [if_pos rfl, DotTerm.rowOf_eq (DotTerm.startingAt_singleton_self used),
      DotTerm.coefficientsAt, DotTerm.startingAt_singleton_self, List.flatMap_singleton]
  · rw [if_neg same, DotTerm.rowOf_eq_none (DotTerm.startingAt_singleton_of_ne same)]
    rfl

/-- The sum of two forms sums the terms of both. -/
theorem Sums.add {left right : LinearForm K} {leftTerms rightTerms : List (DotTerm K)}
    {leftNumber rightNumber : K} (leftSums : left.Sums leftTerms leftNumber)
    (rightSums : right.Sums rightTerms rightNumber)
    (isOver : DotTerm.AllOver declared (leftTerms ++ rightTerms))
    (apart : Gathered.SameStartSameSize declared) :
    ∃ sum, left.add right = .ok sum ∧
      sum.Sums (leftTerms ++ rightTerms) (leftNumber + rightNumber) := by
  obtain ⟨merged, computed, increasing, found⟩ :=
    foldlM_insertRow_eq_ok leftSums.increasing rightSums.increasing fun offset => by
      rw [leftSums.row_eq, rightSums.row_eq]
      exact isOver.joins_rowOf apart offset
  refine ⟨⟨merged, left.constant + right.constant⟩, ?_, increasing, found, ?_⟩
  · rw [LinearForm.add, computed]
    rfl
  · rw [leftSums.constant_eq, rightSums.constant_eq]

/-- The order of the terms does not matter to what a form sums. -/
theorem Sums.perm {form : LinearForm K} {left right : List (DotTerm K)} {number : K}
    (sums : form.Sums left number) (isOver : DotTerm.AllOver declared left)
    (apart : Gathered.SameStartSameSize declared) (same : left.Perm right) :
    form.Sums right number where
  increasing := sums.increasing
  row_eq offset := (sums.row_eq offset).trans (isOver.rowOf_perm apart same offset)
  constant_eq := sums.constant_eq

end Exact

end LinearForm

/-! ### Adding up the parts -/

namespace Expr

variable {α : Type} [Scalar α]

mutual

/-- The linear form of an expression by plain recursion. -/
def fold : Expr α → Except Error (LinearForm α)
  | .dot term => LinearForm.term term.slice.source.offset term.slice.source.size term.coefficients
  | .sum children => addAll .zero children
  | .constant value => .ok (.scalar value)

/-- Adds the linear forms of a list of expressions to a form, one after another. -/
def addAll (total : LinearForm α) : List (Expr α) → Except Error (LinearForm α)
  | [] => .ok total
  | first :: rest => do
    let form ← fold first
    let sum ← total.add form
    addAll sum rest

end

/-- Linearizing sums the terms and adds up the numbers of the expression from right to left,
whatever addition is. -/
theorem linearForm_sums_reverse (expr : Expr α) :
    expr.linearForm.Sums expr.terms.reverse (expr.constants.reverse.foldl (· + ·) 0) where
  increasing := List.pairwise_map.mpr (Gathered.holds_visit expr).increasing
  row_eq offset := by
    have assembled : expr.linearForm.rows.lookup offset = _ :=
      lookup_map_snd
        (fun row : GatheredRow α => Sparse.assemble 1 row.size (rowTriplets row.latest.reverse))
        offset
    rw [assembled, (Gathered.holds_visit expr).row_eq, Gathered.rowAfter, DotTerm.rowOf,
      Option.map_map]
    congr 1
    funext first
    simp only [Function.comp_apply, List.reverse_reverse]
  constant_eq := (Gathered.holds_visit expr).constant_eq

section Exact

variable {K : Type} [ExactScalar K] {declared : List Variable}

mutual

/-- Plain recursion sums the terms and the numbers of the expression. -/
theorem fold_sums (apart : Gathered.SameStartSameSize declared) : ∀ expr : Expr K,
    expr.Over declared → ∃ form, expr.fold = .ok form ∧ form.Sums expr.terms expr.constants.sum
  | .dot term, isOver => LinearForm.term_sums (isOver term List.mem_cons_self).1
  | .sum children, isOver => by
    have start : DotTerm.AllOver declared ([] ++ children.flatMap terms) := by
      rw [List.nil_append, ← terms_sum]
      exact isOver
    obtain ⟨form, computed, sums⟩ := addAll_sums apart children (LinearForm.sums_scalar 0) start
    rw [List.nil_append, zero_add, ← terms_sum, ← constants_sum] at sums
    exact ⟨form, computed, sums⟩
  | .constant value, _ => by
    refine ⟨.scalar value, rfl, ?_⟩
    rw [constants, List.sum_singleton]
    exact LinearForm.sums_scalar value

theorem addAll_sums (apart : Gathered.SameStartSameSize declared) {total : LinearForm K}
    {terms : List (DotTerm K)} {number : K} : ∀ exprs : List (Expr K), total.Sums terms number →
    DotTerm.AllOver declared (terms ++ exprs.flatMap Expr.terms) →
    ∃ form, addAll total exprs = .ok form ∧
      form.Sums (terms ++ exprs.flatMap Expr.terms) (number + (exprs.flatMap constants).sum)
  | [], sums, _ => by
    rw [List.flatMap_nil, List.append_nil, List.flatMap_nil, List.sum_nil, add_zero]
    exact ⟨total, rfl, sums⟩
  | first :: rest, sums, isOver => by
    rw [List.flatMap_cons, ← List.append_assoc] at isOver ⊢
    obtain ⟨isOverSoFar, _⟩ := DotTerm.AllOver.append.mp isOver
    obtain ⟨form, folded, formSums⟩ := fold_sums apart first
      (DotTerm.AllOver.append.mp isOverSoFar).2
    obtain ⟨sum, added, sumSums⟩ := sums.add formSums isOverSoFar apart
    obtain ⟨result, computed, resultSums⟩ := addAll_sums apart rest sumSums isOver
    refine ⟨result, ?_, ?_⟩
    · rw [addAll, folded]
      show (total.add form >>= fun sum => addAll sum rest) = .ok result
      rw [added]
      exact computed
    · rwa [List.flatMap_cons, List.sum_append, ← add_assoc]

end

/-- Linearizing sums the terms and the numbers of the expression. -/
theorem linearForm_sums (apart : Gathered.SameStartSameSize declared) {expr : Expr K}
    (isOver : expr.Over declared) : expr.linearForm.Sums expr.terms expr.constants.sum := by
  have backwards := linearForm_sums_reverse expr
  rw [← List.sum_eq_foldl, List.sum_reverse] at backwards
  exact backwards.perm (fun term member => isOver term (List.mem_reverse.mp member)) apart
    (List.reverse_perm expr.terms)

end Exact

end Expr

/-- Linearizing an expression over the variables of one problem gives the form that adding up its
parts gives: the same rows of the same lengths at the same columns, with the same stored positions
and values, and the same constant. It is constant exactly if the expression is. -/
theorem Problem.linearize_eq_fold {K : Type} [ExactScalar K] {problem : Problem K}
    (reached : problem.Reachable) {expr : Expr K} (isOver : expr.Over problem.declared) :
    ∃ form, expr.linearize = .ok form ∧ expr.fold = .ok form ∧
      form.isConstant = expr.isConstant := by
  have apart := reached.sound.sameStartSameSize
  have sums := Expr.linearForm_sums apart isOver
  obtain ⟨form, folded, formSums⟩ := Expr.fold_sums apart expr isOver
  refine ⟨expr.linearForm, Expr.linearize_eq_ok apart isOver, ?_, ?_⟩
  · rw [folded, formSums.unique sums]
  · rw [sums.isConstant_eq, Expr.isConstant, Expr.termCount]
    cases expr.terms <;> rfl

namespace Sample

/-- An inner product that is added and taken back, so that all of its coefficients cancel. -/
def vanishing : Expr ℚ := .sum [.dot term, .dot negated]

theorem vanishing_over : vanishing.Over problem.declared := by
  intro used listed
  have cancelled : vanishing.terms = [term, negated] := rfl
  have detoured : detour.terms = [term, negated] ++ [term] := rfl
  rw [cancelled] at listed
  exact detour_over used (detoured ▸ List.mem_append_left _ listed)

end Sample

/-- A row whose coefficients all cancel stays in the form, in both readings. -/
theorem Problem.linearize_eq_fold_vanishing :
    Sample.problem.Reachable ∧ Sample.vanishing.Over Sample.problem.declared ∧
      ∃ form, Sample.vanishing.linearize = .ok form ∧ Sample.vanishing.fold = .ok form ∧
        form.isConstant = false :=
  have reached : Sample.problem.Reachable := ⟨0, none, _, Sample.operations_honest, rfl⟩
  ⟨reached, Sample.vanishing_over, linearize_eq_fold reached Sample.vanishing_over⟩

end BlockCone
