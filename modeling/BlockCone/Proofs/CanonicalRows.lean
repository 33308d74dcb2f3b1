/-
This file proves that the coefficients of an expression are canonical.

What a solver is handed of an expression is a list of columns with their coefficients. The list is
in strictly increasing order of column, so it names no column twice, none of its coefficients
compares equal to zero, and all of its columns are there. The order comes about in two steps: a
variable's own row is strictly ordered because it was assembled, and the rows of different
variables follow each other without touching because the variables do. Neither step needs a law
of arithmetic.

In exact arithmetic such a list can be read back from its values. At the vector that is one at a
column and zero elsewhere it has the value of its coefficient there, or zero if the column is not
named. So expressions that have the same value at every vector have the same coefficients and the
same constant, however differently they were put together.
-/

import Mathlib.Data.List.Sort
import BlockCone.Proofs.Layout

namespace BlockCone

/-! ### Strictly ordered rows -/

section Order

variable {α : Type}

/-- Coefficients in the form in which a solver receives them. -/
structure IsCanonical [Scalar α] (columns : Nat) (coeffs : List (Nat × α)) : Prop where
  increasing : coeffs.Pairwise fun left right => left.1 < right.1
  nonzero : ∀ entry ∈ coeffs, Scalar.isZero entry.2 = false
  within : ∀ entry ∈ coeffs, entry.1 < columns

/-- What comes before the first of some rows in order comes before all of them. -/
theorem forall_before_of_before {first : Nat × α} {rows : List (Nat × α)}
    (increasing : (first :: rows).Pairwise fun left right => left.1 < right.1) {key : Nat}
    (before : key < first.1) : ∀ entry ∈ first :: rows, key < entry.1 :=
  List.forall_mem_cons.mpr ⟨before, fun entry later =>
    before.trans ((List.pairwise_cons.mp increasing).1 entry later)⟩

/-- The assembled row of a variable names its columns in strict order. -/
theorem Sparse.rowEntries_increasing [Add α] (size : Nat) (entries : List (Nat × α)) :
    (assemble 1 size (rowTriplets entries)).rowEntries.Pairwise
      fun left right => left.1 < right.1 := by
  have oneRow : ∀ stored ∈ (assemble 1 size (rowTriplets entries)).entries, stored.row = 0 := by
    intro stored member
    obtain ⟨named, namedMember, sameRow, _⟩ := position_assemble member
    obtain ⟨entry, _, rfl⟩ := mem_rowTriplets namedMember
    exact sameRow.symm
  rw [rowEntries, List.pairwise_map]
  refine (assemble_pairwise 1 size (rowTriplets entries)).imp_of_mem ?_
  intro left right leftMember rightMember before
  exact before.col_lt ((oneRow left leftMember).trans (oneRow right rightMember).symm)

/-- A row names only columns that were gathered for it. -/
theorem Sparse.mem_rowEntries_assemble [Add α] {size : Nat} {entries : List (Nat × α)}
    {stored : Nat × α} (member : stored ∈ (assemble 1 size (rowTriplets entries)).rowEntries) :
    ∃ entry ∈ entries, entry.1 = stored.1 := by
  obtain ⟨triplet, tripletMember, rfl⟩ := List.mem_map.mp member
  obtain ⟨named, namedMember, _, sameCol⟩ := position_assemble tripletMember
  obtain ⟨entry, listed, rfl⟩ := mem_rowTriplets namedMember
  exact ⟨entry, listed, sameCol⟩

/-- Rows that are strictly ordered one by one and one after another give strictly ordered columns,
which sorting leaves as they are. -/
theorem LinearForm.columns_increasing [Scalar α] {form : LinearForm α}
    (each : ∀ entry ∈ form.rows, entry.2.rowEntries.Pairwise fun left right => left.1 < right.1)
    (successive : form.rows.Pairwise fun first second =>
      ∀ left ∈ first.2.rowEntries, ∀ right ∈ second.2.rowEntries,
        first.1 + left.1 < second.1 + right.1) :
    form.columns.Pairwise fun left right => left.1 < right.1 := by
  have listed : (form.rows.flatMap fun entry =>
      entry.2.rowEntries.map fun coeff => (entry.1 + coeff.1, coeff.2)).Pairwise
        fun left right => left.1 < right.1 := by
    rw [List.pairwise_flatMap]
    refine ⟨fun entry member => ?_, ?_⟩
    · rw [List.pairwise_map]
      exact (each entry member).imp fun before => Nat.add_lt_add_left before _
    · refine successive.imp fun apart left leftMember right rightMember => ?_
      obtain ⟨first, firstMember, rfl⟩ := List.mem_map.mp leftMember
      obtain ⟨second, secondMember, rfl⟩ := List.mem_map.mp rightMember
      exact apart first firstMember second secondMember
  have kept := listed.filter fun entry => !Scalar.isZero entry.2
  have sorted : form.columns = _ :=
    List.mergeSort_of_pairwise (kept.imp fun before => decide_eq_true (Nat.le_of_lt before))
  rw [sorted]
  exact kept

end Order

/-! ### Gathered rows -/

namespace Gathered

variable {α : Type}

theorem mem_addTo {source : Variable} {coefficients : List (Nat × α)}
    {rows : List (Nat × GatheredRow α)} {entry : Nat × GatheredRow α}
    (member : entry ∈ addTo source coefficients rows) :
    entry.1 = source.offset ∨ ∃ old ∈ rows, old.1 = entry.1 := by
  induction rows with
  | nil => exact Or.inl (congrArg Prod.fst (List.mem_singleton.mp member))
  | cons first rest inductionHypothesis =>
    obtain ⟨offset, row⟩ := first
    rw [addTo] at member
    split at member
    · rcases List.mem_cons.mp member with rfl | later
      · exact Or.inl rfl
      · exact Or.inr ⟨entry, later, rfl⟩
    · split at member
      · rcases List.mem_cons.mp member with rfl | later
        · exact Or.inr ⟨_, List.mem_cons_self, rfl⟩
        · exact Or.inr ⟨entry, List.mem_cons_of_mem _ later, rfl⟩
      · rcases List.mem_cons.mp member with rfl | later
        · exact Or.inr ⟨_, List.mem_cons_self, rfl⟩
        · rcases inductionHypothesis later with new | ⟨old, oldMember, same⟩
          · exact Or.inl new
          · exact Or.inr ⟨old, List.mem_cons_of_mem _ oldMember, same⟩

/-- A term goes to the row of its variable, or starts one in its place. -/
theorem addTo_increasing (source : Variable) (coefficients : List (Nat × α))
    {rows : List (Nat × GatheredRow α)}
    (increasing : rows.Pairwise fun left right => left.1 < right.1) :
    (addTo source coefficients rows).Pairwise fun left right => left.1 < right.1 := by
  induction rows with
  | nil => exact List.pairwise_singleton _ _
  | cons first rest inductionHypothesis =>
    obtain ⟨offset, row⟩ := first
    obtain ⟨least, increasingRest⟩ := List.pairwise_cons.mp increasing
    rw [addTo]
    split
    · rename_i before
      exact List.pairwise_cons.mpr ⟨forall_before_of_before increasing before, increasing⟩
    · split
      · exact List.pairwise_cons.mpr ⟨least, increasingRest⟩
      · rename_i notBefore notSame
        refine List.pairwise_cons.mpr
          ⟨fun entry member => ?_, inductionHypothesis increasingRest⟩
        show offset < entry.1
        rcases mem_addTo member with new | ⟨old, oldMember, same⟩
        · omega
        · rw [← same]
          exact least old oldMember

/-- The rows that are gathered stand in strict order of the columns at which they start. -/
theorem visit_increasing [Add α] (stack : List (Expr α)) (gathered : Gathered α)
    (increasing : gathered.rows.Pairwise fun left right => left.1 < right.1) :
    (visit stack gathered).rows.Pairwise fun left right => left.1 < right.1 := by
  fun_induction Gathered.visit stack gathered with
  | case1 gathered => exact increasing
  | case2 term stack gathered inductionHypothesis =>
    exact inductionHypothesis (addTo_increasing _ _ increasing)
  | case3 value stack gathered inductionHypothesis => exact inductionHypothesis increasing
  | case4 children stack gathered inductionHypothesis =>
    rw [List.unattach_reverse, List.unattach_attach] at inductionHypothesis
    exact inductionHypothesis increasing

/-- A variable that starts before another one ends before it starts. -/
def StartsApart (declared : List Variable) : Prop :=
  ∀ left ∈ declared, ∀ right ∈ declared, left.offset < right.offset →
    left.offset + left.size ≤ right.offset

end Gathered

/-! ### The columns of an expression -/

namespace Expr

variable {α : Type} [Scalar α] {declared : List Variable} {expr : Expr α}

theorem columns_increasing (same : Gathered.SameStartSameSize declared)
    (apart : Gathered.StartsApart declared) (isOver : expr.Over declared) :
    expr.linearForm.columns.Pairwise fun left right => left.1 < right.1 := by
  have rowsWithin := Gathered.rowsWithin_of_over same isOver
  refine LinearForm.columns_increasing ?_ ?_
  · intro entry member
    obtain ⟨gathered, _, rfl⟩ := List.mem_map.mp member
    exact Sparse.rowEntries_increasing _ _
  · refine List.pairwise_map.mpr ?_
    refine (Gathered.visit_increasing [expr] ⟨[], 0⟩ List.Pairwise.nil).imp_of_mem ?_
    intro first second firstMember secondMember before left leftMember right _
    obtain ⟨source, known, start, _, inside⟩ := rowsWithin first firstMember
    obtain ⟨later, laterKnown, laterStart, _⟩ := rowsWithin second secondMember
    obtain ⟨entry, listed, sameCol⟩ := Sparse.mem_rowEntries_assemble leftMember
    have below := inside entry (List.mem_reverse.mp listed)
    have room := apart source known later laterKnown (by omega)
    show first.1 + left.1 < second.1 + right.1
    omega

/-- Every coefficient of an expression lies inside its row, so it has a linear form. -/
theorem linearize_eq_ok (same : Gathered.SameStartSameSize declared)
    (isOver : expr.Over declared) : expr.linearize = .ok expr.linearForm := by
  have rowsWithin := Gathered.rowsWithin_of_over same isOver
  refine if_pos (List.all_eq_true.mpr fun entry member => ?_)
  obtain ⟨gathered, gatheredMember, rfl⟩ := List.mem_map.mp member
  obtain ⟨source, _, _, size, inside⟩ := rowsWithin gathered gatheredMember
  refine List.all_eq_true.mpr fun stored storedMember => ?_
  obtain ⟨named, namedMember, sameRow, sameCol⟩ := Sparse.position_assemble storedMember
  obtain ⟨coeff, listed, rfl⟩ := mem_rowTriplets namedMember
  have below := inside coeff (List.mem_reverse.mp listed)
  refine (Triplet.isWithin_iff _ _ _).mpr ⟨?_, ?_⟩
  · rw [← sameRow]
    exact Nat.one_pos
  · rw [← sameCol]
    show coeff.1 < gathered.2.size
    rwa [← size]

end Expr

namespace Problem

variable {α : Type} {problem : Problem α}

theorem Sound.startsApart (sound : problem.Sound) : Gathered.StartsApart problem.declared := by
  intro left leftKnown right rightKnown before
  obtain ⟨first, firstPresent⟩ := List.mem_iff_getElem?.mp leftKnown
  obtain ⟨second, secondPresent⟩ := List.mem_iff_getElem?.mp rightKnown
  rw [sound.offset_eq second right secondPresent]
  refine sound.offset_add_size_le firstPresent ?_
  by_contra notBefore
  rcases Nat.eq_or_lt_of_le (Nat.le_of_not_lt notBefore) with rfl | after
  · rw [firstPresent] at secondPresent
    obtain rfl := Option.some.inj secondPresent
    exact absurd before (Nat.lt_irrefl _)
  · have stop := sound.offset_add_size_le secondPresent after
    rw [← sound.offset_eq first left firstPresent] at stop
    omega

variable [Scalar α]

/-- The coefficients of an expression over the declared variables are canonical. -/
theorem Sound.isCanonical (sound : problem.Sound) {expr : Expr α}
    (isOver : expr.Over problem.declared) :
    IsCanonical problem.columns expr.linearForm.columns where
  increasing := Expr.columns_increasing sound.sameStartSameSize sound.startsApart isOver
  nonzero := by
    intro entry member
    have kept := (List.mem_filter.mp ((List.mergeSort_perm _ _).mem_iff.mp member)).2
    simpa using kept
  within := by
    intro entry member
    obtain ⟨source, known, index, inside, column⟩ :=
      Expr.mem_columns sound.sameStartSameSize isOver member
    rw [column]
    exact sound.column_lt known inside

end Problem

/-! ### Reading coefficients back -/

section Points

variable {α : Type} [Zero α]

/-- The vector with given levels. -/
def pointWith (columns : Nat) (level : Nat → α) : Array α :=
  Array.ofFn fun place : Fin columns => level place

omit [Zero α] in
theorem size_pointWith (columns : Nat) (level : Nat → α) :
    (pointWith columns level).size = columns :=
  Array.size_ofFn

theorem entryOf_pointWith {columns col : Nat} (inside : col < columns) (level : Nat → α) :
    entryOf (pointWith columns level) col = level col := by
  rw [entryOf, pointWith, Array.getElem?_ofFn, dif_pos inside, Option.getD_some]

end Points

variable {K : Type} [ExactScalar K]

/-- The levels that are one at a column and zero elsewhere. -/
def unitAt (col other : Nat) : K :=
  if other = col then 1 else 0

theorem weighed_unitAt_of_absent {coeffs : List (Nat × K)} {col : Nat}
    (absent : ∀ entry ∈ coeffs, entry.1 ≠ col) : weighed coeffs (unitAt col) = 0 := by
  refine weighed_eq_zero fun entry listed => ?_
  rw [unitAt, if_neg (absent entry listed), mul_zero]

theorem weighed_unitAt_of_mem {coeffs : List (Nat × K)} {col : Nat} {value : K}
    (increasing : coeffs.Pairwise fun left right => left.1 < right.1)
    (member : (col, value) ∈ coeffs) : weighed coeffs (unitAt col) = value := by
  induction coeffs with
  | nil => exact absurd member List.not_mem_nil
  | cons first rest inductionHypothesis =>
    obtain ⟨least, increasingRest⟩ := List.pairwise_cons.mp increasing
    rw [weighed_cons]
    rcases List.mem_cons.mp member with rfl | later
    · rw [weighed_unitAt_of_absent fun entry listed => (least entry listed).ne', unitAt,
        if_pos rfl, mul_one, add_zero]
    · rw [inductionHypothesis increasingRest later, unitAt,
        if_neg (least (col, value) later).ne, mul_zero, zero_add]

namespace IsCanonical

variable {columns : Nat} {left right : List (Nat × K)}

/-- The entries of canonical coefficients are the values that are not zero. -/
theorem mem_iff (canonical : IsCanonical columns left) {col : Nat} {value : K} :
    (col, value) ∈ left ↔ value ≠ 0 ∧ weighed left (unitAt col) = value := by
  constructor
  · intro member
    exact ⟨(Scalar.isZero_eq_false_iff value).mp (canonical.nonzero _ member),
      weighed_unitAt_of_mem canonical.increasing member⟩
  · rintro ⟨nonzero, read⟩
    by_cases named : ∃ entry ∈ left, entry.1 = col
    · obtain ⟨entry, member, rfl⟩ := named
      have own : weighed left (unitAt entry.1) = entry.2 :=
        weighed_unitAt_of_mem canonical.increasing member
      rwa [← read, own]
    · have absent := weighed_unitAt_of_absent fun entry member same => named ⟨entry, member, same⟩
      exact absurd (read.symm.trans absent) nonzero

/-- Canonical coefficients with the same value at every unit vector are the same. -/
theorem eq_of_weighed_eq (leftCanonical : IsCanonical columns left)
    (rightCanonical : IsCanonical columns right)
    (same : ∀ col < columns, weighed left (unitAt col) = weighed right (unitAt col)) :
    left = right := by
  refine eq_of_increasing leftCanonical.increasing rightCanonical.increasing fun entry => ?_
  obtain ⟨col, value⟩ := entry
  constructor
  · intro member
    have read := leftCanonical.mem_iff.mp member
    rw [same col (leftCanonical.within _ member)] at read
    exact rightCanonical.mem_iff.mpr read
  · intro member
    have read := rightCanonical.mem_iff.mp member
    rw [← same col (rightCanonical.within _ member)] at read
    exact leftCanonical.mem_iff.mpr read

end IsCanonical

/-! ### Expressions with the same values -/

namespace Problem

variable {problem : Problem K}

/-- Expressions with the same value at every vector have the same constant and coefficients. -/
theorem Sound.linearForm_unique (sound : problem.Sound) {left right : Expr K}
    (leftOver : left.Over problem.declared) (rightOver : right.Over problem.declared)
    (same : ∀ point : Array K, point.size = problem.columns →
      left.valueAt (entryOf point) = right.valueAt (entryOf point)) :
    left.linearForm.columns = right.linearForm.columns ∧
      left.linearForm.constant = right.linearForm.constant := by
  have leftCanonical := sound.isCanonical leftOver
  have rightCanonical := sound.isCanonical rightOver
  have values : ∀ level : Nat → K,
      weighed left.linearForm.columns level + left.linearForm.constant =
        weighed right.linearForm.columns level + right.linearForm.constant := by
    intro level
    have atPoint := same (pointWith problem.columns level) (size_pointWith _ level)
    have read {coeffs : List (Nat × K)} (canonical : IsCanonical problem.columns coeffs) :
        weighed coeffs (entryOf (pointWith problem.columns level)) = weighed coeffs level :=
      weighed_congr fun entry member => entryOf_pointWith (canonical.within entry member) level
    rw [← Expr.value_linearForm leftOver, ← Expr.value_linearForm rightOver, read leftCanonical,
      read rightCanonical] at atPoint
    exact atPoint
  have zero : ∀ coeffs : List (Nat × K), (weighed coeffs fun _ => 0) = 0 :=
    fun coeffs => weighed_eq_zero fun entry _ => mul_zero entry.2
  have constants : left.linearForm.constant = right.linearForm.constant := by
    have atZero := values fun _ => 0
    rwa [zero, zero, zero_add, zero_add] at atZero
  refine ⟨leftCanonical.eq_of_weighed_eq rightCanonical fun col _ => ?_, constants⟩
  have atUnit := values (unitAt col)
  rw [constants] at atUnit
  exact add_right_cancel atUnit

/-- Two expressions over the declared variables have linear forms with the same coefficients and
the same constant exactly when they have the same value at every vector of levels. -/
theorem linearize_eq_iff (reached : problem.Reachable) {left right : Expr K}
    (leftOver : left.Over problem.declared) (rightOver : right.Over problem.declared) :
    ∃ leftForm rightForm, left.linearize = .ok leftForm ∧ right.linearize = .ok rightForm ∧
      (∀ point : Array K, point.size = problem.columns →
        leftForm.evaluate point = .ok (left.valueAt (entryOf point)) ∧
        rightForm.evaluate point = .ok (right.valueAt (entryOf point))) ∧
      (leftForm.columns = rightForm.columns ∧ leftForm.constant = rightForm.constant ↔
        ∀ point : Array K, point.size = problem.columns →
          left.valueAt (entryOf point) = right.valueAt (entryOf point)) := by
  have sound := reached.sound
  refine ⟨left.linearForm, right.linearForm,
    Expr.linearize_eq_ok sound.sameStartSameSize leftOver,
    Expr.linearize_eq_ok sound.sameStartSameSize rightOver,
    fun point fits => ⟨sound.evaluate_linearForm fits leftOver,
      sound.evaluate_linearForm fits rightOver⟩,
    ?_, sound.linearForm_unique leftOver rightOver⟩
  rintro ⟨sameColumns, sameConstant⟩ point _
  rw [← Expr.value_linearForm leftOver, ← Expr.value_linearForm rightOver, sameColumns,
    sameConstant]

end Problem

namespace Sample

/-- The inner product that takes back what `term` adds. -/
def negated : DotTerm ℚ := ⟨⟨2, 2, [-1, -2, 0, -1], rfl⟩, block, rfl⟩

/-- The same function as `expr`, with a term that is added twice and taken back once. -/
def detour : Expr ℚ := .sum [.dot term, .sum [.dot negated, .constant 1], .dot term, .constant 2]

theorem valueAt_negated (level : Nat → ℚ) : negated.valueAt level = -term.valueAt level := by
  have listed : block.view.flatIndices = [0, 1, 2, 3] := rfl
  simp [DotTerm.valueAt, negated, term, listed, Matrix.entry, Matrix.entry?]
  ring

theorem detour_over : detour.Over problem.declared := by
  intro used listed
  have terms : detour.terms = [term, negated, term] := rfl
  have sliced : used.slice = block := by
    rw [terms] at listed
    simp only [List.mem_cons, List.not_mem_nil, or_false] at listed
    rcases listed with rfl | rfl | rfl <;> rfl
  rw [sliced]
  exact ⟨.block block_cut, List.mem_singleton.mpr rfl⟩

theorem expr_over : expr.Over problem.declared := by
  intro used listed
  obtain rfl : used = Sample.term := List.mem_singleton.mp listed
  exact ⟨.block block_cut, List.mem_singleton.mpr rfl⟩

theorem valueAt_detour (level : Nat → ℚ) : detour.valueAt level = expr.valueAt level := by
  show term.valueAt level + ((negated.valueAt level + (1 + 0)) + (term.valueAt level + (2 + 0))) =
    3 + (term.valueAt level + 0)
  rw [valueAt_negated]
  ring

end Sample

/-- The sample expression and its detour have the same linear form. -/
theorem Problem.linearize_eq_iff_detour :
    Sample.problem.Reachable ∧ Sample.expr.Over Sample.problem.declared ∧
      Sample.detour.Over Sample.problem.declared ∧
      ∃ exprForm detourForm, Sample.expr.linearize = .ok exprForm ∧
        Sample.detour.linearize = .ok detourForm ∧ exprForm.columns = detourForm.columns ∧
        exprForm.constant = detourForm.constant := by
  have reached : Sample.problem.Reachable := ⟨0, none, _, Sample.operations_honest, rfl⟩
  obtain ⟨exprForm, detourForm, exprEq, detourEq, _, same⟩ :=
    linearize_eq_iff reached Sample.expr_over Sample.detour_over
  obtain ⟨columns, constant⟩ := same.mpr fun point _ => (Sample.valueAt_detour _).symm
  exact ⟨reached, Sample.expr_over, Sample.detour_over, exprForm, detourForm, exprEq, detourEq,
    columns, constant⟩

end BlockCone
