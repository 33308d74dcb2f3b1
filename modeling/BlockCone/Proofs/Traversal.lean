/-
This file proves what the traversal of an expression gathers, and in which order.

The stack is taken from its top and the parts of a sum are put on it in their order, so the leaves
of an expression are met from right to left, each once for each of its uses. What has been gathered
at any time is therefore told by two lists. The terms met so far say which rows there are: one for
each column at which a variable of a term starts, as long as the variable of the first such term,
holding the coefficients of all of them one after another. The numbers met so far say what the
constant is: they are added to it one by one.

Every step is described by what it does to the row at one column, so no property of addition is
used.
-/

import Mathlib.Data.List.Sort
import BlockCone.Proofs.CanonicalRows

namespace BlockCone

/-! ### Rows in order -/

section Lookup

variable {β : Type} {rows left right : List (Nat × β)}

theorem lookup_cons_eq_ite (key other : Nat) (row : β) (rest : List (Nat × β)) :
    ((other, row) :: rest).lookup key = if key = other then some row else rest.lookup key := by
  rw [List.lookup_cons]
  by_cases same : key = other
  · rw [beq_iff_eq.mpr same, if_pos same]
  · rw [beq_eq_false_iff_ne.mpr same, if_neg same]

theorem lookup_eq_none_of_before {key : Nat} (later : ∀ entry ∈ rows, key < entry.1) :
    rows.lookup key = none := by
  refine List.lookup_eq_none_iff.mpr fun entry member => ?_
  exact bne_iff_ne.mpr (later entry member).ne

/-- In rows in strict order a row is found at its own column. -/
theorem lookup_eq_some_iff (increasing : rows.Pairwise fun first second => first.1 < second.1)
    {key : Nat} {row : β} : rows.lookup key = some row ↔ (key, row) ∈ rows := by
  induction rows with
  | nil => simp
  | cons first rest inductionHypothesis =>
    obtain ⟨least, increasingRest⟩ := List.pairwise_cons.mp increasing
    obtain ⟨other, present⟩ := first
    rw [lookup_cons_eq_ite, List.mem_cons]
    by_cases same : key = other
    · subst same
      have absent : (key, row) ∉ rest := fun member => absurd (least _ member) (Nat.lt_irrefl _)
      simp [absent, eq_comm]
    · simp [same, inductionHypothesis increasingRest]

/-- Rows in strict order are known by what is found at each column. -/
theorem eq_of_lookup_eq (leftIncreasing : left.Pairwise fun first second => first.1 < second.1)
    (rightIncreasing : right.Pairwise fun first second => first.1 < second.1)
    (same : ∀ key, left.lookup key = right.lookup key) : left = right := by
  refine eq_of_increasing leftIncreasing rightIncreasing fun entry => ?_
  rw [← lookup_eq_some_iff leftIncreasing, ← lookup_eq_some_iff rightIncreasing, same]

theorem lookup_map_snd {γ : Type} (change : β → γ) (key : Nat) :
    (rows.map fun (column, row) => (column, change row)).lookup key =
      (rows.lookup key).map change := by
  induction rows with
  | nil => rfl
  | cons first rest inductionHypothesis =>
    rw [List.map_cons, List.lookup_cons, List.lookup_cons, inductionHypothesis]
    cases key == first.1 <;> rfl

end Lookup

namespace Expr

variable {α : Type}

mutual

/-- The numbers of an expression from left to right, once for each use. -/
def constants : Expr α → List α
  | .dot _ => []
  | .sum children => allConstants children
  | .constant value => [value]

/-- The numbers of a list of expressions from left to right. -/
def allConstants : List (Expr α) → List α
  | [] => []
  | first :: rest => constants first ++ allConstants rest

end

theorem allConstants_eq (exprs : List (Expr α)) :
    allConstants exprs = exprs.flatMap constants := by
  induction exprs with
  | nil => rfl
  | cons first rest inductionHypothesis =>
    rw [allConstants, inductionHypothesis, List.flatMap_cons]

theorem constants_sum (children : List (Expr α)) :
    (sum children).constants = children.flatMap constants :=
  allConstants_eq children

end Expr

/-! ### Terms of one variable -/

namespace DotTerm

variable {α : Type}

/-- The terms among some whose variable starts at a column. -/
def startingAt (offset : Nat) (terms : List (DotTerm α)) : List (DotTerm α) :=
  terms.filter fun term => term.slice.source.offset == offset

/-- The coefficients of the terms whose variable starts at a column, term after term. -/
def coefficientsAt (offset : Nat) (terms : List (DotTerm α)) : List (Nat × α) :=
  (startingAt offset terms).flatMap coefficients

theorem startingAt_append (offset : Nat) (left right : List (DotTerm α)) :
    startingAt offset (left ++ right) = startingAt offset left ++ startingAt offset right :=
  List.filter_append ..

theorem coefficientsAt_append (offset : Nat) (left right : List (DotTerm α)) :
    coefficientsAt offset (left ++ right) =
      coefficientsAt offset left ++ coefficientsAt offset right := by
  rw [coefficientsAt, startingAt_append, List.flatMap_append]
  rfl

theorem startingAt_singleton_self (term : DotTerm α) :
    startingAt term.slice.source.offset [term] = [term] := by
  simp [startingAt]

theorem startingAt_singleton_of_ne {offset : Nat} {term : DotTerm α}
    (elsewhere : offset ≠ term.slice.source.offset) : startingAt offset [term] = [] := by
  simp [startingAt, elsewhere.symm]

end DotTerm

namespace Gathered

variable {α : Type}

/-- The row at a column after some terms were met: as long as the variable of the first of them that
starts there, with the coefficients of all that do. -/
def rowAfter (terms : List (DotTerm α)) (offset : Nat) : Option (GatheredRow α) :=
  (DotTerm.startingAt offset terms).head?.map fun first =>
    ⟨first.slice.source.size, (DotTerm.coefficientsAt offset terms).reverse⟩

/-- What has been gathered when some terms were met, in this order, and some numbers, in this
order. -/
structure Holds [Add α] [Zero α] (gathered : Gathered α) (terms : List (DotTerm α))
    (numbers : List α) : Prop where
  increasing : gathered.rows.Pairwise fun first second => first.1 < second.1
  row_eq : ∀ offset, gathered.rows.lookup offset = rowAfter terms offset
  constant_eq : gathered.constant = numbers.foldl (· + ·) 0

/-! ### Steps -/

/-- Adding coefficients changes the row at the column of their variable and no other. -/
theorem lookup_addTo {source : Variable} {coefficients : List (Nat × α)}
    {rows : List (Nat × GatheredRow α)}
    (increasing : rows.Pairwise fun first second => first.1 < second.1) (offset : Nat) :
    (addTo source coefficients rows).lookup offset =
      if offset = source.offset then
        match rows.lookup offset with
        | none => some ⟨source.size, coefficients.reverse⟩
        | some row => some { row with latest := coefficients.reverse ++ row.latest }
      else rows.lookup offset := by
  induction rows with
  | nil => exact lookup_cons_eq_ite ..
  | cons first rest inductionHypothesis =>
    obtain ⟨other, present⟩ := first
    have deeper := inductionHypothesis (List.pairwise_cons.mp increasing).2
    rw [addTo]
    split
    · rename_i before
      rw [lookup_cons_eq_ite]
      by_cases same : offset = source.offset
      · rw [if_pos same, if_pos same, same,
          lookup_eq_none_of_before (forall_before_of_before increasing before)]
      · rw [if_neg same, if_neg same]
    · split
      · rename_i equal
        rw [lookup_cons_eq_ite, lookup_cons_eq_ite, ← equal]
        by_cases same : offset = source.offset
        · rw [if_pos same, if_pos same, if_pos same]
        · rw [if_neg same, if_neg same, if_neg same]
      · rename_i different
        rw [lookup_cons_eq_ite, lookup_cons_eq_ite, deeper]
        by_cases here : offset = other
        · have elsewhere : offset ≠ source.offset := fun same => different (same.symm.trans here)
          rw [if_pos here, if_neg elsewhere, if_pos here]
        · rw [if_neg here, if_neg here]

variable [Add α] [Zero α]

theorem holds_nothing : (⟨[], 0⟩ : Gathered α).Holds [] [] where
  increasing := List.Pairwise.nil
  row_eq _ := rfl
  constant_eq := rfl

/-- Taking in a term puts it behind the terms that were met. -/
theorem Holds.takeTerm {gathered : Gathered α} {terms : List (DotTerm α)} {numbers : List α}
    (holds : gathered.Holds terms numbers) (term : DotTerm α) :
    (gathered.takeTerm term).Holds (terms ++ [term]) numbers where
  increasing := addTo_increasing _ _ holds.increasing
  constant_eq := holds.constant_eq
  row_eq offset := by
    show (addTo term.slice.source term.coefficients gathered.rows).lookup offset = _
    rw [lookup_addTo holds.increasing, holds.row_eq, rowAfter, rowAfter,
      DotTerm.coefficientsAt_append, DotTerm.startingAt_append]
    by_cases same : offset = term.slice.source.offset
    · subst same
      rw [if_pos rfl, DotTerm.coefficientsAt, DotTerm.coefficientsAt,
        DotTerm.startingAt_singleton_self]
      cases DotTerm.startingAt term.slice.source.offset terms <;> simp
    · rw [if_neg same, DotTerm.startingAt_singleton_of_ne same, DotTerm.coefficientsAt,
        DotTerm.coefficientsAt, DotTerm.startingAt_singleton_of_ne same, List.append_nil,
        List.flatMap_nil, List.append_nil]

/-- Taking in a number puts it behind the numbers that were met. -/
theorem Holds.takeConstant {gathered : Gathered α} {terms : List (DotTerm α)} {numbers : List α}
    (holds : gathered.Holds terms numbers) (value : α) :
    (gathered.takeConstant value).Holds terms (numbers ++ [value]) where
  increasing := holds.increasing
  row_eq := holds.row_eq
  constant_eq := by
    rw [Gathered.takeConstant, holds.constant_eq, List.foldl_append]
    rfl

/-! ### The traversal -/

/-- The stack is worked off from its top, and the leaves of each of its parts from right to left. -/
theorem Holds.visit (stack : List (Expr α)) (gathered : Gathered α) {terms : List (DotTerm α)}
    {numbers : List α} (holds : gathered.Holds terms numbers) :
    (visit stack gathered).Holds (terms ++ stack.flatMap fun expr => expr.terms.reverse)
      (numbers ++ stack.flatMap fun expr => expr.constants.reverse) := by
  fun_induction Gathered.visit stack gathered generalizing terms numbers with
  | case1 gathered =>
    rwa [List.flatMap_nil, List.flatMap_nil, List.append_nil, List.append_nil]
  | case2 term stack gathered inductionHypothesis =>
    have next := inductionHypothesis (holds.takeTerm term)
    rwa [List.append_assoc] at next
  | case3 value stack gathered inductionHypothesis =>
    have next := inductionHypothesis (holds.takeConstant value)
    rwa [List.append_assoc] at next
  | case4 children stack gathered inductionHypothesis =>
    rw [List.unattach_reverse, List.unattach_attach] at inductionHypothesis
    have partTerms : (children.reverse.flatMap fun expr => expr.terms.reverse) =
        (Expr.sum children).terms.reverse := by
      rw [Expr.terms_sum, List.reverse_flatMap]
      rfl
    have partNumbers : (children.reverse.flatMap fun expr => expr.constants.reverse) =
        (Expr.sum children).constants.reverse := by
      rw [Expr.constants_sum, List.reverse_flatMap]
      rfl
    have next := inductionHypothesis holds
    rwa [List.flatMap_append, List.flatMap_append, partTerms, partNumbers] at next

/-- An expression is gathered from right to left. -/
theorem holds_visit (expr : Expr α) :
    (Gathered.visit [expr] ⟨[], 0⟩).Holds expr.terms.reverse expr.constants.reverse := by
  have all := holds_nothing.visit [expr]
  rwa [List.nil_append, List.nil_append, List.flatMap_singleton, List.flatMap_singleton] at all

end Gathered

end BlockCone
