/-
This file collects an expression into its linear form.

The expression is taken apart with a stack of parts that are still to be visited. The children of
a sum are put on the stack in their order and taken from its top, so the last child is visited
first, and the leaves come up from right to left. Constants are added up and coefficients are
gathered in that order; each variable's row is assembled once, when the stack is empty. No addition
is reassociated beyond that, which is what makes the result exact for doubles too. Every visit
takes weight off the stack, so the traversal ends.

Rows belong to the columns at which variables start. Within one problem no two variables start at
the same column, and every coefficient lies inside its row. An expression that mixes variables of
several problems may give a row to one and a coefficient beyond its end to another; `linearize`
refuses such an expression, and `linearForm`, which does not look, is for those that were checked
before.
-/

import BlockCone.Expr
import BlockCone.LinearForm

namespace BlockCone

namespace Expr

variable {α : Type}

mutual

/-- The number of nodes of an expression. -/
def weight : Expr α → Nat
  | .dot _ => 1
  | .sum children => 1 + totalWeight children
  | .constant _ => 1

/-- The number of nodes of a list of expressions. -/
def totalWeight : List (Expr α) → Nat
  | [] => 0
  | first :: rest => weight first + totalWeight rest

end

theorem totalWeight_append (left right : List (Expr α)) :
    totalWeight (left ++ right) = totalWeight left + totalWeight right := by
  induction left with
  | nil => simp [totalWeight]
  | cons first rest inductionHypothesis =>
    simp only [List.cons_append, totalWeight, inductionHypothesis]
    omega

theorem totalWeight_reverse (exprs : List (Expr α)) :
    totalWeight exprs.reverse = totalWeight exprs := by
  induction exprs with
  | nil => rfl
  | cons first rest inductionHypothesis =>
    simp only [List.reverse_cons, totalWeight_append, totalWeight, inductionHypothesis]
    omega

end Expr

/-- The coefficients gathered for one variable, the latest first. -/
structure GatheredRow (α : Type) where
  size : Nat
  latest : List (Nat × α)

/-- What has been gathered from the parts of an expression visited so far: the coefficients of
each variable under its first column, in increasing order of that column, and the constant. -/
structure Gathered (α : Type) where
  rows : List (Nat × GatheredRow α)
  constant : α

namespace Gathered

variable {α : Type}

/-- Adds the coefficients of an inner product to the row of its variable. -/
def addTo (source : Variable) (coefficients : List (Nat × α)) :
    List (Nat × GatheredRow α) → List (Nat × GatheredRow α)
  | [] => [(source.offset, ⟨source.size, coefficients.reverse⟩)]
  | (offset, row) :: rest =>
      if source.offset < offset then
        (source.offset, ⟨source.size, coefficients.reverse⟩) :: (offset, row) :: rest
      else if source.offset = offset then
        (offset, { row with latest := coefficients.reverse ++ row.latest }) :: rest
      else
        (offset, row) :: addTo source coefficients rest

/-- Takes in one inner product. -/
def takeTerm (gathered : Gathered α) (term : DotTerm α) : Gathered α :=
  { gathered with rows := addTo term.slice.source term.coefficients gathered.rows }

/-- Takes in one constant. -/
def takeConstant [Add α] (gathered : Gathered α) (value : α) : Gathered α :=
  { gathered with constant := gathered.constant + value }

/-- Visits the parts on the stack. -/
def visit [Add α] : List (Expr α) → Gathered α → Gathered α
  | [], gathered => gathered
  | .dot term :: stack, gathered => visit stack (gathered.takeTerm term)
  | .constant value :: stack, gathered => visit stack (gathered.takeConstant value)
  | .sum children :: stack, gathered => visit (children.reverse ++ stack) gathered
termination_by stack => Expr.totalWeight stack
decreasing_by
  all_goals
    simp only [List.unattach_reverse, List.unattach_attach, Expr.totalWeight,
      Expr.totalWeight_append, Expr.totalWeight_reverse, Expr.weight]
    omega

/-- Assembles the row of each variable, as long as the variable that was met first. -/
def toForm [Add α] (gathered : Gathered α) : LinearForm α :=
  { rows := gathered.rows.map fun (offset, row) =>
      (offset, .assemble 1 row.size (rowTriplets row.latest.reverse))
    constant := gathered.constant }

end Gathered

namespace Expr

variable {α : Type} [Scalar α]

/-- The linear form of an expression over the variables of one problem. -/
def linearForm (expr : Expr α) : LinearForm α :=
  (Gathered.visit [expr] ⟨[], 0⟩).toForm

/-- The linear form of an expression, unless a coefficient lies beyond the end of its row. -/
def linearize (expr : Expr α) : Except Error (LinearForm α) :=
  if expr.linearForm.rows.all fun (_, row) => row.isWithin then .ok expr.linearForm
  else .error .outOfBounds

end Expr

end BlockCone
