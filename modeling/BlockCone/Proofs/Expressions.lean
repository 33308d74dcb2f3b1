/-
This file says what an expression means, by recursion on the expression.

The meaning leaves open what an inner product is worth: `valueWith` takes that as a function, gives
a number its own value and a sum the sum of its parts. Two such functions matter. At a vector of
levels a term is worth the sum of its matrix entries times the levels they meet, which is
`valueAt`; in a solved problem it is worth the inner product of its matrix with the matrix that is
read for its slice.

The second theme is which variables an expression is about. `Over` asks that every slice was cut
from a variable of a list, and it can be checked part by part, since the terms of a sum are those
of its parts.
-/

import BlockCone.Proofs.Coefficients
import BlockCone.Proofs.Slices
import BlockCone.Expr

namespace BlockCone

/-! ### The terms of an expression -/

namespace Expr

variable {α : Type}

mutual

theorem termsBefore_eq : ∀ (expr : Expr α) (later : List (DotTerm α)),
    expr.termsBefore later = expr.termsBefore [] ++ later
  | .dot _, _ => rfl
  | .sum children, later => allTermsBefore_eq children later
  | .constant _, _ => rfl

theorem allTermsBefore_eq : ∀ (exprs : List (Expr α)) (later : List (DotTerm α)),
    allTermsBefore exprs later = allTermsBefore exprs [] ++ later
  | [], _ => rfl
  | first :: rest, later => by
    rw [allTermsBefore, allTermsBefore, termsBefore_eq first (allTermsBefore rest later),
      termsBefore_eq first (allTermsBefore rest []), allTermsBefore_eq rest later,
      List.append_assoc]

end

theorem allTermsBefore_eq_flatMap (exprs : List (Expr α)) :
    allTermsBefore exprs [] = exprs.flatMap terms := by
  induction exprs with
  | nil => rfl
  | cons first rest inductionHypothesis =>
    rw [allTermsBefore, termsBefore_eq, inductionHypothesis, List.flatMap_cons]
    rfl

/-- The terms of a sum are those of its parts, from left to right. -/
theorem terms_sum (children : List (Expr α)) : (sum children).terms = children.flatMap terms :=
  allTermsBefore_eq_flatMap children

/-- Every slice in an expression was cut from one of the given variables. -/
def Over (declared : List Variable) (expr : Expr α) : Prop :=
  ∀ term ∈ expr.terms,
    term.slice.CutFrom term.slice.source ∧ term.slice.source ∈ declared

theorem over_sum {declared : List Variable} {children : List (Expr α)} :
    (sum children).Over declared ↔ ∀ child ∈ children, child.Over declared := by
  simp only [Over, terms_sum, List.mem_flatMap]
  constructor
  · intro every child member term termMember
    exact every term ⟨child, member, termMember⟩
  · rintro every term ⟨child, member, termMember⟩
    exact every child member term termMember

theorem Over.mono {declared more : List Variable} {expr : Expr α} (isOver : expr.Over declared)
    (known : ∀ source ∈ declared, source ∈ more) : expr.Over more :=
  fun term member => ⟨(isOver term member).1, known _ (isOver term member).2⟩

end Expr

/-! ### Values -/

variable {K : Type} [ExactScalar K]

namespace Expr

mutual

/-- The value of an expression whose inner products have the given values. -/
def valueWith (leaf : DotTerm K → K) : Expr K → K
  | .dot term => leaf term
  | .sum children => totalWith leaf children
  | .constant value => value

/-- The sum of the values of a list of expressions. -/
def totalWith (leaf : DotTerm K → K) : List (Expr K) → K
  | [] => 0
  | first :: rest => valueWith leaf first + totalWith leaf rest

end

theorem totalWith_eq_sum (leaf : DotTerm K → K) (exprs : List (Expr K)) :
    totalWith leaf exprs = (exprs.map (valueWith leaf)).sum := by
  induction exprs with
  | nil => rfl
  | cons first rest inductionHypothesis =>
    rw [totalWith, inductionHypothesis, List.map_cons, List.sum_cons]

theorem totalWith_append (leaf : DotTerm K → K) (left right : List (Expr K)) :
    totalWith leaf (left ++ right) = totalWith leaf left + totalWith leaf right := by
  simp only [totalWith_eq_sum, List.map_append, List.sum_append]

theorem totalWith_reverse (leaf : DotTerm K → K) (exprs : List (Expr K)) :
    totalWith leaf exprs.reverse = totalWith leaf exprs := by
  simp only [totalWith_eq_sum, List.map_reverse, List.sum_reverse]

mutual

/-- Only the values of an expression's own inner products matter. -/
theorem valueWith_congr {first second : DotTerm K → K} : ∀ (expr : Expr K),
    (∀ term ∈ expr.terms, first term = second term) →
      expr.valueWith first = expr.valueWith second
  | .dot term, same => same term List.mem_cons_self
  | .sum children, same => by
    rw [valueWith, valueWith]
    exact totalWith_congr children fun term member => same term (by rwa [terms_sum])
  | .constant _, _ => rfl

theorem totalWith_congr {first second : DotTerm K → K} : ∀ (exprs : List (Expr K)),
    (∀ term ∈ exprs.flatMap terms, first term = second term) →
      totalWith first exprs = totalWith second exprs
  | [], _ => rfl
  | expr :: rest, same => by
    rw [List.flatMap_cons] at same
    rw [totalWith, totalWith,
      valueWith_congr expr fun term member => same term (List.mem_append_left _ member),
      totalWith_congr rest fun term member => same term (List.mem_append_right _ member)]

end

end Expr

namespace DotTerm

/-- The value of an inner product at a vector of levels: the entry of the matrix at each place, in
the order of its rows, times the level of the column that the slice lists there. -/
def valueAt (level : Nat → K) (term : DotTerm K) : K :=
  (term.slice.view.flatIndices.zipIdx.map fun (index, place) =>
    term.weights.entry (place / term.weights.cols) (place % term.weights.cols) *
      level (term.slice.source.offset + index)).sum

end DotTerm

/-- The value of an expression at a vector of levels. -/
def Expr.valueAt (level : Nat → K) (expr : Expr K) : K :=
  expr.valueWith (DotTerm.valueAt level)

end BlockCone
