/-
This file proves in which order the traversal meets the leaves of an expression.

The loop takes the top of the stack: a leaf is taken in, and a sum is replaced by its parts. What is
on the stack is therefore all that is left to meet, each part from right to left and the parts from
the top down, and a turn either moves one leaf from there to what was met or leaves both as they
are. That is the invariant of the loop. It does not end because the stack shrinks, which a sum makes
grow, but because every turn takes one node off it, so it makes as many turns as the expression has
nodes.

The order decides the result where addition is not associative. Numbers are added up from the
rightmost on, starting from zero, and each coefficient is the sum of what the inner products
contribute to it, starting from the contribution that was met first. Nothing is used of addition.
-/

import BlockCone.Proofs.PlainFold
import BlockCone.ScalarDouble

namespace BlockCone

/-! ### Leaves -/

/-- A leaf of an expression. -/
inductive Leaf (α : Type) where
  | term (term : DotTerm α)
  | number (value : α)

namespace Leaf

variable {α : Type}

/-- The inner product that a leaf is. -/
def term? : Leaf α → Option (DotTerm α)
  | .term used => some used
  | .number _ => none

/-- The number that a leaf is. -/
def number? : Leaf α → Option α
  | .term _ => none
  | .number value => some value

end Leaf

namespace Expr

variable {α : Type}

mutual

/-- The leaves of an expression from left to right, once for each use. -/
def leaves : Expr α → List (Leaf α)
  | .dot term => [.term term]
  | .sum children => allLeaves children
  | .constant value => [.number value]

/-- The leaves of a list of expressions from left to right. -/
def allLeaves : List (Expr α) → List (Leaf α)
  | [] => []
  | first :: rest => leaves first ++ allLeaves rest

end

theorem allLeaves_eq (exprs : List (Expr α)) : allLeaves exprs = exprs.flatMap leaves := by
  induction exprs with
  | nil => rfl
  | cons first rest inductionHypothesis =>
    rw [allLeaves, inductionHypothesis, List.flatMap_cons]

theorem leaves_sum (children : List (Expr α)) :
    (sum children).leaves = children.flatMap leaves :=
  allLeaves_eq children

mutual

/-- What is listed leaf by leaf is picked from the leaves. -/
theorem filterMap_leaves {β : Type} {pick : Leaf α → Option β} {listed : Expr α → List β}
    (ofTerm : ∀ term, listed (.dot term) = (pick (.term term)).toList)
    (ofNumber : ∀ value, listed (.constant value) = (pick (.number value)).toList)
    (ofSum : ∀ children, listed (.sum children) = children.flatMap listed) :
    ∀ expr : Expr α, expr.leaves.filterMap pick = listed expr
  | .dot term => by
    rw [leaves, ofTerm]
    cases picked : pick (.term term) <;> simp [picked]
  | .sum children => by
    rw [leaves_sum, ofSum]
    exact filterMap_flatMap_leaves ofTerm ofNumber ofSum children
  | .constant value => by
    rw [leaves, ofNumber]
    cases picked : pick (.number value) <;> simp [picked]

theorem filterMap_flatMap_leaves {β : Type} {pick : Leaf α → Option β}
    {listed : Expr α → List β}
    (ofTerm : ∀ term, listed (.dot term) = (pick (.term term)).toList)
    (ofNumber : ∀ value, listed (.constant value) = (pick (.number value)).toList)
    (ofSum : ∀ children, listed (.sum children) = children.flatMap listed) :
    ∀ exprs : List (Expr α), (exprs.flatMap leaves).filterMap pick = exprs.flatMap listed
  | [] => rfl
  | first :: rest => by
    rw [List.flatMap_cons, List.filterMap_append, filterMap_leaves ofTerm ofNumber ofSum first,
      filterMap_flatMap_leaves ofTerm ofNumber ofSum rest, List.flatMap_cons]

end

/-- The inner products among the leaves. -/
theorem filterMap_term?_leaves (expr : Expr α) : expr.leaves.filterMap Leaf.term? = expr.terms :=
  filterMap_leaves (fun _ => rfl) (fun _ => rfl) terms_sum expr

/-- The numbers among the leaves. -/
theorem filterMap_number?_leaves (expr : Expr α) :
    expr.leaves.filterMap Leaf.number? = expr.constants :=
  filterMap_leaves (fun _ => rfl) (fun _ => rfl) constants_sum expr

end Expr

/-! ### Turns of the loop -/

namespace Gathered

variable {α : Type}

/-- Takes in one leaf. -/
def take [Add α] (gathered : Gathered α) : Leaf α → Gathered α
  | .term term => gathered.takeTerm term
  | .number value => gathered.takeConstant value

/-- The stack after a turn. -/
def nextStack : List (Expr α) → List (Expr α)
  | [] => []
  | .dot _ :: stack => stack
  | .constant _ :: stack => stack
  | .sum children :: stack => children.reverse ++ stack

/-- The leaf that a turn meets: what lies on the top of the stack, unless it is a sum. -/
def topLeaf? : List (Expr α) → Option (Leaf α)
  | .dot term :: _ => some (.term term)
  | .constant value :: _ => some (.number value)
  | _ => none

/-- The stack after a number of turns. -/
def stackAfter : Nat → List (Expr α) → List (Expr α)
  | 0, stack => stack
  | turns + 1, stack => stackAfter turns (nextStack stack)

/-- The leaves that a number of turns meets. -/
def leavesMet : Nat → List (Expr α) → List (Leaf α)
  | 0, _ => []
  | turns + 1, stack => (topLeaf? stack).toList ++ leavesMet turns (nextStack stack)

/-- The leaves that a stack holds, in the order in which they will be met. -/
def unmet (stack : List (Expr α)) : List (Leaf α) :=
  stack.flatMap fun expr => expr.leaves.reverse

/-! ### The loop ends -/

theorem totalWeight_eq_zero_iff (stack : List (Expr α)) :
    Expr.totalWeight stack = 0 ↔ stack = [] := by
  match stack with
  | [] => simp [Expr.totalWeight]
  | .dot _ :: _ | .constant _ :: _ | .sum _ :: _ => simp [Expr.totalWeight, Expr.weight]

/-- A turn takes one node off the stack. -/
theorem totalWeight_nextStack (stack : List (Expr α)) :
    Expr.totalWeight (nextStack stack) = Expr.totalWeight stack - 1 := by
  match stack with
  | [] => rfl
  | .dot _ :: stack | .constant _ :: stack =>
    rw [nextStack, Expr.totalWeight, Expr.weight, Nat.add_sub_cancel_left]
  | .sum children :: stack =>
    rw [nextStack, Expr.totalWeight_append, Expr.totalWeight_reverse, Expr.totalWeight,
      Expr.weight, Nat.add_assoc, Nat.add_sub_cancel_left]

/-- The stack is empty after as many turns as it holds nodes, and not before. -/
theorem stackAfter_eq_nil_iff (turns : Nat) (stack : List (Expr α)) :
    stackAfter turns stack = [] ↔ Expr.totalWeight stack ≤ turns := by
  induction turns generalizing stack with
  | zero => rw [stackAfter, Nat.le_zero, totalWeight_eq_zero_iff]
  | succ turns inductionHypothesis =>
    rw [stackAfter, inductionHypothesis, totalWeight_nextStack, Nat.sub_le_iff_le_add]

/-! ### The loop meets every leaf -/

/-- A turn meets the first of the leaves that the stack holds, or none. -/
theorem unmet_nextStack (stack : List (Expr α)) :
    (topLeaf? stack).toList ++ unmet (nextStack stack) = unmet stack := by
  match stack with
  | [] | .dot _ :: _ | .constant _ :: _ => rfl
  | .sum children :: stack =>
    -- the parts go onto the stack in their order, so the last one is met first
    have parts : unmet children.reverse = (Expr.sum children).leaves.reverse := by
      rw [Expr.leaves_sum, List.reverse_flatMap]
      rfl
    rw [nextStack, unmet, List.flatMap_append, ← unmet, parts]
    rfl

/-- What was met and what the stack holds are the leaves that it held. -/
theorem leavesMet_append_unmet (turns : Nat) (stack : List (Expr α)) :
    leavesMet turns stack ++ unmet (stackAfter turns stack) = unmet stack := by
  induction turns generalizing stack with
  | zero => rfl
  | succ turns inductionHypothesis =>
    rw [leavesMet, stackAfter, List.append_assoc, inductionHypothesis, unmet_nextStack]

theorem stackAfter_weight (expr : Expr α) : stackAfter expr.weight [expr] = [] :=
  (stackAfter_eq_nil_iff expr.weight [expr]).mpr (Nat.add_zero _).le

/-- An expression is met leaf by leaf from right to left. -/
theorem leavesMet_weight (expr : Expr α) :
    leavesMet expr.weight [expr] = expr.leaves.reverse := by
  have all := leavesMet_append_unmet expr.weight [expr]
  rw [stackAfter_weight] at all
  rwa [unmet, unmet, List.flatMap_nil, List.append_nil, List.flatMap_singleton] at all

/-- The traversal is a loop of these turns. -/
theorem visit_eq_visit_nextStack [Add α] (stack : List (Expr α)) (gathered : Gathered α) :
    visit stack gathered =
      visit (nextStack stack) ((topLeaf? stack).toList.foldl take gathered) := by
  match stack with
  | [] => rfl
  | .dot _ :: _ | .constant _ :: _ | .sum _ :: _ =>
    rw [visit]
    rfl

theorem visit_eq_visit_stackAfter [Add α] (turns : Nat) (stack : List (Expr α))
    (gathered : Gathered α) :
    visit stack gathered =
      visit (stackAfter turns stack) ((leavesMet turns stack).foldl take gathered) := by
  induction turns generalizing stack gathered with
  | zero => rfl
  | succ turns inductionHypothesis =>
    rw [visit_eq_visit_nextStack, inductionHypothesis, leavesMet, List.foldl_append, stackAfter]

/-- What is gathered from an expression is taken in leaf by leaf from right to left. -/
theorem visit_eq_foldl [Add α] (expr : Expr α) (gathered : Gathered α) :
    visit [expr] gathered = expr.leaves.reverse.foldl take gathered := by
  rw [visit_eq_visit_stackAfter expr.weight, stackAfter_weight, leavesMet_weight, visit]

end Gathered

/-! ### Contributions -/

/-- What some terms contribute to the coefficient of one entry of the variable that starts at a
column, in the order of the terms. -/
def DotTerm.contributionsAt {α : Type} (offset index : Nat) (terms : List (DotTerm α)) : List α :=
  ((coefficientsAt offset terms).filter fun entry => entry.1 == index).map Prod.snd

namespace Sparse

variable {α : Type} [Add α]

omit [Add α] in
theorem contributions_rowTriplets (entries : List (Nat × α)) (index : Nat) :
    Triplet.contributions 0 index (rowTriplets entries) =
      (entries.filter fun entry => entry.1 == index).map Prod.snd := by
  rw [Triplet.contributions, rowTriplets, List.filter_map, List.map_map]
  rfl

/-- The coefficients that an assembled row stores are the sums of what was given for them. -/
theorem mem_rowEntries_assemble_iff (size : Nat) (entries : List (Nat × α)) (index : Nat)
    (value : α) :
    (index, value) ∈ (assemble 1 size (rowTriplets entries)).rowEntries ↔
      sumFromFirst? ((entries.filter fun entry => entry.1 == index).map Prod.snd) =
        some value := by
  rw [← contributions_rowTriplets, ← lookup_assemble 1 size,
    lookup_eq_some_iff (assemble_pairwise 1 size _), rowEntries, List.mem_map]
  constructor
  · rintro ⟨⟨row, col, kept⟩, stored, same⟩
    obtain ⟨rfl, rfl⟩ := Prod.mk.inj same
    obtain ⟨named, namedMember, sameRow, _⟩ := position_assemble stored
    obtain ⟨entry, _, rfl⟩ := mem_rowTriplets namedMember
    obtain rfl : 0 = row := sameRow
    exact stored
  · intro stored
    exact ⟨_, stored, rfl⟩

/-- What an assembled row stores lies inside it exactly if all that was given for it does. -/
theorem isWithin_assemble_iff (size : Nat) (entries : List (Nat × α)) :
    (assemble 1 size (rowTriplets entries)).isWithin = true ↔
      ∀ entry ∈ entries, entry.1 < size := by
  simp only [isWithin, List.all_eq_true, Triplet.isWithin_iff]
  constructor
  · intro within entry listed
    have named : ⟨0, entry.1, entry.2⟩ ∈ rowTriplets entries := List.mem_map_of_mem listed
    obtain ⟨stored, member, _, sameCol⟩ := exists_assemble 1 size named
    rw [show entry.1 = stored.col from sameCol]
    exact (within stored member).2
  · intro below stored member
    obtain ⟨named, namedMember, sameRow, sameCol⟩ := position_assemble member
    obtain ⟨entry, listed, rfl⟩ := mem_rowTriplets namedMember
    rw [← sameRow, ← sameCol]
    exact ⟨Nat.one_pos, below entry listed⟩

end Sparse

/-! ### The linear form -/

namespace Expr

variable {α : Type} [Scalar α]

/-- The rows of a linear form are assembled from the terms at their columns, from right to left. -/
theorem eq_assemble_of_lookup {expr : Expr α} {offset : Nat} {row : Sparse α}
    (found : expr.linearForm.rows.lookup offset = some row) :
    row = .assemble 1 row.cols
      (rowTriplets (DotTerm.coefficientsAt offset expr.terms.reverse)) := by
  rw [(linearForm_sums_reverse expr).row_eq, DotTerm.rowOf, Option.map_eq_some_iff] at found
  obtain ⟨first, _, rfl⟩ := found
  rfl

/-- A column has the sum of what the terms contribute to it, unless that compares equal to zero. -/
theorem mem_columns_linearForm_iff (expr : Expr α) (column : Nat) (value : α) :
    (column, value) ∈ expr.linearForm.columns ↔
      Scalar.isZero value = false ∧ ∃ offset index, offset + index = column ∧
        sumFromFirst? (DotTerm.contributionsAt offset index expr.terms.reverse) = some value := by
  have sums := linearForm_sums_reverse expr
  have stored : ∀ offset index, (∃ row, (offset, row) ∈ expr.linearForm.rows ∧
      (index, value) ∈ row.rowEntries) ↔
        sumFromFirst? (DotTerm.contributionsAt offset index expr.terms.reverse) = some value := by
    intro offset index
    simp only [← lookup_eq_some_iff sums.increasing]
    cases found : expr.linearForm.rows.lookup offset with
    | none =>
      -- without a row no term starts at the column, so nothing is contributed to it
      rw [sums.row_eq, DotTerm.rowOf, Option.map_eq_none_iff, List.head?_eq_none_iff] at found
      simp [DotTerm.contributionsAt, DotTerm.coefficientsAt, found, sumFromFirst?]
    | some row =>
      simp only [Option.some.injEq, exists_eq_left']
      rw [eq_assemble_of_lookup found, Sparse.mem_rowEntries_assemble_iff]
      rfl
  simp only [LinearForm.columns, List.mem_mergeSort, List.mem_filter, List.mem_flatMap,
    List.mem_map, Bool.not_eq_true', ← stored]
  constructor
  · rintro ⟨⟨⟨offset, row⟩, rowMember, ⟨index, kept⟩, member, same⟩, nonzero⟩
    obtain ⟨rfl, rfl⟩ := Prod.mk.inj same
    exact ⟨nonzero, offset, index, rfl, row, rowMember, member⟩
  · rintro ⟨nonzero, offset, index, rfl, row, rowMember, member⟩
    exact ⟨⟨(offset, row), rowMember, (index, value), member, rfl⟩, nonzero⟩

/-- Linearizing succeeds exactly if every coefficient lies inside the row that it is gathered
for. -/
theorem linearize_eq_ok_iff (expr : Expr α) :
    expr.linearize = .ok expr.linearForm ↔
      ∀ offset row, expr.linearForm.rows.lookup offset = some row →
        ∀ entry ∈ DotTerm.coefficientsAt offset expr.terms.reverse, entry.1 < row.cols := by
  have checked : expr.linearize = .ok expr.linearForm ↔
      ∀ entry ∈ expr.linearForm.rows, entry.2.isWithin = true := by
    rw [linearize, ← List.all_eq_true]
    split
    · rename_i within
      exact iff_of_true rfl within
    · rename_i outside
      exact iff_of_false (by simp) outside
  rw [checked]
  constructor
  · intro within offset row found
    have inside := within (offset, row)
      ((lookup_eq_some_iff (linearForm_sums_reverse expr).increasing).mp found)
    rwa [eq_assemble_of_lookup found, Sparse.isWithin_assemble_iff] at inside
  · intro below entry member
    have found := (lookup_eq_some_iff (linearForm_sums_reverse expr).increasing).mpr member
    rw [eq_assemble_of_lookup found, Sparse.isWithin_assemble_iff]
    exact below _ _ found

/-- An expression is linearized from right to left. -/
structure LinearizedRightToLeft (expr : Expr α) : Prop where
  /-- The leaves are the inner products and the numbers, from left to right, once for each use. -/
  leaves_eq : expr.leaves.filterMap Leaf.term? = expr.terms ∧
    expr.leaves.filterMap Leaf.number? = expr.constants
  /-- The loop ends after one turn for each node. -/
  ends : ∀ turns, Gathered.stackAfter turns [expr] = [] ↔ expr.weight ≤ turns
  /-- It takes in the leaves that its turns meet. -/
  loop : ∀ turns, Gathered.visit [expr] ⟨[], 0⟩ =
    Gathered.visit (Gathered.stackAfter turns [expr])
      ((Gathered.leavesMet turns [expr]).foldl Gathered.take ⟨[], 0⟩)
  met : Gathered.leavesMet expr.weight [expr] = expr.leaves.reverse
  gathered : Gathered.visit [expr] ⟨[], 0⟩ = expr.leaves.reverse.foldl Gathered.take ⟨[], 0⟩
  constant_eq : expr.linearForm.constant = expr.constants.reverse.foldl (· + ·) 0
  increasing : expr.linearForm.rows.Pairwise fun first second => first.1 < second.1
  /-- Each row is assembled from the coefficients of the terms at its column, from right to left,
  and as long as the variable of the first of them. -/
  row_eq : ∀ offset, expr.linearForm.rows.lookup offset =
    (DotTerm.startingAt offset expr.terms.reverse).head?.map fun first =>
      .assemble 1 first.slice.source.size
        (rowTriplets (DotTerm.coefficientsAt offset expr.terms.reverse))
  /-- Each coefficient of a row is the sum of what the terms contribute to it. -/
  stored : ∀ offset row, expr.linearForm.rows.lookup offset = some row →
    (row.rowEntries.Pairwise fun left right => left.1 < right.1) ∧
      ∀ index value, (index, value) ∈ row.rowEntries ↔
        sumFromFirst? (DotTerm.contributionsAt offset index expr.terms.reverse) = some value
  /-- The coefficients of a term over a slice are in the order of the rows of its matrix. -/
  coefficients_eq : ∀ term ∈ expr.terms, term.slice.CutFrom term.slice.source →
    term.coefficients = term.slice.view.flatIndices.zipIdx.map fun (index, place) =>
      (index, term.weights.entry (place / term.weights.cols) (place % term.weights.cols))
  accepted : expr.linearize = .ok expr.linearForm ↔
    ∀ offset row, expr.linearForm.rows.lookup offset = some row →
      ∀ entry ∈ DotTerm.coefficientsAt offset expr.terms.reverse, entry.1 < row.cols

/-- Whatever addition is, the traversal of an expression ends, meets its leaves from right to left,
each once for each use, and adds up its numbers and the contributions to each coefficient in this
order. -/
theorem linearizedRightToLeft (expr : Expr α) : expr.LinearizedRightToLeft where
  leaves_eq := ⟨filterMap_term?_leaves expr, filterMap_number?_leaves expr⟩
  ends turns := by
    rw [Gathered.stackAfter_eq_nil_iff]
    rfl
  loop turns := Gathered.visit_eq_visit_stackAfter turns [expr] _
  met := Gathered.leavesMet_weight expr
  gathered := Gathered.visit_eq_foldl expr _
  constant_eq := (linearForm_sums_reverse expr).constant_eq
  increasing := (linearForm_sums_reverse expr).increasing
  row_eq := (linearForm_sums_reverse expr).row_eq
  stored offset row found := by
    rw [eq_assemble_of_lookup found]
    exact ⟨Sparse.rowEntries_increasing _ _, Sparse.mem_rowEntries_assemble_iff _ _⟩
  coefficients_eq _ _ cut := DotTerm.coefficients_eq cut
  accepted := linearize_eq_ok_iff expr

/-- One is lost beside a large double unless the large ones cancel first. -/
example : (sum [constant 1, constant 1e16, constant (-1e16)] : Expr Float).linearForm.constant =
    1 := by
  rw [(linearForm_sums_reverse _).constant_eq]
  decide +kernel

end Expr

end BlockCone
