/-
This file proves when a problem accepts the variables of an expression.

A problem recognises a handle by its owner and its number, and asks once for each variable of an
expression, in the order of first use. Skipping repetitions loses nothing, because two handles that
count as the same are accepted or refused together; so the check passes exactly when every slice in
the expression is over a variable that the problem recognises.

Recognition is weaker than being one of the declared handles: it looks at two fields only. What
closes the gap is that handles are issued, never made up. A handle that carries the number of a
problem was returned by a declaration of that problem. `Issued` says this of a handle at a moment,
and a recognised handle that was issued is a declared one.
-/

import BlockCone.Proofs.Expressions
import BlockCone.Problem

namespace BlockCone

theorem Variable.sameAs_iff (left right : Variable) :
    left.sameAs right = true ↔ left.owner = right.owner ∧ left.index = right.index := by
  simp only [Variable.sameAs, Bool.and_eq_true, beq_iff_eq]

/-! ### Recognition -/

namespace Problem

variable {α : Type}

theorem owns_congr (problem : Problem α) {left right : Variable}
    (same : left.sameAs right = true) : problem.owns left = problem.owns right := by
  obtain ⟨sameOwner, sameIndex⟩ := (Variable.sameAs_iff left right).mp same
  simp only [owns, Variable.sameAs, sameOwner, sameIndex]

theorem requireOwned_eq_ok_iff (problem : Problem α) (used : Variable) :
    problem.requireOwned used = .ok () ↔ problem.owns used = true := by
  unfold requireOwned
  split <;> simp_all

theorem requireOwned_eq_error_iff (problem : Problem α) (used : Variable) (reason : Error) :
    problem.requireOwned used = .error reason ↔
      problem.owns used = false ∧ reason = .foreignVariable used.label := by
  unfold requireOwned
  cases problem.owns used with
  | true => simp
  | false => simp [eq_comm]

/-- To ask once for each variable is to ask for each use: a variable that comes again was accepted
before, or a use before it was refused. -/
theorem forM_firstUses (problem : Problem α) (seen uses : List Variable) :
    (Expr.firstUses seen uses).forM problem.requireOwned =
      (seen.reverse ++ uses).forM problem.requireOwned := by
  induction uses generalizing seen with
  | nil => rw [Expr.firstUses, List.append_nil]
  | cons next rest inductionHypothesis =>
    rw [Expr.firstUses]
    split
    · rename_i known
      obtain ⟨earlier, earlierSeen, same⟩ := List.any_eq_true.mp known
      rw [inductionHypothesis, List.forM_eq_forM, List.forM_append, List.forM_append,
        List.forM_cons]
      cases asked : forM seen.reverse problem.requireOwned with
      | error reason => rfl
      | ok _ =>
        have accepted := (forM_eq_ok_iff _ _).mp asked earlier (List.mem_reverse.mpr earlierSeen)
        rw [requireOwned_eq_ok_iff, problem.owns_congr same, ← requireOwned_eq_ok_iff] at accepted
        rw [accepted]
        rfl
    · rw [inductionHypothesis, List.reverse_cons, List.append_assoc, List.singleton_append]

theorem requireOwnedExpr_eq_forM (problem : Problem α) (expr : Expr α) :
    problem.requireOwnedExpr expr =
      (expr.terms.map fun term => term.slice.source).forM problem.requireOwned :=
  problem.forM_firstUses [] _

/-- An expression is accepted exactly when every slice in it is over a recognised variable. -/
theorem requireOwnedExpr_eq_ok_iff (problem : Problem α) (expr : Expr α) :
    problem.requireOwnedExpr expr = .ok () ↔
      ∀ term ∈ expr.terms, problem.owns term.slice.source = true := by
  rw [requireOwnedExpr_eq_forM, forM_eq_ok_iff, List.forall_mem_map]
  simp only [requireOwned_eq_ok_iff]

/-! ### Issued handles -/

/-- A handle that carries the number of the problem is one that the problem returned. -/
def Issued (problem : Problem α) (handle : Variable) : Prop :=
  handle.owner = problem.id → handle ∈ problem.declared

/-- A slice was cut from an issued variable. -/
def IssuedSlice (problem : Problem α) (slice : Slice) : Prop :=
  slice.CutFrom slice.source ∧ problem.Issued slice.source

/-- Every slice in an expression was cut from an issued variable. -/
def IssuedExpr (problem : Problem α) (expr : Expr α) : Prop :=
  ∀ term ∈ expr.terms, problem.IssuedSlice term.slice

theorem owner_of_owns {problem : Problem α} {used : Variable} (owned : problem.owns used = true) :
    used.owner = problem.id := by
  simp only [owns, Bool.and_eq_true, beq_iff_eq] at owned
  exact owned.1

/-- An accepted expression made of issued handles is over the declared variables. -/
theorem over_of_accepted {problem : Problem α} {expr : Expr α} (issued : problem.IssuedExpr expr)
    (accepted : problem.requireOwnedExpr expr = .ok ()) : expr.Over problem.declared := by
  intro term member
  have owned := (problem.requireOwnedExpr_eq_ok_iff expr).mp accepted term member
  exact ⟨(issued term member).1, (issued term member).2 (owner_of_owns owned)⟩

end Problem

end BlockCone
