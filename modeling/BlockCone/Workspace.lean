/-
This file keeps several problems apart.

A `Workspace` numbers problems in the order in which they are created and never forgets one, so a
number, once given, means the same problem for good. An operation on one problem replaces that
problem and touches no other; an operation that fails replaces nothing.
-/

import BlockCone.Problem

namespace BlockCone

/-- The problems created so far; the number of a problem is its place. -/
structure Workspace (α : Type) where
  problems : List (Problem α)

namespace Workspace

variable {α : Type}

/-- The workspace before any problem is created. -/
def empty : Workspace α := ⟨[]⟩

/-- Creates a problem under the next number. -/
def create (workspace : Workspace α) (name : Option String) : ProblemId × Workspace α :=
  let id := workspace.problems.length
  (id, ⟨workspace.problems ++ [Problem.new id name]⟩)

/-- The problem with a number. -/
def problem? (workspace : Workspace α) (id : ProblemId) : Option (Problem α) :=
  workspace.problems[id]?

/-- Puts a changed problem in the place of the one with its number. -/
def replace (workspace : Workspace α) (id : ProblemId) (problem : Problem α) : Workspace α :=
  ⟨workspace.problems.set id problem⟩

/-- Carries out an operation on the problem with a number, if that number was given. -/
def update {β : Type} (workspace : Workspace α) (id : ProblemId)
    (operation : Problem α → Except Error (β × Problem α)) :
    Option (Except Error (β × Workspace α)) :=
  (workspace.problem? id).map fun problem => do
    let (answer, changed) ← operation problem
    pure (answer, workspace.replace id changed)

end Workspace

end BlockCone
