/-
This file says how a solve can end.

A backend answers with an `Outcome`: a terminal status, a vector of levels if it has one, and how
long it took. Infeasibility and unboundedness are answers like optimality; only a backend that
gave up reports a failure, and says why.
-/

import BlockCone.Conic

namespace BlockCone

/-- How a solve ended. -/
inductive Status where
  | optimal
  | infeasible
  | unbounded
  /-- The backend gave up. -/
  | failed (reason : String)
deriving DecidableEq, Repr

namespace Status

/-- Whether there are levels to read. -/
def isOptimal : Status → Bool
  | .optimal => true
  | _ => false

/-- The text of a status. -/
def display : Status → String
  | .optimal => "optimal"
  | .infeasible => "infeasible"
  | .unbounded => "unbounded"
  | .failed reason => "solver error: " ++ reason

end Status

/-- What a backend answers. -/
structure Outcome (α : Type) where
  status : Status
  /-- The levels of all columns. -/
  levels : Option (Array α)
  /-- The time taken, in seconds. -/
  seconds : Float
  iterations : Nat

/-- The answer of a backend that gave up before it began. -/
def Outcome.failure {α : Type} (reason : String) : Outcome α :=
  ⟨.failed reason, none, 0.0, 0⟩

/-- A backend: something that answers flat problems. -/
abbrev Backend (α : Type) := ConicProblem α → Outcome α

/-- What a problem keeps of an answer. -/
structure Solution (α : Type) where
  status : Status
  /-- The value of the objective. -/
  value : Option α
  /-- The levels of all columns. -/
  levels : Option (Array α)
  seconds : Float
  iterations : Nat

end BlockCone
