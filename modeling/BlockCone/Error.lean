/-
This file lists everything that can go wrong while a model is built, read, solved or reported.

An `Error` is a cause, not a text: it carries the facts that explain the failure, and `message`
is the only place where words are chosen. A terminal outcome of a solve, such as infeasibility,
is not an error; it is a status of its own.
-/

namespace BlockCone

/-- Why a text is not accepted by a reader. -/
inductive Fault where
  /-- The text is not well formed. -/
  | malformed
  /-- The text is well formed but says something else than what is read. -/
  | mismatched
  /-- The text stops too early. -/
  | truncated
deriving DecidableEq, Repr

/-- Why a model cannot be handed on as it was declared. -/
inductive Defect where
  /-- A variable was declared in a domain that holds numbers, not matrices. -/
  | variableDomain (domain : String)
  /-- A block variable was declared with no blocks or with blocks of no rows. -/
  | emptyBlocks (count dim : Nat)
  /-- The columns of a block variable do not fit into the column numbers. -/
  | columnOverflow (count dim : Nat)
  /-- An expression was constrained to a domain that holds matrices. -/
  | constraintDomain (domain : String)
  /-- The declared cones do not have as many columns as the problem. -/
  | coverage (declared columns : Nat)
  /-- A block is too large to be written with linear and second-order cones. -/
  | largeBlock (dim : Nat)
deriving DecidableEq, Repr

/-- Why a file could not be written. -/
inductive FileFailure where
  /-- The directory of the file does not exist. -/
  | notFound
deriving DecidableEq, Repr

/-- What can go wrong. -/
inductive Error where
  /-- Two sizes disagree. -/
  | shapeMismatch (expected got : String)
  /-- A coordinate lies outside its extent. -/
  | indexOutOfRange (index bound : String)
  /-- An expression or a slice uses a variable of another problem. -/
  | foreignVariable (label : String)
  /-- The problem was solved before and accepts no changes. -/
  | problemFinalized
  /-- There is no optimal solution to read from. -/
  | notSolved
  /-- The problem cannot be handed on as it was declared. -/
  | invalidProblem (defect : Defect)
  /-- A file could not be written. -/
  | file (failure : FileFailure)
  /-- A text could not be read. -/
  | unreadable (fault : Fault)
  /-- A vector or a matrix was accessed outside its bounds. -/
  | outOfBounds
  /-- A matrix without rows has no eigenvalues to judge. -/
  | emptyMatrix
  /-- A backend stopped before it had an answer. -/
  | backendStopped
deriving DecidableEq, Repr

/-- The sentence that describes a defect. -/
def Defect.message : Defect → String
  | .variableDomain domain => s!"variables must be declared in a cone domain, got {domain}"
  | .emptyBlocks count dim =>
      s!"block variable needs positive block count and dimension, got n={count}, d={dim}"
  | .columnOverflow count dim =>
      s!"block variable with n={count}, d={dim} overflows the column space"
  | .constraintDomain domain => s!"{domain} applies to variables, not scalar constraints"
  | .coverage declared columns =>
      s!"cone declarations cover {declared} columns but the problem has {columns}"
  | .largeBlock dim => "PSD blocks of dimension " ++ toString dim ++ " need the \x60sdp\x60 feature"

/-- The sentence that describes a failure to write a file. -/
def FileFailure.message : FileFailure → String
  | .notFound => "No such file or directory (os error 2)"

/-- The sentence that describes a fault of a text. -/
def Fault.message : Fault → String
  | .malformed => "the text is not well formed"
  | .mismatched => "the text does not describe the expected value"
  | .truncated => "the text ends too early"

/-- The sentence that describes an error. -/
def Error.message : Error → String
  | .shapeMismatch expected got => s!"Shape mismatch: expected {expected}, got {got}"
  | .indexOutOfRange index bound => s!"Index out of range: {index} not within {bound}"
  | .foreignVariable label => s!"Variable {label} is not owned by this problem"
  | .problemFinalized => "Problem is finalized: no modification is allowed after solve"
  | .notSolved => "No solution available: problem has not been solved to optimality"
  | .invalidProblem defect => "Invalid problem: " ++ defect.message
  | .file failure => "I/O error: " ++ failure.message
  | .unreadable fault => "Serialization error: " ++ fault.message
  | .outOfBounds => "index out of bounds"
  | .emptyMatrix => "an empty matrix has no eigenvalues"
  | .backendStopped => "the backend stopped without an answer"

end BlockCone
