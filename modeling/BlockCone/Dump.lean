/-
This file saves problems as JSON and reads them back.

A dump is a problem's flat form together with what its variables are called and where they lie.
Printing writes every field, in a fixed order; reading accepts what printing writes, and more: any
order, further fields, arrays in place of objects, and no name at all. A dump whose numbers are
all finite reads back as it was. One that is not prints `null` in their place, which is not a
number, so that reading it fails instead of giving another problem.
-/

import BlockCone.Problem
import BlockCone.ScalarDouble
import BlockCone.Json
import BlockCone.Json.Reader

namespace BlockCone

/-- What a dump says about a variable. -/
structure VariableDump where
  index : Nat
  name : Option String
  domain : Domain Float
  /-- The first column. -/
  offset : Nat
deriving BEq

/-- What is saved of a problem. -/
structure ProblemDump where
  name : Option String
  /-- What it says about each declared variable. -/
  declared : List VariableDump
  conic : ConicProblem Float
deriving BEq

/-- What is saved of a problem as it stands. -/
def Problem.dump (problem : Problem Float) : ProblemDump :=
  { name := problem.name
    declared := problem.declared.map fun source =>
      ⟨source.index, source.name, source.domain, source.offset⟩
    conic := problem.conicForm }

/-! ### Printing -/

/-- A name, or `null` for none. -/
def nameJson : Option String → Json
  | none => .null
  | some name => .string name

/-- The name of a relation. -/
def Relation.json : Relation → Json
  | .greaterThan => .string "greater_than"
  | .lessThan => .string "less_than"
  | .equalTo => .string "equal_to"

/-- A domain, as an object with its name as the only key. -/
def Domain.json : Domain Float → Json
  | .greaterThan bound => .object [("greater_than", .real bound)]
  | .lessThan bound => .object [("less_than", .real bound)]
  | .equalsTo bound => .object [("equals_to", .real bound)]
  | .semidefinite dim count =>
      .object [("in_psd_cone", .object [("dim", .natural dim), ("count", .natural count)])]

/-- The direction of an objective. -/
def Sense.json : Sense → Json
  | .minimize => .string "minimize"
  | .maximize => .string "maximize"

/-- Coefficients, as pairs of a column and a value. -/
def coeffsJson (coeffs : List (Nat × Float)) : Json :=
  .array (coeffs.map fun (col, value) => .array [.natural col, .real value])

/-- A cone. -/
def Cone.json (cone : Cone) : Json :=
  .object [("kind", .string "psd"), ("dim", .natural cone.dim), ("count", .natural cone.count),
    ("offset", .natural cone.offset)]

/-- An objective. -/
def LinearObjective.json (objective : LinearObjective Float) : Json :=
  .object [("sense", objective.sense.json), ("coeffs", coeffsJson objective.coeffs),
    ("constant", .real objective.constant)]

/-- A constraint. -/
def LinearConstraint.json (constraint : LinearConstraint Float) : Json :=
  .object [("coeffs", coeffsJson constraint.coeffs), ("relation", constraint.relation.json),
    ("bound", .real constraint.bound)]

/-- A flat problem. -/
def ConicProblem.json (problem : ConicProblem Float) : Json :=
  .object [("num_vars", .natural problem.columns),
    ("cones", .array (problem.cones.map Cone.json)),
    ("objective", problem.objective.json),
    ("constraints", .array (problem.constraints.map LinearConstraint.json))]

/-- A variable of a dump. -/
def VariableDump.json (dump : VariableDump) : Json :=
  .object [("index", .natural dump.index), ("name", nameJson dump.name),
    ("domain", dump.domain.json), ("offset", .natural dump.offset)]

/-- A dump. -/
def ProblemDump.json (dump : ProblemDump) : Json :=
  .object [("name", nameJson dump.name),
    ("variables", .array (dump.declared.map VariableDump.json)), ("conic", dump.conic.json)]

/-- The text of a dump, with every value on a line of its own. -/
def ProblemDump.toText (dump : ProblemDump) : String :=
  dump.json.print .indented

/-! ### Reading -/

open Json (Reader Field Layout Variant)

/-- Reads the name of a relation. -/
def Relation.reader : Reader Relation :=
  Reader.variant fun
    | "greater_than" => some (.name .greaterThan)
    | "less_than" => some (.name .lessThan)
    | "equal_to" => some (.name .equalTo)
    | _ => none

/-- Reads the dimension and the number of blocks of a cone domain. -/
def semidefiniteLayout : Layout (Nat × Nat) :=
  { fields :=
      [.of "dim" true Reader.index fun sizes dim => (dim, sizes.2),
        .of "count" true Reader.index fun sizes count => (sizes.1, count)]
    blank := (0, 0)
    mayStop := false }

/-- Reads a domain. -/
def Domain.reader : Reader (Domain Float) :=
  Reader.variant fun
    | "greater_than" => some (.holding (Reader.real.map .greaterThan))
    | "less_than" => some (.holding (Reader.real.map .lessThan))
    | "equals_to" => some (.holding (Reader.real.map .equalsTo))
    | "in_psd_cone" =>
        some (.holding (semidefiniteLayout.reader.map fun sizes => .semidefinite sizes.1 sizes.2))
    | _ => none

/-- Reads a domain from a text of its own. -/
def Domain.ofText (text : String) : Except Error (Domain Float) :=
  Domain.reader.run text

/-- Reads the direction of an objective. -/
def Sense.reader : Reader Sense :=
  Reader.variant fun
    | "minimize" => some (.name .minimize)
    | "maximize" => some (.name .maximize)
    | _ => none

/-- Reads the kind of a cone, of which there is one. -/
def coneKindReader : Reader Unit :=
  Reader.variant fun
    | "psd" => some (.name ())
    | _ => none

/-- Reads coefficients. -/
def coeffsReader : Reader (List (Nat × Float)) :=
  Reader.array (Reader.pair Reader.index Reader.real)

/-- How a cone is written. -/
def Cone.layout : Layout Cone :=
  { fields :=
      [.of "kind" true coneKindReader fun cone _ => cone,
        .of "dim" true Reader.index fun cone dim => { cone with dim },
        .of "count" true Reader.index fun cone count => { cone with count },
        .of "offset" true Reader.index fun cone offset => { cone with offset }]
    blank := ⟨0, 0, 0⟩
    mayStop := false }

/-- How an objective is written. -/
def LinearObjective.layout : Layout (LinearObjective Float) :=
  { fields :=
      [.of "sense" true Sense.reader fun objective sense => { objective with sense },
        .of "coeffs" true coeffsReader fun objective coeffs => { objective with coeffs },
        .of "constant" true Reader.real fun objective constant => { objective with constant }]
    blank := .feasibility
    mayStop := false }

/-- How a constraint is written. -/
def LinearConstraint.layout : Layout (LinearConstraint Float) :=
  { fields :=
      [.of "coeffs" true coeffsReader fun constraint coeffs => { constraint with coeffs },
        .of "relation" true Relation.reader fun constraint relation =>
          { constraint with relation },
        .of "bound" true Reader.real fun constraint bound => { constraint with bound }]
    blank := ⟨[], .equalTo, 0.0⟩
    mayStop := false }

/-- How a flat problem is written. -/
def ConicProblem.layout : Layout (ConicProblem Float) :=
  { fields :=
      [.of "num_vars" true Reader.index fun problem columns => { problem with columns },
        .of "cones" true (Reader.array Cone.layout.reader) fun problem cones =>
          { problem with cones },
        .of "objective" true LinearObjective.layout.reader fun problem objective =>
          { problem with objective },
        .of "constraints" true (Reader.array LinearConstraint.layout.reader)
          fun problem constraints => { problem with constraints }]
    blank := ⟨0, [], .feasibility, []⟩
    mayStop := false }

/-- How a variable of a dump is written. Its name may be left out of an object. -/
def VariableDump.layout : Layout VariableDump :=
  { fields :=
      [.of "index" true Reader.index fun dump index => { dump with index },
        .of "name" false (Reader.optional Reader.string) fun dump name => { dump with name },
        .of "domain" true Domain.reader fun dump domain => { dump with domain },
        .of "offset" true Reader.index fun dump offset => { dump with offset }]
    blank := ⟨0, none, .semidefinite 0 0, 0⟩
    mayStop := false }

/-- How a dump is written. Its name may be left out of an object. -/
def ProblemDump.layout : Layout ProblemDump :=
  { fields :=
      [.of "name" false (Reader.optional Reader.string) fun dump name => { dump with name },
        .of "variables" true (Reader.array VariableDump.layout.reader) fun dump declared =>
          { dump with declared },
        .of "conic" true ConicProblem.layout.reader fun dump conic => { dump with conic }]
    blank := ⟨none, [], ⟨0, [], .feasibility, []⟩⟩
    mayStop := false }

/-- Reads a dump from its text. -/
def ProblemDump.ofText (text : String) : Except Error ProblemDump :=
  ProblemDump.layout.reader.run text

/-! ### Files -/

/-- Where a file is to go: into a directory that is there, or into one that is not. -/
inductive Destination where
  | present
  | missing
deriving DecidableEq, Repr

/-- The content of the file that a dump is written to. Nothing can be written where there is no
directory. -/
def Problem.writeDump (problem : Problem Float) (destination : Destination) :
    Except Error String :=
  match destination with
  | .present => .ok problem.dump.toText
  | .missing => .error (.file .notFound)

end BlockCone
