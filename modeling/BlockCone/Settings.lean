/-
This file holds the settings of the interior-point backend and of reports, and reads them from
JSON.

Settings may be given in part: whatever a text does not name keeps its default. An infinite time
limit cannot be printed, so the defaults print `null` there.
-/

import BlockCone.Report
import BlockCone.Json
import BlockCone.Json.Reader

namespace BlockCone

/-- The settings of the interior-point backend. -/
structure Settings where
  /-- Whether progress is to be printed. -/
  verbose : Bool
  /-- The number of iterations after which the backend gives up. -/
  maxIter : Nat
  /-- The number of seconds after which the backend gives up. -/
  timeLimit : Float
  /-- The gap between the two objectives that counts as closed. -/
  tolGapAbs : Float
  /-- The same gap in proportion to the objectives. -/
  tolGapRel : Float
  /-- The infeasibility that counts as none. -/
  tolFeas : Float
deriving BEq

namespace Settings

/-- The settings that are in use when none are given. -/
def default : Settings :=
  { verbose := false
    maxIter := 200
    timeLimit := 1.0 / 0.0
    tolGapAbs := 1e-8
    tolGapRel := 1e-8
    tolFeas := 1e-8 }

/-- The settings as a JSON value. -/
def json (settings : Settings) : Json :=
  .object [("verbose", .bool settings.verbose), ("max_iter", .natural settings.maxIter),
    ("time_limit", .real settings.timeLimit), ("tol_gap_abs", .real settings.tolGapAbs),
    ("tol_gap_rel", .real settings.tolGapRel), ("tol_feas", .real settings.tolFeas)]

/-- The text of settings. -/
def toText (settings : Settings) : String :=
  settings.json.print .compact

open Json (Reader Field Layout)

/-- The number of iteration counts there are, `2 ^ 32`. -/
def iterationLimit : Nat := 4294967296

/-- How settings are written. -/
def layout : Layout Settings :=
  { fields :=
      [.of "verbose" false Reader.bool fun settings verbose => { settings with verbose },
        .of "max_iter" false (Reader.natural iterationLimit) fun settings maxIter =>
          { settings with maxIter },
        .of "time_limit" false Reader.real fun settings timeLimit =>
          { settings with timeLimit },
        .of "tol_gap_abs" false Reader.real fun settings tolGapAbs =>
          { settings with tolGapAbs },
        .of "tol_gap_rel" false Reader.real fun settings tolGapRel =>
          { settings with tolGapRel },
        .of "tol_feas" false Reader.real fun settings tolFeas => { settings with tolFeas }]
    blank := default
    mayStop := true }

/-- Reads settings from their text. -/
def ofText (text : String) : Except Error Settings :=
  layout.reader.run text

end Settings

namespace ReportOptions

/-- The options as a JSON value. -/
def json (options : ReportOptions) : Json :=
  .object [("activity_threshold", .real options.activityThreshold)]

/-- The text of options. -/
def toText (options : ReportOptions) : String :=
  options.json.print .compact

open Json (Reader Field Layout)

/-- How options are written. -/
def layout : Layout ReportOptions :=
  { fields :=
      [.of "activity_threshold" false Reader.real fun options activityThreshold =>
        { options with activityThreshold }]
    blank := default
    mayStop := true }

/-- Reads options from their text. -/
def ofText (text : String) : Except Error ReportOptions :=
  layout.reader.run text

end ReportOptions

end BlockCone
