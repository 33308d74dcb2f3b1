/-
This file reports the blocks of a variable that matter in a solution.

A block is reported when one of its levels exceeds a threshold. The comparison is signed: a
positive semidefinite block has no large negative entry without a large positive one on its
diagonal.
-/

import BlockCone.Problem
import BlockCone.Decimal.Layout

namespace BlockCone

/-- What a report leaves out. -/
structure ReportOptions where
  /-- A block is reported if one of its levels exceeds this value. -/
  activityThreshold : Float
deriving BEq

/-- Levels up to a millionth count as none. -/
def ReportOptions.default : ReportOptions :=
  ⟨1e-6⟩

/-- The levels of one block. -/
structure BlockReport (α : Type) where
  /-- The name of the variable. -/
  label : String
  /-- The number of the block. -/
  block : Nat
  values : Matrix α

/-- The reports of the blocks of a variable that exceed a threshold, in order. -/
def contributingBlocks {α : Type} [Scalar α] (problem : Problem α) (source : Variable)
    (threshold : α) : Except Error (List (BlockReport α)) := do
  let reports ← (List.range source.blocks).mapM fun number => do
    let slice ← source.block number
    let values ← problem.levelMatrix slice
    if values.entries.any fun value => Scalar.below threshold value then
      pure (some ⟨source.label, number, values⟩)
    else
      pure none
  pure (reports.filterMap id)

/-- A level in a table: six places, aligned in twelve columns. -/
def BlockReport.cell (value : Float) : String :=
  Decimal.alignRight 12 (Decimal.fixed 6 value)

/-- The text of a report: a heading, and a line for each row of the block. -/
def BlockReport.display (report : BlockReport Float) : String :=
  report.label ++ "[" ++ toString report.block ++ "] =\n" ++
    String.join (report.values.toRows.map fun row =>
      " ".intercalate (row.map BlockReport.cell) ++ "\n")

end BlockCone
