/-
This file proves that a report lists exactly the blocks that matter.

Every block of a variable is cut out and read before it is looked at, and all of them are refused
for the same reasons: a variable that the problem does not recognise first, and then a problem that
is not solved. A variable has at least one block, so the report is refused for these reasons as
well, in this order. Where the blocks are read, what is left is a filter of their numbers: the
report keeps the numbers of the blocks with a level above the threshold, in their order, and says of
each what was read. Two thresholds filter the same list.

A block is read as a matrix of consecutive levels, so a level of a block is one of the levels from
its first column on. For doubles nothing exceeds a threshold that is not a number, and no level that
is not a number exceeds anything.
-/

import BlockCone.Proofs.DoubleOrder
import BlockCone.Proofs.Interleaving
import BlockCone.Proofs.Lifecycle
import BlockCone.Report

namespace BlockCone

variable {α : Type}

/-! ### Refused reports -/

namespace Problem

variable {problem : Problem α} {source : Variable} {number : Nat}

/-- The faults of reading the blocks of a variable. -/
def blockFaults (problem : Problem α) (source : Variable) : List (Prop × Error) :=
  [(problem.owns source = false, .foreignVariable source.label),
    (problem.stage ≠ .solved, .notSolved)]

/-- A block is refused as its levels are. -/
theorem blockMatrix_eq_error {reason : Error} (inside : number < source.blocks)
    (rows : 0 < source.dim)
    (refused : ∀ slice : Slice, slice.source = source → problem.level slice = .error reason) :
    problem.blockMatrix source number = .error reason := by
  obtain ⟨slice, cut, same, shaped⟩ := Variable.exists_block inside rows
  have low : ¬ 2 < slice.shape.rank := by
    simp only [Shape.matchesMatrix, Bool.and_eq_true, decide_eq_true_eq] at shaped
    exact Nat.not_lt.mpr shaped.1.1
  rw [blockMatrix, cut]
  show problem.levelMatrix slice = _
  rw [levelMatrix, if_neg low, refused slice same]
  rfl

variable [Scalar α]

theorem failsWith_blockMatrix (arranged : problem.Arranged) (settled : problem.Settled)
    (issued : problem.owns source = true → source ∈ problem.declared)
    (inside : number < source.blocks) (rows : 0 < source.dim) :
    FailsWith (problem.blockFaults source) (problem.blockMatrix source number) := by
  refine .cons (fun foreign => ?_) fun recognised => .cons (fun unsolved => ?_) fun solved => ?_
  · refine blockMatrix_eq_error inside rows fun slice same => ?_
    have refused := (problem.requireOwned_eq_error_iff source _).mpr ⟨foreign, rfl⟩
    rw [level, same, refused]
    rfl
  · refine blockMatrix_eq_error inside rows fun slice same => ?_
    have accepted :=
      (problem.requireOwned_eq_ok_iff source).mpr (Bool.not_eq_false _ ▸ recognised)
    rw [level, same, accepted, settled.levels_eq_error unsolved]
    rfl
  · have known := issued (Bool.not_eq_false _ ▸ recognised)
    obtain ⟨levels, present, fits⟩ := settled.levels_eq_ok (not_not.mp solved)
    rw [arranged.blockMatrix_eq_ok present fits known inside]
    exact failsWith_pure _

end Problem

variable [Scalar α] {problem : Problem α} {source : Variable}

/-- The report of one block, if it has a level above the threshold. -/
def reportOf? (problem : Problem α) (source : Variable) (threshold : α) (number : Nat) :
    Except Error (Option (BlockReport α)) := do
  let values ← problem.blockMatrix source number
  pure (if values.entries.any fun value => Scalar.below threshold value then
    some ⟨source.label, number, values⟩
  else none)

theorem contributingBlocks_eq_bind (problem : Problem α) (source : Variable) (threshold : α) :
    contributingBlocks problem source threshold =
      (List.range source.blocks).mapM (reportOf? problem source threshold) >>= fun reports =>
        pure (reports.filterMap id) := by
  have each : (fun number => do
      let slice ← source.block number
      let values ← problem.levelMatrix slice
      if values.entries.any fun value => Scalar.below threshold value then
        pure (some ⟨source.label, number, values⟩)
      else
        pure none) = reportOf? problem source threshold := by
    funext number
    rw [reportOf?, Problem.blockMatrix, bind_assoc]
    refine bind_congr fun slice => bind_congr fun values => ?_
    split <;> rfl
  rw [contributingBlocks, each]

/-- A report is refused for the reasons for which the blocks are. -/
theorem failsWith_contributingBlocks (arranged : problem.Arranged) (settled : problem.Settled)
    (issued : problem.owns source = true → source ∈ problem.declared)
    (counted : 0 < source.blocks) (rows : 0 < source.dim) (threshold : α) :
    FailsWith (problem.blockFaults source) (contributingBlocks problem source threshold) := by
  rw [contributingBlocks_eq_bind]
  refine FailsWith.map (.mapM_same ?_ fun number member => .map ?_ _) _
  · exact fun empty => counted.ne' (List.range_eq_nil.mp empty)
  · exact Problem.failsWith_blockMatrix arranged settled issued (List.mem_range.mp member) rows

/-! ### Accepted reports -/

/-- The report of one block. -/
def reportOf (levels : Array α) (source : Variable) (number : Nat) : BlockReport α :=
  ⟨source.label, number, Problem.blockOf levels source number⟩

/-- Whether a block has a level above a threshold. -/
def isActive (levels : Array α) (source : Variable) (threshold : α) (number : Nat) : Bool :=
  (Problem.blockOf levels source number).entries.any fun value => Scalar.below threshold value

/-- To answer only for items that are kept is to keep items and answer for each of them. -/
theorem filterMap_ite {β γ : Type} (keeps : β → Bool) (answer : β → γ) (items : List β) :
    (items.filterMap fun item => if keeps item then some (answer item) else none) =
      (items.filter keeps).map answer := by
  rw [← List.filterMap_eq_map, ← List.filterMap_eq_filter, List.filterMap_filterMap]
  refine List.filterMap_congr fun item _ => ?_
  by_cases kept : keeps item = true <;> simp [Option.guard, kept]

/-- The reports of the active blocks. -/
def activeReports (levels : Array α) (source : Variable) (threshold : α) : List (BlockReport α) :=
  ((List.range source.blocks).filter (isActive levels source threshold)).map
    (reportOf levels source)

/-- Where the blocks can be read, the report keeps the numbers of the active ones. -/
theorem contributingBlocks_eq_ok (arranged : problem.Arranged) {levels : Array α}
    (present : problem.levels = .ok levels) (fits : levels.size = problem.columns)
    (known : source ∈ problem.declared) (threshold : α) :
    contributingBlocks problem source threshold = .ok (activeReports levels source threshold) := by
  have reports : (List.range source.blocks).mapM (reportOf? problem source threshold) =
      .ok ((List.range source.blocks).map fun number =>
        if isActive levels source threshold number then some (reportOf levels source number)
        else none) := by
    refine mapM_eq_ok _ fun number member => ?_
    rw [reportOf?, arranged.blockMatrix_eq_ok present fits known (List.mem_range.mp member)]
    rfl
  rw [contributingBlocks_eq_bind, reports, activeReports, ← filterMap_ite]
  show Except.ok _ = _
  rw [List.filterMap_map]
  rfl

/-- Some reports are those of the blocks of a variable with a level that counts. -/
structure ReportsExactly (levels : Array α) (source : Variable) (counts : α → Prop)
    (reports : List (BlockReport α)) : Prop where
  increasing : reports.Pairwise fun earlier later => earlier.block < later.block
  reported : ∀ number, (∃ report ∈ reports, report.block = number) ↔
    number < source.blocks ∧ ∃ place < source.dim * source.dim, ∃ value,
      levels[source.offset + number * source.dim * source.dim + place]? = some value ∧
        counts value
  content : ∀ report ∈ reports, report.label = source.label ∧
    report.values.rows = source.dim ∧ report.values.cols = source.dim ∧
      ∀ row < source.dim, ∀ col < source.dim, Matrix.entry? report.values row col =
        levels[source.offset + report.block * source.dim * source.dim + row * source.dim + col]?

/-- A block is active exactly if one of the levels from its first column on exceeds the
threshold. -/
theorem isActive_iff (arranged : problem.Arranged) {levels : Array α}
    (fits : levels.size = problem.columns) (known : source ∈ problem.declared) {number : Nat}
    (inside : number < source.blocks) (threshold : α) :
    isActive levels source threshold number = true ↔
      ∃ place < source.dim * source.dim, ∃ value,
        levels[source.offset + number * source.dim * source.dim + place]? = some value ∧
          Scalar.below threshold value = true := by
  have read : ∀ place < source.dim * source.dim,
      levels[source.offset + number * source.dim * source.dim + place]? =
        some (entryOf levels (source.offset + (number * (source.dim * source.dim) + place))) := by
    intro place bound
    have column := arranged.blockColumn_lt known inside bound
    rw [← fits] at column
    rw [Nat.mul_assoc, Nat.add_assoc, getElem?_eq_entryOf column]
  rw [isActive, List.any_eq_true]
  constructor
  · rintro ⟨value, listed, exceeds⟩
    obtain ⟨place, bound, rfl⟩ := List.mem_map.mp listed
    exact ⟨place, List.mem_range.mp bound, _, read place (List.mem_range.mp bound), exceeds⟩
  · rintro ⟨place, bound, value, present, exceeds⟩
    obtain rfl := Option.some.inj ((read place bound).symm.trans present)
    exact ⟨_, List.mem_map.mpr ⟨place, List.mem_range.mpr bound, rfl⟩, exceeds⟩

/-- A number is reported exactly if it is the one of an active block. -/
theorem exists_report_iff (levels : Array α) (source : Variable) (threshold : α) (number : Nat) :
    (∃ report ∈ activeReports levels source threshold, report.block = number) ↔
      number < source.blocks ∧ isActive levels source threshold number = true := by
  simp [activeReports, reportOf]

/-- The entries of a reported block are the levels from its first column on. -/
theorem reportsExactly (arranged : problem.Arranged) {levels : Array α}
    (fits : levels.size = problem.columns) (known : source ∈ problem.declared) (threshold : α) :
    ReportsExactly levels source (fun value => Scalar.below threshold value = true)
      (activeReports levels source threshold) where
  increasing := by
    rw [activeReports, List.pairwise_map]
    exact (List.pairwise_lt_range.filter _).imp id
  reported number := by
    rw [exists_report_iff]
    exact and_congr_right fun inside => isActive_iff arranged fits known inside threshold
  content report member := by
    obtain ⟨number, kept, rfl⟩ := List.mem_map.mp member
    have inside := List.mem_range.mp (List.mem_filter.mp kept).1
    refine ⟨rfl, rfl, rfl, fun row rowInside col colInside => ?_⟩
    have column := arranged.blockColumn_lt known inside (Matrix.place_lt rowInside colInside)
    rw [← fits] at column
    show Matrix.entry? (Problem.blockOf levels source number) row col =
      levels[source.offset + number * source.dim * source.dim + row * source.dim + col]?
    rw [Problem.entry?_blockOf levels source number rowInside colInside, Nat.mul_assoc,
      Nat.add_assoc, Nat.add_assoc, Nat.add_assoc, getElem?_eq_entryOf column]

/-- With a higher threshold no block becomes active. -/
theorem isActive_of_isActive {lower higher : α} {levels : Array α} {number : Nat}
    (onward : ∀ value, Scalar.below higher value = true → Scalar.below lower value = true)
    (active : isActive levels source higher number = true) :
    isActive levels source lower number = true := by
  obtain ⟨value, listed, exceeds⟩ := List.any_eq_true.mp active
  exact List.any_eq_true.mpr ⟨value, listed, onward value exceeds⟩

/-- With a higher threshold reports are left out and no other is changed. -/
theorem reports_sublist {lower higher : α}
    (onward : ∀ value, Scalar.below higher value = true → Scalar.below lower value = true)
    (levels : Array α) (source : Variable) :
    (activeReports levels source higher).Sublist (activeReports levels source lower) :=
  (List.monotone_filter_right _ fun _ active => isActive_of_isActive onward active).map _

/-! ### Reports of doubles -/

theorem below_double_iff (threshold value : Float) :
    Scalar.below threshold value = true ↔ value.isNaN = false ∧ threshold < value := by
  show decide (threshold < value) = true ↔ _
  rw [decide_eq_true_iff]
  exact ⟨fun exceeds => ⟨Double.isNaN_eq_false_of_lt exceeds, exceeds⟩, And.right⟩

namespace Workspace

/-- A problem recognises the handles of a history that are listed under its number. -/
theorem Recorded.owns_eq_false_iff {workspace : Workspace α}
    {history : List (ProblemId × Variable)} (recorded : workspace.Recorded history)
    {id owner : ProblemId} (present : workspace.problem? id = some problem)
    (listed : (owner, source) ∈ history) : problem.owns source = false ↔ owner ≠ id := by
  rw [← Bool.not_eq_true, recorded.owns_iff present listed]
  refine not_congr ⟨fun own => ?_, fun same => same ▸ listed⟩
  rw [← (recorded.declared_of_listed listed).1, (recorded.declared_of_listed own).1]

/-- A problem of a workspace is asked to report on a variable of any of its problems. It refuses a
variable of another one first, and then as long as it is not solved. When it is, it reports exactly
the blocks with a level that is a number above the threshold, each once and in their order, and what
their levels are; and with a higher threshold it leaves reports out and changes no other. -/
theorem report_exact (steps : List (Step Float)) {id owner : ProblemId} {problem : Problem Float}
    {source : Variable} (present : ((empty : Workspace Float).run steps).problem? id = some problem)
    (listed : (owner, source) ∈ (empty : Workspace Float).history steps) :
    (∀ threshold, FailsWith
      [(owner ≠ id, .foreignVariable source.label), (problem.stage ≠ .solved, .notSolved)]
      (contributingBlocks problem source threshold)) ∧
    (owner = id → problem.stage = .solved →
      ∃ levels, problem.levels = .ok levels ∧ levels.size = problem.columns ∧
        (∀ threshold, ∃ reports, contributingBlocks problem source threshold = .ok reports ∧
          ReportsExactly levels source (fun value => value.isNaN = false ∧ threshold < value)
            reports) ∧
        ∀ lower higher more fewer, lower ≤ higher →
          contributingBlocks problem source lower = .ok more →
            contributingBlocks problem source higher = .ok fewer → fewer.Sublist more) := by
  have recorded := recorded_run steps
  have accounts := recorded.accounts id problem present
  have arranged := accounts.visited.arranged
  have settled := accounts.visited.settled
  have issued : problem.owns source = true → source ∈ problem.declared := by
    intro owned
    rw [accounts.declared_eq, mem_issuedBy]
    exact (recorded.owns_iff present listed).mp owned
  obtain ⟨_, declaring, declaringPresent, declared⟩ := recorded.declared_of_listed listed
  obtain ⟨counted, rows⟩ :=
    (recorded.accounts owner declaring declaringPresent).visited.arranged.positive source declared
  refine ⟨fun threshold => ?_, fun own solved => ?_⟩
  · have fails := failsWith_contributingBlocks arranged settled issued counted rows threshold
    rwa [Problem.blockFaults, propext (recorded.owns_eq_false_iff present listed)] at fails
  · have known : source ∈ problem.declared := by
      refine issued ((recorded.owns_iff present listed).mpr ?_)
      rwa [← own]
    obtain ⟨levels, levelsPresent, fits⟩ := settled.levels_eq_ok solved
    have reports := fun threshold =>
      contributingBlocks_eq_ok arranged levelsPresent fits known threshold
    refine ⟨levels, levelsPresent, fits, fun threshold => ⟨_, reports threshold, ?_⟩, ?_⟩
    · have exact := reportsExactly arranged fits known threshold
      simp only [below_double_iff] at exact
      exact exact
    · intro lower higher more fewer ordered read readHigher
      obtain rfl := Except.ok.inj ((reports lower).symm.trans read)
      obtain rfl := Except.ok.inj ((reports higher).symm.trans readHigher)
      refine reports_sublist (fun value exceeds => ?_) levels source
      exact decide_eq_true (Double.lt_of_le_of_lt ordered (of_decide_eq_true exceeds))

end Workspace

/-! ### Two problems, one of them solved -/

namespace Sample

/-- Levels of a single entry and of two blocks. The first level of the second block is not a number,
and the one of largest magnitude is negative. -/
def mixedLevels : Array Float := #[5, 0, 2, 0, 0, 0.0 / 0.0, -9, 0, 1]

/-- Two problems are created. The first one declares a single entry and two blocks, and is solved;
the second one declares a single entry. -/
def reporting : List (Step Float) :=
  [.create none, .create none, .call 0 (.declare none 1 1), .call 0 (.declare none 2 2),
    .call 1 (.declare none 1 1), .call 0 (.solve fun _ => ⟨.optimal, some mixedLevels, 0, 0⟩)]

/-- The two blocks, behind the single entry. -/
def behind : Variable := ⟨0, 1, 1, none, 2, 2⟩

end Sample

/-- Of the two blocks only the first one has a level above one, and only its own problem reports
it. -/
theorem Workspace.report_exact_mixed :
    (0, Sample.behind) ∈ (empty : Workspace Float).history Sample.reporting ∧
      ∃ solved other, ((empty : Workspace Float).run Sample.reporting).problem? 0 = some solved ∧
        ((empty : Workspace Float).run Sample.reporting).problem? 1 = some other ∧
        contributingBlocks other Sample.behind 1 = .error (.foreignVariable "X1") ∧
        ∃ reports, contributingBlocks solved Sample.behind 1 = .ok reports ∧
          (∃ report ∈ reports, report.block = 0) ∧ ¬ ∃ report ∈ reports, report.block = 1 := by
  have listed : (0, Sample.behind) ∈ (empty : Workspace Float).history Sample.reporting := by
    decide +kernel
  obtain ⟨solved, present, stage, levels_eq⟩ : ∃ solved,
      ((empty : Workspace Float).run Sample.reporting).problem? 0 = some solved ∧
        solved.stage = .solved ∧ solved.levels = .ok Sample.mixedLevels := ⟨_, rfl, rfl, rfl⟩
  obtain ⟨other, otherPresent⟩ : ∃ other,
      ((empty : Workspace Float).run Sample.reporting).problem? 1 = some other := ⟨_, rfl⟩
  obtain ⟨levels, levelsPresent, _, exact, _⟩ := (report_exact _ present listed).2 rfl stage
  obtain rfl := Except.ok.inj (levels_eq.symm.trans levelsPresent)
  obtain ⟨reports, reported, exactly⟩ := exact 1
  have foreign := ((report_exact _ otherPresent listed).1 1 (.foreignVariable "X1")).mpr
    (Or.inl ⟨by decide, rfl⟩)
  refine ⟨listed, solved, other, present, otherPresent, foreign, reports, reported, ?_, ?_⟩
  · exact (exactly.reported 0).mpr ⟨by decide, 1, by decide, 2, rfl, by decide +kernel,
      by decide +kernel⟩
  · rw [exactly.reported]
    rintro ⟨_, place, bound, value, read, _, exceeds⟩
    have quiet : ∀ place < 4,
        (Sample.mixedLevels[5 + place]?.any fun value => decide (1 < value)) = false := by
      decide +kernel
    have here := quiet place bound
    rw [show Sample.mixedLevels[5 + place]? = some value from read] at here
    exact absurd exceeds (of_decide_eq_false here)

end BlockCone
