/-
This file proves that the slices of a solved problem share its levels out among them.

The columns that a variable reads, as a whole or block after block, are those from where it starts
up to where it ends, in order. A block is one row of the table that has the blocks of a variable as
rows, and the entries of that table, row after row, are all numbers below its size. The variables
follow each other without a gap, so the columns of all of them, one variable after another, are all
columns of the problem in order. What is read at them is the vector of levels.

Conversely every column has its place: it lies between the start and the end of exactly one
variable, and division by the size of a block gives the number of the block and the place in it.
-/

import BlockCone.Proofs.Lifecycle
import BlockCone.Proofs.Reading
import BlockCone.Proofs.WellFormed

namespace BlockCone

open Shape

/-! ### Consecutive columns -/

/-- The rows of a table, one after another, are all of it. -/
theorem flatMap_range'_rows (start rows width : Nat) :
    (List.range rows).flatMap (fun row => List.range' (start + row * width) width) =
      List.range' start (rows * width) := by
  induction rows with
  | zero => rw [Nat.zero_mul, List.range_zero, List.flatMap_nil, List.range'_zero]
  | succ rows inductionHypothesis =>
    rw [List.range_succ, List.flatMap_append, inductionHypothesis, List.flatMap_singleton,
      List.range'_append_1, Nat.add_mul, Nat.one_mul]

/-- The columns of the cones of a tiling, one cone after another, are those that it spans. -/
theorem Cone.Tiles.flatMap_columns {start stop : Nat} {cones : List Cone}
    (tiles : Tiles start cones stop) :
    cones.flatMap (fun cone => List.range' cone.offset cone.size) =
      List.range' start (stop - start) := by
  induction cones generalizing start with
  | nil =>
    obtain rfl : start = stop := tiles
    rw [List.flatMap_nil, Nat.sub_self, List.range'_zero]
  | cons first rest inductionHypothesis =>
    obtain ⟨rfl, tilesRest⟩ := tiles
    have room := tilesRest.total
    rw [List.flatMap_cons, inductionHypothesis tilesRest, List.range'_append_1]
    congr 1
    omega

/-! ### The columns of a slice -/

/-- The columns that a slice reads, in its order. -/
def Slice.columns (slice : Slice) : List Nat :=
  slice.view.flatIndices.map fun index => slice.source.offset + index

theorem View.flatIndices_full (shape : Shape) :
    (View.full shape).flatIndices = List.range shape.size := by
  rw [View.flatIndices_eq]
  refine (List.map_congr_left fun place member => ?_).trans (List.map_id _)
  show 0 + strided (coordinates shape.dims place) (stridesOf shape.dims) = place
  rw [Nat.zero_add]
  exact strided_coordinates (List.mem_range.mp member)

namespace Variable

variable {source : Variable} {number : Nat} {slice : Slice}

theorem columns_all (source : Variable) :
    source.all.columns = List.range' source.offset source.size := by
  show (View.full source.shape).flatIndices.map _ = _
  rw [View.flatIndices_full, List.range'_eq_map_range]
  rfl

/-- The offsets of a block are one unbroken range. -/
theorem flatIndices_block_eq_range' (rows : 0 < source.dim)
    (cut : source.block number = .ok slice) :
    slice.view.flatIndices =
      List.range' (number * source.dim * source.dim) (source.dim * source.dim) := by
  rw [flatIndices_block (number_lt_of_block cut) rows cut, List.range'_eq_map_range, Nat.mul_assoc]

theorem isContiguous_block (rows : 0 < source.dim) (cut : source.block number = .ok slice) :
    slice.source = source ∧ slice.view.offset = number * source.dim * source.dim ∧
      slice.view.isContiguous = true := by
  rw [block_eq_ok (number_lt_of_block cut) rows] at cut
  obtain rfl := Except.ok.inj cut
  refine ⟨rfl, (Nat.mul_assoc _ _ _).symm, ?_⟩
  obtain ⟨last, same⟩ := Nat.exists_eq_add_of_lt rows
  rw [Nat.zero_add] at same
  simp [View.isContiguous, View.size, strided, same]
  ring

theorem columns_block (rows : 0 < source.dim) (cut : source.block number = .ok slice) :
    slice.columns = List.range' (source.offset + number * (source.dim * source.dim))
      (source.dim * source.dim) := by
  rw [Slice.columns, (isContiguous_block rows cut).1, flatIndices_block_eq_range' rows cut,
    List.map_add_range', Nat.mul_assoc]

/-- A block reads a column at the place that is left when the blocks before it are taken off. -/
theorem getElem?_columns_block (rows : 0 < source.dim) (cut : source.block number = .ok slice)
    {place column : Nat} :
    slice.columns[place]? = some column ↔
      place < source.dim * source.dim ∧
        column = source.offset + (number * (source.dim * source.dim) + place) := by
  rw [columns_block rows cut]
  by_cases inside : place < source.dim * source.dim
  · rw [List.getElem?_range' inside, Option.some.injEq, Nat.one_mul, Nat.add_assoc]
    exact ⟨fun same => ⟨inside, same.symm⟩, fun same => same.2.symm⟩
  · rw [List.getElem?_eq_none (by rw [List.length_range']; omega)]
    exact iff_of_false (by simp) fun same => inside same.1

end Variable

namespace Problem

variable {α : Type} {problem : Problem α}

/-- A column is read at a place of a block: for the variable with a number, the block with a number
and the place in that block. -/
def ReadAt (problem : Problem α) : Nat × Nat × Nat → Nat → Prop
  | (index, number, place), column =>
      ∃ source slice, problem.declared[index]? = some source ∧
        source.block number = .ok slice ∧ slice.columns[place]? = some column

theorem Sound.readAt_iff (sound : problem.Sound) {index number place column : Nat} :
    problem.ReadAt (index, number, place) column ↔
      ∃ source, problem.declared[index]? = some source ∧ number < source.blocks ∧
        place < source.dim * source.dim ∧
        column = source.offset + (number * (source.dim * source.dim) + place) := by
  constructor
  · rintro ⟨source, slice, present, cut, read⟩
    have rows := (sound.positive source (List.mem_of_getElem? present)).2
    exact ⟨source, present, Variable.number_lt_of_block cut,
      (Variable.getElem?_columns_block rows cut).mp read⟩
  · rintro ⟨source, present, inside, read⟩
    have rows := (sound.positive source (List.mem_of_getElem? present)).2
    obtain ⟨slice, cut, _⟩ := Variable.exists_block inside rows
    exact ⟨source, slice, present, cut, (Variable.getElem?_columns_block rows cut).mpr read⟩

/-- The levels of the blocks of a variable, one after another. -/
def blockLevels (problem : Problem α) (source : Variable) : Except Error (List (List α)) :=
  (List.range source.blocks).mapM fun number => do
    let slice ← source.block number
    problem.level slice

variable [Scalar α]

theorem levelsOf_eq (levels : Array α) (slice : Slice) :
    levelsOf levels slice = slice.columns.map (entryOf levels) := by
  rw [levelsOf, Slice.columns, List.map_map]
  rfl

theorem map_entryOf_range' (levels : Array α) :
    (List.range' 0 levels.size).map (entryOf levels) = levels.toList := by
  refine List.ext_getElem (by simp) fun place _ inside => ?_
  rw [Array.length_toList] at inside
  simp [entryOf, Array.getElem?_eq_getElem inside]

/-- The columns of the variables, one variable after another, are all columns in order. -/
theorem Sound.flatMap_columns (sound : problem.Sound) :
    problem.declared.flatMap (fun source => List.range' source.offset source.size) =
      List.range' 0 problem.columns := by
  have spanned := sound.wellFormed.tiles.flatMap_columns
  rw [cones_conicForm, List.flatMap_map, Nat.sub_zero] at spanned
  refine Eq.trans (List.flatMap_congr fun source _ => ?_) spanned
  rw [Variable.size_cone]
  rfl

/-! ### The place of a column -/

/-- Every column lies between the start and the end of exactly one variable. -/
theorem Sound.existsUnique_variable (sound : problem.Sound) {column : Nat}
    (inside : column < problem.columns) :
    ∃! index : Nat, ∃ source : Variable, problem.declared[index]? = some source ∧
      source.offset ≤ column ∧
      column < source.offset + source.blocks * (source.dim * source.dim) := by
  have unique := sound.wellFormed.tiles.existsUnique_cone (Nat.zero_le column) inside
  simp only [cones_conicForm, List.getElem?_map, Option.map_eq_some_iff, exists_exists_and_eq_and,
    Variable.size_cone, Variable.size_eq, Nat.mul_assoc] at unique
  exact unique

/-- Every column is read at one place and no other. -/
theorem Sound.existsUnique_readAt (sound : problem.Sound) {column : Nat}
    (inside : column < problem.columns) : ∃! place, problem.ReadAt place column := by
  obtain ⟨index, ⟨source, present, start, stop⟩, unique⟩ := sound.existsUnique_variable inside
  have rows := (sound.positive source (List.mem_of_getElem? present)).2
  have square : 0 < source.dim * source.dim := Nat.mul_pos rows rows
  refine ⟨(index, (column - source.offset) / (source.dim * source.dim),
    (column - source.offset) % (source.dim * source.dim)), ?_, ?_⟩
  · refine sound.readAt_iff.mpr ⟨source, present, ?_, Nat.mod_lt _ square, ?_⟩
    · exact (Nat.div_lt_iff_lt_mul square).mpr (by omega)
    · rw [Nat.div_add_mod', Nat.add_sub_cancel' start]
  · rintro ⟨otherIndex, number, place⟩ read
    obtain ⟨other, otherPresent, numbered, small, rfl⟩ := sound.readAt_iff.mp read
    obtain rfl : otherIndex = index := unique otherIndex ⟨other, otherPresent,
      Nat.le_add_right _ _, Nat.add_lt_add_left (Matrix.place_lt numbered small) _⟩
    obtain rfl : other = source := Option.some.inj (otherPresent.symm.trans present)
    obtain ⟨quotient, remainder⟩ := Matrix.div_mod_place number small
    rw [Nat.add_sub_cancel_left, quotient, remainder]

/-! ### Reading everything -/

/-- The blocks of a variable together read the levels of its columns. -/
theorem Sound.blockLevels_eq_ok (sound : problem.Sound) {levels : Array α}
    (present : problem.levels = .ok levels) (fits : levels.size = problem.columns)
    {source : Variable} (known : source ∈ problem.declared) :
    ∃ parts, problem.blockLevels source = .ok parts ∧
      parts.flatten = (List.range' source.offset source.size).map (entryOf levels) := by
  have rows := (sound.positive source known).2
  have read : ∀ number ∈ List.range source.blocks,
      (source.block number >>= fun slice => problem.level slice) =
        .ok ((List.range' (source.offset + number * (source.dim * source.dim))
          (source.dim * source.dim)).map (entryOf levels)) := by
    intro number member
    obtain ⟨slice, cut, own, _⟩ := Variable.exists_block (List.mem_range.mp member) rows
    subst own
    refine bind_eq_ok_iff.mpr ⟨slice, cut, ?_⟩
    rw [sound.level_eq_ok present fits (.block cut) known, levelsOf_eq,
      Variable.columns_block rows cut]
  refine ⟨_, mapM_eq_ok _ read, ?_⟩
  rw [← List.flatMap_def, ← List.map_flatMap, flatMap_range'_rows, Variable.size_eq, Nat.mul_assoc]

/-- Reading the variables of a solved problem one after another, as a whole or block by block, gives
the vector of its levels. Every block is one unbroken range, and every column is read at exactly one
place of one block. -/
theorem level_partition (reached : problem.Reachable) (solved : problem.stage = .solved) :
    ∃ levels, problem.levels = .ok levels ∧ levels.size = problem.columns ∧
      (∃ parts, problem.declared.mapM (fun source => problem.level source.all) = .ok parts ∧
        parts.flatten = levels.toList) ∧
      (∃ parts, problem.declared.mapM problem.blockLevels = .ok parts ∧
        parts.flatten.flatten = levels.toList) ∧
      (∀ source ∈ problem.declared, ∀ number < source.blocks, ∃ slice,
        source.block number = .ok slice ∧ slice.source = source ∧
          slice.view.offset = number * source.dim * source.dim ∧
          slice.view.isContiguous = true ∧
          slice.view.flatIndices =
            List.range' (number * source.dim * source.dim) (source.dim * source.dim)) ∧
      ∀ column < problem.columns, ∃! place, problem.ReadAt place column := by
  obtain ⟨levels, present, fits⟩ := reached.settled.levels_eq_ok solved
  have sound := reached.sound
  have everything : (problem.declared.flatMap fun source =>
      (List.range' source.offset source.size).map (entryOf levels)) = levels.toList := by
    rw [← List.map_flatMap, sound.flatMap_columns, ← fits, map_entryOf_range']
  refine ⟨levels, present, fits, ?_, ?_, ?_, fun column inside => sound.existsUnique_readAt inside⟩
  · have read : ∀ source ∈ problem.declared, problem.level source.all =
        .ok ((List.range' source.offset source.size).map (entryOf levels)) := by
      intro source known
      rw [sound.level_eq_ok present fits .all known, levelsOf_eq, Variable.columns_all]
    exact ⟨_, mapM_eq_ok _ read, by rw [← List.flatMap_def, everything]⟩
  · have read : ∀ source ∈ problem.declared, ∃ parts, problem.blockLevels source = .ok parts ∧
        parts.flatten = (List.range' source.offset source.size).map (entryOf levels) :=
      fun source known => sound.blockLevels_eq_ok present fits known
    choose! parts eachRead together using read
    refine ⟨_, mapM_eq_ok _ eachRead, ?_⟩
    rw [← everything, List.flatten_flatten, List.map_map, ← List.flatMap_def]
    exact List.flatMap_congr together
  · intro source known number inside
    have rows := (sound.positive source known).2
    obtain ⟨slice, cut, _⟩ := Variable.exists_block inside rows
    obtain ⟨own, offset, contiguous⟩ := Variable.isContiguous_block rows cut
    exact ⟨slice, cut, own, offset, contiguous, Variable.flatIndices_block_eq_range' rows cut⟩

end Problem

/-! ### Two stacks -/

namespace Sample

/-- Declares two blocks of one row and one block of two rows, and solves the problem by counting its
columns. -/
def stackedOperations : List (Operation ℚ) :=
  [.declare none 2 1, .declare (some "Y") 1 2,
    .solve fun _ => ⟨.optimal, some #[0, 1, 2, 3, 4, 5], 0, 0⟩]

/-- The problem that they lead to. -/
def stackedProblem : Problem ℚ := (Problem.new 0 none).run stackedOperations

theorem stacked_reachable : stackedProblem.Reachable :=
  ⟨0, none, stackedOperations, ⟨trivial, trivial, trivial, trivial⟩, rfl⟩

end Sample

/-- Three blocks of two variables read the six levels in order. -/
theorem Problem.level_partition_stacked :
    Sample.stackedProblem.Reachable ∧ Sample.stackedProblem.stage = .solved ∧
      (∃ parts, Sample.stackedProblem.declared.mapM Sample.stackedProblem.blockLevels = .ok parts ∧
        parts.flatten.flatten = [0, 1, 2, 3, 4, 5]) ∧
      ∃! place, Sample.stackedProblem.ReadAt place 3 := by
  obtain ⟨levels, present, _, _, blocks, _, placed⟩ := level_partition Sample.stacked_reachable rfl
  obtain rfl : #[0, 1, 2, 3, 4, 5] = levels := Except.ok.inj present
  exact ⟨Sample.stacked_reachable, rfl, blocks, placed 3 (by decide)⟩

end BlockCone
