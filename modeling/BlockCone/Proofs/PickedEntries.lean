/-
This file proves that picking entries of a variable and adding them up come from one list.

Picking turns each position into an offset. Adding up cuts each entry out as a slice, presents it as
a number, weighs it with a matrix of one entry and collects the terms into a linear form. Both look
at the positions in their order and check each in the same way before anything is computed from it,
so they are refused for the same first position that lies outside, with the same words. Behind the
check nothing is refused any more: a box that ends one behind an entry of the variable fits, and a
number lines up with a matrix of one entry.

What is collected has one contribution of one for each use of a position. So the coefficient of a
column is a sum of as many ones as the position was picked, added up one after another, and a column
that was not picked has none.
-/

import BlockCone.Proofs.Extraction
import BlockCone.Proofs.RowMajor
import BlockCone.Proofs.WordCalls

namespace BlockCone

/-! ### Positions and entries -/

namespace Variable

variable {source : Variable} {position : Position}

/-- A position is one of a variable. -/
def Has (source : Variable) : Position → Prop
  | (number, row, col) => number < source.blocks ∧ row < source.dim ∧ col < source.dim

/-- The offset of a position within a variable. -/
def place (source : Variable) : Position → Nat
  | (number, row, col) => number * source.dim * source.dim + row * source.dim + col

/-- The fault of a position: it is not one of the variable. -/
def positionFault (source : Variable) (position : Position) : Prop × Error :=
  (¬ source.Has position, .indexOutOfRange (coordsText position.coords) source.shape.display)

/-- The entry at a position as a slice. -/
def entry (source : Variable) (position : Position) : Slice :=
  ⟨source, ⟨source.place position, [1, 1, 1], source.shape.strides, .scalar⟩⟩

theorem has_iff : source.Has position ↔ List.Forall₂ (· < ·) position.coords source.shape.dims := by
  obtain ⟨number, row, col⟩ := position
  simp [Has, Position.coords, shape]

theorem strided_eq_place (source : Variable) (position : Position) :
    strided position.coords source.shape.strides = source.place position := by
  obtain ⟨number, row, col⟩ := position
  exact source.strided_coords number row col

theorem offsetOf_eq_ok (inside : source.Has position) :
    source.offsetOf position = .ok (source.place position) :=
  flatOffset_eq_ok_iff.mpr ⟨has_iff.mp inside, source.strided_eq_place position⟩

theorem failsWith_offsetOf (source : Variable) (position : Position) :
    FailsWith [source.positionFault position] (source.offsetOf position) := by
  refine .cons (fun outside => ?_) fun inside => ?_
  · refine (failsWith_flatOffset source.shape position.coords _).mpr (Or.inr ⟨?_, Or.inl ⟨?_, rfl⟩⟩)
    · exact not_not.mpr rfl
    · rwa [← has_iff]
  · rw [offsetOf_eq_ok (not_not.mp inside)]
    exact failsWith_pure _

/-- An entry of a variable can be cut out. -/
theorem element_eq_ok (inside : source.Has position) :
    source.element position = .ok (source.entry position) := by
  have found := offsetOf_eq_ok inside
  have offset := source.strided_eq_place position
  obtain ⟨number, row, col⟩ := position
  obtain ⟨numberInside, rowInside, colInside⟩ := inside
  rw [element, found]
  show (source.slice [number, row, col] [number + 1, row + 1, col + 1] >>=
    fun box => box.reshape .scalar) = _
  have selected : source.slice [number, row, col] [number + 1, row + 1, col + 1] =
      .ok ⟨source, ⟨source.place (number, row, col), [1, 1, 1], source.shape.strides,
        ⟨[1, 1, 1]⟩⟩⟩ := by
    rw [← offset]
    simp [slice, Shape.select, shape, Shape.rank, Position.coords, bind, Except.bind, pure,
      Except.pure, numberInside, rowInside, colInside]
  rw [selected]
  rfl

theorem failsWith_element (source : Variable) (position : Position) :
    FailsWith [source.positionFault position] (source.element position) := by
  refine .cons (fun outside => ?_) fun inside => ?_
  · have refused : source.offsetOf position = .error (source.positionFault position).2 :=
      (source.failsWith_offsetOf position _).mpr (Or.inl ⟨outside, rfl⟩)
    rw [element, refused]
    rfl
  · rw [element_eq_ok (not_not.mp inside)]
    exact failsWith_pure _

theorem flatIndices_entry (source : Variable) (position : Position) :
    (source.entry position).view.flatIndices = [source.place position] := by
  show [source.place position + strided [0, 0, 0] source.shape.strides] = _
  simp [strided, Shape.strides, Shape.stridesOf, shape]

end Variable

/-! ### Sums of entries -/

namespace Matrix

variable {α : Type} [Scalar α]

theorem length_unit : [(1 : α)].length = 1 * 1 := rfl

/-- The matrix of the number one. -/
def unit : Matrix α := ⟨1, 1, [1], length_unit⟩

end Matrix

namespace DotTerm

variable {α : Type} [Scalar α]

/-- An entry of a variable, weighed with one. -/
def ofEntry (source : Variable) (position : Position) : DotTerm α :=
  ⟨.unit, source.entry position, rfl⟩

theorem coefficients_ofEntry (source : Variable) (position : Position) :
    (ofEntry source position : DotTerm α).coefficients = [(source.place position, 1)] := by
  show (source.entry position).view.flatIndices.zip [(1 : α)] = _
  rw [Variable.flatIndices_entry]
  rfl

/-- Entries contribute a one for each use of their offset. -/
theorem contributionsAt_ofEntry (source : Variable) (positions : List Position)
    (offset index : Nat) :
    contributionsAt offset index (positions.map (ofEntry source : Position → DotTerm α)) =
      if source.offset = offset then
        List.replicate ((positions.map source.place).count index) 1
      else [] := by
  have start : startingAt offset (positions.map (ofEntry source : Position → DotTerm α)) =
      if source.offset = offset then positions.map (ofEntry source) else [] := by
    split
    · rename_i here
      refine List.filter_eq_self.mpr fun term member => ?_
      obtain ⟨position, _, rfl⟩ := List.mem_map.mp member
      exact beq_iff_eq.mpr here
    · rename_i elsewhere
      refine List.filter_eq_nil_iff.mpr fun term member => ?_
      obtain ⟨position, _, rfl⟩ := List.mem_map.mp member
      exact fun here => elsewhere (beq_iff_eq.mp here)
  rw [contributionsAt, coefficientsAt, start]
  split
  · have listed : (positions.map (ofEntry source : Position → DotTerm α)).flatMap coefficients =
        (positions.map source.place).map fun place => (place, 1) := by
      rw [List.flatMap_map, List.map_map, List.map_eq_flatMap]
      exact congrArg (List.flatMap · positions)
        (funext fun position => coefficients_ofEntry source position)
    rw [listed, List.filter_map, List.map_map]
    show ((positions.map source.place).filter (· == index)).map (fun _ => (1 : α)) = _
    rw [List.filter_beq, List.map_replicate]
  · rfl

end DotTerm

namespace Expr

section Any

variable {α : Type} [Scalar α] {source : Variable} {positions : List Position}

/-- The sum of the entries at some positions. -/
def entrySum (source : Variable) (positions : List Position) : Expr α :=
  sumOf (positions.map fun position => .dot (.ofEntry source position))

theorem terms_entrySum (source : Variable) (positions : List Position) :
    (entrySum source positions : Expr α).terms = positions.map (DotTerm.ofEntry source) := by
  cases positions with
  | nil => rfl
  | cons first rest =>
    show (sum ((first :: rest).map fun position => .dot (.ofEntry source position))).terms = _
    rw [terms_sum, List.flatMap_map, List.map_eq_flatMap]
    rfl

/-- The only number in a sum of entries is the zero that stands for the sum of none. -/
theorem constants_entrySum (source : Variable) (positions : List Position) :
    (entrySum source positions : Expr α).constants = if positions = [] then [0] else [] := by
  cases positions with
  | nil => rfl
  | cons first rest =>
    show (sum ((first :: rest).map fun position => .dot (.ofEntry source position))).constants = _
    rw [constants_sum, List.flatMap_map]
    exact List.flatMap_eq_nil_iff.mpr fun _ _ => rfl

/-- The program that gives the summand of a position. -/
def summand (source : Variable) (position : Position) : Except Error (Expr α) := do
  let entry ← source.element position
  inner .unit entry

theorem summand_eq_ok {position : Position} (inside : source.Has position) :
    (summand source position : Except Error (Expr α)) = .ok (.dot (.ofEntry source position)) := by
  rw [summand, Variable.element_eq_ok inside]
  rfl

theorem failsWith_summand (source : Variable) (position : Position) :
    FailsWith [source.positionFault position]
      (summand source position : Except Error (Expr α)) := by
  refine .cons (fun outside => ?_) fun inside => ?_
  · have refused := (source.failsWith_element position _).mpr (Or.inl ⟨outside, rfl⟩)
    rw [summand, refused]
    rfl
  · rw [summand_eq_ok (not_not.mp inside)]
    exact failsWith_pure _

theorem sumOver_eq_bind (source : Variable) (positions : List Position) :
    (sumOver source positions : Except Error (Expr α)) =
      positions.mapM (summand source) >>= fun terms => pure (sumOf terms) :=
  rfl

theorem failsWith_sumOver (source : Variable) (positions : List Position) :
    FailsWith (positions.map source.positionFault)
      (sumOver source positions : Except Error (Expr α)) := by
  rw [sumOver_eq_bind]
  exact (FailsWith.mapM (failsWith_summand source) positions).map sumOf

theorem sumOver_eq_ok (inside : ∀ position ∈ positions, source.Has position) :
    (sumOver source positions : Except Error (Expr α)) = .ok (entrySum source positions) := by
  have summands : positions.mapM (summand source : Position → Except Error (Expr α)) =
      .ok (positions.map fun position => .dot (.ofEntry source position)) :=
    mapM_eq_ok positions fun position member => summand_eq_ok (inside position member)
  rw [sumOver_eq_bind, summands]
  rfl

/-- A sum of entries is about their variable. -/
theorem over_entrySum (inside : ∀ position ∈ positions, source.Has position) :
    (entrySum source positions : Expr α).Over [source] := by
  intro term member
  rw [terms_entrySum] at member
  obtain ⟨position, listed, rfl⟩ := List.mem_map.mp member
  exact ⟨.element (Variable.element_eq_ok (inside position listed)), List.mem_singleton.mpr rfl⟩

/-- A column of a sum of entries has one added to itself for each use of its offset. -/
theorem mem_columns_entrySum_iff (source : Variable) (positions : List Position) (column : Nat)
    (value : α) :
    (column, value) ∈ (entrySum source positions : Expr α).linearForm.columns ↔
      Scalar.isZero value = false ∧ ∃ index, column = source.offset + index ∧
        sumFromFirst? (List.replicate ((positions.map source.place).count index) 1) =
          some value := by
  have contributed : ∀ offset index, DotTerm.contributionsAt offset index
      (entrySum source positions : Expr α).terms.reverse =
        if source.offset = offset then
          List.replicate ((positions.map source.place).count index) 1
        else [] := by
    intro offset index
    rw [terms_entrySum, ← List.map_reverse, DotTerm.contributionsAt_ofEntry, List.map_reverse,
      List.count_reverse]
  simp only [mem_columns_linearForm_iff, contributed]
  refine and_congr_right fun _ => ?_
  constructor
  · rintro ⟨offset, index, rfl, summed⟩
    split at summed
    · rename_i here
      exact ⟨index, by rw [here], summed⟩
    · exact absurd summed (by simp [sumFromFirst?])
  · rintro ⟨index, rfl, summed⟩
    exact ⟨source.offset, index, rfl, by rwa [if_pos rfl]⟩

/-- The linear form of a sum of entries is there, and its columns are in order. -/
theorem linearize_entrySum (inside : ∀ position ∈ positions, source.Has position) :
    (entrySum source positions : Expr α).linearize = .ok (entrySum source positions).linearForm ∧
      (entrySum source positions : Expr α).linearForm.columns.Pairwise
        fun left right => left.1 < right.1 := by
  have isOver : (entrySum source positions : Expr α).Over [source] := over_entrySum inside
  have same : Gathered.SameStartSameSize [source] := by
    intro left leftKnown right rightKnown _
    rw [List.mem_singleton.mp leftKnown, List.mem_singleton.mp rightKnown]
  have apart : Gathered.StartsApart [source] := by
    intro left leftKnown right rightKnown before
    rw [List.mem_singleton.mp leftKnown, List.mem_singleton.mp rightKnown] at before
    exact absurd before (Nat.lt_irrefl _)
  exact ⟨linearize_eq_ok same isOver, columns_increasing same apart isOver⟩

end Any

section Exact

variable {K : Type} [ExactScalar K]

/-- Ones add up to their number, if there are any. -/
theorem sumFromFirst?_replicate_one (count : Nat) (value : K) :
    sumFromFirst? (List.replicate count (1 : K)) = some value ↔ 0 < count ∧ value = count := by
  cases count with
  | zero => simp [sumFromFirst?]
  | succ count =>
    have total : (List.replicate count (1 : K)).foldl (· + ·) 1 = ((count + 1 : Nat) : K) := by
      calc (List.replicate count (1 : K)).foldl (· + ·) 1
          = (List.replicate (count + 1) (1 : K)).foldl (· + ·) 0 := by
            rw [List.replicate_succ, List.foldl_cons, zero_add]
        _ = (List.replicate (count + 1) (1 : K)).sum := List.sum_eq_foldl.symm
        _ = ((count + 1 : Nat) : K) := by rw [List.sum_replicate, nsmul_one]
    rw [List.replicate_succ, sumFromFirst?, total, Option.some.injEq, eq_comm]
    exact (and_iff_right (Nat.succ_pos count)).symm

/-- Exactly, the coefficient of a column counts the uses of its offset. -/
theorem mem_columns_entrySum_iff_count (source : Variable) (positions : List Position)
    (column : Nat) (value : K) :
    (column, value) ∈ (entrySum source positions : Expr K).linearForm.columns ↔
      ∃ index ∈ positions.map source.place, column = source.offset + index ∧
        value = (positions.map source.place).count index := by
  simp only [mem_columns_entrySum_iff, sumFromFirst?_replicate_one, List.count_pos_iff]
  constructor
  · rintro ⟨_, index, column, used, counted⟩
    exact ⟨index, used, column, counted⟩
  · rintro ⟨index, used, column, rfl⟩
    have positive := List.count_pos_iff.mpr used
    exact ⟨(Scalar.isZero_eq_false_iff _).mpr (Nat.cast_ne_zero.mpr positive.ne'), index, column,
      used, rfl⟩

/-- Exactly, an entry is worth its level. -/
theorem valueAt_ofEntry (source : Variable) (position : Position) (level : Nat → K) :
    (DotTerm.ofEntry source position : DotTerm K).valueAt level =
      level (source.offset + source.place position) := by
  show (((source.entry position).view.flatIndices).zipIdx.map _).sum = _
  rw [source.flatIndices_entry, List.zipIdx_singleton, List.map_singleton, List.sum_singleton]
  simp only [Nat.zero_div, Nat.zero_mod]
  exact one_mul (level (source.offset + source.place position))

/-- Exactly, a sum of entries is worth the sum of their levels. -/
theorem valueAt_entrySum (source : Variable) (positions : List Position) (level : Nat → K) :
    (entrySum source positions : Expr K).valueAt level =
      (positions.map fun position => level (source.offset + source.place position)).sum := by
  cases positions with
  | nil => rfl
  | cons first rest =>
    show totalWith _ ((first :: rest).map fun position => .dot (.ofEntry source position)) = _
    rw [totalWith_eq_sum, List.map_map]
    exact congrArg List.sum
      (List.map_congr_left fun position _ => valueAt_ofEntry source position level)

/-- Exactly, a sum of entries has no constant part. -/
theorem constant_entrySum (source : Variable) (positions : List Position) :
    (entrySum source positions : Expr K).linearForm.constant = 0 := by
  rw [(linearForm_sums_reverse _).constant_eq, constants_entrySum]
  split <;> simp

end Exact

end Expr

/-! ### Sums of entries in words -/

namespace Word

variable {α : Type} [Scalar α] {source : Variable}

/-- The summand of a position: the entry, cut out in words, with the weight one. -/
def summand (source : Variable) (position : Position) : Except Halt (Expr α) := do
  let entry ← element source position
  kept (Expr.inner .unit entry)

/-- The sum of the entries at positions, up to the first that is outside. -/
def sumOver (source : Variable) (positions : List Position) : Except Halt (Expr α) := do
  let terms ← positions.mapM (summand source)
  pure (.sumOf terms)

theorem sumOver_eq_kept (calls : source.CallsInWords) (positions : List Position) :
    (sumOver source positions : Except Halt (Expr α)) = kept (Expr.sumOver source positions) := by
  have each : ∀ position ∈ positions,
      (summand source position : Except Halt (Expr α)) = kept (Expr.summand source position) := by
    intro position _
    rw [summand, calls.element, Expr.summand, kept_bind]
  rw [sumOver, mapM_eq_kept each, Expr.sumOver_eq_bind, kept_bind]
  rfl

end Word

/-! ### One list for both -/

namespace Variable

/-- A list of positions is picked and added up in the same way. -/
structure PicksAndAdds (α : Type) [Scalar α] (source : Variable) (positions : List Position) :
    Prop where
  /-- Both are refused for the first position outside. -/
  pick_fails : FailsWith (positions.map source.positionFault) (source.pick positions)
  sumOver_fails : FailsWith (positions.map source.positionFault)
    (Expr.sumOver source positions : Except Error (Expr α))
  pick_succeeds : (∃ offsets, source.pick positions = .ok offsets) ↔
    ∀ position ∈ positions, source.Has position
  sumOver_succeeds : (∃ sum, (Expr.sumOver source positions : Except Error (Expr α)) = .ok sum) ↔
    ∀ position ∈ positions, source.Has position
  /-- Nothing that is computed of the positions leaves the words, however large they are. -/
  pick_word : Word.pick source positions = Word.kept (source.pick positions)
  sumOver_word : (Word.sumOver source positions : Except Halt (Expr α)) =
    Word.kept (Expr.sumOver source positions)
  /-- What is picked for a position is where it lies, and the one offset of its entry. -/
  picked : ∀ offsets, source.pick positions = .ok offsets → offsets = positions.map source.place ∧
    List.Forall₂ (fun position offset => ∃ entry, source.element position = .ok entry ∧
      entry.source = source ∧ entry.shape = .scalar ∧ entry.view.flatIndices = [offset])
      positions offsets
  termCount_eq : ∀ sum : Expr α, Expr.sumOver source positions = .ok sum →
    sum.termCount = positions.length

/-- The sum of the entries at some positions counts each of the offsets that are picked. -/
structure Counts {K : Type} [ExactScalar K] (source : Variable) (offsets : List Nat)
    (sum : Expr K) : Prop where
  linearized : sum.linearize = .ok sum.linearForm
  constant_eq : sum.linearForm.constant = 0
  increasing : sum.linearForm.columns.Pairwise fun left right => left.1 < right.1
  columns_eq : ∀ column value, (column, value) ∈ sum.linearForm.columns ↔
    ∃ offset ∈ offsets, column = source.offset + offset ∧ value = offsets.count offset

variable {source : Variable} {positions : List Position}

theorem pick_eq_ok (inside : ∀ position ∈ positions, source.Has position) :
    source.pick positions = .ok (positions.map source.place) :=
  mapM_eq_ok positions fun position member => offsetOf_eq_ok (inside position member)

/-- The faults of a list of positions are those that the variable does not have. -/
theorem forall_not_positionFault_iff :
    (∀ fault ∈ positions.map source.positionFault, ¬ fault.1) ↔
      ∀ position ∈ positions, source.Has position := by
  rw [List.forall_mem_map]
  exact forall₂_congr fun _ _ => not_not

theorem picksAndAdds (α : Type) [Scalar α] (fits : FitsWords source.shape.dims)
    (positions : List Position) : source.PicksAndAdds α positions := by
  have pickFails : FailsWith (positions.map source.positionFault) (source.pick positions) :=
    FailsWith.mapM source.failsWith_offsetOf positions
  have addFails : FailsWith (positions.map source.positionFault)
      (Expr.sumOver source positions : Except Error (Expr α)) :=
    Expr.failsWith_sumOver source positions
  have pickSucceeds := pickFails.succeeds_iff.trans forall_not_positionFault_iff
  have addSucceeds := addFails.succeeds_iff.trans forall_not_positionFault_iff
  have calls := callsInWords fits
  refine ⟨pickFails, addFails, pickSucceeds, addSucceeds, calls.pick positions,
    Word.sumOver_eq_kept calls positions, fun offsets picked => ?_, fun sum added => ?_⟩
  · have inside := pickSucceeds.mp ⟨offsets, picked⟩
    obtain rfl : positions.map source.place = offsets :=
      Except.ok.inj ((pick_eq_ok inside).symm.trans picked)
    refine ⟨rfl, List.forall₂_map_right_iff.mpr (List.forall₂_same.mpr fun position member => ?_)⟩
    exact ⟨_, element_eq_ok (inside position member), rfl, rfl, source.flatIndices_entry position⟩
  · have inside := addSucceeds.mp ⟨sum, added⟩
    obtain rfl : Expr.entrySum source positions = sum :=
      Except.ok.inj ((Expr.sumOver_eq_ok inside).symm.trans added)
    rw [Expr.termCount, Expr.terms_entrySum, List.length_map]

theorem counts {K : Type} [ExactScalar K] {offsets : List Nat} {sum : Expr K}
    (inside : ∀ position ∈ positions, source.Has position)
    (picked : source.pick positions = .ok offsets)
    (added : Expr.sumOver source positions = .ok sum) : source.Counts offsets sum := by
  obtain rfl := Except.ok.inj ((pick_eq_ok inside).symm.trans picked)
  obtain rfl := Except.ok.inj ((Expr.sumOver_eq_ok inside).symm.trans added)
  obtain ⟨linearized, increasing⟩ :
      (Expr.entrySum source positions : Expr K).linearize = .ok _ ∧ _ :=
    Expr.linearize_entrySum inside
  exact ⟨linearized, Expr.constant_entrySum source positions, increasing,
    Expr.mem_columns_entrySum_iff_count source positions⟩

end Variable

/-- Picking a list of positions of a declared variable and adding up the entries there succeed for
the same lists and are refused for the same position in the same words. Each position is picked as
the one offset of its entry, and the sum has one term for each position. Exactly, its coefficients
count how often each offset was picked, and nothing else is left of it. -/
theorem Problem.pickedEntries_agree {α : Type} [Scalar α] {problem : Problem α}
    (visited : problem.Visited) {source : Variable} (known : source ∈ problem.declared)
    (positions : List Position) :
    source.PicksAndAdds α positions ∧
      ∀ (K : Type) [ExactScalar K] (offsets : List Nat) (sum : Expr K),
        source.pick positions = .ok offsets → Expr.sumOver source positions = .ok sum →
          source.Counts offsets sum := by
  have agree := Variable.picksAndAdds α (visited.arranged.fitsWords source known) positions
  refine ⟨agree, fun K _ offsets sum picked added => ?_⟩
  exact Variable.counts (agree.pick_succeeds.mp ⟨offsets, picked⟩) picked added

namespace Sample

/-- Two entries of the block, the first of them twice. -/
def pickedTwice : List Position := [(0, 1, 0), (0, 0, 1), (0, 1, 0)]

/-- An entry of the block before two positions outside of it, the first as far as a word reaches. -/
def outside : List Position := [(0, 1, 0), (18446744073709551615, 0, 0), (0, 2, 0)]

end Sample

/-- The entry that was picked twice has the coefficient two. The position that is blamed is the
first one outside, although adding one to its block is more than a word holds. -/
theorem Problem.pickedEntries_agree_twice :
    Sample.problem.Visited ∧ Sample.handle ∈ Sample.problem.declared ∧
      Sample.handle.pick Sample.pickedTwice = .ok [2, 1, 2] ∧
      (∃ sum : Expr ℚ, Expr.sumOver Sample.handle Sample.pickedTwice = .ok sum ∧
        sum.termCount = 3 ∧ (1, 1) ∈ sum.linearForm.columns ∧ (2, 2) ∈ sum.linearForm.columns ∧
        sum.linearForm.constant = 0) ∧
      Sample.handle.pick Sample.outside =
        .error (.indexOutOfRange "[18446744073709551615, 0, 0]" "(1, 2, 2)") ∧
      (Expr.sumOver Sample.handle Sample.outside : Except Error (Expr ℚ)) =
        .error (.indexOutOfRange "[18446744073709551615, 0, 0]" "(1, 2, 2)") := by
  have visited : Sample.problem.Visited := ⟨0, none, _, rfl⟩
  have known : Sample.handle ∈ Sample.problem.declared := List.mem_singleton.mpr rfl
  have picked : Sample.handle.pick Sample.pickedTwice = .ok [2, 1, 2] := rfl
  obtain ⟨agree, exact⟩ := pickedEntries_agree visited known Sample.pickedTwice
  obtain ⟨sum, added⟩ := agree.sumOver_succeeds.mpr (agree.pick_succeeds.mp ⟨_, picked⟩)
  have counts := exact ℚ _ sum picked added
  have blamed : FirstFault (Sample.outside.map Sample.handle.positionFault)
      (.indexOutOfRange "[18446744073709551615, 0, 0]" "(1, 2, 2)") := by
    refine Or.inr ⟨?_, Or.inl ⟨?_, ?_⟩⟩
    · exact not_not.mpr ⟨by decide, by decide, by decide⟩
    · exact fun inside => absurd inside.1 (by decide)
    · decide +kernel
  obtain ⟨refused, _⟩ := pickedEntries_agree visited known Sample.outside
  refine ⟨visited, known, picked, ⟨sum, added, agree.termCount_eq sum added, ?_, ?_,
    counts.constant_eq⟩, (refused.pick_fails _).mpr blamed, (refused.sumOver_fails _).mpr blamed⟩
  · exact (counts.columns_eq 1 1).mpr ⟨1, by decide, rfl, by simp⟩
  · exact (counts.columns_eq 2 2).mpr ⟨2, by decide, rfl, by simp⟩

end BlockCone
