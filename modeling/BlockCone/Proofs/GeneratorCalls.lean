/-
This file says how a symmetric matrix comes from the calls of its generator.

The generator is called for the places on and below the diagonal, row by row, and each answer is
written on both sides of the diagonal. Every entry has a number, counted from the larger and the
smaller of its row and its column. Two entries share a number only if they lie opposite to each
other, and the number of an entry is the number of the call for it. So after any number of calls
the matrix is known from the answers alone: an entry holds the answer of its number, and zero as
long as there is none. One more call adds one answer at the end, which changes the two entries of
its number and no others. That is the whole induction. It never looks at what a generator does
besides answering, so it holds in every lawful monad.

The calls of a generator with a state are seen by a second generator, which answers like the first
and notes every call in a list beside the state. As the matrix is built by one program for all
generators, what the second one has noted are the calls that the first one gets.
-/

import BlockCone.Proofs.Collecting
import BlockCone.Proofs.ElementaryCones

namespace BlockCone

namespace Matrix

/-! ### Reading and writing entries -/

section Entries

variable {α : Type}

theorem entry?_of_lt (matrix : Matrix α) (row : Nat) {col : Nat} (inside : col < matrix.cols) :
    matrix.entry? row col = matrix.entries[row * matrix.cols + col]? :=
  if_pos inside

/-- Matrices of the same extents are equal if their entries are. -/
theorem eq_of_entry? {left right : Matrix α} (rows : left.rows = right.rows)
    (cols : left.cols = right.cols)
    (same : ∀ row < left.rows, ∀ col < left.cols, left.entry? row col = right.entry? row col) :
    left = right := by
  have entries : left.entries = right.entries := by
    refine List.ext_getElem (by rw [left.size_eq, right.size_eq, rows, cols])
      fun place leftBound rightBound => ?_
    obtain ⟨positive, leftFound⟩ := left.place_div_mod leftBound
    obtain ⟨_, rightFound⟩ := right.place_div_mod rightBound
    have rowInside : place / left.cols < left.rows := by
      rw [Nat.div_lt_iff_lt_mul positive, ← left.size_eq]
      exact leftBound
    have equal := same _ rowInside _ (Nat.mod_lt place positive)
    rw [leftFound, cols, rightFound] at equal
    exact Option.some.inj equal
  cases left
  cases right
  cases rows
  cases cols
  cases entries
  rfl

theorem entry?_ofFn {rows cols row col : Nat} (entry : Nat → Nat → α) (rowInside : row < rows)
    (colInside : col < cols) : entry? (ofFn rows cols entry) row col = some (entry row col) := by
  rw [entry?_of_lt _ row colInside]
  show ((List.range rows).flatMap fun row => (List.range cols).map (entry row))[row * cols + col]? =
    some (entry row col)
  induction rows with
  | zero => exact absurd rowInside (Nat.not_lt_zero row)
  | succ rows inductionHypothesis =>
    rw [List.range_succ, List.flatMap_append, List.flatMap_singleton]
    rcases Nat.lt_succ_iff_lt_or_eq.mp rowInside with earlier | rfl
    · have bound := place_lt earlier colInside
      rw [← length_flatMap_range rows cols entry] at bound
      rw [List.getElem?_append_left bound, inductionHypothesis earlier]
    · rw [List.getElem?_append_right (by rw [length_flatMap_range]; exact Nat.le_add_right _ _),
        length_flatMap_range, Nat.add_sub_cancel_left, List.getElem?_map,
        List.getElem?_range colInside, Option.map_some]

/-- Writing an entry changes this entry and no other. -/
theorem entry?_set (matrix : Matrix α) {row col otherRow otherCol : Nat} (value : α)
    (rowInside : row < matrix.rows) (colInside : col < matrix.cols)
    (otherInside : otherCol < matrix.cols) :
    entry? (matrix.set row col value) otherRow otherCol =
      if otherRow = row ∧ otherCol = col then some value
      else matrix.entry? otherRow otherCol := by
  rw [entry?_of_lt (matrix.set row col value) otherRow otherInside,
    entry?_of_lt matrix otherRow otherInside]
  show (matrix.entries.set (row * matrix.cols + col) value)[otherRow * matrix.cols + otherCol]? = _
  have bound : row * matrix.cols + col < matrix.entries.length := by
    rw [matrix.size_eq]
    exact place_lt rowInside colInside
  rw [List.getElem?_set, if_pos bound]
  refine if_congr ?_ rfl rfl
  constructor
  · intro same
    obtain ⟨quotient, remainder⟩ := div_mod_place row colInside
    obtain ⟨otherQuotient, otherRemainder⟩ := div_mod_place otherRow otherInside
    rw [same] at quotient remainder
    exact ⟨otherQuotient.symm.trans quotient, otherRemainder.symm.trans remainder⟩
  · rintro ⟨rfl, rfl⟩
    rfl

end Entries

/-! ### Places in the order of the calls -/

/-- The places on and below the diagonal, row by row. -/
def lowerTriangle (dim : Nat) : List (Nat × Nat) :=
  (List.range dim).flatMap fun row => (List.range (row + 1)).map fun col => (row, col)

theorem lowerTriangle_eq_map_swap (dim : Nat) :
    lowerTriangle dim = (StandardForm.trianglePairs dim).map Prod.swap := by
  rw [lowerTriangle, StandardForm.trianglePairs, List.map_flatMap]
  refine List.flatMap_congr fun row _ => ?_
  rw [List.map_map]
  rfl

theorem lowerTriangle_succ (dim : Nat) :
    lowerTriangle (dim + 1) =
      lowerTriangle dim ++ (List.range (dim + 1)).map fun col => (dim, col) := by
  unfold lowerTriangle
  conv_lhs => rw [List.range_succ, List.flatMap_append, List.flatMap_singleton]

theorem length_lowerTriangle (dim : Nat) : (lowerTriangle dim).length = triangleSize dim := by
  rw [lowerTriangle_eq_map_swap, List.length_map, StandardForm.length_trianglePairs]

theorem mem_lowerTriangle {dim : Nat} {place : Nat × Nat} (member : place ∈ lowerTriangle dim) :
    place.2 ≤ place.1 ∧ place.1 < dim := by
  simp only [lowerTriangle, List.mem_flatMap, List.mem_range, List.mem_map] at member
  obtain ⟨row, inside, col, below, rfl⟩ := member
  exact ⟨Nat.le_of_lt_succ below, inside⟩

/-- The number of an entry, the same for the opposite one. -/
def callNumber (row col : Nat) : Nat :=
  triangleSize (max row col) + min row col

theorem callNumber_of_le {row col : Nat} (below : col ≤ row) :
    callNumber row col = triangleSize row + col := by
  rw [callNumber, max_eq_left below, min_eq_right below]

theorem callNumber_comm (row col : Nat) : callNumber row col = callNumber col row := by
  rw [callNumber, callNumber, max_comm, min_comm]

/-- The place of a number is the one on or below the diagonal of the two that have it. -/
theorem getElem?_lowerTriangle {dim row col : Nat} (rowInside : row < dim) (colInside : col < dim) :
    (lowerTriangle dim)[callNumber row col]? = some (max row col, min row col) := by
  rw [lowerTriangle_eq_map_swap, List.getElem?_map, callNumber,
    StandardForm.getElem?_trianglePairs min_le_max (max_lt rowInside colInside), Option.map_some]
  rfl

/-- The places are numbered from zero. -/
theorem map_callNumber_lowerTriangle (dim : Nat) :
    ((lowerTriangle dim).map fun place => callNumber place.1 place.2) =
      List.range (triangleSize dim) := by
  induction dim with
  | zero => rfl
  | succ dim inductionHypothesis =>
    rw [lowerTriangle_succ, List.map_append, inductionHypothesis, triangleSize_succ, List.map_map]
    conv_rhs => rw [List.range_add]
    refine congrArg _ (List.map_congr_left fun col member => ?_)
    exact callNumber_of_le (Nat.le_of_lt_succ (List.mem_range.mp member))

/-- An entry shares its number with the opposite one only. -/
theorem callNumber_eq_iff {row col otherRow otherCol : Nat} :
    callNumber otherRow otherCol = callNumber row col ↔
      otherRow = col ∧ otherCol = row ∨ otherRow = row ∧ otherCol = col := by
  constructor
  · intro same
    -- In a triangle that has both entries, the number leads to one place only.
    have found : (lowerTriangle (row + col + otherRow + otherCol + 1))[callNumber row col]? =
        some (max row col, min row col) := getElem?_lowerTriangle (by omega) (by omega)
    rw [← same, getElem?_lowerTriangle (by omega) (by omega)] at found
    obtain ⟨larger, smaller⟩ := Prod.mk.inj (Option.some.inj found)
    omega
  · rintro (⟨rfl, rfl⟩ | ⟨rfl, rfl⟩)
    · exact callNumber_comm _ _
    · rfl

/-! ### The matrix after some calls -/

variable {α : Type} [Scalar α]

theorem entry?_zero {rows cols row col : Nat} (rowInside : row < rows) (colInside : col < cols) :
    entry? (zero rows cols : Matrix α) row col = some 0 := by
  rw [entry?_of_lt _ row colInside]
  show (List.replicate (rows * cols) 0)[row * cols + col]? = some 0
  rw [List.getElem?_replicate, if_pos (place_lt rowInside colInside)]

/-- The matrix of the answers of some calls. An entry whose number is not reached is zero. -/
def ofAnswers (dim : Nat) (answers : List α) : Matrix α :=
  ofFn dim dim fun row col => (answers[callNumber row col]?).getD 0

theorem entry?_ofAnswers {dim row col : Nat} (answers : List α) (rowInside : row < dim)
    (colInside : col < dim) :
    entry? (ofAnswers dim answers) row col = some ((answers[callNumber row col]?).getD 0) :=
  entry?_ofFn _ rowInside colInside

theorem ofAnswers_nil (dim : Nat) : ofAnswers dim ([] : List α) = zero dim dim := by
  refine eq_of_entry? rfl rfl fun row (rowInside : row < dim) col (colInside : col < dim) => ?_
  rw [entry?_ofAnswers [] rowInside colInside, entry?_zero rowInside colInside]
  rfl

/-- With the first answers alone, the entries that these have reached are final. -/
theorem entry?_ofAnswers_take {dim row col : Nat} (made : Nat) (answers : List α)
    (rowInside : row < dim) (colInside : col < dim) :
    entry? (ofAnswers dim (answers.take made)) row col =
      if callNumber row col < made then entry? (ofAnswers dim answers) row col else some 0 := by
  rw [entry?_ofAnswers _ rowInside colInside, entry?_ofAnswers _ rowInside colInside,
    List.getElem?_take]
  split
  · rfl
  · rfl

/-- Writing the answer of the next call on both sides of the diagonal. -/
theorem set_set_ofAnswers {dim row col : Nat} {answers : List α} (value : α) (below : col ≤ row)
    (inside : row < dim) (turn : callNumber row col = answers.length) :
    ((ofAnswers dim answers).set row col value).set col row value =
      ofAnswers dim (answers ++ [value]) := by
  have colBound : col < dim := below.trans_lt inside
  refine eq_of_entry? rfl rfl fun otherRow (otherRowInside : otherRow < dim) otherCol
    (otherColInside : otherCol < dim) => ?_
  rw [entry?_set ((ofAnswers dim answers).set row col value) value colBound inside otherColInside,
    entry?_set (ofAnswers dim answers) value inside colBound otherColInside,
    entry?_ofAnswers answers otherRowInside otherColInside,
    entry?_ofAnswers (answers ++ [value]) otherRowInside otherColInside, ← ite_or]
  by_cases own : callNumber otherRow otherCol = callNumber row col
  · rw [if_pos (callNumber_eq_iff.mp own), own, turn, List.getElem?_concat_length, Option.getD_some]
  · rw [if_neg (callNumber_eq_iff.not.mp own)]
    rw [turn] at own
    rcases Nat.lt_or_gt_of_ne own with earlier | later
    · rw [List.getElem?_append_left earlier]
    · rw [List.getElem?_eq_none later.le, List.getElem?_eq_none]
      rw [List.length_append, List.length_singleton]
      exact later

/-! ### One call after the other -/

section Runs

variable {m : Type → Type} [Monad m]

/-- One call, for a place on or below the diagonal. -/
def writeBoth (next : Nat → Nat → m α) (matrix : Matrix α) (place : Nat × Nat) : m (Matrix α) := do
  let value ← next place.1 place.2
  pure ((matrix.set place.1 place.2 value).set place.2 place.1 value)

/-- The first calls for a symmetric matrix. -/
def symmetricUntil (made dim : Nat) (next : Nat → Nat → m α) : m (Matrix α) :=
  ((lowerTriangle dim).take made).foldlM (writeBoth next) (zero dim dim)

/-- The calls that are left after the first ones. -/
def symmetricFrom (made dim : Nat) (next : Nat → Nat → m α) (matrix : Matrix α) : m (Matrix α) :=
  ((lowerTriangle dim).drop made).foldlM (writeBoth next) matrix

variable [LawfulMonad m]

/-- The rows of the triangle, one after the other, are its places one after the other. -/
theorem symmetric_eq_foldlM (dim : Nat) (next : Nat → Nat → m α) :
    symmetric dim next = (lowerTriangle dim).foldlM (writeBoth next) (zero dim dim) := by
  unfold symmetric
  -- The extents of the matrix stay while the number of rows to be filled grows.
  generalize (zero dim dim : Matrix α) = matrix
  induction dim generalizing matrix with
  | zero => rfl
  | succ dim inductionHypothesis =>
    rw [List.range_succ, List.foldlM_append, inductionHypothesis, lowerTriangle_succ,
      List.foldlM_append]
    refine congrArg _ (funext fun filled => ?_)
    rw [List.foldlM_cons, List.foldlM_map]
    exact bind_pure _

theorem symmetric_eq_bind (made dim : Nat) (next : Nat → Nat → m α) :
    symmetric dim next = symmetricUntil made dim next >>= symmetricFrom made dim next := by
  rw [symmetric_eq_foldlM]
  conv_lhs => rw [← List.take_append_drop made (lowerTriangle dim), List.foldlM_append]
  rfl

/-- Calls for the places whose turn it is add their answers. -/
theorem foldlM_writeBoth {dim : Nat} (next : Nat → Nat → m α) {places : List (Nat × Nat)}
    {answers : List α} (inside : ∀ place ∈ places, place.2 ≤ place.1 ∧ place.1 < dim)
    (turns : (places.map fun place => callNumber place.1 place.2) =
      List.range' answers.length places.length) :
    places.foldlM (writeBoth next) (ofAnswers dim answers) =
      (fun later => ofAnswers dim (answers ++ later)) <$>
        places.mapM fun place => next place.1 place.2 := by
  -- The answers so far are counted, so the induction takes the first call off and not the last one,
  -- whose turn would depend on how many answers a run of `mapM` has.
  induction places generalizing answers with
  | nil => rw [List.foldlM_nil, List.mapM_nil, map_pure, List.append_nil]
  | cons place rest inductionHypothesis =>
    rw [List.map_cons, List.length_cons, List.range'_succ] at turns
    obtain ⟨turn, laterTurns⟩ := List.cons.inj turns
    obtain ⟨below, rowBound⟩ := inside place List.mem_cons_self
    have deeper (value : α) := @inductionHypothesis (answers ++ [value])
      (fun other member => inside other (List.mem_cons_of_mem _ member))
      (by rw [List.length_append]; exact laterTurns)
    rw [List.foldlM_cons, List.mapM_cons, writeBoth]
    simp only [bind_assoc, pure_bind, set_set_ofAnswers _ below rowBound turn, deeper,
      List.append_assoc, List.singleton_append, map_eq_pure_bind]

/-- The first calls fill the matrix with their answers. -/
theorem symmetricUntil_eq (made dim : Nat) (next : Nat → Nat → m α) :
    symmetricUntil made dim next =
      ofAnswers dim <$>
        ((lowerTriangle dim).take made).mapM fun place => next place.1 place.2 := by
  rw [symmetricUntil, ← ofAnswers_nil]
  refine foldlM_writeBoth next (fun place member => ?_) ?_
  · exact mem_lowerTriangle (List.mem_of_mem_take member)
  · rw [List.map_take, map_callNumber_lowerTriangle, List.take_range, List.length_take,
      length_lowerTriangle, List.range_eq_range']
    rfl

/-- A symmetric matrix is the matrix of the answers for the places on and below the diagonal, asked
for once each, row by row. -/
theorem symmetric_eq_mapM (dim : Nat) (next : Nat → Nat → m α) :
    symmetric dim next =
      ofAnswers dim <$> (lowerTriangle dim).mapM fun place => next place.1 place.2 := by
  have whole := symmetricUntil_eq (lowerTriangle dim).length dim next
  rw [symmetricUntil, List.take_length] at whole
  rw [symmetric_eq_foldlM, whole]

end Runs

end Matrix

/-! ### Generators with a state -/

namespace Generator

variable {State α : Type}

/-- A call of a generator: the place that it is asked for and the value that it returns. -/
structure Call (α : Type) where
  row : Nat
  col : Nat
  value : α

/-- The place of a call. -/
def Call.place (call : Call α) : Nat × Nat :=
  (call.row, call.col)

/-- Calls that follow one another, each from the state in which the one before left the
generator. -/
inductive Follows (next : Nat → Nat → StateM State α) : State → List (Call α) → State → Prop where
  | none (state : State) : Follows next state [] state
  | call {row col : Nat} {value : α} {before after final : State} {rest : List (Call α)}
      (returned : (next row col).run before = (value, after))
      (later : Follows next after rest final) :
      Follows next before (⟨row, col, value⟩ :: rest) final

/-- The generator that answers like a given one and notes the calls. -/
def noting (next : Nat → Nat → StateM State α) (row col : Nat) :
    StateM (State × List (Call α)) α := do
  let (state, calls) ← get
  let (value, after) := (next row col).run state
  set (after, calls ++ [⟨row, col, value⟩])
  pure value

variable {next : Nat → Nat → StateM State α} {start final : State} {calls : List (Call α)}

/-- A generator can be called for any places. -/
theorem exists_follows (next : Nat → Nat → StateM State α) (places : List (Nat × Nat))
    (start : State) :
    ∃ calls final, calls.map Call.place = places ∧ Follows next start calls final := by
  induction places generalizing start with
  | nil => exact ⟨[], start, rfl, .none start⟩
  | cons place rest inductionHypothesis =>
    obtain ⟨calls, final, same, later⟩ :=
      inductionHypothesis ((next place.1 place.2).run start).2
    exact ⟨⟨place.1, place.2, ((next place.1 place.2).run start).1⟩ :: calls, final,
      congrArg (place :: ·) same, .call rfl later⟩

namespace Follows

/-- The first of some calls are calls that follow one another. -/
theorem take (follow : Follows next start calls final) (made : Nat) :
    ∃ state, Follows next start (calls.take made) state := by
  induction follow generalizing made with
  | none state => exact ⟨state, by rw [List.take_nil]; exact .none state⟩
  | call returned _ inductionHypothesis =>
    cases made with
    | zero => exact ⟨_, .none _⟩
    | succ made =>
      obtain ⟨state, later⟩ := inductionHypothesis made
      exact ⟨state, .call returned later⟩

/-- Asking for the places of the calls gives their values. -/
theorem run_mapM (follow : Follows next start calls final) :
    ((calls.map Call.place).mapM fun place => next place.1 place.2).run start =
      (calls.map Call.value, final) := by
  induction follow with
  | none state => rfl
  | @call row col value before after final rest returned _ inductionHypothesis =>
    rw [List.map_cons, List.mapM_cons, StateT.run_bind]
    show (do
      let (first, middle) ← (next row col).run before
      StateT.run (do
        let later ← (rest.map Call.place).mapM fun place => next place.1 place.2
        pure (first :: later)) middle : Id _) = _
    rw [returned]
    show (do
      let (later, state) ←
        ((rest.map Call.place).mapM fun place => next place.1 place.2).run after
      (pure (value :: later, state)) : Id _) = _
    rw [inductionHypothesis]
    rfl

/-- The calls are noted behind those that have been noted before. -/
theorem noted (follow : Follows next start calls final) (before : List (Call α)) :
    Follows (noting next) (start, before) calls (final, before ++ calls) := by
  induction follow generalizing before with
  | none state =>
    rw [List.append_nil]
    exact .none (state, before)
  | @call row col value state after final rest returned _ inductionHypothesis =>
    have answered : (Generator.noting next row col).run (state, before) =
        (value, after, before ++ [⟨row, col, value⟩]) := by
      show (((next row col).run state).1, ((next row col).run state).2,
        before ++ [⟨row, col, ((next row col).run state).1⟩]) = _
      rw [returned]
    have later := inductionHypothesis (before ++ [⟨row, col, value⟩])
    rw [List.append_assoc, List.singleton_append] at later
    exact .call answered later

end Follows

/-- The call of the number of a place is the call for this place. -/
theorem getElem?_callNumber {dim row col : Nat}
    (places : calls.map Call.place = Matrix.lowerTriangle dim) (below : col ≤ row)
    (inside : row < dim) :
    ∃ value, calls[Matrix.callNumber row col]? = some ⟨row, col, value⟩ := by
  have found := Matrix.getElem?_lowerTriangle inside (below.trans_lt inside)
  rw [← places, List.getElem?_map, Option.map_eq_some_iff, max_eq_left below,
    min_eq_right below] at found
  obtain ⟨⟨_, _, value⟩, found, ⟨⟩⟩ := found
  exact ⟨value, found⟩

end Generator

namespace Matrix

open Generator

/-! ### Symmetric matrices -/

variable {State α : Type} [Scalar α] {next : Nat → Nat → StateM State α} {start final : State}
  {calls : List (Call α)}

/-- The first calls fill the matrix with their values. -/
theorem run_symmetricUntil {dim : Nat} (follow : Follows next start calls final)
    (places : calls.map Call.place = lowerTriangle dim) (made : Nat) :
    ∃ state, (symmetricUntil made dim next).run start =
      (ofAnswers dim ((calls.take made).map Call.value), state) := by
  obtain ⟨state, first⟩ := follow.take made
  refine ⟨state, ?_⟩
  rw [symmetricUntil_eq, ← places, ← List.map_take, StateT.run_map, first.run_mapM]
  rfl

/-- All calls together end in the state of the last one. -/
theorem run_symmetric {dim : Nat} (follow : Follows next start calls final)
    (places : calls.map Call.place = lowerTriangle dim) :
    (symmetric dim next).run start = (ofAnswers dim (calls.map Call.value), final) := by
  rw [symmetric_eq_mapM, ← places, StateT.run_map, follow.run_mapM]
  rfl

/-- What is promised of a symmetric matrix: which calls its generator gets from a state on, and
where their values stand, at the end and in between. -/
structure HoldsCalls (dim : Nat) (next : Nat → Nat → StateM State α) (start : State)
    (matrix : Matrix α) (final : State) (calls : List (Call α)) : Prop where
  built : (symmetric dim next).run start = (matrix, final)
  /-- These are all the calls: a generator that notes them has noted these, and nothing else is
  different. -/
  noted : (symmetric dim (noting next)).run (start, []) = (matrix, final, calls)
  follow : Follows next start calls final
  count : calls.length = dim * (dim + 1) / 2
  square : matrix.rows = dim ∧ matrix.cols = dim
  /-- The calls come row by row, and each value stands on both sides of the diagonal. -/
  numbered : ∀ row col, col ≤ row → row < dim → ∃ value,
    calls[row * (row + 1) / 2 + col]? = some ⟨row, col, value⟩ ∧
      matrix.entry? row col = some value ∧ matrix.entry? col row = some value
  /-- The calls can be stopped after any number of them and taken up again. -/
  resumed : ∀ made,
    symmetric dim next = symmetricUntil made dim next >>= symmetricFrom made dim next
  /-- An entry is zero before its call, and no later call changes it. -/
  settled : ∀ made, ∃ stage state, (symmetricUntil made dim next).run start = (stage, state) ∧
    ∀ row < dim, ∀ col < dim, stage.entry? row col =
      if callNumber row col < made then matrix.entry? row col else some 0

/-- A symmetric matrix takes one call of its generator for every place on and below the diagonal,
row by row, and holds the value of each call at its place and at the opposite one. -/
theorem symmetric_holdsCalls (dim : Nat) (next : Nat → Nat → StateM State α) (start : State) :
    ∃ matrix final calls, HoldsCalls dim next start matrix final calls := by
  obtain ⟨calls, final, places, follow⟩ := exists_follows next (lowerTriangle dim) start
  refine ⟨ofAnswers dim (calls.map Call.value), final, calls,
    { built := run_symmetric follow places
      noted := run_symmetric (follow.noted []) places
      follow
      count := ?_
      square := ⟨rfl, rfl⟩
      numbered := fun row col below inside => ?_
      resumed := fun made => symmetric_eq_bind made dim next
      settled := fun made => ?_ }⟩
  · rw [← List.length_map Call.place, places, length_lowerTriangle]
    rfl
  · have colInside := below.trans_lt inside
    obtain ⟨value, found⟩ := getElem?_callNumber places below inside
    refine ⟨value, ?_, ?_, ?_⟩
    · rw [callNumber_of_le below] at found
      exact found
    · rw [entry?_ofAnswers _ inside colInside, List.getElem?_map, found]
      rfl
    · rw [entry?_ofAnswers _ colInside inside, callNumber_comm, List.getElem?_map, found]
      rfl
  · obtain ⟨state, run⟩ := run_symmetricUntil follow places made
    refine ⟨_, state, run, fun row rowInside col colInside => ?_⟩
    rw [List.map_take]
    exact entry?_ofAnswers_take made _ rowInside colInside

/-- A generator that hands out the values of a list. -/
example :
    ((symmetric (m := StateM (List ℚ)) 3 fun _ _ =>
      modifyGet fun values => (values.headD 0, values.tail)).run [5, 7, -1, 2, 0, 3]).1.toRows =
        [[5, 7, 2], [7, -1, 0], [2, 0, 3]] := by
  decide

end Matrix

end BlockCone
