/-
This file says that the test for an unbroken range is exact.

The test looks at the last entry of a view only: the view is taken to be unbroken if this entry is
as far behind the corner as the number of entries says. That decides it because the offsets
increase. From one entry to the next an offset grows by at least one, so the last entry is never
closer than that, and if it is not farther either then no step was larger than one. The last entry
is the one that the counter shows at the last place, where every coordinate is one below its
extent.

A view without entries is unbroken, and the test says so before it takes one off an extent.

A machine has words for its numbers, and the test is as good as the numbers it is given. While all
of them have words it does not matter what the machine does with one that has none. The strides are
the first to be wrong for an array with too many entries: they still increase the offsets inside a
row, but no longer from row to row, and then the last entry says nothing about those before it.
-/

import BlockCone.Proofs.Machines

namespace BlockCone

open Shape

/-! ### Increasing lists -/

/-- An increasing list grows by at least one from each number to the next. -/
theorem add_length_le_getLast {first : Nat} {rest : List Nat}
    (increasing : (first :: rest).Pairwise (· < ·)) :
    first + rest.length ≤ (first :: rest).getLast (List.cons_ne_nil _ _) := by
  induction rest generalizing first with
  | nil => exact le_rfl
  | cons next rest inductionHypothesis =>
    obtain ⟨least, increasingRest⟩ := List.pairwise_cons.mp increasing
    have step := least next List.mem_cons_self
    have onward := inductionHypothesis increasingRest
    rw [List.getLast_cons (List.cons_ne_nil _ _), List.length_cons]
    omega

/-- If it reaches its last number with steps of one on the average, every step is one. -/
theorem eq_range'_iff_getLast {first : Nat} {rest : List Nat}
    (increasing : (first :: rest).Pairwise (· < ·)) :
    first :: rest = List.range' first (rest.length + 1) ↔
      (first :: rest).getLast (List.cons_ne_nil _ _) = first + rest.length := by
  induction rest generalizing first with
  | nil => exact iff_of_true rfl rfl
  | cons next rest inductionHypothesis =>
    obtain ⟨least, increasingRest⟩ := List.pairwise_cons.mp increasing
    have step := least next List.mem_cons_self
    have deeper := inductionHypothesis increasingRest
    rw [List.getLast_cons (List.cons_ne_nil _ _), List.length_cons, List.range'_succ,
      List.cons.injEq, and_iff_right rfl]
    constructor
    · intro consecutive
      obtain rfl : next = first + 1 := (List.cons.inj consecutive).1
      rw [deeper.mp consecutive]
      omega
    · intro reached
      have onward := add_length_le_getLast increasingRest
      obtain rfl : next = first + 1 := by omega
      refine deeper.mpr ?_
      omega

/-! ### The last entry -/

/-- At the last place of an array every coordinate is one below its extent. -/
theorem coordinates_last {extents : List Nat} (positive : 0 < volume extents) :
    coordinates extents (volume extents - 1) = extents.map (· - 1) := by
  induction extents with
  | nil => rfl
  | cons extent inner inductionHypothesis =>
    rw [volume_cons] at positive
    have innerPositive : 0 < volume inner := Nat.pos_of_mul_pos_left positive
    have outerPositive : 0 < extent := Nat.pos_of_mul_pos_right positive
    have place : volume (extent :: inner) - 1 =
        (extent - 1) * volume inner + (volume inner - 1) := by
      obtain ⟨before, rfl⟩ := Nat.exists_eq_succ_of_ne_zero outerPositive.ne'
      rw [volume_cons, Nat.succ_mul, Nat.succ_sub_one]
      omega
    rw [place, coordinates_mul_add (Nat.sub_one_lt innerPositive.ne'),
      inductionHypothesis innerPositive, List.map_cons]

namespace View

variable (view : View)

theorem indexAt_zero : view.indexAt 0 = view.offset := by
  rw [indexAt, coordinates_zero, strided_zeros, Nat.add_zero]

theorem indexAt_last (positive : 0 < view.size) :
    view.indexAt (view.size - 1) =
      view.offset + strided (view.extents.map (· - 1)) view.strides := by
  rw [indexAt]
  congr 2
  exact coordinates_last positive

/-- The test compares the last entry with the number of entries. -/
theorem isContiguous_iff_indexAt (positive : 0 < view.size) :
    view.isContiguous = true ↔ view.indexAt (view.size - 1) + 1 = view.offset + view.size := by
  rw [indexAt_last view positive, isContiguous, if_neg (by simpa using positive.ne'), beq_iff_eq]
  omega

/-- A listing that increases is consecutive exactly if the test says so. -/
theorem isContiguous_iff_of_increasing {view : View}
    (increasing : view.flatIndices.Pairwise (· < ·)) :
    view.isContiguous = true ↔ view.flatIndices = List.range' view.offset view.size := by
  cases many : view.size with
  | zero =>
    have nothing : view.flatIndices = [] :=
      List.eq_nil_of_length_eq_zero (view.length_flatIndices.trans many)
    rw [isContiguous, many, nothing]
    exact iff_of_true rfl rfl
  | succ count =>
    have listed : view.flatIndices =
        view.offset :: (List.range count).map fun place => view.indexAt (place + 1) := by
      rw [flatIndices_eq, many, List.range_succ_eq_map, List.map_cons, indexAt_zero, List.map_map]
      rfl
    have last : view.flatIndices.getLast? = some (view.indexAt count) := by
      rw [flatIndices_eq, many, List.range_succ, List.map_append, List.map_singleton,
        List.getLast?_concat]
    rw [isContiguous_iff_indexAt view (by omega), many]
    rw [listed] at increasing last ⊢
    rw [List.getLast?_eq_some_getLast (List.cons_ne_nil _ _), Option.some.injEq] at last
    have consecutive := eq_range'_iff_getLast increasing
    rw [List.length_map, List.length_range, last] at consecutive
    rw [consecutive, Nat.add_sub_cancel]
    omega

end View

/-- Without a bound the test is exact, whatever shape a view was cut from. -/
theorem View.CutBetween.isContiguous_iff {shape : Shape} {view : View} {start stop : List Nat}
    (cut : View.CutBetween shape view start stop) :
    view.isContiguous = true ↔ view.flatIndices = List.range' view.offset view.size :=
  View.isContiguous_iff_of_increasing cut.isBox.flatIndices_increasing

/-! ### The test in words -/

end BlockCone
