/-
This file proves what a view lists.

A view lists its offsets by counting, and the count is a place written in mixed radix: after
`place` steps the counter shows the coordinates of the entry number `place` of an array with the
view's extents. One step of the odometer is the successor of a place in that writing, which is all
that an induction along the listing needs. The listing becomes a map over a range of places, and
every coordinate met is below its extent.

The second half bounds the offsets. A box that fits into an array meets only entries of that array,
whatever the rank, and the coordinates of a place lead back to it.
-/

import Mathlib.Data.List.Forall2
import Mathlib.Tactic.Ring
import BlockCone.View

namespace BlockCone

open Shape

/-- The number of entries of an array with the given extents. -/
def volume (extents : List Nat) : Nat :=
  extents.foldr (· * ·) 1

theorem volume_nil : volume [] = 1 := rfl

theorem volume_cons (extent : Nat) (inner : List Nat) :
    volume (extent :: inner) = extent * volume inner := rfl

/-- The coordinates of the entry number `place` of an array with the given extents. -/
def coordinates (extents : List Nat) (place : Nat) : List Nat :=
  splitOffset (stridesOf extents) place

theorem coordinates_cons (extent : Nat) (inner : List Nat) (place : Nat) :
    coordinates (extent :: inner) place =
      place / volume inner :: coordinates inner (place % volume inner) := rfl

theorem volume_inner_pos {extent : Nat} {inner : List Nat} {place : Nat}
    (bound : place < volume (extent :: inner)) : 0 < volume inner := by
  by_contra zero
  rw [volume_cons, Nat.eq_zero_of_not_pos zero, Nat.mul_zero] at bound
  exact absurd bound (Nat.not_lt_zero place)

/-- The first coordinate of a place is below the first extent. -/
theorem div_volume_lt {extent : Nat} {inner : List Nat} {place : Nat}
    (bound : place < volume (extent :: inner)) : place / volume inner < extent :=
  (Nat.div_lt_iff_lt_mul (volume_inner_pos bound)).mpr bound

/-! ### Counting -/

theorem coordinates_zero (extents : List Nat) :
    coordinates extents 0 = extents.map fun _ => 0 := by
  induction extents with
  | nil => rfl
  | cons extent inner inductionHypothesis =>
    rw [coordinates_cons, Nat.zero_div, Nat.zero_mod, inductionHypothesis, List.map_cons]

/-- The successor of a place that does not end an inner array keeps the first coordinate. -/
theorem coordinates_succ_of_lt {extent : Nat} {inner : List Nat} {place : Nat}
    (room : place % volume inner + 1 < volume inner) :
    coordinates (extent :: inner) (place + 1) =
      place / volume inner :: coordinates inner (place % volume inner + 1) := by
  have quotient : (place + 1) / volume inner = place / volume inner := by
    rw [← Nat.div_add_mod place (volume inner), Nat.add_assoc, Nat.mul_add_div (by omega),
      Nat.mul_add_div (by omega), Nat.div_eq_of_lt room,
      Nat.div_eq_of_lt (Nat.lt_of_succ_lt room)]
  have remainder : (place + 1) % volume inner = place % volume inner + 1 := by
    rw [Nat.add_mod, Nat.mod_eq_of_lt (a := 1) (by omega), Nat.mod_eq_of_lt room]
  rw [coordinates_cons, quotient, remainder]

/-- The successor of the last place of an inner array starts the next one. -/
theorem coordinates_succ_of_eq {extent : Nat} {inner : List Nat} {place : Nat}
    (last : place % volume inner + 1 = volume inner) :
    coordinates (extent :: inner) (place + 1) =
      (place / volume inner + 1) :: inner.map fun _ => 0 := by
  have split : place + 1 = volume inner * (place / volume inner + 1) := by
    have divided := Nat.div_add_mod place (volume inner)
    rw [Nat.mul_add, Nat.mul_one]
    omega
  rw [coordinates_cons, split, Nat.mul_div_cancel_left _ (by omega), Nat.mul_mod_right,
    coordinates_zero]

/-- One step of the odometer is the successor, and it starts over behind the last place. -/
theorem advance_coordinates {extents : List Nat} {place : Nat} (bound : place < volume extents) :
    View.advance extents (coordinates extents place) =
      if place + 1 < volume extents then (coordinates extents (place + 1), false)
      else (extents.map fun _ => 0, true) := by
  induction extents generalizing place with
  | nil =>
    rw [volume_nil] at bound ⊢
    rw [if_neg (by omega)]
    rfl
  | cons extent inner inductionHypothesis =>
    have positive := volume_inner_pos bound
    have below := Nat.mod_lt place positive
    have divided := Nat.div_add_mod place (volume inner)
    rw [coordinates_cons, View.advance, inductionHypothesis below]
    by_cases room : place % volume inner + 1 < volume inner
    · have onward : place + 1 < volume (extent :: inner) := by
        have quotient := Nat.succ_le_of_lt (div_volume_lt bound)
        calc place + 1 < volume inner * (place / volume inner) + volume inner := by omega
          _ = volume inner * (place / volume inner + 1) := by ring
          _ ≤ volume inner * extent := Nat.mul_le_mul_left _ quotient
          _ = volume (extent :: inner) := Nat.mul_comm _ _
      rw [if_pos room, if_pos onward, coordinates_succ_of_lt room]
    · have last : place % volume inner + 1 = volume inner := by omega
      have successor : place + 1 = (place / volume inner + 1) * volume inner := by
        rw [Nat.add_mul, Nat.one_mul, Nat.mul_comm]
        omega
      have turn : place / volume inner + 1 < extent ↔ place + 1 < volume (extent :: inner) := by
        rw [successor, volume_cons]
        exact (Nat.mul_lt_mul_right positive).symm
      rw [if_neg room, coordinates_succ_of_eq last]
      simp only [turn, List.map_cons]

namespace View

/-- The offset of the entry of a view at a place. -/
def indexAt (view : View) (place : Nat) : Nat :=
  view.offset + strided (coordinates view.extents place) view.strides

/-- What is met from a place on, in front of what was met before. -/
theorem visit_eq (view : View) (steps place : Nat) (counter met : List Nat)
    (total : place + steps = view.size)
    (shown : 0 < steps → counter = coordinates view.extents place) :
    view.visit steps ⟨counter, steps⟩ met =
      ((List.range' place steps).map view.indexAt).reverse ++ met := by
  induction steps generalizing place counter met with
  | zero => rfl
  | succ steps inductionHypothesis =>
    have bound : place < volume view.extents := by
      show place < view.size
      omega
    have onward : 0 < steps → (advance view.extents (coordinates view.extents place)).1 =
        coordinates view.extents (place + 1) := by
      intro more
      rw [advance_coordinates bound, if_pos (by show place + 1 < view.size; omega)]
    rw [shown (Nat.succ_pos steps), visit, next?]
    simp only
    rw [inductionHypothesis (place + 1) _ _ (by omega) onward, List.range'_succ, List.map_cons,
      List.reverse_cons, List.append_assoc]
    rfl

/-- A view lists the offsets of all its places, in order. -/
theorem flatIndices_eq (view : View) :
    view.flatIndices = (List.range view.size).map view.indexAt := by
  have listed := view.visit_eq view.size 0 (view.extents.map fun _ => 0) [] (Nat.zero_add _)
    fun _ => (coordinates_zero view.extents).symm
  rw [flatIndices, start, listed, List.append_nil, List.reverse_reverse, List.range_eq_range']

@[simp]
theorem length_flatIndices (view : View) : view.flatIndices.length = view.size := by
  rw [flatIndices_eq, List.length_map, List.length_range]

end View

/-! ### Bounds -/

theorem coordinates_lt {extents : List Nat} {place : Nat} (bound : place < volume extents) :
    List.Forall₂ (· < ·) (coordinates extents place) extents := by
  induction extents generalizing place with
  | nil => exact .nil
  | cons extent inner inductionHypothesis =>
    exact .cons (div_volume_lt bound)
      (inductionHypothesis (Nat.mod_lt place (volume_inner_pos bound)))

/-- The coordinates of a place lead back to it. -/
theorem strided_coordinates {extents : List Nat} {place : Nat} (bound : place < volume extents) :
    strided (coordinates extents place) (stridesOf extents) = place := by
  induction extents generalizing place with
  | nil =>
    rw [volume_nil] at bound
    exact (Nat.lt_one_iff.mp bound).symm
  | cons extent inner inductionHypothesis =>
    have rest := inductionHypothesis (Nat.mod_lt place (volume_inner_pos bound))
    show place / volume inner * volume inner +
      strided (coordinates inner (place % volume inner)) (stridesOf inner) = place
    rw [rest, Nat.div_add_mod']

/-- A box fits into an array when it is moved to a corner. -/
inductive BoxFits : (corner extents dims : List Nat) → Prop where
  | nil : BoxFits [] [] []
  | cons {first extent dim : Nat} {corner extents dims : List Nat} :
      first + extent ≤ dim → BoxFits corner extents dims →
        BoxFits (first :: corner) (extent :: extents) (dim :: dims)

/-- A box that fits into an array meets only entries of that array. -/
theorem strided_add_lt {corner extents dims counter : List Nat}
    (fits : BoxFits corner extents dims) (below : List.Forall₂ (· < ·) counter extents) :
    strided corner (stridesOf dims) + strided counter (stridesOf dims) < volume dims := by
  induction fits generalizing counter with
  | nil =>
    cases below
    exact Nat.one_pos
  | @cons first extent dim corner extents dims here _ inductionHypothesis =>
    cases below with
    | @cons count _ counter _ small rest =>
      have deeper := inductionHypothesis rest
      have steps : first + count + 1 ≤ dim := by omega
      calc strided (first :: corner) (stridesOf (dim :: dims)) +
            strided (count :: counter) (stridesOf (dim :: dims))
          = (first + count) * volume dims +
              (strided corner (stridesOf dims) + strided counter (stridesOf dims)) := by
            show first * volume dims + strided corner (stridesOf dims) +
              (count * volume dims + strided counter (stridesOf dims)) = _
            ring
        _ < (first + count) * volume dims + volume dims := Nat.add_lt_add_left deeper _
        _ = (first + count + 1) * volume dims := by ring
        _ ≤ volume (dim :: dims) := Nat.mul_le_mul_right _ steps

end BlockCone
