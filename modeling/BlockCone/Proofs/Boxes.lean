/-
This file says which coordinates a box has and in which order a view meets them.

`boxCoordinates` writes a box out: at each first coordinate the box of the remaining dimensions.
Written like this it is plain that every tuple of the box appears, once, and that the tuples come
in lexicographic order. The listing of a view was described by places, as numbers in mixed radix.
The two agree because the places of an array are those of its inner arrays one after another, and
the offsets follow because moving a tuple to a corner adds the offset of the corner.
-/

import BlockCone.Proofs.Slices

namespace BlockCone

open Shape

/-- The coordinate tuples of a box of the given extents at a corner. -/
def boxCoordinates : (corner extents : List Nat) → List (List Nat)
  | first :: corner, extent :: extents =>
      (List.range extent).flatMap fun count =>
        (boxCoordinates corner extents).map fun coords => (first + count) :: coords
  | _, _ => [[]]

/-- A coordinate tuple lies in a box. -/
inductive InBox : (corner extents coords : List Nat) → Prop where
  | nil : InBox [] [] []
  | cons {first extent coord : Nat} {corner extents coords : List Nat} :
      first ≤ coord → coord < first + extent → InBox corner extents coords →
        InBox (first :: corner) (extent :: extents) (coord :: coords)

/-! ### Coordinates -/

/-- A box has the coordinate tuples that lie in it. -/
theorem mem_boxCoordinates {corner extents coords : List Nat}
    (sameLength : corner.length = extents.length) :
    coords ∈ boxCoordinates corner extents ↔ InBox corner extents coords := by
  induction corner generalizing extents coords with
  | nil =>
    obtain rfl := List.eq_nil_of_length_eq_zero sameLength.symm
    show coords ∈ [[]] ↔ _
    rw [List.mem_singleton]
    constructor
    · rintro rfl
      exact .nil
    · rintro ⟨⟩
      rfl
  | cons first corner inductionHypothesis =>
    obtain ⟨extent, extents, rfl⟩ := List.exists_of_length_succ extents sameLength.symm
    simp only [boxCoordinates, List.mem_flatMap, List.mem_range, List.mem_map,
      inductionHypothesis (Nat.succ.inj sameLength)]
    constructor
    · rintro ⟨count, inside, rest, restInBox, rfl⟩
      exact .cons (Nat.le_add_right _ _) (Nat.add_lt_add_left inside _) restInBox
    · rintro (_ | ⟨notBefore, inside, restInBox⟩)
      exact ⟨_, Nat.sub_lt_left_of_lt_add notBefore inside, _, restInBox,
        by rw [Nat.add_sub_cancel' notBefore]⟩

/-- The coordinate tuples of a box come in strict lexicographic order. -/
theorem boxCoordinates_pairwise (corner extents : List Nat) :
    (boxCoordinates corner extents).Pairwise (· < ·) := by
  fun_induction boxCoordinates corner extents with
  | case1 first corner extent extents inductionHypothesis =>
    refine List.pairwise_flatMap.mpr ⟨fun count _ => ?_, ?_⟩
    · rw [List.pairwise_map]
      exact inductionHypothesis.imp fun before => List.cons_lt_cons_iff.mpr (Or.inr ⟨rfl, before⟩)
    · refine List.pairwise_lt_range.imp fun before left leftMember right rightMember => ?_
      obtain ⟨_, _, rfl⟩ := List.mem_map.mp leftMember
      obtain ⟨_, _, rfl⟩ := List.mem_map.mp rightMember
      exact List.cons_lt_cons_iff.mpr (Or.inl (Nat.add_lt_add_left before _))
  | case2 corner extents _ => exact List.pairwise_singleton _ _

/-! ### Places -/

/-- The places of an array are those of its inner arrays one after another. -/
theorem range_mul (outer inner : Nat) :
    List.range (outer * inner) =
      (List.range outer).flatMap fun count =>
        (List.range inner).map fun place => count * inner + place := by
  induction outer with
  | zero => rw [Nat.zero_mul, List.range_zero, List.flatMap_nil]
  | succ outer inductionHypothesis =>
    rw [Nat.add_mul, Nat.one_mul, List.range_add, inductionHypothesis, List.range_succ,
      List.flatMap_append, List.flatMap_singleton]

theorem coordinates_mul_add {extent count place : Nat} {inner : List Nat}
    (inside : place < volume inner) :
    coordinates (extent :: inner) (count * volume inner + place) =
      count :: coordinates inner place := by
  obtain ⟨quotient, remainder⟩ := Matrix.div_mod_place count inside
  rw [coordinates_cons, quotient, remainder]

/-- A box at a corner has the coordinates of all places of an array of its extents, moved to the
corner. -/
theorem boxCoordinates_eq_map {corner extents dims : List Nat}
    (fits : BoxFits corner extents dims) :
    boxCoordinates corner extents =
      (List.range (volume extents)).map fun place =>
        List.zipWith (· + ·) corner (coordinates extents place) := by
  induction fits with
  | nil => rfl
  | @cons first extent dim corner extents dims _ _ inductionHypothesis =>
    rw [boxCoordinates, volume_cons, range_mul, List.map_flatMap]
    refine List.flatMap_congr fun count _ => ?_
    rw [inductionHypothesis, List.map_map, List.map_map]
    refine List.map_congr_left fun place member => ?_
    simp only [Function.comp_apply, coordinates_mul_add (List.mem_range.mp member),
      List.zipWith_cons_cons]

/-- Moving a coordinate tuple adds the offset that it is moved by. -/
theorem strided_zipWith_add {corner coords strides : List Nat}
    (sameLength : corner.length = coords.length) :
    strided (List.zipWith (· + ·) corner coords) strides =
      strided corner strides + strided coords strides := by
  induction corner generalizing coords strides with
  | nil =>
    obtain rfl := List.eq_nil_of_length_eq_zero sameLength.symm
    rfl
  | cons first corner inductionHypothesis =>
    match coords, strides, sameLength with
    | coord :: coords, [], _ => rfl
    | coord :: coords, stride :: strides, sameLength =>
      show (first + coord) * stride + strided (List.zipWith (· + ·) corner coords) strides =
        first * stride + strided corner strides + (coord * stride + strided coords strides)
      rw [inductionHypothesis (Nat.succ.inj sameLength)]
      ring

theorem BoxFits.length_corner {corner extents dims : List Nat}
    (fits : BoxFits corner extents dims) : corner.length = extents.length := by
  induction fits with
  | nil => rfl
  | cons _ _ inductionHypothesis => exact congrArg Nat.succ inductionHypothesis

/-- A view of a box lists the offsets of the coordinates of the box. -/
theorem View.IsBox.flatIndices_eq {view : View} {corner dims : List Nat}
    (box : view.IsBox corner dims) :
    view.flatIndices =
      (boxCoordinates corner view.extents).map fun coords => strided coords (stridesOf dims) := by
  rw [View.flatIndices_eq, boxCoordinates_eq_map box.fits, List.map_map]
  refine List.map_congr_left fun place member => ?_
  have below := coordinates_lt (List.mem_range.mp member)
  have sameLength := box.fits.length_corner.trans below.length_eq.symm
  rw [View.indexAt, box.offset_eq, box.strides_eq, Function.comp_apply,
    strided_zipWith_add sameLength]

end BlockCone
