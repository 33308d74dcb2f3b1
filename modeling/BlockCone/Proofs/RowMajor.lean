/-
This file says that row-major order numbers the coordinate tuples of a shape.

Every tuple inside the shape has an offset, every offset below the number of entries has a tuple,
and the two conversions undo each other. Each of them goes through the strides from the outside in.
Adding a coordinate times its stride leaves less than a stride for all coordinates behind it, so
dividing by the stride gives the coordinate back and the remainder gives back the rest; that is the
whole induction, and the bound it carries is that a tuple inside an array has an offset below the
number of its entries. The same bound makes the numbering increase: a tuple that comes first in
lexicographic order has the smaller offset, and since of two different tuples one comes first, the
offsets know the order.

With a zero among the extents there are no entries. No tuple lies inside then, and no offset is
below the size, so nothing is ever divided, although strides are zero.
-/

import BlockCone.Proofs.Words

namespace BlockCone

open Shape

/-! ### Back and forth -/

/-- The offset of a tuple inside an array leads back to it. -/
theorem coordinates_strided {dims coords : List Nat} (inside : List.Forall₂ (· < ·) coords dims) :
    coordinates dims (strided coords (stridesOf dims)) = coords := by
  induction inside with
  | nil => rfl
  | @cons coord dim coords inner _ innerInside inductionHypothesis =>
    have below := strided_lt_volume innerInside
    show coordinates (dim :: inner) (coord * volume inner + strided coords (stridesOf inner)) = _
    rw [coordinates_mul_add below, inductionHypothesis]

theorem coordsOf_eq_ok_iff {shape : Shape} {offset : Nat} {coords : List Nat} :
    shape.coordsOf offset = .ok coords ↔
      offset < shape.size ∧ coordinates shape.dims offset = coords := by
  rw [coordsOf]
  show (if offset < shape.size then Except.ok (coordinates shape.dims offset) else _) = _ ↔ _
  split <;> simp [*]

/-- A tuple has an offset exactly if the offset has the tuple. -/
theorem flatOffset_eq_ok_iff_coordsOf {shape : Shape} {coords : List Nat} {offset : Nat} :
    shape.flatOffset coords = .ok offset ↔ shape.coordsOf offset = .ok coords := by
  rw [flatOffset_eq_ok_iff, coordsOf_eq_ok_iff]
  constructor
  · rintro ⟨inside, rfl⟩
    exact ⟨strided_lt_volume inside, coordinates_strided inside⟩
  · rintro ⟨bound, rfl⟩
    exact ⟨coordinates_lt bound, strided_coordinates bound⟩

/-- Of two tuples inside an array the one that comes first has the smaller offset, and only that. -/
theorem lt_iff_strided_lt {dims left right : List Nat}
    (leftInside : List.Forall₂ (· < ·) left dims) (rightInside : List.Forall₂ (· < ·) right dims) :
    left < right ↔ strided left (stridesOf dims) < strided right (stridesOf dims) := by
  constructor
  · exact strided_lt_strided leftInside rightInside
  · intro smaller
    rcases lt_trichotomy left right with before | rfl | after
    · exact before
    · exact absurd smaller (Nat.lt_irrefl _)
    · exact absurd smaller (Nat.lt_asymm (strided_lt_strided rightInside leftInside after))

/-! ### Faults -/

/-- The faults of a coordinate tuple: a wrong number of coordinates, then one outside. -/
def Shape.tupleFaults (shape : Shape) (coords : List Nat) : List (Prop × Error) :=
  [(coords.length ≠ shape.rank,
      .shapeMismatch (arityText shape.rank) (arityText coords.length)),
    (¬ List.Forall₂ (· < ·) coords shape.dims,
      .indexOutOfRange (coordsText coords) shape.display)]

theorem failsWith_flatOffset (shape : Shape) (coords : List Nat) :
    FailsWith (shape.tupleFaults coords) (shape.flatOffset coords) := by
  intro reason
  rw [flatOffset]
  by_cases arity : coords.length = shape.rank
  · rw [if_neg (by simp [arity])]
    simp only [zipWith_lt_all_iff arity]
    split
    · simp [tupleFaults, FirstFault, *]
    · simp [tupleFaults, FirstFault, eq_comm, *]
  · rw [if_pos (by simpa using arity)]
    simp [tupleFaults, FirstFault, arity, eq_comm]

/-- The fault of an offset: there are not as many entries. -/
def Shape.offsetFaults (shape : Shape) (offset : Nat) : List (Prop × Error) :=
  [(shape.size ≤ offset, .indexOutOfRange (toString offset) (toString shape.size))]

theorem failsWith_coordsOf (shape : Shape) (offset : Nat) :
    FailsWith (shape.offsetFaults offset) (shape.coordsOf offset) := by
  intro reason
  rw [coordsOf]
  split
  · simp [offsetFaults, FirstFault, *]
  · simp [offsetFaults, FirstFault, Nat.le_of_not_lt, eq_comm, *]

/-! ### The numbering -/

/-- Row-major order numbers the tuples of a shape. -/
structure Shape.IsNumbered (shape : Shape) : Prop where
  /-- Exactly the tuples with one coordinate below each extent have an offset. -/
  offset_exists : ∀ coords, (∃ offset, shape.flatOffset coords = .ok offset) ↔
    List.Forall₂ (· < ·) coords shape.dims
  offset_refused : ∀ coords, FailsWith (shape.tupleFaults coords) (shape.flatOffset coords)
  offset_lt : ∀ coords offset, shape.flatOffset coords = .ok offset → offset < shape.size
  /-- Exactly the offsets below the number of entries have a tuple. -/
  coords_exist : ∀ offset, (∃ coords, shape.coordsOf offset = .ok coords) ↔ offset < shape.size
  coords_refused : ∀ offset, FailsWith (shape.offsetFaults offset) (shape.coordsOf offset)
  /-- The conversions undo each other. -/
  inverse : ∀ coords offset,
    shape.flatOffset coords = .ok offset ↔ shape.coordsOf offset = .ok coords
  /-- The offsets are in the lexicographic order of their tuples. -/
  order : ∀ left right leftOffset rightOffset, shape.flatOffset left = .ok leftOffset →
    shape.flatOffset right = .ok rightOffset → (left < right ↔ leftOffset < rightOffset)

/-- The conversions between tuples and offsets come to the same in words, so no step overflows and
none divides by zero. -/
structure Shape.ConvertsInWords (shape : Shape) : Prop where
  flatOffset : ∀ coords, Word.flatOffset shape coords = Word.kept (shape.flatOffset coords)
  coordsOf : ∀ offset, Word.coordsOf shape offset = Word.kept (shape.coordsOf offset)
  never_trapped : ∀ coords offset,
    Word.flatOffset shape coords ≠ .error .trap ∧ Word.coordsOf shape offset ≠ .error .trap

/-- Row-major order numbers the tuples of every shape in their lexicographic order, and where there
are words for the sizes both conversions stay in words, also with a zero among the extents. -/
theorem Shape.numbered_rowMajor (shape : Shape) :
    shape.IsNumbered ∧ (CountedInWords shape.dims → shape.ConvertsInWords) := by
  refine ⟨?_, fun counted => ?_⟩
  · exact
      { offset_exists := fun coords => by simp [flatOffset_eq_ok_iff]
        offset_refused := failsWith_flatOffset shape
        offset_lt := fun coords offset found => by
          obtain ⟨inside, rfl⟩ := flatOffset_eq_ok_iff.mp found
          exact strided_lt_volume inside
        coords_exist := fun offset => by simp [coordsOf_eq_ok_iff]
        coords_refused := failsWith_coordsOf shape
        inverse := fun _ _ => flatOffset_eq_ok_iff_coordsOf
        order := fun left right leftOffset rightOffset leftFound rightFound => by
          obtain ⟨leftInside, rfl⟩ := flatOffset_eq_ok_iff.mp leftFound
          obtain ⟨rightInside, rfl⟩ := flatOffset_eq_ok_iff.mp rightFound
          exact lt_iff_strided_lt leftInside rightInside }
  · have offsets := Word.flatOffset_eq_kept counted
    have tuples := Word.coordsOf_eq_kept counted
    refine ⟨offsets, tuples, fun coords offset => ?_⟩
    rw [offsets, tuples]
    exact ⟨Word.kept_ne_trap _, Word.kept_ne_trap _⟩

example : Shape.flatOffset ⟨[2, 3, 4]⟩ [1, 2, 3] = .ok 23 ∧
    Shape.coordsOf ⟨[2, 3, 4]⟩ 23 = .ok [1, 2, 3] := ⟨rfl, rfl⟩

/-- Two rows without columns of three entries: a stride is zero, and nothing is divided by it. -/
theorem Shape.numbered_rowMajor_empty :
    CountedInWords [2, 0, 3] ∧ stridesOf [2, 0, 3] = [0, 3, 1] ∧
      Shape.ConvertsInWords ⟨[2, 0, 3]⟩ ∧
      Word.coordsOf ⟨[2, 0, 3]⟩ 0 = .error (.refused (.indexOutOfRange "0" "0")) := by
  have counted : CountedInWords [2, 0, 3] := by
    refine ⟨fun depth => ?_, fun depth => ?_⟩ <;>
      match depth with
      | 0 | 1 | 2 | _ + 3 => simp [volume, Problem.columnLimit]
  have converts := (Shape.numbered_rowMajor ⟨[2, 0, 3]⟩).2 counted
  refine ⟨counted, rfl, converts, ?_⟩
  rw [converts.coordsOf]
  rfl

end BlockCone
