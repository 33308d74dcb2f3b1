/-
This file says that a view enumerates its box.

Selecting checks the number of coordinates first and the bounds second, and a box that passes lies
between two corners: in every dimension the first corner is not behind the second, and the second
is not outside the array. Taking everything is the one way to come by an empty box. Presenting a
view under another shape keeps both corners, so every view that can be had of a shape is described
by its corners, whatever was done to it.

Three descriptions of what such a view lists have to agree. The box is a set of coordinate tuples,
and their lexicographic order makes a list of it. The offsets are those tuples in row-major order,
and because a tuple inside the array is weighed more by one coordinate than by everything behind
it, the offsets increase with the tuples. The cursor shows one tuple at a time, and its counter is
the place in mixed radix that the listing was described by, so what is still to come is what the
listing still has.
-/

import BlockCone.Proofs.Boxes
import BlockCone.Proofs.Refusals

namespace BlockCone

open Shape

/-! ### Tuples between two corners -/

/-- A coordinate tuple lies between two corners: in every dimension it is not before the first and
before the second. -/
def LiesBetween (start stop coords : List Nat) : Prop :=
  List.Forall₂ (· ≤ ·) start coords ∧ List.Forall₂ (· < ·) coords stop

/-- The box at a corner, with the extents of the way to another, has the tuples between both. -/
theorem inBox_iff_liesBetween {start stop coords : List Nat}
    (ordered : List.Forall₂ (· ≤ ·) start stop) :
    InBox start (List.zipWith (fun first last => last - first) start stop) coords ↔
      LiesBetween start stop coords := by
  unfold LiesBetween
  induction ordered generalizing coords with
  | nil =>
    constructor
    · rintro ⟨⟩
      exact ⟨.nil, .nil⟩
    · rintro ⟨⟨⟩, _⟩
      exact .nil
  | @cons first last start stop notBehind _ inductionHypothesis =>
    rw [List.zipWith_cons_cons]
    constructor
    · rintro (_ | ⟨notBefore, inside, rest⟩)
      obtain ⟨above, below⟩ := inductionHypothesis.mp rest
      rw [Nat.add_sub_cancel' notBehind] at inside
      exact ⟨.cons notBefore above, .cons inside below⟩
    · rintro ⟨_ | ⟨notBefore, above⟩, _ | ⟨inside, below⟩⟩
      refine .cons notBefore ?_ (inductionHypothesis.mpr ⟨above, below⟩)
      rwa [Nat.add_sub_cancel' notBehind]

/-- What is before a corner inside an array is inside the array. -/
theorem forall₂_lt_of_lt_of_le {coords stop dims : List Nat}
    (below : List.Forall₂ (· < ·) coords stop) (inside : List.Forall₂ (· ≤ ·) stop dims) :
    List.Forall₂ (· < ·) coords dims := by
  induction below generalizing dims with
  | nil =>
    cases inside
    exact .nil
  | cons small _ inductionHypothesis =>
    cases inside with
    | cons reach inside =>
      exact .cons (Nat.lt_of_lt_of_le small reach) (inductionHypothesis inside)

/-- The tuples of a box that fits into an array are inside the array. -/
theorem InBox.forall₂_lt {corner extents dims coords : List Nat}
    (fits : BoxFits corner extents dims) (member : InBox corner extents coords) :
    List.Forall₂ (· < ·) coords dims := by
  induction member generalizing dims with
  | nil =>
    cases fits
    exact .nil
  | cons _ inside _ inductionHypothesis =>
    cases fits with
    | cons reach fits =>
      exact .cons (Nat.lt_of_lt_of_le inside reach) (inductionHypothesis fits)

/-! ### Offsets of tuples -/

/-- The offset of a tuple inside an array is one of its entries. -/
theorem strided_lt_volume {dims coords : List Nat} (inside : List.Forall₂ (· < ·) coords dims) :
    strided coords (stridesOf dims) < volume dims := by
  have bound := strided_add_lt (boxFits_whole dims) inside
  rwa [strided_zeros, Nat.zero_add] at bound

/-- The offsets of tuples inside an array increase with the tuples. -/
theorem strided_lt_strided {dims earlier later : List Nat}
    (earlierInside : List.Forall₂ (· < ·) earlier dims)
    (laterInside : List.Forall₂ (· < ·) later dims) (before : earlier < later) :
    strided earlier (stridesOf dims) < strided later (stridesOf dims) := by
  induction earlierInside generalizing later with
  | nil =>
    cases laterInside
    exact absurd before (List.not_lt_nil _)
  | @cons coord dim earlier inner _ earlierInner inductionHypothesis =>
    cases laterInside with
    | @cons next _ later _ _ laterInner =>
      show coord * volume inner + strided earlier (stridesOf inner) <
        next * volume inner + strided later (stridesOf inner)
      rcases List.cons_lt_cons_iff.mp before with outer | ⟨rfl, inside⟩
      -- one more in this coordinate outweighs all that stands behind it
      · calc coord * volume inner + strided earlier (stridesOf inner)
            < coord * volume inner + volume inner :=
              Nat.add_lt_add_left (strided_lt_volume earlierInner) _
          _ = (coord + 1) * volume inner := by rw [Nat.add_mul, Nat.one_mul]
          _ ≤ next * volume inner := Nat.mul_le_mul_right _ outer
          _ ≤ next * volume inner + strided later (stridesOf inner) := Nat.le_add_right _ _
      · exact Nat.add_lt_add_left (inductionHypothesis laterInner inside) _

theorem zipWith_lt_all_iff {coords dims : List Nat} (sameLength : coords.length = dims.length) :
    (List.zipWith (fun coord dim => decide (coord < dim)) coords dims).all id = true ↔
      List.Forall₂ (· < ·) coords dims := by
  induction dims generalizing coords with
  | nil =>
    obtain rfl := List.eq_nil_of_length_eq_zero sameLength
    simp
  | cons dim dims inductionHypothesis =>
    obtain ⟨coord, coords, rfl⟩ := List.exists_of_length_succ coords sameLength
    simp [inductionHypothesis (Nat.succ.inj sameLength)]

/-- A tuple has its row-major offset exactly if it lies inside the array. -/
theorem flatOffset_eq_ok_iff {shape : Shape} {coords : List Nat} {offset : Nat} :
    shape.flatOffset coords = .ok offset ↔
      List.Forall₂ (· < ·) coords shape.dims ∧ strided coords shape.strides = offset := by
  rw [flatOffset]
  by_cases sameLength : coords.length = shape.rank
  · rw [if_neg (by simp [sameLength]), ← zipWith_lt_all_iff sameLength]
    split <;> simp [*]
  · rw [if_pos (by simp [sameLength])]
    exact iff_of_false (by simp) fun inside => sameLength inside.1.length_eq

/-! ### Selecting -/

/-- The faults of two corners: a wrong number of coordinates, then bounds that leave a dimension
empty or lie outside. -/
def Shape.cornerFaults (shape : Shape) (start stop : List Nat) : List (Prop × Error) :=
  [(¬ (start.length = shape.rank ∧ stop.length = shape.rank),
      .shapeMismatch (arityText shape.rank)
        ("start " ++ coordsText start ++ ", end " ++ coordsText stop)),
    (¬ (List.Forall₂ (· < ·) start stop ∧ List.Forall₂ (· ≤ ·) stop shape.dims),
      .indexOutOfRange ("[" ++ coordsText start ++ ", " ++ coordsText stop ++ ")") shape.display)]

theorem failsWith_select (shape : Shape) (start stop : List Nat) :
    FailsWith (shape.cornerFaults start stop) (shape.select start stop) := by
  intro reason
  rw [select]
  by_cases arity : start.length = shape.rank ∧ stop.length = shape.rank
  · rw [if_neg (by simp [arity])]
    simp only [select_checked_iff arity.1 arity.2]
    split
    · simp [cornerFaults, FirstFault, *]
    · simp [cornerFaults, FirstFault, eq_comm, *]
  · rw [if_pos (by simpa [Decidable.or_iff_not_not_and_not] using arity)]
    simp [cornerFaults, FirstFault, arity, eq_comm]

/-- A view of a box lists its offsets in increasing order. -/
theorem View.IsBox.flatIndices_increasing {view : View} {corner dims : List Nat}
    (box : view.IsBox corner dims) : view.flatIndices.Pairwise (· < ·) := by
  have inside : ∀ coords ∈ boxCoordinates corner view.extents,
      List.Forall₂ (· < ·) coords dims := fun coords member =>
    InBox.forall₂_lt box.fits ((mem_boxCoordinates box.fits.length_corner).mp member)
  rw [box.flatIndices_eq, List.pairwise_map]
  exact (boxCoordinates_pairwise corner view.extents).imp_of_mem fun earlier later before =>
    strided_lt_strided (inside _ earlier) (inside _ later) before

/-! ### Views between two corners -/

/-- The views that can be had of a shape, with the two corners of their box. -/
inductive View.CutBetween (shape : Shape) : View → List Nat → List Nat → Prop where
  | full : CutBetween shape (View.full shape) (shape.dims.map fun _ => 0) shape.dims
  | select {start stop : List Nat} {view : View} :
      shape.select start stop = .ok view → CutBetween shape view start stop
  | reshape {view reshaped : View} {start stop : List Nat} {target : Shape} :
      CutBetween shape view start stop → view.reshape target = .ok reshaped →
        CutBetween shape reshaped start stop

namespace View.CutBetween

variable {shape : Shape} {view : View} {start stop : List Nat}

/-- The corners are in order and inside the shape. -/
theorem ordered (cut : View.CutBetween shape view start stop) :
    List.Forall₂ (· ≤ ·) start stop ∧ List.Forall₂ (· ≤ ·) stop shape.dims := by
  induction cut with
  | full =>
    rw [List.forall₂_map_left_iff]
    exact ⟨List.forall₂_same.mpr fun _ _ => Nat.zero_le _, List.forall₂_same.mpr fun _ _ => le_rfl⟩
  | select selected =>
    obtain ⟨_, _, nonempty, inside⟩ := select_eq_ok selected
    exact ⟨nonempty.imp fun _ _ => Nat.le_of_lt, inside⟩
  | reshape _ _ inductionHypothesis => exact inductionHypothesis

theorem isBox (cut : View.CutBetween shape view start stop) : view.IsBox start shape.dims := by
  induction cut with
  | full => exact View.full_isBox shape
  | select selected => exact (select_eq_ok selected).1
  | reshape _ presented inductionHypothesis => exact inductionHypothesis.reshape presented

theorem extents_eq (cut : View.CutBetween shape view start stop) :
    view.extents = List.zipWith (fun first last => last - first) start stop := by
  induction cut with
  | full =>
    show shape.dims = _
    rw [List.zipWith_map_left, List.zipWith_self]
    exact (List.map_id shape.dims).symm
  | select selected => exact (select_eq_ok selected).2.1
  | reshape _ presented inductionHypothesis =>
    obtain ⟨_, rfl⟩ := View.reshape_eq_ok_iff.mp presented
    exact inductionHypothesis

/-- The box of a view has the tuples between its corners, all of them inside the shape. -/
theorem mem_box_iff (cut : View.CutBetween shape view start stop) (coords : List Nat) :
    coords ∈ boxCoordinates start view.extents ↔ LiesBetween start stop coords := by
  rw [mem_boxCoordinates cut.isBox.fits.length_corner, cut.extents_eq,
    inBox_iff_liesBetween cut.ordered.1]

theorem box_inside (cut : View.CutBetween shape view start stop) {coords : List Nat}
    (member : coords ∈ boxCoordinates start view.extents) :
    List.Forall₂ (· < ·) coords shape.dims :=
  InBox.forall₂_lt cut.isBox.fits ((mem_boxCoordinates cut.isBox.fits.length_corner).mp member)

/-- A view lists the offsets of the tuples of its box. -/
theorem map_flatOffset (cut : View.CutBetween shape view start stop) :
    (boxCoordinates start view.extents).map shape.flatOffset = view.flatIndices.map .ok := by
  rw [cut.isBox.flatIndices_eq, List.map_map]
  exact List.map_congr_left fun coords member =>
    flatOffset_eq_ok_iff.mpr ⟨cut.box_inside member, rfl⟩

end View.CutBetween

/-! ### The cursor -/

namespace View

variable (view : View)

/-- Where the listing stands after a number of steps. Behind the last entry it stays. -/
def cursorAfter : Nat → Cursor
  | 0 => view.start
  | steps + 1 =>
      match view.next? (cursorAfter steps) with
      | none => cursorAfter steps
      | some (_, later) => later

theorem next?_of_lt {counter : List Nat} {place : Nat} (more : place < view.size) :
    view.next? ⟨counter, view.size - place⟩ =
      some (view.offset + strided counter view.strides,
        ⟨(advance view.extents counter).1, view.size - (place + 1)⟩) := by
  have left : view.size - place = view.size - (place + 1) + 1 := by omega
  rw [left, next?]

theorem next?_of_le {counter : List Nat} {place : Nat} (through : view.size ≤ place) :
    view.next? ⟨counter, view.size - place⟩ = none := by
  rw [Nat.sub_eq_zero_of_le through, next?]

/-- The counter shows the coordinates of the next place and starts over behind the last one, and
every step takes one entry from what is still to come. -/
theorem cursorAfter_eq (steps : Nat) :
    view.cursorAfter steps =
      ⟨if steps < view.size then coordinates view.extents steps else view.extents.map fun _ => 0,
        view.size - steps⟩ := by
  induction steps with
  | zero =>
    rw [coordinates_zero, ite_self]
    rfl
  | succ steps inductionHypothesis =>
    rw [cursorAfter, inductionHypothesis]
    by_cases more : steps < view.size
    · rw [if_pos more, view.next?_of_lt more]
      show Cursor.mk (advance view.extents (coordinates view.extents steps)).1 _ = _
      rw [advance_coordinates more, apply_ite Prod.fst]
      rfl
    · have through : view.size ≤ steps := Nat.le_of_not_lt more
      rw [view.next?_of_le through, if_neg more, if_neg (by omega),
        Nat.sub_eq_zero_of_le through, Nat.sub_eq_zero_of_le (Nat.le_succ_of_le through)]

/-- The next entry after a number of steps is the one that the listing has at this place. -/
theorem next?_cursorAfter (steps : Nat) :
    (view.next? (view.cursorAfter steps)).map Prod.fst = view.flatIndices[steps]? := by
  rw [cursorAfter_eq, flatIndices_eq, List.getElem?_map]
  by_cases more : steps < view.size
  · rw [if_pos more, view.next?_of_lt more, List.getElem?_range more]
    rfl
  · have through : view.size ≤ steps := Nat.le_of_not_lt more
    rw [view.next?_of_le through, List.getElem?_eq_none (by rwa [List.length_range])]
    rfl

/-! ### Enumeration -/

/-- A view enumerates the tuples of a shape between two corners. -/
structure Enumerates (shape : Shape) (start stop : List Nat) : Prop where
  /-- The entries are the offsets of the tuples between the corners, in lexicographic order. -/
  lexicographic : ∃ box : List (List Nat), box.Pairwise (· < ·) ∧
    (∀ coords, coords ∈ box ↔ LiesBetween start stop coords) ∧
    box.map shape.flatOffset = view.flatIndices.map .ok
  increasing : view.flatIndices.Pairwise (· < ·)
  nodup : view.flatIndices.Nodup
  below : ∀ index ∈ view.flatIndices, index < shape.size
  length_eq : view.flatIndices.length = view.size
  /-- The shape under which the view is presented has as many entries. -/
  presented : view.shape.size = view.size
  /-- Before every step the cursor knows how many entries are still to come. -/
  remaining : ∀ steps, (view.cursorAfter steps).remaining = (view.flatIndices.drop steps).length
  /-- Every step meets the entry that comes next, and none if there is none. -/
  next : ∀ steps,
    (view.next? (view.cursorAfter steps)).map Prod.fst = view.flatIndices[steps]?

end View

/-- Selecting succeeds exactly with two corners that have one coordinate for each dimension, leave
no dimension empty and lie inside the shape, and fails for the first of these that is missing. A
view that was selected, or that takes everything, enumerates the tuples between its corners under
whatever shapes it was presented since. -/
theorem Shape.select_enumerates (shape : Shape) :
    (∀ start stop, FailsWith (shape.cornerFaults start stop) (shape.select start stop)) ∧
      (∀ start stop, (∃ view, shape.select start stop = .ok view) ↔
        (start.length = shape.rank ∧ stop.length = shape.rank) ∧
          List.Forall₂ (· < ·) start stop ∧ List.Forall₂ (· ≤ ·) stop shape.dims) ∧
      ∀ view start stop, View.CutBetween shape view start stop →
        view.Enumerates shape start stop := by
  refine ⟨failsWith_select shape, fun start stop => ?_, fun view start stop cut => ?_⟩
  · rw [(failsWith_select shape start stop).succeeds_iff]
    simp [cornerFaults]
  · exact
      { lexicographic := ⟨boxCoordinates start view.extents, boxCoordinates_pairwise _ _,
          cut.mem_box_iff, cut.map_flatOffset⟩
        increasing := cut.isBox.flatIndices_increasing
        nodup := cut.isBox.flatIndices_increasing.imp Nat.ne_of_lt
        below := fun _ => cut.isBox.index_lt
        length_eq := view.length_flatIndices
        presented := cut.isBox.presented
        remaining := fun steps => by
          rw [view.cursorAfter_eq, List.length_drop, view.length_flatIndices]
        next := view.next?_cursorAfter }

/-- Two rows of one column in each of two blocks, presented as a vector. -/
theorem Shape.select_enumerates_column :
    ∃ view : View, View.CutBetween ⟨[2, 3, 2]⟩ view [0, 1, 0] [2, 3, 1] ∧
      view.shape = .vector 4 ∧ view.flatIndices = [2, 4, 8, 10] ∧
      view.Enumerates ⟨[2, 3, 2]⟩ [0, 1, 0] [2, 3, 1] :=
  have selected : Shape.select ⟨[2, 3, 2]⟩ [0, 1, 0] [2, 3, 1] =
      .ok ⟨2, [2, 2, 1], [6, 2, 1], ⟨[2, 2, 1]⟩⟩ := rfl
  have presented : View.reshape ⟨2, [2, 2, 1], [6, 2, 1], ⟨[2, 2, 1]⟩⟩ (.vector 4) =
      .ok ⟨2, [2, 2, 1], [6, 2, 1], .vector 4⟩ := rfl
  ⟨_, .reshape (.select selected) presented, rfl, rfl,
    (Shape.select_enumerates ⟨[2, 3, 2]⟩).2.2 _ _ _ (.reshape (.select selected) presented)⟩

end BlockCone
