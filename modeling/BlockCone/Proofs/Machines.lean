/-
This file describes the views that a machine can have of a shape.

A machine has words for its numbers, and there are two kinds of it: one stops where a result has no
word, and the other wraps around. The corners of a box are compared with the extents before
anything is computed from them, so on either machine the box is the one that was asked for. Only
its offset and its strides may be other numbers than without a bound.

A view has room if there are words for what the calls on it compute. That is a bound on exact
numbers and says nothing of wrapped ones. With room the two machines come to what the unbounded
calculation comes to, and a shape with words for its sizes leaves room on every view that can be
had of it. An offset that was wrapped does no harm: it moves all entries by the same distance.
-/

import BlockCone.Proofs.WrappedViews

namespace BlockCone

open Shape

/-- What a machine does with a sum or a product that has no word: it stops, or it goes on with what
is left of the result. -/
inductive Arithmetic where
  | checked
  | wrapping

namespace Arithmetic

variable {β : Type} {arithmetic : Arithmetic}

/-- How a call ends, of which it is known how it ends on either machine. -/
def outcome (checked wrapped : Except Halt β) : Arithmetic → Except Halt β
  | .checked => checked
  | .wrapping => wrapped

/-- A call that is known not to trap on one machine ends in the same way on the other. -/
theorem outcome_eq {checked wrapped expected : Except Halt β}
    (comesTo : Word.ComesTo checked wrapped) (known : checked = expected)
    (ends : expected ≠ .error .trap) : arithmetic.outcome checked wrapped = expected := by
  cases arithmetic with
  | checked => exact known
  | wrapping => exact comesTo.eq known ends

/-- Takes everything. -/
def full (arithmetic : Arithmetic) (shape : Shape) : Except Halt View :=
  arithmetic.outcome (Word.full shape) (.ok (Wrapped.full shape))

/-- Cuts out the box between two corners. -/
def select (arithmetic : Arithmetic) (shape : Shape) (start stop : List Nat) : Except Halt View :=
  arithmetic.outcome (Word.select shape start stop) (Word.kept (Wrapped.select shape start stop))

/-- Presents a view under another shape. -/
def reshape (arithmetic : Arithmetic) (view : View) (shape : Shape) : Except Halt View :=
  arithmetic.outcome (Word.reshape view shape) (Word.kept (Wrapped.reshape view shape))

/-- The number of selected entries. -/
def size (arithmetic : Arithmetic) (view : View) : Except Halt Nat :=
  arithmetic.outcome (Word.product view.extents) (.ok (Wrapped.size view))

/-- Whether the selected offsets form one unbroken range. -/
def isContiguous (arithmetic : Arithmetic) (view : View) : Except Halt Bool :=
  arithmetic.outcome (Word.isContiguous view) (.ok (Wrapped.isContiguous view))

/-- The listing of a view. -/
def flatIndices (arithmetic : Arithmetic) (view : View) : Except Halt (List Nat) :=
  arithmetic.outcome (Word.flatIndices view) (.ok (Wrapped.flatIndices view))

/-- The views that a machine can have of a shape. -/
inductive Cut (arithmetic : Arithmetic) (shape : Shape) : View → Prop where
  | full {view : View} : arithmetic.full shape = .ok view → Cut arithmetic shape view
  | select {start stop : List Nat} {view : View} :
      arithmetic.select shape start stop = .ok view → Cut arithmetic shape view
  | reshape {view reshaped : View} {target : Shape} :
      Cut arithmetic shape view → arithmetic.reshape view target = .ok reshaped →
        Cut arithmetic shape reshaped

end Arithmetic

/-- There are words for what the calls on a view of an array of these extents compute: for the
strides of the array, for the products that lead to the number of entries of the view, for the
offset of its last entry, and for one more than the distance of that from the first. -/
structure View.HasRoom (view : View) (dims : List Nat) : Prop where
  strides : ∀ depth, volume (dims.drop (depth + 1)) < Problem.columnLimit
  outer : ∀ depth, volume (view.extents.take depth) < Problem.columnLimit
  reach : 0 < view.size →
    view.offset + strided (view.extents.map (· - 1)) view.strides < Problem.columnLimit
  span : 0 < view.size → strided (view.extents.map (· - 1)) view.strides + 1 < Problem.columnLimit

/-! ### Boxes of machines -/

/-- A view of a box in words: its strides and its offset are what is left of those of the box. -/
structure Wrapped.IsBox (view : View) (corner dims : List Nat) : Prop where
  offset_eq : view.offset = Wrapped.innerProduct corner (Wrapped.strides dims)
  strides_eq : view.strides = Wrapped.strides dims
  fits : BoxFits corner view.extents dims

/-- What a machine that stops answers, one that wraps around answers too. -/
theorem Arithmetic.Cut.wrapping {arithmetic : Arithmetic} {shape : Shape} {view : View}
    (cut : arithmetic.Cut shape view) : Arithmetic.wrapping.Cut shape view := by
  cases arithmetic with
  | wrapping => exact cut
  | checked =>
    induction cut with
    | full whole => exact .full ((Word.full_comesTo shape).eq whole (Word.ok_ne_trap _))
    | select selected =>
      exact .select ((Word.select_comesTo shape _ _).eq selected (Word.ok_ne_trap _))
    | reshape _ presented inductionHypothesis =>
      exact .reshape inductionHypothesis
        ((Word.reshape_comesTo _ _).eq presented (Word.ok_ne_trap _))

/-- Presenting a view under another shape changes nothing else of it. -/
theorem Wrapped.IsBox.reshape {view reshaped : View} {corner dims : List Nat} {shape : Shape}
    (box : Wrapped.IsBox view corner dims) (presented : Wrapped.reshape view shape = .ok reshaped) :
    Wrapped.IsBox reshaped corner dims := by
  unfold Wrapped.reshape at presented
  split at presented
  · obtain rfl := Except.ok.inj presented
    exact ⟨box.offset_eq, box.strides_eq, box.fits⟩
  · exact absurd presented (by simp)

namespace Wrapped.IsBox

variable {view : View} {corner dims : List Nat}

/-- Strides that have words are those of the array. -/
theorem strides_eq_stridesOf (box : Wrapped.IsBox view corner dims)
    (room : ∀ depth, volume (dims.drop (depth + 1)) < Problem.columnLimit) :
    view.strides = stridesOf dims := by
  rw [box.strides_eq, (Word.strides_comesTo dims).eq_of_ok (Word.strides_eq_ok room)]

/-- With room, a box lists its offsets in increasing order, wherever its corner was put. -/
theorem flatIndices_increasing (box : Wrapped.IsBox view corner dims) (room : view.HasRoom dims) :
    view.flatIndices.Pairwise (· < ·) := by
  -- the box at its own corner, from where it may have been moved
  let unmoved : View :=
    ⟨strided corner (stridesOf dims), view.extents, stridesOf dims, ⟨view.extents⟩⟩
  have unmovedBox : unmoved.IsBox corner dims := ⟨rfl, rfl, box.fits, rfl⟩
  have increasing := unmovedBox.flatIndices_increasing
  rw [View.flatIndices_eq, List.pairwise_map] at increasing ⊢
  refine increasing.imp fun before => ?_
  rw [View.indexAt, View.indexAt] at before ⊢
  rw [box.strides_eq_stridesOf room.strides]
  exact Nat.add_lt_add_left (Nat.lt_of_add_lt_add_left before) _

end Wrapped.IsBox

namespace View.HasRoom

variable {view : View} {dims : List Nat}

theorem inWords (room : view.HasRoom dims) (nonempty : 0 < view.size) : view.InWords where
  positive := volume_pos_iff.mp nonempty
  room := by
    have whole := room.outer view.extents.length
    rwa [List.take_length] at whole
  reach := room.reach nonempty
  span := room.span nonempty

theorem size_eq_ok (room : view.HasRoom dims) : Word.product view.extents = .ok view.size :=
  Word.product_eq_ok room.outer

theorem isContiguous_eq_ok (room : view.HasRoom dims) :
    Word.isContiguous view = .ok view.isContiguous := by
  rcases Nat.eq_zero_or_pos view.size with empty | nonempty
  · rw [Word.isContiguous, room.size_eq_ok, Word.ok_bind, if_pos empty, View.isContiguous,
      if_pos (by simpa)]
    rfl
  · exact Word.isContiguous_eq_ok (room.inWords nonempty)

theorem flatIndices_eq_ok (room : view.HasRoom dims) :
    Word.flatIndices view = .ok view.flatIndices := by
  rcases Nat.eq_zero_or_pos view.size with empty | nonempty
  · rw [Word.flatIndices, room.size_eq_ok, Word.ok_bind, View.flatIndices, View.start, empty]
    rfl
  · exact Word.flatIndices_eq_ok (room.inWords nonempty)

end View.HasRoom

namespace Arithmetic

variable {arithmetic : Arithmetic}

/-! A machine comes to what an unbounded calculation comes to, whatever it does with results that
have no word: where a shape has words for its sizes, and on views on which there is room. -/

section Shapes

variable {shape : Shape}

theorem full_eq_ok (counted : CountedInWords shape.dims) :
    arithmetic.full shape = .ok (View.full shape) :=
  outcome_eq (Word.full_comesTo shape) (Word.full_eq_ok counted) (Word.ok_ne_trap _)

theorem select_eq_kept (counted : CountedInWords shape.dims) (start stop : List Nat) :
    arithmetic.select shape start stop = Word.kept (shape.select start stop) :=
  outcome_eq (Word.select_comesTo shape start stop) (Word.select_eq_kept counted start stop)
    (Word.kept_ne_trap _)

end Shapes

variable {view : View} {dims : List Nat}

theorem reshape_eq_kept (room : view.HasRoom dims) {shape : Shape}
    (counted : CountedInWords shape.dims) :
    arithmetic.reshape view shape = Word.kept (view.reshape shape) := by
  have checked := Word.reshape_eq_kept room.size_eq_ok (Word.product_eq_ok counted.outer)
  exact outcome_eq (Word.reshape_comesTo view shape) checked (Word.kept_ne_trap _)

theorem size_eq_ok (room : view.HasRoom dims) : arithmetic.size view = .ok view.size :=
  outcome_eq (Word.product_comesTo view.extents) room.size_eq_ok (Word.ok_ne_trap _)

theorem isContiguous_eq_ok (room : view.HasRoom dims) :
    arithmetic.isContiguous view = .ok view.isContiguous :=
  outcome_eq (Word.isContiguous_comesTo view) room.isContiguous_eq_ok (Word.ok_ne_trap _)

theorem flatIndices_eq_ok (room : view.HasRoom dims) :
    arithmetic.flatIndices view = .ok view.flatIndices :=
  outcome_eq (Word.flatIndices_comesTo view) room.flatIndices_eq_ok (Word.ok_ne_trap _)

end Arithmetic

end BlockCone
