/-
This file computes with shapes and views in words, where a step can have no result.

The definitions of shapes and views calculate with unbounded numbers. A machine has `2 ^ 64` words,
so every sum and every product that it takes has to be below that, every difference has to be of a
number and one that is not larger, and nothing may be divided by zero; otherwise the step is a trap.
The programs here are the same calculations written out step by step in the order in which a
machine takes them, with the comparisons that guard a step before it. Each is proved to come to
what the unbounded calculation comes to, and so never to a trap.

All of it rests on one bound: there are words for all entries of the array. Where no extent is zero,
a product on the way to the number of entries is not larger than it; an array that may have extents
of zero is asked to have words for these products too. An offset of an entry is not larger either,
whatever part of it has been added up, and where there is an entry no stride is zero. What is
compared with an extent first and increased afterwards is not larger than the extent. The counter
of a listing stays below the extents of its view, so no offset is behind that of the last entry.
-/

import BlockCone.Proofs.Enumeration
import BlockCone.Problem

namespace BlockCone

/-- How a program in words ends without an answer. -/
inductive Halt where
  /-- A step that has no word for a result. -/
  | trap
  /-- The call is refused. -/
  | refused (reason : Error)

namespace Word

variable {β γ : Type}

/-! ### Steps -/

/-- What an unbounded calculation comes to. -/
def kept (call : Except Error β) : Except Halt β :=
  call.mapError .refused

/-- A number that is a word. -/
def word (value : Nat) : Except Halt Nat :=
  if value < Problem.columnLimit then .ok value else .error .trap

/-- The sum of two words, or a trap where it is none. -/
def add (left right : Nat) : Except Halt Nat :=
  word (left + right)

/-- The product of two words, or a trap where it is none. -/
def mul (left right : Nat) : Except Halt Nat :=
  word (left * right)

/-- The difference of two words. There is no negative one. -/
def sub (left right : Nat) : Except Halt Nat :=
  if right ≤ left then .ok (left - right) else .error .trap

/-- The quotient of two words. Dividing by zero is a trap. -/
def div (left right : Nat) : Except Halt Nat :=
  if right = 0 then .error .trap else .ok (left / right)

/-- The remainder of a division of two words, under the same condition as the quotient. -/
def mod (left right : Nat) : Except Halt Nat :=
  if right = 0 then .error .trap else .ok (left % right)

theorem ok_bind (value : β) (next : β → Except Halt γ) : (.ok value >>= next) = next value := rfl

theorem kept_bind (call : Except Error β) (next : β → Except Error γ) :
    kept (call >>= next) = kept call >>= fun value => kept (next value) := by
  cases call <;> rfl

theorem ok_ne_trap (value : β) : (.ok value : Except Halt β) ≠ .error .trap := by
  simp

/-- What is kept of a call is no trap. -/
theorem kept_ne_trap (call : Except Error β) : kept call ≠ .error .trap := by
  cases call <;> simp [kept, Except.mapError]

theorem word_eq_ok {value : Nat} (small : value < Problem.columnLimit) : word value = .ok value :=
  if_pos small

theorem add_eq_ok {left right : Nat} (small : left + right < Problem.columnLimit) :
    add left right = .ok (left + right) :=
  word_eq_ok small

theorem mul_eq_ok {left right : Nat} (small : left * right < Problem.columnLimit) :
    mul left right = .ok (left * right) :=
  word_eq_ok small

theorem sub_eq_ok {left right : Nat} (ordered : right ≤ left) :
    sub left right = .ok (left - right) :=
  if_pos ordered

theorem div_eq_ok {left right : Nat} (positive : 0 < right) :
    div left right = .ok (left / right) :=
  if_neg positive.ne'

theorem mod_eq_ok {left right : Nat} (positive : 0 < right) :
    mod left right = .ok (left % right) :=
  if_neg positive.ne'

/-! ### Programs for shapes -/

/-- The product of a list, from left to right. -/
def product (factors : List Nat) : Except Halt Nat :=
  factors.foldlM mul 1

/-- The sum of numbers, each of which is computed when it is added. -/
def sumOf (parts : List (Except Halt Nat)) : Except Halt Nat :=
  parts.foldlM (fun total part => do
    let value ← part
    add total value) 0

/-- The inner product of coordinates and strides. -/
def innerProduct (coords strides : List Nat) : Except Halt Nat :=
  sumOf (List.zipWith mul coords strides)

/-- The strides of an array, from the last one to the first. -/
def strides : List Nat → Except Halt (List Nat)
  | [] => .ok []
  | [_] => .ok [1]
  | _ :: next :: inner => do
      let later ← strides (next :: inner)
      let stride ← mul (later.headD 1) next
      pure (stride :: later)

/-- Adds the distances of coordinates to an offset, each behind the check of its coordinate. -/
def offsetFrom (reason : Error) : Nat → List Nat → List Nat → List Nat → Except Halt Nat
  | offset, coord :: coords, dim :: dims, stride :: strides =>
      if dim ≤ coord then .error (.refused reason)
      else do
        let step ← mul coord stride
        let onward ← add offset step
        offsetFrom reason onward coords dims strides
  | offset, _, _, _ => .ok offset

/-- The flat offset of a coordinate tuple: the number of coordinates is compared first, and the
strides are computed only if it is right. -/
def flatOffset (shape : Shape) (coords : List Nat) : Except Halt Nat :=
  if coords.length != shape.rank then
    .error (.refused (.shapeMismatch (Shape.arityText shape.rank)
      (Shape.arityText coords.length)))
  else do
    let strides ← strides shape.dims
    offsetFrom (.indexOutOfRange (coordsText coords) shape.display) 0 coords shape.dims strides

/-- Divides an offset by the strides, passing the remainder inward. -/
def splitOffset : List Nat → Nat → Except Halt (List Nat)
  | [], _ => .ok []
  | stride :: inner, offset => do
      let coord ← div offset stride
      let rest ← mod offset stride
      let coords ← splitOffset inner rest
      pure (coord :: coords)

/-- The coordinate tuple of a flat offset. The comparison with the number of entries comes before
any division. -/
def coordsOf (shape : Shape) (offset : Nat) : Except Halt (List Nat) := do
  let size ← product shape.dims
  if offset < size then do
    let strides ← strides shape.dims
    splitOffset strides offset
  else
    .error (.refused (.indexOutOfRange (toString offset) (toString size)))

/-- Cuts out a box: the comparisons of all corners come first, then the start and the extents. -/
def select (shape : Shape) (start stop : List Nat) : Except Halt View :=
  if start.length != shape.rank || stop.length != shape.rank then
    .error (.refused (.shapeMismatch (Shape.arityText shape.rank)
      ("start " ++ coordsText start ++ ", end " ++ coordsText stop)))
  else if ((start.zip stop).zip shape.dims).all
      fun ((first, last), dim) => decide (last ≤ dim) && decide (first < last) then do
    let strides ← strides shape.dims
    let offset ← innerProduct start strides
    let extents ← (start.zip stop).mapM fun (first, last) => sub last first
    pure ⟨offset, extents, strides, ⟨extents⟩⟩
  else
    .error (.refused (.indexOutOfRange ("[" ++ coordsText start ++ ", " ++ coordsText stop ++ ")")
      shape.display))

/-! ### Programs for views -/

/-- Takes everything, for which the strides are computed and nothing else. -/
def full (shape : Shape) : Except Halt View := do
  let strides ← strides shape.dims
  pure ⟨0, shape.dims, strides, shape⟩

/-- Whether the selected offsets form one unbroken range. One is taken off the extents only after
the comparison that finds none of them to be zero. -/
def isContiguous (view : View) : Except Halt Bool := do
  let size ← product view.extents
  if size = 0 then pure true
  else do
    let last ← sumOf (List.zipWith (fun extent stride => do
      let before ← sub extent 1
      mul before stride) view.extents view.strides)
    let stop ← add last 1
    pure (stop == size)

/-- Presents a view under another shape. The number of entries is computed of both before they are
compared. -/
def reshape (view : View) (shape : Shape) : Except Halt View := do
  let wanted ← product shape.dims
  let size ← product view.extents
  if wanted = size then pure { view with shape }
  else
    .error (.refused (.shapeMismatch (toString size ++ " elements")
      (shape.display ++ " (" ++ toString wanted ++ " elements)")))

/-- Advances a counter, each position increased before it is compared. -/
def advance : List Nat → List Nat → Except Halt (List Nat × Bool)
  | extent :: extents, count :: counts => do
      let (rest, turned) ← advance extents counts
      if turned then do
        let next ← add count 1
        pure (if next < extent then (next :: rest, false) else (0 :: rest, true))
      else pure (count :: rest, false)
  | _, _ => pure ([], true)

/-- The offset of the next entry, and where the listing stands behind it. -/
def next? (view : View) (cursor : View.Cursor) : Except Halt (Option (Nat × View.Cursor)) :=
  if cursor.remaining = 0 then pure none
  else do
    let remaining ← sub cursor.remaining 1
    let step ← innerProduct cursor.counter view.strides
    let index ← add view.offset step
    let (counter, _) ← advance view.extents cursor.counter
    pure (some (index, ⟨counter, remaining⟩))

/-- The offsets met within a number of steps, the latest first, before those that were met
already. -/
def visit (view : View) : Nat → View.Cursor → List Nat → Except Halt (List Nat)
  | 0, _, met => pure met
  | steps + 1, cursor, met => do
      match ← next? view cursor with
      | none => pure met
      | some (index, later) => visit view steps later (index :: met)

/-- The listing of a view, with the counter at zero in every dimension and all entries still to
come. -/
def flatIndices (view : View) : Except Halt (List Nat) := do
  let size ← product view.extents
  let met ← visit view size ⟨view.extents.map fun _ => 0, size⟩ []
  pure met.reverse

/-! ### Extents that fit -/

end Word

/-- The extents of an array, none of which is zero, with words for all of its entries. -/
structure FitsWords (dims : List Nat) : Prop where
  positive : ∀ dim ∈ dims, 0 < dim
  room : volume dims < Problem.columnLimit

/-- The extents of an array, some of which may be zero, with words for the products that lead to
the number of its entries, from the outside, and to its strides, from the inside. -/
structure CountedInWords (dims : List Nat) : Prop where
  outer : ∀ depth, volume (dims.take depth) < Problem.columnLimit
  inner : ∀ depth, volume (dims.drop depth) < Problem.columnLimit

theorem CountedInWords.strides {dims : List Nat} (counted : CountedInWords dims) (depth : Nat) :
    volume (dims.drop (depth + 1)) < Problem.columnLimit :=
  counted.inner (depth + 1)

theorem volume_append (outer inner : List Nat) :
    volume (outer ++ inner) = volume outer * volume inner := by
  induction outer with
  | nil => rw [List.nil_append, volume_nil, Nat.one_mul]
  | cons dim outer inductionHypothesis =>
    rw [List.cons_append, volume_cons, inductionHypothesis, volume_cons, Nat.mul_assoc]

theorem volume_pos_iff {dims : List Nat} : 0 < volume dims ↔ ∀ dim ∈ dims, 0 < dim := by
  induction dims with
  | nil => exact iff_of_true Nat.one_pos fun dim member => absurd member List.not_mem_nil
  | cons dim inner inductionHypothesis =>
    rw [volume_cons, CanonicallyOrderedAdd.mul_pos, inductionHypothesis, List.forall_mem_cons]

namespace FitsWords

theorem inner {dim : Nat} {dims : List Nat} (fits : FitsWords (dim :: dims)) :
    FitsWords dims := by
  obtain ⟨here, later⟩ := List.forall_mem_cons.mp fits.positive
  exact ⟨later, Nat.lt_of_le_of_lt (Nat.le_mul_of_pos_left _ here) fits.room⟩

theorem dim_lt {dims : List Nat} (fits : FitsWords dims) :
    ∀ dim ∈ dims, dim < Problem.columnLimit := by
  induction dims with
  | nil => exact fun dim member => absurd member List.not_mem_nil
  | cons first dims inductionHypothesis =>
    refine List.forall_mem_cons.mpr ⟨?_, inductionHypothesis fits.inner⟩
    exact Nat.lt_of_le_of_lt
      (Nat.le_mul_of_pos_right _ (volume_pos_iff.mpr fits.inner.positive)) fits.room

/-- Where no factor is zero, a product of some of the extents is not larger than that of all. -/
theorem counted {dims : List Nat} (fits : FitsWords dims) : CountedInWords dims := by
  have whole : ∀ depth, volume (dims.take depth) * volume (dims.drop depth) = volume dims := by
    intro depth
    rw [← volume_append, List.take_append_drop]
  have outerPositive : ∀ depth, 0 < volume (dims.take depth) := fun depth =>
    volume_pos_iff.mpr fun dim member => fits.positive dim (List.mem_of_mem_take member)
  have innerPositive : ∀ depth, 0 < volume (dims.drop depth) := fun depth =>
    volume_pos_iff.mpr fun dim member => fits.positive dim (List.mem_of_mem_drop member)
  refine ⟨fun depth => ?_, fun depth => ?_⟩
  · exact Nat.lt_of_le_of_lt
      ((Nat.le_mul_of_pos_right _ (innerPositive depth)).trans (whole depth).le) fits.room
  · exact Nat.lt_of_le_of_lt
      ((Nat.le_mul_of_pos_left _ (outerPositive depth)).trans (whole depth).le) fits.room

end FitsWords

theorem BoxFits.volume_le {corner extents dims : List Nat} (fits : BoxFits corner extents dims) :
    volume extents ≤ volume dims := by
  induction fits with
  | nil => exact le_rfl
  | cons reach _ inductionHypothesis => exact Nat.mul_le_mul (by omega) inductionHypothesis

/-- The outer part of a box fits into the outer part of the array. -/
theorem BoxFits.take {corner extents dims : List Nat} (fits : BoxFits corner extents dims)
    (depth : Nat) : BoxFits (corner.take depth) (extents.take depth) (dims.take depth) := by
  induction fits generalizing depth with
  | nil =>
    simp only [List.take_nil]
    exact .nil
  | cons reach _ inductionHypothesis =>
    cases depth with
    | zero => exact .nil
    | succ depth => exact .cons reach (inductionHypothesis depth)

namespace Word

/-! ### Programs for shapes come to what shapes do -/

theorem foldlM_mul_eq_ok {factors : List Nat} {start : Nat}
    (room : ∀ depth, start * volume (factors.take depth) < Problem.columnLimit) :
    factors.foldlM mul start = .ok (start * volume factors) := by
  induction factors generalizing start with
  | nil =>
    rw [volume_nil, Nat.mul_one]
    rfl
  | cons factor rest inductionHypothesis =>
    have first : start * factor < Problem.columnLimit := by
      have here := room 1
      rwa [List.take_succ_cons, List.take_zero, volume_cons, volume_nil, Nat.mul_one] at here
    have later : ∀ depth, start * factor * volume (rest.take depth) < Problem.columnLimit := by
      intro depth
      have there := room (depth + 1)
      rwa [List.take_succ_cons, volume_cons, ← Nat.mul_assoc] at there
    rw [List.foldlM_cons, mul_eq_ok first, ok_bind, inductionHypothesis later, volume_cons,
      Nat.mul_assoc]

theorem product_eq_ok {dims : List Nat}
    (room : ∀ depth, volume (dims.take depth) < Problem.columnLimit) :
    product dims = .ok (volume dims) := by
  rw [product, foldlM_mul_eq_ok (by simpa only [Nat.one_mul] using room), Nat.one_mul]

theorem foldlM_add_eq_ok {parts : List (Except Halt Nat)} {values : List Nat}
    (each : List.Forall₂ (fun part value => part = .ok value) parts values) {start : Nat}
    (room : start + values.foldr (· + ·) 0 < Problem.columnLimit) :
    parts.foldlM (fun total part => do
      let value ← part
      add total value) start = .ok (start + values.foldr (· + ·) 0) := by
  induction each generalizing start with
  | nil => rfl
  | @cons part value parts values computed _ inductionHypothesis =>
    rw [List.foldr_cons, ← Nat.add_assoc] at room ⊢
    rw [List.foldlM_cons, computed, ok_bind, add_eq_ok (by omega), ok_bind,
      inductionHypothesis room]

/-- A sum of words is a word if the total is. -/
theorem sumOf_eq_ok {parts : List (Except Halt Nat)} {values : List Nat}
    (each : List.Forall₂ (fun part value => part = .ok value) parts values)
    (room : values.foldr (· + ·) 0 < Problem.columnLimit) :
    sumOf parts = .ok (values.foldr (· + ·) 0) := by
  rw [sumOf, foldlM_add_eq_ok each (by rwa [Nat.zero_add]), Nat.zero_add]

theorem strided_cons (coord stride : Nat) (coords strides : List Nat) :
    strided (coord :: coords) (stride :: strides) = coord * stride + strided coords strides := rfl

theorem innerProduct_eq_ok {coords strides : List Nat}
    (room : strided coords strides < Problem.columnLimit) :
    innerProduct coords strides = .ok (strided coords strides) := by
  refine sumOf_eq_ok ?_ room
  induction coords generalizing strides with
  | nil => exact .nil
  | cons coord coords inductionHypothesis =>
    cases strides with
    | nil => exact .nil
    | cons stride strides =>
      rw [strided_cons] at room
      exact .cons (mul_eq_ok (by omega)) (inductionHypothesis (by omega))

theorem strides_eq_ok {dims : List Nat}
    (room : ∀ depth, volume (dims.drop (depth + 1)) < Problem.columnLimit) :
    strides dims = .ok (Shape.stridesOf dims) := by
  fun_induction strides dims with
  | case1 => rfl
  | case2 => rfl
  | case3 outer next inner inductionHypothesis =>
    have product : volume inner * next < Problem.columnLimit := by
      rw [Nat.mul_comm]
      exact room 0
    have head : (Shape.stridesOf (next :: inner)).headD 1 = volume inner := rfl
    rw [inductionHypothesis fun depth => room (depth + 1), ok_bind, head, mul_eq_ok product,
      ok_bind, Nat.mul_comm]
    rfl

theorem offsetFrom_eq (reason : Error) {dims coords : List Nat}
    (sameLength : coords.length = dims.length) {offset : Nat}
    (small : offset < Problem.columnLimit) (room : offset + volume dims ≤ Problem.columnLimit) :
    offsetFrom reason offset coords dims (Shape.stridesOf dims) =
      if (List.zipWith (fun coord dim => decide (coord < dim)) coords dims).all id then
        .ok (offset + strided coords (Shape.stridesOf dims))
      else .error (.refused reason) := by
  induction dims generalizing coords offset with
  | nil =>
    obtain rfl := List.eq_nil_of_length_eq_zero sameLength
    rfl
  | cons dim inner inductionHypothesis =>
    obtain ⟨coord, coords, rfl⟩ := List.exists_of_length_succ coords sameLength
    rw [Shape.stridesOf, offsetFrom, List.zipWith_cons_cons, List.all_cons, id, strided_cons]
    change offset + dim * volume inner ≤ _ at room
    by_cases outside : dim ≤ coord
    · rw [if_pos outside, decide_eq_false (Nat.not_lt.mpr outside)]
      rfl
    · have inside : coord < dim := Nat.lt_of_not_le outside
      -- a whole inner array, which may be empty, still fits behind this coordinate
      have reach : (coord + 1) * volume inner ≤ dim * volume inner :=
        Nat.mul_le_mul_right _ inside
      rw [Nat.add_mul, Nat.one_mul] at reach
      have onward : offset + coord * volume inner < Problem.columnLimit := by
        rcases Nat.eq_zero_or_pos (volume inner) with empty | positive
        · rwa [empty, Nat.mul_zero, Nat.add_zero]
        · omega
      rw [if_neg outside, decide_eq_true inside, Bool.true_and]
      show (mul coord (volume inner) >>= fun step => add offset step >>= _) = _
      rw [mul_eq_ok (by omega), ok_bind, add_eq_ok onward, ok_bind,
        inductionHypothesis (Nat.succ.inj sameLength) onward (by omega), Nat.add_assoc]
      rfl

/-- Bounds are checked before a coordinate is multiplied, so no offset overflows. -/
theorem flatOffset_eq_kept {shape : Shape} (counted : CountedInWords shape.dims)
    (coords : List Nat) : flatOffset shape coords = kept (shape.flatOffset coords) := by
  rw [flatOffset, Shape.flatOffset]
  by_cases arity : coords.length = shape.rank
  · have small : 0 < Problem.columnLimit := Nat.zero_lt_of_lt (counted.inner 0)
    have room : 0 + volume shape.dims ≤ Problem.columnLimit := by
      rw [Nat.zero_add]
      exact (counted.inner 0).le
    have same : ¬ (coords.length != shape.rank) = true := by simp [arity]
    rw [if_neg same, if_neg same, strides_eq_ok counted.strides, ok_bind,
      offsetFrom_eq _ arity small room, Nat.zero_add]
    split <;> rfl
  · have different : (coords.length != shape.rank) = true := by simp [arity]
    rw [if_pos different, if_pos different]
    rfl

/-- An offset below the number of entries is divided by no zero, because with a zero among the
extents there are no entries. -/
theorem splitOffset_eq_ok {dims : List Nat} {offset : Nat} (bound : offset < volume dims) :
    splitOffset (Shape.stridesOf dims) offset =
      .ok (Shape.splitOffset (Shape.stridesOf dims) offset) := by
  induction dims generalizing offset with
  | nil => rfl
  | cons dim inner inductionHypothesis =>
    have positive : 0 < volume inner := volume_inner_pos bound
    show (div offset (volume inner) >>= fun coord => mod offset (volume inner) >>= fun rest =>
      splitOffset (Shape.stridesOf inner) rest >>= fun coords => pure (coord :: coords)) = _
    rw [div_eq_ok positive, ok_bind, mod_eq_ok positive, ok_bind,
      inductionHypothesis (Nat.mod_lt _ positive)]
    rfl

theorem coordsOf_eq_kept {shape : Shape} (counted : CountedInWords shape.dims) (offset : Nat) :
    coordsOf shape offset = kept (shape.coordsOf offset) := by
  rw [coordsOf, product_eq_ok counted.outer, ok_bind, Shape.coordsOf]
  show (if offset < shape.size then _ else _) = _
  split
  · rename_i inside
    rw [strides_eq_ok counted.strides, ok_bind, splitOffset_eq_ok inside]
    rfl
  · rfl

/-- What a box reaches from its start is not negative. -/
theorem mapM_sub_eq_ok {start stop : List Nat} (ordered : List.Forall₂ (· ≤ ·) start stop) :
    ((start.zip stop).mapM fun (first, last) => sub last first) =
      .ok (List.zipWith (fun first last => last - first) start stop) := by
  induction ordered with
  | nil => rfl
  | @cons first last start stop notBehind _ inductionHypothesis =>
    rw [List.zip_cons_cons, List.mapM_cons, inductionHypothesis]
    show (sub last first >>= _) = _
    rw [sub_eq_ok notBehind]
    rfl

/-- The corners are compared before anything is computed from them, so no box overflows. -/
theorem select_eq_kept {shape : Shape} (counted : CountedInWords shape.dims)
    (start stop : List Nat) : select shape start stop = kept (shape.select start stop) := by
  rw [select, Shape.select]
  split
  · rfl
  · rename_i arity
    split
    · rename_i checked
      simp only [Shape.rank, Bool.or_eq_true, bne_iff_ne, not_or, not_not] at arity
      obtain ⟨nonempty, inside⟩ := (select_checked_iff arity.1 arity.2).mp checked
      have below := strided_lt_volume (forall₂_lt_of_lt_of_le nonempty inside)
      have ordered := nonempty.imp fun _ _ => Nat.le_of_lt
      rw [strides_eq_ok counted.strides, ok_bind,
        innerProduct_eq_ok (below.trans (counted.inner 0)), ok_bind, mapM_sub_eq_ok ordered]
      rfl
    · rfl

theorem full_eq_ok {shape : Shape} (counted : CountedInWords shape.dims) :
    full shape = .ok (View.full shape) := by
  rw [full, strides_eq_ok counted.strides]
  rfl

end Word

/-! ### Programs for views come to what views do -/

/-- A view that is not empty, with words for the number of its entries, for the offset of the last
of them, and for what the test for an unbroken range compares. -/
structure View.InWords (view : View) : Prop where
  positive : ∀ extent ∈ view.extents, 0 < extent
  room : volume view.extents < Problem.columnLimit
  reach : view.offset + strided (view.extents.map (· - 1)) view.strides < Problem.columnLimit
  span : strided (view.extents.map (· - 1)) view.strides + 1 < Problem.columnLimit

theorem View.InWords.extents_fit {view : View} (inWords : view.InWords) :
    FitsWords view.extents :=
  ⟨inWords.positive, inWords.room⟩

/-- An offset does not decrease with the coordinates. -/
theorem strided_le_strided {coords later strides : List Nat}
    (before : List.Forall₂ (· ≤ ·) coords later) :
    strided coords strides ≤ strided later strides := by
  induction before generalizing strides with
  | nil => exact le_rfl
  | cons notBehind _ inductionHypothesis =>
    cases strides with
    | nil => exact le_rfl
    | cons stride strides =>
      rw [Word.strided_cons, Word.strided_cons]
      exact Nat.add_le_add (Nat.mul_le_mul_right _ notBehind) inductionHypothesis

/-- No place of a view has an offset behind that of the last one. -/
theorem View.InWords.offset_lt {view : View} (inWords : view.InWords) {counter : List Nat}
    (below : List.Forall₂ (· < ·) counter view.extents) :
    view.offset + strided counter view.strides < Problem.columnLimit := by
  have notBehindLast : List.Forall₂ (· ≤ ·) counter (view.extents.map (· - 1)) := by
    rw [List.forall₂_map_right_iff]
    exact below.imp fun _ _ => Nat.le_sub_one_of_lt
  have reach := inWords.reach
  have step : strided counter view.strides ≤ strided (view.extents.map (· - 1)) view.strides :=
    strided_le_strided notBehindLast
  omega

/-- The last place of extents that are not zero. -/
theorem forall₂_sub_one_lt {extents : List Nat} (positive : ∀ extent ∈ extents, 0 < extent) :
    List.Forall₂ (· < ·) (extents.map (· - 1)) extents := by
  rw [List.forall₂_map_left_iff]
  exact List.forall₂_same.mpr fun extent member => Nat.sub_one_lt (positive _ member).ne'

/-- A box that is not empty is in words if its array is. -/
theorem View.IsBox.inWords_of_pos {view : View} {corner dims : List Nat}
    (box : view.IsBox corner dims) (positive : ∀ extent ∈ view.extents, 0 < extent)
    (room : volume dims < Problem.columnLimit) : view.InWords where
  positive := positive
  room := Nat.lt_of_le_of_lt box.fits.volume_le room
  reach := by
    rw [box.offset_eq, box.strides_eq]
    exact (strided_add_lt box.fits (forall₂_sub_one_lt positive)).trans room
  span := by
    have last := strided_add_lt box.fits (forall₂_sub_one_lt positive)
    rw [box.strides_eq]
    omega

/-- A box between two corners is in words if its array is and the corners leave no dimension
empty. -/
theorem View.IsBox.inWords {view : View} {start stop dims : List Nat}
    (box : view.IsBox start dims)
    (extents : view.extents = List.zipWith (fun first last => last - first) start stop)
    (nonempty : List.Forall₂ (· < ·) start stop) (fits : FitsWords dims) : view.InWords := by
  refine box.inWords_of_pos ?_ fits.room
  rw [extents]
  refine List.forall_iff_forall_mem.mp ((List.forall_zipWith nonempty.length_eq).mpr ?_)
  exact nonempty.imp fun _ _ => Nat.sub_pos_of_lt

theorem advance_lt {extents counts : List Nat} (below : List.Forall₂ (· < ·) counts extents) :
    List.Forall₂ (· < ·) (View.advance extents counts).1 extents := by
  induction below with
  | nil => exact .nil
  | @cons count extent counts extents small _ inductionHypothesis =>
    rw [View.advance]
    generalize View.advance extents counts = turned at inductionHypothesis ⊢
    obtain ⟨rest, carry⟩ := turned
    cases carry with
    | false => exact .cons small inductionHypothesis
    | true =>
      by_cases onward : count + 1 < extent
      · simp only [if_pos onward]
        exact .cons onward inductionHypothesis
      · simp only [if_neg onward]
        exact .cons (Nat.zero_lt_of_lt small) inductionHypothesis

namespace Word

variable {view : View}

theorem size_eq_ok (inWords : view.InWords) : product view.extents = .ok view.size :=
  product_eq_ok inWords.extents_fit.counted.outer

/-- A view is presented under a shape whose own entries can be counted. -/
theorem reshape_eq_kept (sized : product view.extents = .ok view.size) {shape : Shape}
    (counted : product shape.dims = .ok shape.size) :
    reshape view shape = kept (view.reshape shape) := by
  rw [reshape, counted, ok_bind, sized, ok_bind, View.reshape]
  by_cases same : shape.size = view.size
  · rw [if_pos same, if_pos (beq_iff_eq.mpr same)]
    rfl
  · rw [if_neg same, if_neg (by simpa using same)]
    rfl

/-- One less than an extent of a view that is not empty is not negative. -/
theorem zipWith_sub_one {extents strides : List Nat} (positive : ∀ extent ∈ extents, 0 < extent) :
    List.zipWith (fun extent stride => do
      let before ← sub extent 1
      mul before stride) extents strides =
      List.zipWith mul (extents.map (· - 1)) strides := by
  induction extents generalizing strides with
  | nil => rfl
  | cons extent extents inductionHypothesis =>
    cases strides with
    | nil => rfl
    | cons stride strides =>
      obtain ⟨here, later⟩ := List.forall_mem_cons.mp positive
      rw [List.zipWith_cons_cons, sub_eq_ok here, ok_bind, inductionHypothesis later]
      rfl

theorem isContiguous_eq_ok (inWords : view.InWords) :
    isContiguous view = .ok view.isContiguous := by
  have span := inWords.span
  rw [isContiguous, size_eq_ok inWords, ok_bind, View.isContiguous,
    zipWith_sub_one inWords.positive]
  by_cases empty : view.size = 0
  · rw [if_pos empty, if_pos (beq_iff_eq.mpr empty)]
    rfl
  · have room : strided (view.extents.map (· - 1)) view.strides < Problem.columnLimit := by omega
    rw [if_neg empty, if_neg (by simpa using empty), ← innerProduct, innerProduct_eq_ok room,
      ok_bind, add_eq_ok (by omega)]
    rfl

theorem advance_eq_ok {extents counts : List Nat} (below : List.Forall₂ (· < ·) counts extents)
    (small : ∀ extent ∈ extents, extent < Problem.columnLimit) :
    advance extents counts = .ok (View.advance extents counts) := by
  induction below with
  | nil => rfl
  | @cons count extent counts extents inside _ inductionHypothesis =>
    obtain ⟨here, later⟩ := List.forall_mem_cons.mp small
    rw [advance, inductionHypothesis later, ok_bind, View.advance]
    obtain ⟨rest, carry⟩ := View.advance extents counts
    cases carry with
    | false => rfl
    | true =>
      have next : count + 1 < Problem.columnLimit := by omega
      show (add count 1 >>= _) = _
      rw [add_eq_ok next]
      rfl

/-- A step of a listing stays in words, and leaves the counter below the extents. -/
theorem next?_eq_ok (inWords : view.InWords) {cursor : View.Cursor}
    (below : List.Forall₂ (· < ·) cursor.counter view.extents) :
    next? view cursor = .ok (view.next? cursor) ∧
      ∀ index later, view.next? cursor = some (index, later) →
        List.Forall₂ (· < ·) later.counter view.extents := by
  obtain ⟨counter, remaining⟩ := cursor
  cases remaining with
  | zero => exact ⟨rfl, fun _ _ none => absurd none (by simp [View.next?])⟩
  | succ remaining =>
    have bound : view.offset + strided counter view.strides < Problem.columnLimit :=
      inWords.offset_lt below
    refine ⟨?_, ?_⟩
    · show (sub (remaining + 1) 1 >>= fun left => innerProduct counter view.strides >>= _) = _
      rw [sub_eq_ok (Nat.succ_pos remaining), ok_bind, innerProduct_eq_ok (by omega), ok_bind,
        add_eq_ok (by omega), ok_bind, advance_eq_ok below inWords.extents_fit.dim_lt]
      rfl
    · intro index later stepped
      obtain ⟨_, rfl⟩ := Prod.mk.inj (Option.some.inj stepped)
      exact advance_lt below

theorem visit_eq_ok (inWords : view.InWords) (steps : Nat) {cursor : View.Cursor}
    (below : List.Forall₂ (· < ·) cursor.counter view.extents) (met : List Nat) :
    visit view steps cursor met = .ok (view.visit steps cursor met) := by
  induction steps generalizing cursor met with
  | zero => rfl
  | succ steps inductionHypothesis =>
    obtain ⟨stepped, kept⟩ := next?_eq_ok inWords below
    rw [visit, stepped, ok_bind, View.visit]
    cases next : view.next? cursor with
    | none => rfl
    | some pair => exact inductionHypothesis (kept pair.1 pair.2 next) (pair.1 :: met)

/-- The listing of a view stays in words. -/
theorem flatIndices_eq_ok (inWords : view.InWords) :
    flatIndices view = .ok view.flatIndices := by
  have start : List.Forall₂ (· < ·) (view.extents.map fun _ => 0) view.extents := by
    rw [List.forall₂_map_left_iff]
    exact List.forall₂_same.mpr inWords.positive
  rw [flatIndices, size_eq_ok inWords, ok_bind, visit_eq_ok inWords _ start, ok_bind]
  rfl

end Word

end BlockCone
