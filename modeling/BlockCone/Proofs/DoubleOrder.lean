/-
This file proves what the comparisons of doubles promise.

Comparing looks at the kinds of two doubles first, then at their signs, then at their exponents and
last at their leading bits. So every double that is a number has a height, which is made of three
whole numbers that are compared one after the other: the two infinities are at the ends, the two
zeros share the middle, and a negative number has the height of its magnitude with the other sign.
Two doubles compare as their heights do. A value that is not a number has no height, and no
comparison holds of it.
-/

import BlockCone.ScalarDouble

namespace BlockCone

open Float.Model

/-! ### Heights -/

/-- Three whole numbers that are compared one after the other. -/
structure Height where
  kind : Int
  exponent : Int
  mantissa : Int

namespace Height

/-- Heights are compared number by number. -/
def compare (left right : Height) : Ordering :=
  (Ord.compare left.kind right.kind).then
    ((Ord.compare left.exponent right.exponent).then (Ord.compare left.mantissa right.mantissa))

theorem compare_swap (left right : Height) : (left.compare right).swap = right.compare left := by
  simp only [compare, Ordering.swap_then, Int.compare_swap]

theorem compare_eq_lt_iff (left right : Height) :
    left.compare right = .lt ↔
      left.kind < right.kind ∨ left.kind = right.kind ∧
        (left.exponent < right.exponent ∨
          left.exponent = right.exponent ∧ left.mantissa < right.mantissa) := by
  simp only [compare, Ordering.then_eq_lt, Int.compare_eq_lt, Int.compare_eq_eq]

/-- What is above the higher of two heights is above the other. -/
theorem compare_eq_lt_of_isLE {low middle high : Height} (atMost : (low.compare middle).isLE = true)
    (below : middle.compare high = .lt) : low.compare high = .lt := by
  have notAbove : middle.compare low ≠ .lt := by
    rw [← compare_swap, ne_eq, Ordering.swap_eq_lt]
    exact Ordering.isLE_iff_ne_gt.mp atMost
  rw [ne_eq, compare_eq_lt_iff] at notAbove
  rw [compare_eq_lt_iff] at below ⊢
  omega

end Height

/-! ### Doubles -/

namespace Height

/-- The height of a double, if it is a number. -/
def of? : UnpackedFloat → Option Height
  | .notANumber => none
  | .infinity sign => some ⟨sign.apply 2, 0, 0⟩
  | .zero _ => some ⟨0, 0, 0⟩
  | .finite sign mantissa exponent _ =>
      some ⟨sign.apply 1, sign.apply exponent, sign.apply mantissa⟩

theorem compare_neg (left right : Int) :
    Ord.compare (-left) (-right) = (Ord.compare left right).swap := by
  rw [Int.compare_swap]
  simp only [Int.compare_eq_ite_lt, Int.neg_lt_neg_iff]

theorem compare_cast (left right : Nat) :
    Ord.compare (left : Int) right = Ord.compare left right := by
  simp only [Int.compare_eq_ite_lt, Nat.compare_eq_ite_lt, Int.ofNat_lt]

/-- Doubles compare as their heights do. -/
theorem compare_eq_of? (left right : UnpackedFloat) :
    left.compare right =
      (of? left).bind fun low => (of? right).map fun high => low.compare high := by
  cases left with
  | notANumber => rfl
  | infinity sign =>
    cases right with
    | notANumber => cases sign <;> rfl
    | infinity other => cases sign <;> cases other <;> rfl
    | zero other => cases sign <;> rfl
    | finite other mantissa exponent positive => cases sign <;> cases other <;> rfl
  | zero sign =>
    cases right with
    | notANumber => rfl
    | infinity other => cases other <;> rfl
    | zero other => rfl
    | finite other mantissa exponent positive => cases other <;> rfl
  | finite sign mantissa exponent positive =>
    cases right with
    | notANumber => cases sign <;> rfl
    | infinity other => cases sign <;> cases other <;> rfl
    | zero other => cases sign <;> rfl
    | finite other otherMantissa otherExponent otherPositive =>
      cases sign <;> cases other
      · -- of two negative numbers the one of larger magnitude is below
        have reversed : ((Ord.compare exponent otherExponent).then
            (Ord.compare mantissa otherMantissa)).swap =
              (Ord.compare (-exponent) (-otherExponent)).then
                (Ord.compare (-(mantissa : Int)) (-(otherMantissa : Int))) := by
          rw [Ordering.swap_then, compare_neg, compare_neg, compare_cast]
        exact congrArg some reversed
      · rfl
      · rfl
      · have upright : (Ord.compare exponent otherExponent).then
            (Ord.compare mantissa otherMantissa) =
              (Ord.compare exponent otherExponent).then
                (Ord.compare (mantissa : Int) (otherMantissa : Int)) := by
          rw [compare_cast]
        exact congrArg some upright

end Height

namespace Double

/-- The height of a double, if it is a number. -/
def height? (value : Float) : Option Height :=
  Height.of? value.toModel.unpack

theorem lt_iff (left right : Float) :
    left < right ↔ ∃ low, height? left = some low ∧ ∃ high, height? right = some high ∧
      low.compare high = .lt := by
  have compared : left < right ↔ left.toModel.unpack.compare right.toModel.unpack = some .lt := by
    show decide (left.toModel.unpack.lt right.toModel.unpack = true) = true ↔ _
    rw [decide_eq_true_iff, UnpackedFloat.lt, beq_iff_eq]
  rw [compared, Height.compare_eq_of?]
  simp only [Option.bind_eq_some_iff, Option.map_eq_some_iff, height?]

theorem le_iff (left right : Float) :
    left ≤ right ↔ ∃ low, height? left = some low ∧ ∃ high, height? right = some high ∧
      (low.compare high).isLE = true := by
  have compared : left ≤ right ↔
      (left.toModel.unpack.compare right.toModel.unpack).any (·.isLE) = true := by
    show decide (left.toModel.unpack.le right.toModel.unpack = true) = true ↔ _
    rw [decide_eq_true_iff, UnpackedFloat.le]
  rw [compared, Height.compare_eq_of?, Option.any_eq_true]
  simp only [Option.bind_eq_some_iff, Option.map_eq_some_iff, height?]
  constructor
  · rintro ⟨_, ⟨low, lowest, high, highest, rfl⟩, ordered⟩
    exact ⟨low, lowest, high, highest, ordered⟩
  · rintro ⟨low, lowest, high, highest, ordered⟩
    exact ⟨_, ⟨low, lowest, high, highest, rfl⟩, ordered⟩

/-- A value that is not a number has no height. -/
theorem height?_eq_none_iff (value : Float) : height? value = none ↔ value.isNaN = true := by
  show Height.of? value.toModel.unpack = none ↔ value.toModel.unpack.isNaN = true
  cases value.toModel.unpack with
  | notANumber => exact iff_of_true rfl rfl
  | infinity | zero | finite => exact iff_of_false (Option.some_ne_none _) Bool.false_ne_true

/-- Nothing is below a value that is not a number. -/
theorem isNaN_eq_false_of_lt {left right : Float} (below : left < right) :
    right.isNaN = false := by
  obtain ⟨_, _, high, number, _⟩ := (lt_iff left right).mp below
  rw [← Bool.not_eq_true, ← height?_eq_none_iff, number]
  exact Option.some_ne_none high

/-- What exceeds the larger of two doubles exceeds the other. -/
theorem lt_of_le_of_lt {low middle high : Float} (atMost : low ≤ middle) (below : middle < high) :
    low < high := by
  obtain ⟨bottom, lowest, center, between, ordered⟩ := (le_iff low middle).mp atMost
  obtain ⟨other, same, top, highest, under⟩ := (lt_iff middle high).mp below
  obtain rfl := Option.some.inj (between.symm.trans same)
  exact (lt_iff low high).mpr
    ⟨bottom, lowest, top, highest, Height.compare_eq_lt_of_isLE ordered under⟩

end Double

end BlockCone
