/-
This file proves that an operation on doubles whose exact result is within a limit stays within it.

In the model of doubles an operation finds a mantissa with an accuracy and an exponent, and rounds
them into the format. What is wanted of the result is its size alone. A mantissa and its round bit
are counted in half steps, and shifting to the right halves that count, so a rounded mantissa is
never above the half steps rounded up. If the exact result is less than half a step above a double,
what it is rounded to is not above that double: it is rounded at a smaller exponent, or at the same
one to no larger mantissa. The limit is any double with a full mantissa, and for the largest of them
this says that the operation does not overflow.

Products, quotients by a number not below one, and conversions of natural numbers all end in the
same rounding, so `isWithin_roundWithAccuracy` carries all of them. Packing a result and unpacking
it changes nothing for a number of the format, and `IsWithin` says that a rounded number is one.
-/

import Mathlib.Algebra.Order.Field.Power
import Mathlib.Algebra.Order.Field.Rat
import Mathlib.Data.Rat.Cast.Order
import Mathlib.Tactic.Ring
import BlockCone.ScalarDouble

namespace BlockCone.Double

open Float.Model UnpackedFloat

/-! ### Mantissas -/

/-- The half steps in a mantissa with its round bit. -/
def halves (extended : ExtendedMantissa) : Nat :=
  2 * extended.mantissa + extended.roundBit.toNat

theorem halves_shiftRightOne (extended : ExtendedMantissa) :
    halves extended.shiftRightOne = halves extended / 2 := by
  obtain ⟨mantissa, round, sticky⟩ := extended
  simp only [halves, ExtendedMantissa.shiftRightOne]
  rcases Nat.mod_two_eq_zero_or_one mantissa with even | odd
  · cases round <;> simp [even] <;> omega
  · cases round <;> simp [odd] <;> omega

theorem halves_shiftRight (extended : ExtendedMantissa) (count : Nat) :
    halves (extended >>> count) = halves extended / 2 ^ count := by
  induction count with
  | zero => rw [Nat.pow_zero, Nat.div_one]; rfl
  | succ count inductionHypothesis =>
    have step : extended >>> (count + 1) = (extended >>> count).shiftRightOne := rfl
    rw [step, halves_shiftRightOne, inductionHypothesis, Nat.div_div_eq_div_mul, Nat.pow_succ]

/-- A mantissa is rounded to a neighbour, and up only if its round bit is set. -/
theorem roundedMantissa_bounds (extended : ExtendedMantissa) :
    halves extended / 2 ≤ extended.roundedMantissa ∧
      extended.roundedMantissa ≤ (halves extended + 1) / 2 := by
  obtain ⟨mantissa, round, sticky⟩ := extended
  cases round <;> cases sticky <;>
    simp only [halves, ExtendedMantissa.roundedMantissa, ExtendedMantissa.accuracy,
      Accuracy.roundToNearestEven, Bool.toNat_false, Bool.toNat_true] <;> omega

/-- The exponent that a mantissa with another exponent is rounded at. -/
def steppedExponent (mantissa : Nat) (exponent : Int) : Int :=
  max exponent (max (mantissa.log2 + exponent - 52) (-1074))

/-- What a mantissa is rounded to, before a carry. -/
def steppedMantissa (mantissa : Nat) (exponent : Int) (accuracy : Accuracy) : Nat :=
  (ExtendedMantissa.ofMantissaAndAccuracy mantissa accuracy >>>
    (steppedExponent mantissa exponent - exponent).toNat).roundedMantissa

theorem targetExponent_eq (total : Int) :
    Format.targetExponent .binary64 total = max (total - 53) (-1074) := rfl

theorem shiftToTargetExponent_eq (mantissa : Nat) (exponent : Int) (accuracy : Accuracy) :
    shiftToTargetExponent .binary64 mantissa exponent accuracy =
      (ExtendedMantissa.ofMantissaAndAccuracy mantissa accuracy >>>
        (steppedExponent mantissa exponent - exponent).toNat,
        steppedExponent mantissa exponent) := by
  have target : Format.targetExponent .binary64 (totalExponent mantissa exponent) =
      max (mantissa.log2 + exponent - 52) (-1074) := by
    rw [targetExponent_eq, totalExponent]
    omega
  have shift : (max ((mantissa.log2 : Int) + exponent - 52) (-1074) - exponent).toNat =
      (steppedExponent mantissa exponent - exponent).toNat := by
    rw [steppedExponent]
    omega
  have reached : exponent + ((steppedExponent mantissa exponent - exponent).toNat : Int) =
      steppedExponent mantissa exponent := by
    rw [steppedExponent]
    omega
  rw [shiftToTargetExponent, target, shiftToExponent, shift, reached]

/-- The half steps of a number that is known up to an accuracy. -/
theorem halves_exact (mantissa : Nat) :
    halves (.ofMantissaAndAccuracy mantissa .exact) = 2 * mantissa := rfl

theorem mantissa_eq (mantissa : Nat) (accuracy : Accuracy) :
    halves (.ofMantissaAndAccuracy mantissa accuracy) / 2 = mantissa := by
  cases accuracy with
  | exact => simp [halves, ExtendedMantissa.ofMantissaAndAccuracy]
  | inexact order =>
    cases order <;> simp [halves, ExtendedMantissa.ofMantissaAndAccuracy] <;> omega

theorem lt_two_pow_of_shift {mantissa : Nat} {exponent : Int} :
    mantissa < 2 ^ (53 + (steppedExponent mantissa exponent - exponent).toNat) := by
  refine Nat.lt_of_lt_of_le Nat.lt_log2_self (Nat.pow_le_pow_right Nat.two_pos ?_)
  rw [steppedExponent]
  omega

theorem steppedMantissa_bounds (mantissa : Nat) (exponent : Int) (accuracy : Accuracy) :
    mantissa / 2 ^ (steppedExponent mantissa exponent - exponent).toNat ≤
        steppedMantissa mantissa exponent accuracy ∧
      steppedMantissa mantissa exponent accuracy ≤
        (halves (.ofMantissaAndAccuracy mantissa accuracy) /
          2 ^ (steppedExponent mantissa exponent - exponent).toNat + 1) / 2 := by
  obtain ⟨least, most⟩ := roundedMantissa_bounds
    (ExtendedMantissa.ofMantissaAndAccuracy mantissa accuracy >>>
    (steppedExponent mantissa exponent - exponent).toNat)
  rw [halves_shiftRight] at least most
  rw [Nat.div_div_eq_div_mul, Nat.mul_comm, ← Nat.div_div_eq_div_mul, mantissa_eq] at least
  exact ⟨least, most⟩

/-- A rounded mantissa has 53 bits, or it is the least number with more. -/
theorem steppedMantissa_le (mantissa : Nat) (exponent : Int) (accuracy : Accuracy) :
    steppedMantissa mantissa exponent accuracy ≤ 2 ^ 53 := by
  have most := (steppedMantissa_bounds mantissa exponent accuracy).2
  have small : halves (.ofMantissaAndAccuracy mantissa accuracy) <
      2 ^ 54 * 2 ^ (steppedExponent mantissa exponent - exponent).toNat := by
    have bits := @lt_two_pow_of_shift mantissa exponent
    have whole := mantissa_eq mantissa accuracy
    rw [Nat.pow_add] at bits
    omega
  have quotient := Nat.div_lt_of_lt_mul (Nat.mul_comm _ _ ▸ small)
  omega

theorem shiftToTargetExponent_small {mantissa : Nat} {exponent : Int} (small : mantissa < 2 ^ 53)
    (high : -1074 ≤ exponent) :
    shiftToTargetExponent .binary64 mantissa exponent .exact =
      (⟨mantissa, false, false⟩, exponent) := by
  have bits : mantissa.log2 ≤ 52 := by
    rcases Nat.eq_zero_or_pos mantissa with rfl | positive
    · decide
    · exact Nat.le_of_lt_succ ((Nat.log2_lt (Nat.pos_iff_ne_zero.mp positive)).mpr small)
  have stays : steppedExponent mantissa exponent = exponent := by
    rw [steppedExponent]
    omega
  rw [shiftToTargetExponent_eq, stays, Int.sub_self]
  rfl

theorem shiftToTargetExponent_carry {exponent : Int} (high : -1074 ≤ exponent) :
    shiftToTargetExponent .binary64 (2 ^ 53) exponent .exact =
      (⟨2 ^ 52, false, false⟩, exponent + 1) := by
  have next : steppedExponent (2 ^ 53) exponent = exponent + 1 := by
    rw [steppedExponent, Nat.log2_two_pow]
    omega
  have one : (exponent + 1 - exponent).toNat = 1 := by omega
  rw [shiftToTargetExponent_eq, next, one]
  rfl

theorem le_steppedExponent (mantissa : Nat) (exponent : Int) :
    -1074 ≤ steppedExponent mantissa exponent := by
  rw [steppedExponent]
  omega

/-- Rounding gives the rounded mantissa, or moves it by a bit if it has one too many. -/
theorem roundWithAccuracy_eq (sign : Sign) (mantissa : Nat) (exponent : Int) (accuracy : Accuracy) :
    roundWithAccuracy .binary64 sign mantissa exponent accuracy =
      if zero : steppedMantissa mantissa exponent accuracy = 0 then .zero sign
      else if steppedMantissa mantissa exponent accuracy < 2 ^ 53 then
        .finite sign (steppedMantissa mantissa exponent accuracy)
          (steppedExponent mantissa exponent) (Nat.pos_of_ne_zero zero)
      else .finite sign (2 ^ 52) (steppedExponent mantissa exponent + 1) (by decide) := by
  have high := le_steppedExponent mantissa exponent
  have most := steppedMantissa_le mantissa exponent accuracy
  have first : (ExtendedMantissa.ofMantissaAndAccuracy mantissa accuracy >>>
      (steppedExponent mantissa exponent - exponent).toNat).roundedMantissa =
        steppedMantissa mantissa exponent accuracy := rfl
  rw [roundWithAccuracy, shiftToTargetExponent_eq]
  dsimp only
  rw [first]
  generalize steppedMantissa mantissa exponent accuracy = rounded at most
  by_cases small : rounded < 2 ^ 53
  · rw [shiftToTargetExponent_small small high]
    exact dite_congr rfl (fun _ => rfl) fun _ => (if_pos small).symm
  · obtain rfl : rounded = 2 ^ 53 := by omega
    rw [shiftToTargetExponent_carry high]
    rfl

/-! ### Limits -/

/-- A finite number of the format, of a magnitude within a limit. -/
inductive IsWithin (limit : ℚ) : UnpackedFloat → Prop where
  | zero (sign : Sign) : IsWithin limit (.zero sign)
  | finite {sign : Sign} {mantissa : Nat} {exponent : Int} {positive : 0 < mantissa} :
      mantissa < 2 ^ 53 → -1074 ≤ exponent → exponent ≤ 971 →
        (2 ^ 52 ≤ mantissa ∨ exponent = -1074) → (mantissa : ℚ) * 2 ^ exponent ≤ limit →
          IsWithin limit (.finite sign mantissa exponent positive)

theorem toNat_append_one (mantissa : BitVec 52) :
    (1#1 ++ mantissa).toNat = 2 ^ 52 + mantissa.toNat := by
  rw [BitVec.toNat_append, ← Nat.shiftLeft_add_eq_or_of_lt mantissa.isLt]
  rfl

section Fields

variable {bits : BitVec 64} {field : BitVec 11} {fraction : BitVec 52}

theorem unpack_normal (fields : @unpackExponent .binary64 bits = field)
    (fractions : @unpackMantissa .binary64 bits = fraction) (finite : field ≠ -1#11)
    (nonzero : field ≠ 0#11) :
    ∃ positive, UnpackedFloat.unpack .binary64 bits =
      .finite (.ofBitVec (@unpackSign .binary64 bits)) (1#1 ++ fraction).toNat
        (field.toNat - 1075) positive := by
  subst fields fractions
  exact ⟨_, (if_neg finite).trans (if_neg nonzero)⟩

theorem unpack_subnormal (fields : @unpackExponent .binary64 bits = 0#11)
    (fractions : @unpackMantissa .binary64 bits = fraction) (nonzero : fraction ≠ 0#52) :
    ∃ positive, UnpackedFloat.unpack .binary64 bits =
      .finite (.ofBitVec (@unpackSign .binary64 bits)) fraction.toNat (-1074) positive := by
  subst fractions
  have finite : @unpackExponent .binary64 bits ≠ -1#11 := by
    rw [fields]
    decide
  have least : ((@unpackExponent .binary64 bits).toNat : Int) - 1075 + 1 = -1074 := by
    rw [fields]
    rfl
  rw [← least]
  exact ⟨_, (if_neg finite).trans ((if_pos fields).trans (dif_neg nonzero))⟩

end Fields

section Packing

variable (sign : Sign) {mantissa : Nat} {exponent : Int} (positive : 0 < mantissa)

/-- A mantissa with all its digits is packed without the first of them, and any other as it is. -/
theorem pack_eq (low : exponent ≤ 971) :
    UnpackedFloat.pack .binary64 (.finite sign mantissa exponent positive) =
      if mantissa.log2 + 1 = 53 then
        packComponents .binary64 sign (BitVec.ofNat 11 (exponent + 1023 + 52).toNat)
          (BitVec.ofNat 52 mantissa)
      else packComponents .binary64 sign 0#11 (BitVec.ofNat 52 mantissa) := by
  have noOverflow : ¬ (2 ^ 11 ≤ (exponent + 1023 + 52).toNat + 1) := by omega
  exact if_neg noOverflow

theorem unpack_pack_normal (full : 2 ^ 52 ≤ mantissa) (small : mantissa < 2 ^ 53)
    (high : -1074 ≤ exponent) (low : exponent ≤ 971) :
    ∃ other, UnpackedFloat.unpack .binary64
        (UnpackedFloat.pack .binary64 (.finite sign mantissa exponent positive)) =
      .finite other mantissa exponent positive := by
  have bits : mantissa.log2 + 1 = 53 := by
    rw [(Nat.log2_eq_iff (Nat.pos_iff_ne_zero.mp positive)).mpr ⟨full, small⟩]
  have field : (BitVec.ofNat 11 (exponent + 1023 + 52).toNat).toNat = (exponent + 1075).toNat := by
    rw [BitVec.toNat_ofNat]
    omega
  have finite : BitVec.ofNat 11 (exponent + 1023 + 52).toNat ≠ -1#11 := by
    rw [ne_eq, ← BitVec.toNat_inj, field]
    show ¬ _ = 2047
    omega
  have nonzero : BitVec.ofNat 11 (exponent + 1023 + 52).toNat ≠ 0#11 := by
    rw [ne_eq, ← BitVec.toNat_inj, field]
    show ¬ _ = 0
    omega
  have whole : (1#1 ++ BitVec.ofNat 52 mantissa).toNat = mantissa := by
    rw [toNat_append_one, BitVec.toNat_ofNat]
    omega
  have back : ((BitVec.ofNat 11 (exponent + 1023 + 52).toNat).toNat : Int) - 1075 = exponent := by
    rw [field]
    omega
  rw [pack_eq sign positive low, if_pos bits]
  obtain ⟨_, same⟩ := unpack_normal unpackExponent_packComponents unpackMantissa_packComponents
    finite nonzero
  exact ⟨_, same.trans ((UnpackedFloat.finite.injEq ..).mpr ⟨rfl, whole, back⟩)⟩

theorem unpack_pack_subnormal (small : mantissa < 2 ^ 52) (least : exponent = -1074) :
    ∃ other, UnpackedFloat.unpack .binary64
        (UnpackedFloat.pack .binary64 (.finite sign mantissa exponent positive)) =
      .finite other mantissa exponent positive := by
  have bits : mantissa.log2 + 1 ≠ 53 := by
    have short := (Nat.log2_lt (Nat.pos_iff_ne_zero.mp positive)).mpr small
    omega
  have kept : (BitVec.ofNat 52 mantissa).toNat = mantissa := by
    rw [BitVec.toNat_ofNat]
    omega
  have nonzero : BitVec.ofNat 52 mantissa ≠ 0#52 := by
    rw [ne_eq, ← BitVec.toNat_inj, kept]
    exact Nat.pos_iff_ne_zero.mp positive
  rw [pack_eq sign positive (by omega), if_neg bits]
  obtain ⟨_, same⟩ := unpack_subnormal unpackExponent_packComponents
    unpackMantissa_packComponents nonzero
  exact ⟨_, same.trans ((UnpackedFloat.finite.injEq ..).mpr ⟨rfl, kept, least.symm⟩)⟩

end Packing

/-- Packing and unpacking keep the mantissa and the exponent of a number of the format. -/
theorem exists_unpack_pack_eq (sign : Sign) {mantissa : Nat} {exponent : Int}
    (positive : 0 < mantissa) (small : mantissa < 2 ^ 53) (high : -1074 ≤ exponent)
    (low : exponent ≤ 971) (full : 2 ^ 52 ≤ mantissa ∨ exponent = -1074) :
    ∃ other, UnpackedFloat.unpack .binary64
        (UnpackedFloat.pack .binary64 (.finite sign mantissa exponent positive)) =
      .finite other mantissa exponent positive := by
  by_cases normal : 2 ^ 52 ≤ mantissa
  · exact unpack_pack_normal sign positive normal small high low
  · exact unpack_pack_subnormal sign positive (Nat.not_le.mp normal) (full.resolve_left normal)

theorem IsWithin.unpack_pack {limit : ℚ} {number : UnpackedFloat}
    (isWithin : IsWithin limit number) :
    IsWithin limit (UnpackedFloat.unpack .binary64 (UnpackedFloat.pack .binary64 number)) := by
  cases isWithin with
  | zero sign => cases sign <;> exact .zero _
  | @finite sign mantissa exponent positive small high low full size =>
    obtain ⟨other, same⟩ := exists_unpack_pack_eq sign positive small high low full
    rw [same]
    exact .finite small high low full size

/-! ### Rounding within a limit -/

/-- What a number with a full mantissa stands for. -/
structure IsFull (steps : Nat) (power : Int) : Prop where
  least : 2 ^ 52 ≤ steps
  most : steps < 2 ^ 53
  high : -1074 ≤ power
  low : power ≤ 971

theorem two_zpow_pos (power : Int) : (0 : ℚ) < 2 ^ power :=
  zpow_pos (by decide) power

theorem magnitude_nonneg (mantissa : Nat) (exponent : Int) : (0 : ℚ) ≤ mantissa * 2 ^ exponent :=
  mul_nonneg (Nat.cast_nonneg _) (two_zpow_pos exponent).le

theorem two_zpow_add (left right : Int) : (2 : ℚ) ^ (left + right) = 2 ^ left * 2 ^ right :=
  zpow_add₀ (by decide) left right

theorem cast_mul_two_pow (steps count : Nat) :
    ((steps * 2 ^ count : Nat) : ℚ) = steps * 2 ^ (count : Int) := by
  rw [zpow_natCast]
  push_cast
  rfl

section Rounding

variable {steps : Nat} {power : Int} {mantissa : Nat} {exponent : Int} {accuracy : Accuracy}

/-- What stays within half a step above a number is not rounded at a higher exponent. -/
theorem steppedExponent_le (isFull : IsFull steps power)
    (full : 2 ^ 52 ≤ mantissa ∨ exponent ≤ -1074)
    (below : (halves (.ofMantissaAndAccuracy mantissa accuracy) : ℚ) * 2 ^ exponent <
      (2 * steps + 1 : Nat) * 2 ^ power) :
    steppedExponent mantissa exponent ≤ power := by
  have floor := isFull.high
  suffices leading : mantissa ≠ 0 → (mantissa.log2 : Int) + exponent - 52 ≤ power by
    rw [steppedExponent]
    rcases Nat.eq_zero_or_pos mantissa with rfl | positive
    · rw [Nat.log2_zero]
      omega
    · have reached := leading (Nat.pos_iff_ne_zero.mp positive)
      have bits : 2 ^ 52 ≤ mantissa → 52 ≤ mantissa.log2 :=
        (Nat.le_log2 (Nat.pos_iff_ne_zero.mp positive)).mpr
      omega
  intro nonzero
  have twice : 2 ^ (mantissa.log2 + 1) ≤ halves (.ofMantissaAndAccuracy mantissa accuracy) := by
    have whole := mantissa_eq mantissa accuracy
    have least := Nat.log2_self_le nonzero
    rw [Nat.pow_succ]
    omega
  have most : 2 * steps + 1 ≤ 2 ^ 54 := by
    have bound := isFull.most
    omega
  have powers : (2 : ℚ) ^ ((mantissa.log2 : Int) + 1 + exponent) < 2 ^ (54 + power) := by
    calc (2 : ℚ) ^ ((mantissa.log2 : Int) + 1 + exponent)
        = (2 ^ (mantissa.log2 + 1) : Nat) * 2 ^ exponent := by
          rw [two_zpow_add]
          norm_cast
      _ ≤ halves (.ofMantissaAndAccuracy mantissa accuracy) * 2 ^ exponent :=
          mul_le_mul_of_nonneg_right (Nat.cast_le.mpr twice) (two_zpow_pos exponent).le
      _ < (2 * steps + 1 : Nat) * 2 ^ power := below
      _ ≤ (2 ^ 54 : Nat) * 2 ^ power :=
          mul_le_mul_of_nonneg_right (Nat.cast_le.mpr most) (two_zpow_pos power).le
      _ = 2 ^ (54 + power) := by
          rw [two_zpow_add]
          norm_cast
  have exponents := (zpow_lt_zpow_iff_right₀ one_lt_two).mp powers
  omega

/-- A number that stays within half a step above a limit is rounded to one within the limit. -/
theorem steppedMantissa_mul_le (isFull : IsFull steps power)
    (full : 2 ^ 52 ≤ mantissa ∨ exponent ≤ -1074)
    (below : (halves (.ofMantissaAndAccuracy mantissa accuracy) : ℚ) * 2 ^ exponent <
      (2 * steps + 1 : Nat) * 2 ^ power) :
    (steppedMantissa mantissa exponent accuracy : ℚ) *
      2 ^ steppedExponent mantissa exponent ≤ steps * 2 ^ power := by
  have atMost := steppedExponent_le isFull full below
  have exponents : exponent ≤ steppedExponent mantissa exponent := by
    rw [steppedExponent]
    omega
  rcases Int.lt_or_eq_of_le atMost with lower | same
  · -- Below the exponent of the limit even the largest mantissa is within it.
    have next : steppedExponent mantissa exponent + 1 ≤ power := lower
    calc (steppedMantissa mantissa exponent accuracy : ℚ) * 2 ^ steppedExponent mantissa exponent
        ≤ (2 ^ 53 : Nat) * 2 ^ steppedExponent mantissa exponent :=
          mul_le_mul_of_nonneg_right (Nat.cast_le.mpr (steppedMantissa_le _ _ _))
            (two_zpow_pos _).le
      _ = (2 ^ 52 : Nat) * 2 ^ (steppedExponent mantissa exponent + 1) := by
          rw [two_zpow_add]
          push_cast
          ring
      _ ≤ (2 ^ 52 : Nat) * 2 ^ power :=
          mul_le_mul_of_nonneg_left (zpow_le_zpow_right₀ one_le_two next) (Nat.cast_nonneg _)
      _ ≤ steps * 2 ^ power :=
          mul_le_mul_of_nonneg_right (Nat.cast_le.mpr isFull.least) (two_zpow_pos power).le
  · -- At the exponent of the limit the half steps of the number are counted.
    have shift :
        ((steppedExponent mantissa exponent - exponent).toNat : Int) + exponent = power := by
      omega
    have counted : halves (.ofMantissaAndAccuracy mantissa accuracy) <
        (2 * steps + 1) * 2 ^ (steppedExponent mantissa exponent - exponent).toNat := by
      rw [← shift, two_zpow_add, zpow_natCast, ← mul_assoc] at below
      exact_mod_cast lt_of_mul_lt_mul_right below (two_zpow_pos exponent).le
    have quotient := Nat.div_lt_of_lt_mul (Nat.mul_comm _ _ ▸ counted)
    have most := (steppedMantissa_bounds mantissa exponent accuracy).2
    have rounded : steppedMantissa mantissa exponent accuracy ≤ steps := by omega
    rw [same]
    exact mul_le_mul_of_nonneg_right (Nat.cast_le.mpr rounded) (two_zpow_pos power).le

/-- A rounded mantissa is full, except at the least exponent. -/
theorem steppedMantissa_full (full : 2 ^ 52 ≤ mantissa ∨ exponent ≤ -1074) :
    2 ^ 52 ≤ steppedMantissa mantissa exponent accuracy ∨
      steppedExponent mantissa exponent = -1074 := by
  by_cases least : steppedExponent mantissa exponent = -1074
  · exact Or.inr least
  · refine Or.inl (Nat.le_trans ?_ (steppedMantissa_bounds mantissa exponent accuracy).1)
    rw [Nat.le_div_iff_mul_le (Nat.two_pow_pos _), ← Nat.pow_add]
    rcases Nat.eq_zero_or_pos mantissa with rfl | positive
    · rw [steppedExponent, Nat.log2_zero] at least
      omega
    · have bits : 2 ^ 52 ≤ mantissa → 52 ≤ mantissa.log2 :=
        (Nat.le_log2 (Nat.pos_iff_ne_zero.mp positive)).mpr
      have shift : 52 + (steppedExponent mantissa exponent - exponent).toNat = mantissa.log2 := by
        rw [steppedExponent] at least ⊢
        omega
      rw [shift]
      exact Nat.log2_self_le (Nat.pos_iff_ne_zero.mp positive)

theorem isWithin_roundWithAccuracy (sign : Sign) (isFull : IsFull steps power)
    (full : 2 ^ 52 ≤ mantissa ∨ exponent ≤ -1074)
    (below : (halves (.ofMantissaAndAccuracy mantissa accuracy) : ℚ) * 2 ^ exponent <
      (2 * steps + 1 : Nat) * 2 ^ power) :
    IsWithin (steps * 2 ^ power)
      (roundWithAccuracy .binary64 sign mantissa exponent accuracy) := by
  have atMost := steppedExponent_le isFull full below
  have size := steppedMantissa_mul_le isFull full below
  have high := le_steppedExponent mantissa exponent
  have low := isFull.low
  rw [roundWithAccuracy_eq]
  by_cases zero : steppedMantissa mantissa exponent accuracy = 0
  · rw [dif_pos zero]
    exact .zero sign
  · rw [dif_neg zero]
    by_cases small : steppedMantissa mantissa exponent accuracy < 2 ^ 53
    · rw [if_pos small]
      exact .finite small high (Int.le_trans atMost low) (steppedMantissa_full full) size
    · rw [if_neg small]
      have carried : steppedMantissa mantissa exponent accuracy = 2 ^ 53 :=
        Nat.le_antisymm (steppedMantissa_le _ _ _) (Nat.not_lt.mp small)
      rw [carried] at size
      have lower : steppedExponent mantissa exponent < power := by
        have strict : ((2 ^ 53 : Nat) : ℚ) * 2 ^ steppedExponent mantissa exponent <
            (2 ^ 53 : Nat) * 2 ^ power :=
          size.trans_lt
            (mul_lt_mul_of_pos_right (Nat.cast_lt.mpr isFull.most) (two_zpow_pos power))
        exact (zpow_lt_zpow_iff_right₀ one_lt_two).mp
          (lt_of_mul_lt_mul_left strict (Nat.cast_nonneg _))
      have moved : ((2 ^ 52 : Nat) : ℚ) * 2 ^ (steppedExponent mantissa exponent + 1) =
          (2 ^ 53 : Nat) * 2 ^ steppedExponent mantissa exponent := by
        rw [two_zpow_add]
        push_cast
        ring
      exact .finite (by decide) (by omega) (by omega) (Or.inl (Nat.le_refl _)) (moved.trans_le size)

end Rounding

/-- The largest double. -/
def greatest : Nat := (2 ^ 53 - 1) * 2 ^ 971

theorem isFull_greatest : IsFull (2 ^ 53 - 1) 971 :=
  ⟨by decide, by decide, by decide, by decide⟩

/-- The largest power of ten among the doubles, in quarters of the steps between those around it. -/
theorem pow_ten_between :
    20041683600089726 * 2 ^ 969 < 10 ^ 308 ∧ 10 ^ 308 ≤ 20041683600089728 * 2 ^ 969 := by
  decide +kernel

theorem greatest_eq : greatest = 36028797018963964 * 2 ^ 969 := by
  have quarters := Nat.pow_add 2 2 969
  rw [greatest]
  omega

/-! ### Operations within a limit -/

section Operations

variable {steps : Nat} {power : Int}

/-- A double within a limit is finite. -/
def AtMost (limit : ℚ) (value : Float) : Prop :=
  IsWithin limit value.toModel.unpack

theorem IsWithin.mono {limit higher : ℚ} {number : UnpackedFloat} (isWithin : IsWithin limit number)
    (atMost : limit ≤ higher) : IsWithin higher number := by
  cases isWithin with
  | zero sign => exact .zero sign
  | finite small high low full size => exact .finite small high low full (size.trans atMost)

theorem IsWithin.isFinite {limit : ℚ} {number : UnpackedFloat} (isWithin : IsWithin limit number) :
    number.isFinite = true := by
  cases isWithin <;> rfl

theorem AtMost.isFinite {limit : ℚ} {value : Float} (atMost : AtMost limit value) :
    value.isFinite = true :=
  IsWithin.isFinite atMost

theorem IsWithin.mul {first second : ℚ} {left right : UnpackedFloat} (isFull : IsFull steps power)
    (leftWithin : IsWithin first left) (rightWithin : IsWithin second right)
    (below : 2 * (first * second) < (2 * steps + 1 : Nat) * 2 ^ power) :
    IsWithin (steps * 2 ^ power) (mul .binary64 left right) := by
  cases leftWithin with
  | zero sign => cases rightWithin <;> exact .zero _
  | @finite sign mantissa exponent positive small high low full size =>
    cases rightWithin with
    | zero other => exact .zero _
    | @finite other otherMantissa otherExponent otherPositive otherSmall otherHigh otherLow
        otherFull otherSize =>
      refine isWithin_roundWithAccuracy (sign * other) isFull ?_ ?_
      · rcases full with full | least
        · exact Or.inl (Nat.le_trans full (Nat.le_mul_of_pos_right _ otherPositive))
        · rcases otherFull with otherFull | otherLeast
          · exact Or.inl (Nat.le_trans otherFull (Nat.le_mul_of_pos_left _ positive))
          · exact Or.inr (by omega)
      · refine Eq.trans_lt ?_ ((mul_le_mul_of_nonneg_left
          (mul_le_mul size otherSize (magnitude_nonneg _ _) ((magnitude_nonneg _ _).trans size))
            zero_le_two).trans_lt below)
        rw [halves_exact, two_zpow_add]
        push_cast
        ring

theorem AtMost.mul {first second : ℚ} {left right : Float} (isFull : IsFull steps power)
    (leftAtMost : AtMost first left) (rightAtMost : AtMost second right)
    (below : 2 * (first * second) < (2 * steps + 1 : Nat) * 2 ^ power) :
    AtMost (steps * 2 ^ power) (left * right) :=
  (IsWithin.mul isFull leftAtMost rightAtMost below).unpack_pack

/-- Taking the other sign changes no magnitude. -/
theorem AtMost.neg {limit : ℚ} {value : Float} (atMost : AtMost limit value) :
    AtMost limit (-value) := by
  have negated : IsWithin limit value.toModel.unpack.neg := by
    rw [AtMost] at atMost
    generalize value.toModel.unpack = number at atMost
    cases atMost with
    | zero sign => exact .zero _
    | finite small high low full size => exact .finite small high low full size
  exact negated.unpack_pack

/-- The half steps of a quotient, times the divisor, are at most twice the dividend. -/
theorem halves_quotient_mul_le (dividend : Nat) {divisor : Nat} :
    halves (.ofMantissaAndAccuracy (dividend / divisor)
      (accuracyOfFraction (dividend % divisor) divisor)) * divisor ≤ 2 * dividend := by
  have whole : 2 * (dividend / divisor) * divisor + 2 * (dividend % divisor) = 2 * dividend := by
    rw [Nat.mul_assoc, ← Nat.mul_add, Nat.div_add_mod']
  have lower : 2 * (dividend / divisor) * divisor ≤ 2 * dividend := by omega
  rw [accuracyOfFraction]
  split
  · exact lower
  · cases order : compare (2 * (dividend % divisor)) divisor with
    | lt => exact lower
    | eq | gt =>
      have half : divisor ≤ 2 * (dividend % divisor) :=
        Nat.isLE_compare.mp (by rw [← Nat.compare_swap, order]; rfl)
      show (2 * (dividend / divisor) + 1) * divisor ≤ 2 * dividend
      rw [Nat.add_mul, Nat.one_mul]
      omega

/-- The quotient of a mantissa, shifted for the purpose, is full unless its exponent is small. -/
theorem divCore_full {mantissa divisor : Nat} (positive : 0 < mantissa) (nonzero : 0 < divisor)
    (exponent other : Int) :
    2 ^ 52 ≤ (divCore .binary64 mantissa exponent divisor other).1 ∨
      (divCore .binary64 mantissa exponent divisor other).2.1 ≤ -1074 := by
  rw [divCore]
  simp only [targetExponent_eq, totalExponent]
  generalize target : min (exponent - other) _ = least
  by_cases small : least ≤ -1074
  · exact Or.inr small
  · refine Or.inl ((Nat.le_div_iff_mul_le nonzero).mpr ?_)
    have shift : divisor.log2 + 53 ≤ mantissa.log2 + (exponent - other - least).toNat := by omega
    calc 2 ^ 52 * divisor
        ≤ 2 ^ 52 * 2 ^ (divisor.log2 + 1) := Nat.mul_le_mul_left _ Nat.lt_log2_self.le
      _ = 2 ^ (divisor.log2 + 53) := by rw [← Nat.pow_add]; congr 1; omega
      _ ≤ 2 ^ (mantissa.log2 + (exponent - other - least).toNat) :=
          Nat.pow_le_pow_right Nat.two_pos shift
      _ = 2 ^ mantissa.log2 * 2 ^ (exponent - other - least).toNat := Nat.pow_add ..
      _ ≤ mantissa * 2 ^ (exponent - other - least).toNat :=
          Nat.mul_le_mul_right _ (Nat.log2_self_le (Nat.pos_iff_ne_zero.mp positive))
      _ = mantissa <<< (exponent - other - least).toNat := (Nat.shiftLeft_eq ..).symm

/-- What the half steps of a quotient say of the dividend. -/
theorem divCore_mul_le (mantissa divisor : Nat) (exponent other : Int) :
    (halves (.ofMantissaAndAccuracy (divCore .binary64 mantissa exponent divisor other).1
        (divCore .binary64 mantissa exponent divisor other).2.2) : ℚ) *
          2 ^ (divCore .binary64 mantissa exponent divisor other).2.1 * (divisor * 2 ^ other) ≤
      2 * (mantissa * 2 ^ exponent) := by
  rw [divCore]
  simp only
  generalize target : min (exponent - other) _ = least
  have split : ((exponent - other - least).toNat : Int) + (least + other) = exponent := by omega
  have counted := @halves_quotient_mul_le (mantissa <<< (exponent - other - least).toNat) divisor
  rw [Nat.shiftLeft_eq] at counted ⊢
  calc (halves _ : ℚ) * 2 ^ least * (divisor * 2 ^ other)
      = (halves _ * divisor : Nat) * 2 ^ (least + other) := by
        rw [two_zpow_add]
        push_cast
        ring
    _ ≤ (2 * (mantissa * 2 ^ (exponent - other - least).toNat) : Nat) * 2 ^ (least + other) :=
        mul_le_mul_of_nonneg_right (Nat.cast_le.mpr counted) (two_zpow_pos _).le
    _ = 2 * (mantissa * 2 ^ exponent) := by
        conv_rhs => rw [← split, two_zpow_add, zpow_natCast]
        push_cast
        ring

/-- Dividing by a number that is not below one stays within a limit. -/
theorem IsWithin.div {left : UnpackedFloat} (isFull : IsFull steps power)
    (leftWithin : IsWithin (steps * 2 ^ power) left) (sign : Sign) {divisor : Nat} {other : Int}
    (positive : 0 < divisor) (least : (1 : ℚ) ≤ divisor * 2 ^ other) :
    IsWithin (steps * 2 ^ power) (div .binary64 left (.finite sign divisor other positive)) := by
  cases leftWithin with
  | zero own => exact .zero _
  | @finite own mantissa exponent nonzero small high low full size =>
    refine isWithin_roundWithAccuracy (own / sign) isFull
      (divCore_full nonzero positive exponent other) ?_
    calc (halves _ : ℚ) * 2 ^ (divCore .binary64 mantissa exponent divisor other).2.1
        ≤ (halves _ : ℚ) * 2 ^ (divCore .binary64 mantissa exponent divisor other).2.1 *
            (divisor * 2 ^ other) :=
          le_mul_of_one_le_right (magnitude_nonneg _ _) least
      _ ≤ 2 * (mantissa * 2 ^ exponent) := divCore_mul_le mantissa divisor exponent other
      _ ≤ 2 * (steps * 2 ^ power) := mul_le_mul_of_nonneg_left size zero_le_two
      _ < (2 * steps + 1 : Nat) * 2 ^ power := by
          rw [← mul_assoc]
          exact mul_lt_mul_of_pos_right (by exact_mod_cast Nat.lt_succ_self _) (two_zpow_pos power)

/-- A double that is not below one. -/
def AtLeastOne (value : Float) : Prop :=
  ∃ sign mantissa exponent, ∃ positive : 0 < mantissa,
    value.toModel.unpack = .finite sign mantissa exponent positive ∧
      (1 : ℚ) ≤ mantissa * 2 ^ exponent

theorem AtMost.div {value divisor : Float} (isFull : IsFull steps power)
    (atMost : AtMost (steps * 2 ^ power) value) (atLeastOne : AtLeastOne divisor) :
    AtMost (steps * 2 ^ power) (value / divisor) := by
  obtain ⟨sign, mantissa, exponent, positive, number, least⟩ := atLeastOne
  have quotient := IsWithin.div isFull atMost sign positive least
  rw [← number] at quotient
  exact quotient.unpack_pack

/-! ### Natural numbers within a limit -/

theorem two_mul_lt_of_le {number : ℚ} (atMost : number ≤ steps * 2 ^ power) :
    2 * number < (2 * steps + 1 : Nat) * 2 ^ power := by
  calc 2 * number
      ≤ 2 * (steps * 2 ^ power) := mul_le_mul_of_nonneg_left atMost zero_le_two
    _ = (2 * steps : Nat) * 2 ^ power := by
        push_cast
        ring
    _ < (2 * steps + 1 : Nat) * 2 ^ power :=
        mul_lt_mul_of_pos_right (Nat.cast_lt.mpr (Nat.lt_succ_self _)) (two_zpow_pos power)

/-- A natural number that is shifted until it is full is rounded to one within its limits. -/
theorem isWithin_shifted (sign : Sign) (isFull : IsFull steps power) {value count : Nat}
    (full : 2 ^ 52 ≤ value * 2 ^ count) (atMost : (value : ℚ) ≤ steps * 2 ^ power) :
    IsWithin (steps * 2 ^ power)
      (roundWithAccuracy .binary64 sign (value * 2 ^ count) (-count) .exact) := by
  refine isWithin_roundWithAccuracy sign isFull (Or.inl full) ?_
  have same : (halves (.ofMantissaAndAccuracy (value * 2 ^ count) .exact) : ℚ) *
      2 ^ (-count : Int) = 2 * value := by
    have inverse : (2 : ℚ) ^ count * 2 ^ (-count : Int) = 1 := by
      rw [← zpow_natCast, ← two_zpow_add, Int.add_right_neg, zpow_zero]
    rw [halves_exact]
    push_cast
    rw [mul_assoc, mul_assoc, inverse, mul_one]
  exact same.trans_lt (two_mul_lt_of_le atMost)

theorem isWithin_ofNat (isFull : IsFull steps power) {value : Nat}
    (atMost : (value : ℚ) ≤ steps * 2 ^ power) :
    IsWithin (steps * 2 ^ power) (UnpackedFloat.ofNat .binary64 value) := by
  rw [UnpackedFloat.ofNat, UnpackedFloat.ofInt, UnpackedFloat.normalize]
  rcases Nat.eq_zero_or_pos value with rfl | positive
  · exact .zero _
  · have order : compare (value : Int) 0 = .gt :=
      Int.compare_eq_gt.mpr (Int.natCast_pos.mpr positive)
    have target : Format.targetExponent .binary64 (totalExponent value 0) =
        max ((value.log2 : Int) - 52) (-1074) := by
      rw [targetExponent_eq, totalExponent]
      omega
    rw [order]
    simp only [Int.toNat_natCast, UnpackedFloat.round, target, decreaseExponent,
      Nat.shiftLeft_eq, Int.zero_sub]
    refine isWithin_shifted .positive isFull ?_ atMost
    have least := Nat.log2_self_le (Nat.pos_iff_ne_zero.mp positive)
    calc 2 ^ 52
        ≤ 2 ^ (value.log2 + (-max ((value.log2 : Int) - 52) (-1074)).toNat) :=
          Nat.pow_le_pow_right Nat.two_pos (by omega)
      _ = 2 ^ value.log2 * 2 ^ (-max ((value.log2 : Int) - 52) (-1074)).toNat := Nat.pow_add ..
      _ ≤ value * 2 ^ (-max ((value.log2 : Int) - 52) (-1074)).toNat :=
          Nat.mul_le_mul_right _ least

/-- A large number written without a fraction is its digits times a power of ten, rounded. -/
theorem ofScientific_eq {value : Nat} (nonzero : value ≠ 0) {exponent : Nat}
    (inRange : exponent ≤ 2 ^ 11) :
    UnpackedFloat.ofScientific .binary64 value exponent =
      roundWithAccuracy .binary64 .positive (value * 10 ^ exponent * 2 ^ 53) (-(53 : Nat))
        .exact := by
  have notHigh : ¬ (exponent : Int) > (2 : Int) ^ 11 := by
    have power : (2 : Int) ^ 11 = (2 ^ 11 : Nat) := rfl
    omega
  have notLow : ¬ (exponent : Int) < -((2 : Int) ^ 11 + value.log2) := by omega
  have shifted : value <<< 53 * 10 ^ exponent = value * 10 ^ exponent * 2 ^ 53 := by
    rw [Nat.shiftLeft_eq, Nat.mul_right_comm]
  rw [UnpackedFloat.ofScientific, dif_neg nonzero, if_neg notHigh, if_neg notLow,
    if_pos (Int.natCast_nonneg exponent), ← shifted]
  rfl

theorem full_of_pos {value : Nat} (positive : 0 < value) : 2 ^ 52 ≤ value * 2 ^ 53 := by
  omega

theorem isWithin_ofScientific (isFull : IsFull steps power) {value exponent : Nat}
    (inRange : exponent ≤ 2 ^ 11)
    (atMost : ((value * 10 ^ exponent : Nat) : ℚ) ≤ steps * 2 ^ power) :
    IsWithin (steps * 2 ^ power) (UnpackedFloat.ofScientific .binary64 value exponent) := by
  rcases Nat.eq_zero_or_pos value with rfl | positive
  · exact .zero _
  · rw [ofScientific_eq positive.ne' inRange]
    exact isWithin_shifted .positive isFull
      (full_of_pos (Nat.mul_pos positive (Nat.pow_pos (by decide)))) atMost

/-- A number that is large before it is rounded is large after. -/
theorem exists_roundWithAccuracy_eq (sign : Sign) {mantissa : Nat} {exponent : Int}
    (large : 2 ^ 52 ≤ mantissa) (high : 0 ≤ steppedExponent mantissa exponent)
    (accuracy : Accuracy) :
    ∃ (rounded : Nat) (stepped : Int) (positive : 0 < rounded),
      roundWithAccuracy .binary64 sign mantissa exponent accuracy =
        .finite sign rounded stepped positive ∧ 0 ≤ stepped := by
  have full : 2 ^ 52 ≤ steppedMantissa mantissa exponent accuracy :=
    (steppedMantissa_full (Or.inl large)).resolve_right (by omega)
  have nonzero : steppedMantissa mantissa exponent accuracy ≠ 0 := by omega
  rw [roundWithAccuracy_eq, dif_neg nonzero]
  by_cases small : steppedMantissa mantissa exponent accuracy < 2 ^ 53
  · rw [if_pos small]
    exact ⟨_, _, Nat.pos_of_ne_zero nonzero, rfl, high⟩
  · rw [if_neg small]
    exact ⟨_, _, by decide, rfl, by omega⟩

theorem atLeastOne_ofScientific (isFull : IsFull steps power) {value exponent : Nat}
    (inRange : exponent ≤ 2 ^ 11) (large : 2 ^ 52 ≤ value * 10 ^ exponent)
    (atMost : ((value * 10 ^ exponent : Nat) : ℚ) ≤ steps * 2 ^ power) :
    ∃ sign mantissa exponent', ∃ positive : 0 < mantissa,
      UnpackedFloat.unpack .binary64 (UnpackedFloat.pack .binary64
        (UnpackedFloat.ofScientific .binary64 value exponent)) =
          .finite sign mantissa exponent' positive ∧
        (1 : ℚ) ≤ mantissa * 2 ^ exponent' := by
  have nonzero : value ≠ 0 := by
    rintro rfl
    omega
  have isWithin := isWithin_ofScientific isFull inRange atMost
  have bits : 52 + 53 ≤ (value * 10 ^ exponent * 2 ^ 53).log2 := by
    rw [Nat.le_log2 (by omega), Nat.pow_add]
    exact Nat.mul_le_mul_right _ large
  have stepped : 0 ≤ steppedExponent (value * 10 ^ exponent * 2 ^ 53) (-(53 : Nat)) := by
    rw [steppedExponent]
    omega
  obtain ⟨rounded, raised, positive, same, high⟩ :=
    exists_roundWithAccuracy_eq .positive (full_of_pos (by omega)) stepped .exact
  rw [ofScientific_eq nonzero inRange, same] at isWithin ⊢
  cases isWithin with
  | finite small least low full size =>
    obtain ⟨other, kept⟩ := exists_unpack_pack_eq .positive positive small least low full
    refine ⟨other, rounded, raised, positive, kept, ?_⟩
    exact one_le_mul_of_one_le_of_one_le (by exact_mod_cast positive)
      (one_le_zpow₀ one_le_two high)

theorem one_atMost : AtMost 1 (Float.ofBits 0x3FF0000000000000) := by
  have number : (Float.ofBits 0x3FF0000000000000).toModel.unpack =
      .finite .positive (2 ^ 52) (-52) (by decide) := rfl
  rw [AtMost, number]
  refine .finite (by decide) (by decide) (by decide) (Or.inl (Nat.le_refl _)) (le_of_eq ?_)
  norm_num

/-- A natural number that is no larger than a double is read as one that is not. -/
theorem atMost_ofNat (isFull : IsFull steps power) {value : Nat}
    (atMost : (value : ℚ) ≤ steps * 2 ^ power) :
    AtMost (steps * 2 ^ power) (Float.ofNat value) := by
  show AtMost _ (Float.ofScientific value false 0)
  rw [Float.ofScientific]
  split
  · rename_i small
    have same : value.toUInt64.toNat = value := by
      rw [Nat.toUInt64, UInt64.toNat_ofNat']
      omega
    have whole : AtMost (steps * 2 ^ power) value.toUInt64.toFloat := by
      have number := isWithin_ofNat isFull atMost
      rw [← same] at number
      exact number.unpack_pack
    show AtMost _ (value.toUInt64.toFloat * Float.ofBits 0x3FF0000000000000)
    exact whole.mul isFull one_atMost (by
      rw [mul_one]
      exact two_mul_lt_of_le (le_refl _))
  · show IsWithin _ (UnpackedFloat.unpack .binary64 (UnpackedFloat.pack .binary64
      (UnpackedFloat.ofScientific .binary64 value (0 : Nat))))
    refine (isWithin_ofScientific isFull (Nat.zero_le _) ?_).unpack_pack
    rwa [Nat.pow_zero, Nat.mul_one]

end Operations

end BlockCone.Double
