/-
This file proves which numbers are read without leaving the range of doubles.

A number is read as its first digits, as many as fit into 64 bits, times a power of ten, or divided
by one, where digits and power are doubles already. Division never leaves the range. Multiplication
does only if the rounded product is above the largest double, and that depends on how far the double
of a power of ten is from the power. Rounding a natural number below a double stays below it, and
there is a double not more than an eighth above any natural number, so the double of a power is at
most an eighth too large. This is enough for digits whose product with the power stays below the
largest power of ten. For the largest exponent there is no such room. Then each count of digits has
a bound for its digits, the largest double cut to that many places, and whether the product with the
power is within range is evaluated for that bound.
-/

import BlockCone.Json.Number
import BlockCone.Proofs.RoundedDoubles

namespace BlockCone.Json

open Double Float.Model UnpackedFloat

/-! ### Limits that are evaluated -/

/-- Whether a double is a number from one up to a whole limit. -/
def fits (limit : Nat) (value : Float) : Bool :=
  match value.toModel.unpack with
  | .finite _ mantissa exponent _ =>
      decide (2 ^ 52 ≤ mantissa) && decide (mantissa < 2 ^ 53) && decide (-1074 ≤ exponent) &&
        decide (exponent ≤ 971) &&
        decide (2 ^ (-exponent).toNat ≤ mantissa * 2 ^ exponent.toNat) &&
        decide (mantissa * 2 ^ exponent.toNat ≤ limit * 2 ^ (-exponent).toNat)
  | _ => false

theorem two_zpow_eq (exponent : Int) :
    (2 : ℚ) ^ exponent = 2 ^ exponent.toNat / 2 ^ (-exponent).toNat := by
  rw [← zpow_natCast, ← zpow_natCast, ← zpow_sub₀ two_ne_zero]
  congr 1
  omega

theorem atMost_of_fits {limit : Nat} {value : Float} (holds : fits limit value = true) :
    AtMost limit value ∧ AtLeastOne value := by
  rw [fits] at holds
  cases number : value.toModel.unpack with
  | finite sign mantissa exponent positive =>
    rw [number] at holds
    simp only [Bool.and_eq_true, decide_eq_true_eq] at holds
    obtain ⟨⟨⟨⟨⟨full, small⟩, high⟩, low⟩, least⟩, most⟩ := holds
    have divisor : (0 : ℚ) < 2 ^ (-exponent).toNat := pow_pos two_pos _
    refine ⟨?_, sign, mantissa, exponent, positive, number, ?_⟩
    · rw [AtMost, number]
      refine .finite small high low (Or.inl full) ?_
      rw [two_zpow_eq, ← mul_div_assoc, div_le_iff₀ divisor]
      exact_mod_cast most
    · rw [two_zpow_eq, ← mul_div_assoc, one_le_div₀ divisor]
      exact_mod_cast least
  | notANumber | infinity | zero =>
    rw [number] at holds
    cases holds

/-! ### Natural numbers that are doubles -/

/-- A natural number that is a double. -/
def IsDouble (value : Nat) : Prop :=
  ∃ (steps : Nat) (power : Int), IsFull steps power ∧ (value : ℚ) = steps * 2 ^ power

theorem isDouble_mul_of_log2 {steps count : Nat} (positive : 0 < steps) (small : steps < 2 ^ 53)
    (inRange : steps.log2 + count ≤ 1023) : IsDouble (steps * 2 ^ count) := by
  have bits : steps.log2 < 53 := (Nat.log2_lt (Nat.pos_iff_ne_zero.mp positive)).mpr small
  refine ⟨steps * 2 ^ (52 - steps.log2), count - (52 - steps.log2 : Nat), ⟨?_, ?_, ?_, ?_⟩, ?_⟩
  · calc 2 ^ 52
        = 2 ^ steps.log2 * 2 ^ (52 - steps.log2) := by rw [← Nat.pow_add]; congr 1; omega
      _ ≤ steps * 2 ^ (52 - steps.log2) :=
          Nat.mul_le_mul_right _ (Nat.log2_self_le (Nat.pos_iff_ne_zero.mp positive))
  · calc steps * 2 ^ (52 - steps.log2)
        < 2 ^ (steps.log2 + 1) * 2 ^ (52 - steps.log2) :=
          Nat.mul_lt_mul_of_pos_right Nat.lt_log2_self (Nat.two_pow_pos _)
      _ = 2 ^ 53 := by rw [← Nat.pow_add]; congr 1; omega
  · omega
  · omega
  · have split : ((52 - steps.log2 : Nat) : Int) + (count - (52 - steps.log2 : Nat)) = count := by
      omega
    push_cast
    rw [mul_assoc, ← zpow_natCast (2 : ℚ) (52 - steps.log2), ← two_zpow_add, split, zpow_natCast]

theorem isDouble_mul {steps count : Nat} (positive : 0 < steps) (small : steps < 2 ^ 53)
    (inRange : count ≤ 971) : IsDouble (steps * 2 ^ count) := by
  have bits : steps.log2 < 53 := (Nat.log2_lt (Nat.pos_iff_ne_zero.mp positive)).mpr small
  exact isDouble_mul_of_log2 positive small (by omega)

theorem isDouble_of_lt {value : Nat} (positive : 0 < value) (small : value < 2 ^ 53) :
    IsDouble value := by
  have whole := @isDouble_mul value 0 positive small (Nat.zero_le _)
  rwa [Nat.pow_zero, Nat.mul_one] at whole

/-- A power of ten is a double if its fives fit into a mantissa. -/
theorem isDouble_pow_ten {count : Nat} (small : count ≤ 22) : IsDouble (10 ^ count) := by
  have fives : 5 ^ count < 2 ^ 53 :=
    Nat.lt_of_le_of_lt (Nat.pow_le_pow_right (by decide) small) (by decide)
  rw [show 10 = 5 * 2 from rfl, Nat.mul_pow]
  exact isDouble_mul (Nat.pow_pos (by decide)) fives (by omega)

theorem atMost_ofNat_of_le {value limit : Nat} (isDouble : IsDouble limit) (small : value ≤ limit) :
    AtMost limit (Float.ofNat value) := by
  obtain ⟨steps, power, isFull, same⟩ := isDouble
  rw [same]
  exact atMost_ofNat isFull (same ▸ Nat.cast_le.mpr small)

/-- Not more than an eighth above a natural number there is a double. -/
theorem exists_isDouble_near {value : Nat} (least : 3 ≤ value.log2) (most : value.log2 ≤ 1022) :
    ∃ limit, IsDouble limit ∧ value ≤ limit ∧ limit ≤ value + value / 8 := by
  have nonzero : value ≠ 0 := by
    rintro rfl
    exact absurd least (by decide)
  obtain ⟨count, split⟩ := Nat.exists_eq_add_of_le least
  have low : 8 * 2 ^ count ≤ value := by
    have power := Nat.log2_self_le nonzero
    rwa [split, Nat.pow_add] at power
  have high : value < 2 ^ count * 16 := by
    have power := @Nat.lt_log2_self value
    rwa [split, Nat.add_right_comm, Nat.add_comm, Nat.pow_add] at power
  have few : value / 2 ^ count < 16 := Nat.div_lt_of_lt_mul high
  have bits : (value / 2 ^ count + 1).log2 < 5 := (Nat.log2_lt (Nat.succ_ne_zero _)).mpr (by omega)
  have eighth : 2 ^ count ≤ value / 8 := by omega
  have whole := Nat.div_add_mod' value (2 ^ count)
  have rest := Nat.mod_lt value (Nat.two_pow_pos count)
  refine ⟨(value / 2 ^ count + 1) * 2 ^ count,
    isDouble_mul_of_log2 (Nat.succ_pos _) (by omega) (by omega), ?_, ?_⟩
  · rw [Nat.add_mul]
    omega
  · rw [Nat.add_mul]
    omega

/-! ### Powers of ten -/

theorem lower_pow_ten_lt : 10 ^ (largestPower - 1) < 2 ^ 1023 := by
  have between := pow_ten_between.2
  have tens := Nat.pow_add 10 307 1
  have quarters := Nat.pow_add 2 54 969
  rw [largestPower]
  omega

/-- The powers of ten from a table, and the largest. -/
theorem fits_powers :
    (308 :: List.range 23).all (fun e => fits (10 ^ e + 10 ^ e / 8) (powerOfTen e)) = true := by
  decide +kernel

/-- A power of ten is read as a double that is not below one and at most an eighth too large. -/
theorem powerOfTen_bounds {exponent : Nat} (small : exponent ≤ largestPower) :
    AtMost ((10 ^ exponent + 10 ^ exponent / 8 : Nat) : ℚ) (powerOfTen exponent) ∧
      AtLeastOne (powerOfTen exponent) := by
  by_cases listed : exponent ∈ 308 :: List.range 23
  · exact atMost_of_fits (List.all_eq_true.mp fits_powers exponent listed)
  · rw [List.mem_cons, List.mem_range] at listed
    have least : 10 ^ 23 ≤ 10 ^ exponent := Nat.pow_le_pow_right (by decide) (by omega)
    have lower : exponent ≤ largestPower - 1 := by
      rw [largestPower] at small ⊢
      omega
    have most : 10 ^ exponent ≤ 10 ^ (largestPower - 1) := Nat.pow_le_pow_right (by decide) lower
    have few : (10 ^ exponent).log2 < 1023 :=
      (Nat.log2_lt (Nat.pow_pos (by decide)).ne').mpr (by
        have bound := lower_pow_ten_lt
        omega)
    have several : 3 ≤ (10 ^ exponent).log2 := (Nat.le_log2 (Nat.pow_pos (by decide)).ne').mpr
      (le_trans (by decide) least)
    obtain ⟨limit, ⟨steps, power, isFull, same⟩, above, near⟩ :=
      exists_isDouble_near several (Nat.le_of_lt_succ few)
    have inRange : exponent ≤ 2 ^ 11 := small.trans (by decide)
    have atMost : ((1 * 10 ^ exponent : Nat) : ℚ) ≤ steps * 2 ^ power := by
      rw [← same, Nat.one_mul]
      exact Nat.cast_le.mpr above
    have large : 2 ^ 52 ≤ 1 * 10 ^ exponent := by
      rw [Nat.one_mul]
      exact le_trans (by decide) least
    have notListed : ¬ (1 < 2 ^ 53 ∧ exponent ≤ 22) := by omega
    rw [powerOfTen, Float.ofScientific, dif_neg notListed]
    constructor
    · refine IsWithin.mono (isWithin_ofScientific isFull inRange atMost).unpack_pack ?_
      rw [← same]
      exact Nat.cast_le.mpr near
    · exact atLeastOne_ofScientific isFull inRange large atMost

/-! ### Scaling -/

theorem isFull_naturalLimit : IsFull (2 ^ 52) 12 :=
  ⟨by decide, by decide, by decide, by decide⟩

theorem scaleDown_atMost {steps : Nat} {power : Int} (isFull : IsFull steps power) {value : Float}
    (atMost : AtMost (steps * 2 ^ power) value) (exponent : Nat) :
    AtMost (steps * 2 ^ power) (scaleDown value exponent) := by
  induction exponent using Nat.strongRecOn generalizing value with
  | ind exponent inductionHypothesis =>
    rw [scaleDown]
    split
    · rename_i small
      exact AtMost.div isFull atMost (powerOfTen_bounds small).2
    · rename_i large
      split
      · exact atMost
      · refine inductionHypothesis _ ?_
          (AtMost.div isFull atMost (powerOfTen_bounds (Nat.le_refl _)).2)
        rw [largestPower] at large ⊢
        omega

/-- A natural number times a power of ten is finite if bounds for the two say so. -/
theorem scaleUp_atMost {value limit exponent factor : Nat} (isDouble : IsDouble limit)
    (small : value ≤ limit) (inRange : exponent ≤ largestPower)
    (power : AtMost (factor : ℚ) (powerOfTen exponent))
    (below : 2 * (limit * factor) < (2 * (2 ^ 53 - 1) + 1) * 2 ^ 971) :
    AtMost greatest (scaleUp (Float.ofNat value) exponent) := by
  rw [scaleUp, if_pos inRange]
  have product := AtMost.mul isFull_greatest (atMost_ofNat_of_le isDouble small)
    power (by exact_mod_cast below)
  rw [greatest]
  exact_mod_cast product

/-- Products up to the largest power of ten are within range. -/
theorem scaleUp_atMost_of_mul_le {value limit exponent : Nat} (isDouble : IsDouble limit)
    (small : value ≤ limit) (inRange : exponent ≤ largestPower)
    (product : limit * 10 ^ exponent ≤ 10 ^ largestPower) :
    AtMost greatest (scaleUp (Float.ofNat value) exponent) := by
  have factor : 8 * (10 ^ exponent + 10 ^ exponent / 8) ≤ 9 * 10 ^ exponent := by omega
  refine scaleUp_atMost isDouble small inRange (powerOfTen_bounds inRange).1
    (Nat.lt_of_mul_lt_mul_left (a := 8) ?_)
  calc 8 * (2 * (limit * (10 ^ exponent + 10 ^ exponent / 8)))
      = 2 * limit * (8 * (10 ^ exponent + 10 ^ exponent / 8)) := by ring
    _ ≤ 2 * limit * (9 * 10 ^ exponent) := Nat.mul_le_mul_left _ factor
    _ = 18 * (limit * 10 ^ exponent) := by ring
    _ ≤ 18 * 10 ^ largestPower := Nat.mul_le_mul_left _ product
    _ < 8 * ((2 * (2 ^ 53 - 1) + 1) * 2 ^ 971) := by
      have between := pow_ten_between.2
      have quarters := Nat.pow_add 2 2 969
      rw [largestPower]
      omega

theorem scaleUp_zero_atMost (exponent : Nat) :
    AtMost greatest (scaleUp (Float.ofNat 0) exponent) := by
  have one : IsDouble 1 := isDouble_of_lt Nat.one_pos (by decide)
  by_cases inRange : exponent ≤ largestPower
  · refine scaleUp_atMost_of_mul_le one (Nat.zero_le 1) inRange ?_
    rw [Nat.one_mul]
    exact Nat.pow_le_pow_right (by decide) inRange
  · have room : 1 ≤ greatest := Nat.mul_pos (by decide) (pow_pos two_pos 971)
    have zero : (Float.ofNat 0 == 0.0) = true := rfl
    rw [scaleUp, if_neg inRange, if_pos zero]
    exact (atMost_ofNat_of_le one (Nat.zero_le 1)).mono (Nat.cast_le.mpr room)

/-! ### Digits that are kept -/

theorem digitValue_le {digit : Char} (isDigit : digit.isDigit = true) : digitValue digit ≤ 9 := by
  have bounds : 48 ≤ digit.toNat ∧ digit.toNat ≤ 57 := by
    simpa [Char.isDigit, UInt32.le_iff_toNat_le] using isDigit
  rw [digitValue]
  show digit.toNat - 48 ≤ 9
  omega

/-- Digits are appended as long as the number stays below the limit. -/
theorem appendDigits_lt {number : Nat} (small : number < naturalLimit) (digits : List Char) :
    (appendDigits number digits).1 < naturalLimit := by
  induction digits generalizing number with
  | nil => exact small
  | cons digit rest inductionHypothesis =>
    rw [appendDigits]
    split
    · rename_i longer
      exact inductionHypothesis longer
    · exact small

theorem appendDigits_taken_le (number : Nat) (digits : List Char) :
    (appendDigits number digits).2 ≤ digits.length := by
  induction digits generalizing number with
  | nil => exact Nat.le_refl 0
  | cons digit rest inductionHypothesis =>
    rw [appendDigits]
    split
    · exact Nat.succ_le_succ (inductionHypothesis _)
    · exact Nat.zero_le _

/-- A number with digits appended to it stays below its successor with zeros appended to it. -/
theorem appendDigits_lt_mul {digits : List Char}
    (areDigits : ∀ digit ∈ digits, digit.isDigit = true) (number : Nat) :
    (appendDigits number digits).1 < (number + 1) * 10 ^ (appendDigits number digits).2 := by
  induction digits generalizing number with
  | nil => simp [appendDigits]
  | cons digit rest inductionHypothesis =>
    obtain ⟨isDigit, areRest⟩ := List.forall_mem_cons.mp areDigits
    have small := digitValue_le isDigit
    rw [appendDigits]
    split
    · have later := inductionHypothesis areRest (10 * number + digitValue digit)
      refine Nat.lt_of_lt_of_le later ?_
      rw [Nat.pow_succ, Nat.mul_comm _ 10, ← Nat.mul_assoc]
      exact Nat.mul_le_mul_right _ (by omega)
    · simp

/-- The digits that are dropped count as zeros at most. -/
theorem appendDigits_mul_le (number : Nat) (digits : List Char) :
    (appendDigits number digits).1 * 10 ^ (digits.length - (appendDigits number digits).2) ≤
      digits.foldl (fun value digit => 10 * value + digitValue digit) number := by
  have grows : ∀ (digits : List Char) (number : Nat), number * 10 ^ digits.length ≤
      digits.foldl (fun value digit => 10 * value + digitValue digit) number := by
    intro digits
    induction digits with
    | nil => simp
    | cons digit rest inductionHypothesis =>
      intro number
      refine Nat.le_trans ?_ (inductionHypothesis _)
      rw [List.length_cons, Nat.pow_succ, Nat.mul_comm _ 10, ← Nat.mul_assoc, Nat.mul_comm number]
      exact Nat.mul_le_mul_right _ (Nat.le_add_right _ _)
  induction digits generalizing number with
  | nil => simp [appendDigits]
  | cons digit rest inductionHypothesis =>
    rw [appendDigits]
    split
    · rw [List.length_cons, Nat.add_sub_add_right]
      exact inductionHypothesis _
    · exact grows (digit :: rest) number

/-! ### Numbers within range -/

namespace Numeral

variable {numeral : Numeral}

theorem kept_significand_lt (numeral : Numeral) : numeral.kept.significand < naturalLimit :=
  appendDigits_lt (appendDigits_lt (by decide) _) _

theorem isDouble_naturalLimit : IsDouble naturalLimit :=
  @isDouble_mul 1 64 (by decide) (by decide) (by decide)

theorem naturalLimit_mul_pow_le {count : Nat} (few : count ≤ 288) :
    naturalLimit * 10 ^ count ≤ 10 ^ largestPower := by
  have digits : naturalLimit ≤ 10 ^ 20 := by decide
  calc naturalLimit * 10 ^ count
      ≤ 10 ^ 20 * 10 ^ count := Nat.mul_le_mul_right _ digits
    _ = 10 ^ (20 + count) := (Nat.pow_add ..).symm
    _ ≤ 10 ^ largestPower := Nat.pow_le_pow_right (by decide) (by rw [largestPower]; omega)

/-- A magnitude is within range if it is where it is scaled up. -/
theorem magnitude_atMost
    (up : 0 ≤ numeral.kept.exponent → AtMost greatest
      (scaleUp (Float.ofNat numeral.kept.significand) numeral.kept.exponent.toNat)) :
    AtMost greatest numeral.magnitude := by
  rw [magnitude]
  split
  · rename_i positive
    exact up positive
  · have small : (numeral.kept.significand : ℚ) ≤ (2 ^ 52 : Nat) * 2 ^ (12 : Int) := by
      have below := (kept_significand_lt numeral).le
      rw [naturalLimit] at below
      calc (numeral.kept.significand : ℚ)
          ≤ (18446744073709551616 : Nat) := Nat.cast_le.mpr below
        _ = (2 ^ 52 : Nat) * 2 ^ (12 : Int) := by norm_num
    have limited : ((2 ^ 52 : Nat) : ℚ) * 2 ^ (12 : Int) ≤ greatest := by
      have below : 2 ^ 64 ≤ greatest := by
        rw [greatest_eq]
        omega
      calc ((2 ^ 52 : Nat) : ℚ) * 2 ^ (12 : Int)
          = (2 ^ 64 : Nat) := by norm_num
        _ ≤ greatest := Nat.cast_le.mpr below
    exact (scaleDown_atMost isFull_naturalLimit (atMost_ofNat isFull_naturalLimit small) _).mono
      limited

/-- Digits before the point and behind it are within range without an exponent. -/
theorem magnitude_atMost_of_plain (short : numeral.whole.length ≤ 17)
    (plain : numeral.exponent.getD 0 ≤ 0) : AtMost greatest numeral.magnitude := by
  refine magnitude_atMost fun positive => ?_
  have few : numeral.kept.exponent.toNat ≤ 17 := by
    rw [kept]
    dsimp only
    omega
  have inRange : numeral.kept.exponent.toNat ≤ largestPower := by
    rw [largestPower]
    omega
  exact scaleUp_atMost_of_mul_le isDouble_naturalLimit (kept_significand_lt numeral).le inRange
    (naturalLimit_mul_pow_le (few.trans (by decide)))

section Scientific

variable {negative : Bool} {digit : Char} {fraction : List Char} {power : Option Int}

theorem kept_single (isDigit : digit.isDigit = true) :
    kept ⟨negative, [digit], fraction, power⟩ =
      ⟨(appendDigits (digitValue digit) fraction).1,
        power.getD 0 - (appendDigits (digitValue digit) fraction).2⟩ := by
  have small := digitValue_le isDigit
  have taken : appendDigits 0 [digit] = (digitValue digit, 1) := by
    have below : 10 * 0 + digitValue digit < naturalLimit := by
      rw [naturalLimit]
      omega
    rw [appendDigits, if_pos below, appendDigits, Nat.mul_zero, Nat.zero_add]
  rw [kept, taken]
  simp

/-- One digit before the point and an exponent below the largest are within range. -/
theorem magnitude_atMost_of_exponent (isDigit : digit.isDigit = true)
    (areDigits : ∀ digit ∈ fraction, digit.isDigit = true) {exponent : Int} (low : exponent ≤ 307) :
    AtMost greatest (magnitude ⟨negative, [digit], fraction, some exponent⟩) := by
  refine magnitude_atMost fun positive => ?_
  have small := digitValue_le isDigit
  have below := appendDigits_lt_mul areDigits (digitValue digit)
  have limited := kept_significand_lt ⟨negative, [digit], fraction, some exponent⟩
  rw [kept_single isDigit] at positive limited ⊢
  dsimp only [Option.getD_some] at positive limited ⊢
  generalize appendDigits (digitValue digit) fraction = kept at positive below limited ⊢
  obtain ⟨number, taken⟩ := kept
  dsimp only at positive below limited ⊢
  obtain ⟨power, same⟩ := Int.eq_ofNat_of_zero_le positive
  rw [same, Int.toNat_natCast]
  have inRange : power ≤ largestPower := by
    rw [largestPower]
    omega
  by_cases few : taken + 1 ≤ 22
  · have atMost : number ≤ 10 ^ (taken + 1) := by
      rw [Nat.pow_succ, Nat.mul_comm]
      exact below.le.trans (Nat.mul_le_mul_right _ (by omega))
    refine scaleUp_atMost_of_mul_le (isDouble_pow_ten few) atMost inRange ?_
    rw [← Nat.pow_add]
    exact Nat.pow_le_pow_right (by decide) (by rw [largestPower]; omega)
  · exact scaleUp_atMost_of_mul_le isDouble_naturalLimit limited.le inRange
      (naturalLimit_mul_pow_le (by omega))

/-- The most that a factor may be next to another one. -/
def largestFactor (limit : Nat) : Nat :=
  ((2 * (2 ^ 53 - 1) + 1) * 2 ^ 971 - 1) / (2 * limit)

theorem mul_largestFactor_lt (limit : Nat) :
    2 * (limit * largestFactor limit) < (2 * (2 ^ 53 - 1) + 1) * 2 ^ 971 := by
  have room : 0 < (2 * (2 ^ 53 - 1) + 1) * 2 ^ 971 := Nat.mul_pos (by decide) (pow_pos two_pos 971)
  rw [← Nat.mul_assoc, largestFactor]
  exact Nat.lt_of_le_of_lt (Nat.mul_div_le _ _) (Nat.sub_lt room Nat.one_pos)

theorem fits_top : (List.range 16).all (fun taken =>
    decide (0 < greatest / 10 ^ (308 - taken)) && decide (greatest / 10 ^ (308 - taken) < 2 ^ 53) &&
      fits (largestFactor (greatest / 10 ^ (308 - taken))) (powerOfTen (308 - taken))) = true := by
  decide +kernel

theorem scaleUp_atMost_of_fits {value limit exponent : Nat} (isDouble : IsDouble limit)
    (small : value ≤ limit) (inRange : exponent ≤ largestPower)
    (holds : fits (largestFactor limit) (powerOfTen exponent) = true) :
    AtMost greatest (scaleUp (Float.ofNat value) exponent) :=
  scaleUp_atMost isDouble small inRange (atMost_of_fits holds).1 (mul_largestFactor_lt limit)

/-- At the largest power of ten, digits that stand for no more than the largest double are within
range. -/
theorem scaleUp_top {value taken : Nat} (few : taken ≤ 17)
    (small : value ≤ greatest / 10 ^ (308 - taken)) :
    AtMost greatest (scaleUp (Float.ofNat value) (308 - taken)) := by
  have inRange : 308 - taken ≤ largestPower := Nat.sub_le 308 taken
  rcases Nat.lt_or_ge taken 16 with fewer | more
  · have holds := List.all_eq_true.mp fits_top taken (List.mem_range.mpr fewer)
    simp only [Bool.and_eq_true, decide_eq_true_eq] at holds
    exact scaleUp_atMost_of_fits (isDouble_of_lt holds.1.1 holds.1.2) small inRange holds.2
  · obtain rfl | rfl : taken = 16 ∨ taken = 17 := by omega
    · have last : greatest / 10 ^ (308 - 16) = 17976931348623156 + 1 := by decide +kernel
      rw [last] at small
      rcases Nat.le_or_eq_of_le_succ small with below | rfl
      · -- The number below the last one is even, and so it is a double.
        have isDouble : IsDouble (8988465674311578 * 2 ^ 1) :=
          isDouble_mul (by decide) (by decide) (by decide)
        exact scaleUp_atMost_of_fits isDouble below inRange (by decide +kernel)
      · have holds : fits greatest (scaleUp (Float.ofNat 17976931348623157) 292) = true := by
          decide +kernel
        exact (atMost_of_fits holds).1
    · have last : greatest / 10 ^ (308 - 17) ≤ 5617791046444737 * 2 ^ 5 := by decide +kernel
      have isDouble : IsDouble (5617791046444737 * 2 ^ 5) :=
        isDouble_mul (by decide) (by decide) (by decide)
      exact scaleUp_atMost_of_fits isDouble (small.trans last) inRange (by decide +kernel)

/-- One digit before the point and the largest exponent are within range together if they stand for
no more than the largest double. -/
theorem magnitude_atMost_of_top (isDigit : digit.isDigit = true) (short : fraction.length ≤ 17)
    (small : digitsValue (digit :: fraction) * 10 ^ (308 - fraction.length) ≤ greatest) :
    AtMost greatest (magnitude ⟨negative, [digit], fraction, some 308⟩) := by
  refine magnitude_atMost fun _ => ?_
  have takenLe := appendDigits_taken_le (digitValue digit) fraction
  have dropped := appendDigits_mul_le (digitValue digit) fraction
  rw [kept_single isDigit]
  dsimp only [Option.getD_some]
  generalize appendDigits (digitValue digit) fraction = kept at takenLe dropped ⊢
  obtain ⟨number, taken⟩ := kept
  dsimp only at takenLe dropped ⊢
  have few : taken ≤ 17 := takenLe.trans short
  have exponent : ((308 : Int) - taken).toNat = 308 - taken := by omega
  rw [exponent]
  refine scaleUp_top few ((Nat.le_div_iff_mul_le (Nat.pow_pos (by decide))).mpr ?_)
  have start : digitsValue (digit :: fraction) =
      fraction.foldl (fun value digit => 10 * value + digitValue digit) (digitValue digit) := by
    rw [digitsValue, List.foldl_cons, Nat.mul_zero, Nat.zero_add]
  calc number * 10 ^ (308 - taken)
      = number * 10 ^ (fraction.length - taken) * 10 ^ (308 - fraction.length) := by
        rw [Nat.mul_assoc, ← Nat.pow_add]
        congr 2
        omega
    _ ≤ digitsValue (digit :: fraction) * 10 ^ (308 - fraction.length) :=
        Nat.mul_le_mul_right _ (start ▸ dropped)
    _ ≤ greatest := small

/-- A zero is within range under any exponent. -/
theorem magnitude_atMost_of_zero :
    AtMost greatest (magnitude ⟨negative, ['0'], [], power⟩) := by
  refine magnitude_atMost fun _ => ?_
  rw [kept_single rfl]
  exact scaleUp_zero_atMost _

end Scientific

/-- A number is read if its magnitude is within range. -/
theorem exists_toNumber_eq (atMost : AtMost greatest numeral.magnitude) :
    ∃ number, numeral.toNumber = .ok number := by
  have finite : numeral.toDouble.isFinite = true := by
    rw [toDouble]
    split
    · exact atMost.neg.isFinite
    · exact atMost.isFinite
  rw [toNumber]
  split <;> exact ⟨_, rfl⟩

end Numeral

end BlockCone.Json
