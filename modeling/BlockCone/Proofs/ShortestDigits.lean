/-
This file proves how large the decimal digits are that are printed for a double.

The digits are looked for on grids of powers of ten, from coarse to fine, in the window of numbers
that are rounded to the double. Digits that are found lie in the window, and where none are found
the last grid takes those below the double. So they are never above the upper end of the window,
which is half a step above the double and below the next one. Only the largest double has no next
one; there the digits are known. So digits that reach the largest power of ten never stand for more
than the largest double.

The first grid is that of the leading power of ten, which is estimated from binary lengths, and the
last is seventeen powers below. How many digits there can be follows from this, and also that they
are not zero where zeros are written behind them.
-/

import Mathlib.Data.Nat.Cast.Order.Field
import BlockCone.Decimal.Layout
import BlockCone.Proofs.RoundedDoubles

namespace BlockCone.Decimal

/-! ### Rationals -/

namespace Ratio

/-- The rational number that a pair stands for. -/
def size (ratio : Ratio) : ℚ :=
  ratio.num / ratio.den

theorem scaled_den_pos {factor base : Nat} (positive : 0 < base) (power : Int) :
    0 < (scaled factor base power).den := by
  rw [scaled]
  split
  · exact Nat.one_pos
  · exact Nat.pow_pos positive

theorem scaled_num_pos {factor base : Nat} (nonzero : 0 < factor) (positive : 0 < base)
    (power : Int) : 0 < (scaled factor base power).num := by
  rw [scaled]
  split
  · exact Nat.mul_pos nonzero (Nat.pow_pos positive)
  · exact nonzero

theorem size_scaled (factor base : Nat) (power : Int) :
    (scaled factor base power).size = factor * (base : ℚ) ^ power := by
  rw [scaled, size]
  split
  · rename_i up
    obtain ⟨count, rfl⟩ := Int.eq_ofNat_of_zero_le up
    show ((factor * base ^ (count : Int).toNat : Nat) : ℚ) / (1 : Nat) = _
    rw [Int.toNat_natCast, zpow_natCast, Nat.cast_one, div_one]
    push_cast
    rfl
  · rename_i down
    obtain ⟨count, same⟩ :=
      Int.eq_ofNat_of_zero_le (Int.le_of_lt (Int.neg_pos_of_neg (Int.not_le.mp down)))
    obtain rfl : power = -count := by omega
    show (factor : ℚ) / ((base ^ (-(-(count : Int))).toNat : Nat) : ℚ) = _
    rw [Int.neg_neg, Int.toNat_natCast, zpow_neg, zpow_natCast, div_eq_mul_inv]
    push_cast
    rfl

theorem atMost_iff {left right : Ratio} (leftDen : 0 < left.den) (rightDen : 0 < right.den) :
    left.atMost right = true ↔ left.size ≤ right.size := by
  rw [atMost, decide_eq_true_iff, size, size,
    div_le_div_iff₀ (Nat.cast_pos.mpr leftDen) (Nat.cast_pos.mpr rightDen)]
  norm_cast

theorem size_divide (left right : Ratio) : (left.divide right).size = left.size / right.size := by
  rw [divide, size, size, size, div_div_div_eq]
  push_cast
  rfl

theorem size_unit (exponent : Int) : (scaled 1 10 exponent).size = 10 ^ exponent := by
  rw [size_scaled, Nat.cast_one, one_mul]
  rfl

/-- The whole number below a quotient by a power is not above it. -/
theorem floor_divide_mul_le (value : Ratio) (exponent : Int) :
    ((value.divide (scaled 1 10 exponent)).floor : ℚ) * 10 ^ exponent ≤ value.size := by
  have positive : (0 : ℚ) < 10 ^ exponent := zpow_pos (by decide) exponent
  rw [← le_div_iff₀ positive, ← size_unit, ← size_divide, floor, size]
  exact Nat.cast_div_le

theorem floor_divide_ne_zero {value : Ratio} (den : 0 < value.den) {exponent : Int}
    (reached : (10 : ℚ) ^ exponent ≤ value.size) :
    (value.divide (scaled 1 10 exponent)).floor ≠ 0 := by
  have positive : (0 : ℚ) < 10 ^ exponent := zpow_pos (by decide) exponent
  have least : 1 ≤ (value.divide (scaled 1 10 exponent)).size := by
    rwa [size_divide, size_unit, one_le_div₀ positive]
  have divisor : 0 < (value.divide (scaled 1 10 exponent)).den :=
    Nat.mul_pos den (scaled_num_pos Nat.one_pos (by decide) exponent)
  rw [size, one_le_div₀ (Nat.cast_pos.mpr divisor), Nat.cast_le] at least
  exact (Nat.div_pos least divisor).ne'

end Ratio

/-- What lies in a window is not above its upper end. -/
theorem Window.size_le_high {window : Window} {value : Ratio}
    (inside : window.contains value = true) (den : 0 < value.den) (highDen : 0 < window.high.den) :
    value.size ≤ window.high.size := by
  rw [← Ratio.atMost_iff den highDen, Ratio.atMost, decide_eq_true_iff]
  rw [contains] at inside
  split at inside
  · simp only [Bool.and_eq_true, Ratio.atMost, decide_eq_true_eq] at inside
    exact inside.2
  · simp only [Bool.and_eq_true, Ratio.below, decide_eq_true_eq] at inside
    exact inside.2.le

/-! ### Shortest digits -/

theorem Digits.size_toRatio (digits : Digits) :
    digits.toRatio.size = digits.significand * 10 ^ digits.exponent :=
  Ratio.size_scaled _ _ _

theorem Digits.toRatio_den_pos (digits : Digits) : 0 < digits.toRatio.den :=
  Ratio.scaled_den_pos (by decide) digits.exponent

/-- Removing zeros changes nothing, and does not lower the exponent. -/
theorem Digits.trim_size (budget : Nat) (digits : Digits) :
    (digits.trim budget).toRatio.size = digits.toRatio.size ∧
      digits.exponent ≤ (digits.trim budget).exponent := by
  induction budget generalizing digits with
  | zero => exact ⟨rfl, Int.le_refl _⟩
  | succ budget inductionHypothesis =>
    rw [trim]
    split
    · rename_i tens
      obtain ⟨same, raised⟩ := inductionHypothesis ⟨digits.significand / 10, digits.exponent + 1⟩
      refine ⟨same.trans ?_, Int.le_trans (Int.le_add_one (Int.le_refl _)) raised⟩
      have divides : digits.significand / 10 * 10 = digits.significand := by
        simp only [Bool.and_eq_true, beq_iff_eq] at tens
        omega
      rw [size_toRatio, size_toRatio, zpow_add₀ (by decide), zpow_one]
      conv_rhs => rw [← divides]
      push_cast
      ring
    · exact ⟨rfl, Int.le_refl _⟩

section Grids

variable {tie : Tie} {value : Ratio} {window : Window}

theorem gridPoint_size_le (highDen : 0 < window.high.den) (inside : value.size ≤ window.high.size)
    {exponent : Int} {digits : Digits} (found : gridPoint tie value window exponent = some digits) :
    digits.toRatio.size ≤ window.high.size ∧ digits.exponent = exponent := by
  have upper (candidate : Digits) (fits : window.contains candidate.toRatio = true) :
      candidate.toRatio.size ≤ window.high.size :=
    Window.size_le_high fits candidate.toRatio_den_pos highDen
  have lower : (Digits.mk (value.divide (.scaled 1 10 exponent)).floor exponent).toRatio.size ≤
      window.high.size := by
    rw [Digits.size_toRatio]
    exact (Ratio.floor_divide_mul_le value exponent).trans inside
  rw [gridPoint] at found
  split at found
  · rename_i both
    rw [Bool.and_eq_true] at both
    split at found <;> obtain rfl := Option.some.inj found
    · exact ⟨upper _ both.2, rfl⟩
    · exact ⟨lower, rfl⟩
  · split at found
    · obtain rfl := Option.some.inj found
      exact ⟨lower, rfl⟩
    · split at found
      · rename_i fits
        obtain rfl := Option.some.inj found
        exact ⟨upper _ fits, rfl⟩
      · cases found

/-- The digits that are found are not above the window, and not finer than the last grid. -/
theorem finerGrids_size_le (highDen : 0 < window.high.den) (inside : value.size ≤ window.high.size)
    (budget : Nat) (exponent : Int) :
    (finerGrids tie value window budget exponent).toRatio.size ≤ window.high.size ∧
      exponent - budget ≤ (finerGrids tie value window budget exponent).exponent := by
  induction budget generalizing exponent with
  | zero =>
    rw [finerGrids, Digits.size_toRatio]
    exact ⟨(Ratio.floor_divide_mul_le value exponent).trans inside, by simp⟩
  | succ budget inductionHypothesis =>
    rw [finerGrids]
    cases found : gridPoint tie value window exponent with
    | some digits =>
      obtain ⟨atMost, same⟩ := gridPoint_size_le highDen inside found
      exact ⟨atMost, by dsimp only; omega⟩
    | none =>
      obtain ⟨atMost, later⟩ := inductionHypothesis (exponent - 1)
      exact ⟨atMost, by dsimp only; omega⟩

end Grids

theorem shortest_eq (tie : Tie) {steps : Nat} (nonzero : steps ≠ 0) (power : Int) :
    shortest tie steps power =
      (finerGrids tie (.scaled steps 2 power) (roundingWindow steps power) 17
        (leadingExponent (.scaled steps 2 power))).trim 20 := by
  rw [shortest, if_neg (by simpa using nonzero)]

theorem size_shortest_le (tie : Tie) {steps : Nat} (nonzero : steps ≠ 0) (power : Int) :
    (shortest tie steps power).toRatio.size ≤ (4 * steps + 2 : Nat) * 2 ^ (power - 2) ∧
      leadingExponent (.scaled steps 2 power) - 17 ≤ (shortest tie steps power).exponent := by
  have high : (roundingWindow steps power).high.size = (4 * steps + 2 : Nat) * 2 ^ (power - 2) :=
    Ratio.size_scaled _ _ _
  have highDen : 0 < (roundingWindow steps power).high.den := Ratio.scaled_den_pos (by decide) _
  have inside : (Ratio.scaled steps 2 power).size ≤ (roundingWindow steps power).high.size := by
    have quarter : (2 : ℚ) ^ power = 4 * 2 ^ (power - 2) := by
      rw [zpow_sub₀ (by decide)]
      norm_num
      ring
    rw [high, Ratio.size_scaled, Nat.cast_ofNat, quarter, ← mul_assoc]
    refine mul_le_mul_of_nonneg_right ?_ (zpow_pos two_pos _).le
    push_cast
    rw [mul_comm]
    exact le_add_of_nonneg_right zero_le_two
  have found := @finerGrids_size_le tie (.scaled steps 2 power) (roundingWindow steps power) highDen
    inside 17 (leadingExponent (.scaled steps 2 power))
  have trimmed := Digits.trim_size 20 (finerGrids tie (.scaled steps 2 power)
    (roundingWindow steps power) 17 (leadingExponent (.scaled steps 2 power)))
  rw [shortest_eq tie nonzero, trimmed.1, ← high]
  exact ⟨found.1, found.2.trans trimmed.2⟩

/-! ### Digits of positive doubles -/

theorem gridPoint_significand_ne_zero {tie : Tie} {value : Ratio} {window : Window}
    (low : 0 < window.low.num) {exponent : Int} {digits : Digits}
    (found : gridPoint tie value window exponent = some digits) : digits.significand ≠ 0 := by
  have zero : window.contains (Digits.mk 0 exponent).toRatio = false := by
    have num : (Digits.mk 0 exponent).toRatio.num = 0 := by
      rw [Digits.toRatio, Ratio.scaled]
      split
      · exact Nat.zero_mul _
      · rfl
    have den := Digits.toRatio_den_pos ⟨0, exponent⟩
    have above : 0 < window.low.num * (Digits.mk 0 exponent).toRatio.den := Nat.mul_pos low den
    rw [Window.contains, Ratio.atMost, Ratio.below, num, Nat.zero_mul]
    simp [Nat.not_le.mpr above]
  rw [gridPoint] at found
  generalize (value.divide (.scaled 1 10 exponent)).floor = lower at found
  split at found
  · rename_i both
    split at found
    · obtain rfl := Option.some.inj found
      exact Nat.succ_ne_zero _
    · obtain rfl := Option.some.inj found
      rintro rfl
      rw [zero] at both
      cases both
  · split at found
    · rename_i fits
      obtain rfl := Option.some.inj found
      rintro rfl
      rw [zero] at fits
      cases fits
    · split at found
      · obtain rfl := Option.some.inj found
        exact Nat.succ_ne_zero _
      · cases found

theorem finerGrids_of_significand_eq_zero {tie : Tie} {value : Ratio} {window : Window}
    (low : 0 < window.low.num) (budget : Nat) (exponent : Int)
    (zero : (finerGrids tie value window budget exponent).significand = 0) :
    finerGrids tie value window budget exponent =
      ⟨(value.divide (.scaled 1 10 (exponent - budget))).floor, exponent - budget⟩ := by
  induction budget generalizing exponent with
  | zero =>
    rw [Nat.cast_zero, Int.sub_zero]
    rfl
  | succ budget inductionHypothesis =>
    rw [finerGrids] at zero ⊢
    cases found : gridPoint tie value window exponent with
    | some digits =>
      rw [found] at zero
      exact absurd zero (gridPoint_significand_ne_zero low found)
    | none =>
      rw [found] at zero
      have later := inductionHypothesis (exponent - 1) zero
      have step : exponent - 1 - budget = exponent - (budget + 1 : Nat) := by omega
      rw [step] at later
      exact later

theorem Digits.trim_of_significand_eq_zero {budget : Nat} {digits : Digits}
    (zero : (digits.trim budget).significand = 0) : digits.trim budget = digits := by
  induction budget generalizing digits with
  | zero => rfl
  | succ budget inductionHypothesis =>
    rw [trim] at zero ⊢
    split
    · rename_i tens
      rw [if_pos tens] at zero
      have same := inductionHypothesis zero
      rw [same] at zero
      simp only [Bool.and_eq_true, bne_iff_ne, beq_iff_eq] at tens
      dsimp only at zero
      omega
    · rfl

/-- Raising an exponent stops at a power of ten that is not above the value, or does not start. -/
theorem raiseExponent_atMost {value : Ratio} (den : 0 < value.den) (budget : Nat) (exponent : Int) :
    raiseExponent value budget exponent = exponent ∨
      (10 : ℚ) ^ raiseExponent value budget exponent ≤ value.size := by
  induction budget generalizing exponent with
  | zero => exact Or.inl rfl
  | succ budget inductionHypothesis =>
    rw [raiseExponent]
    split
    · rename_i fits
      rw [Ratio.atMost_iff (Ratio.scaled_den_pos (by decide) _) den, Ratio.size_scaled,
        Nat.cast_one, one_mul] at fits
      rcases inductionHypothesis (exponent + 1) with same | raised
      · rw [same]
        exact Or.inr fits
      · exact Or.inr raised
    · exact Or.inl rfl

/-- The binary lengths of a positive rational bound it from below. -/
theorem two_pow_le_size {value : Ratio} (num : 0 < value.num) (den : 0 < value.den) :
    (2 : ℚ) ^ ((value.num.log2 : Int) - value.den.log2 - 1) ≤ value.size := by
  have least : ((2 ^ value.num.log2 : Nat) : ℚ) ≤ value.num :=
    Nat.cast_le.mpr (Nat.log2_self_le (Nat.pos_iff_ne_zero.mp num))
  have most : (value.den : ℚ) ≤ (2 ^ (value.den.log2 + 1) : Nat) :=
    Nat.cast_le.mpr Nat.lt_log2_self.le
  have split : (2 : ℚ) ^ ((value.num.log2 : Int) - value.den.log2 - 1) =
      (2 ^ value.num.log2 : Nat) / (2 ^ (value.den.log2 + 1) : Nat) := by
    rw [Nat.cast_pow, Nat.cast_pow, Nat.cast_ofNat, ← zpow_natCast, ← zpow_natCast,
      ← zpow_sub₀ two_ne_zero]
    congr 1
    omega
  rw [split, Ratio.size]
  exact div_le_div₀ (Nat.cast_nonneg _) least (Nat.cast_pos.mpr den) most

/-- Far below its leading exponent a positive rational is above the power of ten. -/
theorem pow_ten_le_size {value : Ratio} (num : 0 < value.num) (den : 0 < value.den)
    (high : 17 < leadingExponent value) (low : leadingExponent value < 33) :
    (10 : ℚ) ^ (leadingExponent value - 17) ≤ value.size := by
  have binary := two_pow_le_size num den
  rw [leadingExponent] at high low ⊢
  generalize (value.num.log2 : Int) - value.den.log2 - 1 = bits at binary high low ⊢
  rcases raiseExponent_atMost den 6 (Int.fdiv (bits * 30103) 100000 - 1) with same | raised
  · rw [same] at high low ⊢
    refine le_trans ?_ binary
    rw [Int.fdiv_eq_ediv_of_nonneg _ (by decide)] at high low ⊢
    obtain ⟨power, equal⟩ : ∃ power : Nat, bits * 30103 / 100000 - 1 - 17 = power :=
      Int.eq_ofNat_of_zero_le (by omega)
    obtain ⟨count, rfl⟩ := Int.eq_ofNat_of_zero_le (a := bits) (by omega)
    rw [equal, zpow_natCast, zpow_natCast]
    have powers : 10 ^ power ≤ 2 ^ count := by
      calc 10 ^ power
          ≤ 10 ^ (3 * (power / 3 + 1)) := Nat.pow_le_pow_right (by decide) (by omega)
        _ = 1000 ^ (power / 3 + 1) := Nat.pow_mul ..
        _ ≤ 1024 ^ (power / 3 + 1) := Nat.pow_le_pow_left (by decide) _
        _ = 2 ^ (10 * (power / 3 + 1)) := by rw [Nat.pow_mul]
        _ ≤ 2 ^ count := Nat.pow_le_pow_right (by decide) (by omega)
    exact_mod_cast powers
  · exact (zpow_le_zpow_right₀ (by decide) (by omega)).trans raised

/-- A positive double of a moderate size has no zero for its digits. -/
theorem shortest_significand_ne_zero (tie : Tie) {steps : Nat} (nonzero : steps ≠ 0) (power : Int)
    (high : 0 < (shortest tie steps power).exponent)
    (low : (shortest tie steps power).exponent < 16) :
    (shortest tie steps power).significand ≠ 0 := by
  intro zero
  have positive : 0 < steps := Nat.pos_of_ne_zero nonzero
  have value : 0 < (Ratio.scaled steps 2 power).num :=
    Ratio.scaled_num_pos positive (by decide) power
  have den : 0 < (Ratio.scaled steps 2 power).den := Ratio.scaled_den_pos (by decide) power
  have window : 0 < (roundingWindow steps power).low.num := by
    refine Ratio.scaled_num_pos ?_ (by decide) (power - 2)
    split <;> omega
  rw [shortest_eq tie nonzero] at high low zero
  rw [Digits.trim_of_significand_eq_zero zero] at high low zero
  have last := finerGrids_of_significand_eq_zero window 17 _ zero
  rw [last] at high low zero
  exact Ratio.floor_divide_ne_zero den
    (pow_ten_le_size value den (by dsimp only at high; omega) (by dsimp only at low; omega)) zero

/-! ### The largest doubles -/

theorem raiseExponent_eq (num budget exponent : Nat) :
    raiseExponent ⟨num, 1⟩ (budget + 1) exponent =
      if 10 ^ (exponent + 1) ≤ num then raiseExponent ⟨num, 1⟩ budget (exponent + 1 : Nat)
      else exponent := by
  have scaled : Ratio.scaled 1 10 ((exponent : Int) + 1) = ⟨1 * 10 ^ (exponent + 1), 1⟩ :=
    if_pos (by omega)
  rw [raiseExponent, scaled]
  simp [Ratio.atMost]

theorem log2_mul_two_pow {steps : Nat} (nonzero : steps ≠ 0) (count : Nat) :
    (steps * 2 ^ count).log2 = steps.log2 + count := by
  refine (Nat.log2_eq_iff (Nat.mul_ne_zero nonzero (Nat.two_pow_pos count).ne')).mpr ⟨?_, ?_⟩
  · rw [Nat.pow_add]
    exact Nat.mul_le_mul_right _ (Nat.log2_self_le nonzero)
  · rw [Nat.add_right_comm, Nat.pow_add]
    exact Nat.mul_lt_mul_of_pos_right Nat.lt_log2_self (Nat.two_pow_pos count)

/-- The leading exponent of the largest doubles. -/
theorem leadingExponent_top {steps count : Nat} (large : 10 ^ 308 ≤ steps * 2 ^ count)
    (bits : (steps * 2 ^ count).log2 = 1023) : leadingExponent (.scaled steps 2 count) = 308 := by
  have scaled : Ratio.scaled steps 2 count = ⟨steps * 2 ^ count, 1⟩ :=
    if_pos (Int.natCast_nonneg count)
  rw [scaled]
  generalize steps * 2 ^ count = num at large bits
  have first : 10 ^ (306 + 1) ≤ num := by
    have tens := Nat.pow_add 10 307 1
    omega
  have last : ¬ 10 ^ (308 + 1) ≤ num := by
    have below : num < 2 ^ (1023 + 1) := bits ▸ Nat.lt_log2_self
    have next : 2 ^ (1023 + 1) ≤ 10 ^ (308 + 1) := by
      have between := Double.pow_ten_between.1
      have quarters := Nat.pow_add 2 55 969
      have tens := Nat.pow_add 10 308 1
      omega
    exact Nat.not_le.mpr (below.trans_le next)
  have start : leadingExponent ⟨num, 1⟩ = raiseExponent ⟨num, 1⟩ 6 (306 : Nat) := by
    rw [leadingExponent, bits]
    rfl
  rw [start, raiseExponent_eq, if_pos first, raiseExponent_eq, if_pos large, raiseExponent_eq,
    if_neg last]
  rfl

theorem shortest_zero_size (tie : Tie) (power : Int) : (shortest tie 0 power).toRatio.size = 0 := by
  have digits : shortest tie 0 power = ⟨0, 0⟩ := rfl
  rw [digits, Digits.size_toRatio, Nat.cast_zero, zero_mul]

/-- A double has the top exponent and a large mantissa if its rounding window reaches the largest
power of ten. -/
theorem top_of_pow_ten_le {steps : Nat} {power : Int} (small : steps < 2 ^ 53) (low : power ≤ 971)
    (reached : ((10 ^ 308 : Nat) : ℚ) ≤ (4 * steps + 2 : Nat) * 2 ^ (power - 2)) :
    power = 971 ∧ 5010420900022431 < steps := by
  have top : power = 971 := by
    refine Int.le_antisymm low (Int.not_lt.mp fun lower => ?_)
    have below : ((10 ^ 308 : Nat) : ℚ) ≤ (4 * 2 ^ 53 * 2 ^ 968 : Nat) := by
      rw [Double.cast_mul_two_pow]
      exact reached.trans (mul_le_mul (Nat.cast_le.mpr (by omega))
        (zpow_le_zpow_right₀ one_le_two (by omega)) (zpow_pos two_pos _).le (Nat.cast_nonneg _))
    have narrow : 10 ^ 308 ≤ 4 * 2 ^ 53 * 2 ^ 968 := Nat.cast_le.mp below
    have between := Double.pow_ten_between.1
    have halves := Nat.pow_add 2 968 1
    omega
  subst top
  have high : ((4 * steps + 2 : Nat) : ℚ) * 2 ^ ((971 : Int) - 2) =
      ((4 * steps + 2) * 2 ^ 969 : Nat) :=
    (Double.cast_mul_two_pow _ 969).symm
  rw [high] at reached
  have wide : 10 ^ 308 ≤ (4 * steps + 2) * 2 ^ 969 := Nat.cast_le.mp reached
  refine ⟨rfl, Nat.not_le.mp fun few => ?_⟩
  exact absurd (wide.trans (Nat.mul_le_mul_right _ (by omega)))
    (Nat.not_le.mpr Double.pow_ten_between.1)

/-- With the top exponent and a large mantissa the leading digit stands at the largest power. -/
theorem leadingExponent_of_many {steps : Nat} (small : steps < 2 ^ 53)
    (many : 5010420900022431 < steps) : leadingExponent (.scaled steps 2 971) = 308 := by
  have nonzero : steps ≠ 0 := by omega
  have value : 10 ^ 308 ≤ steps * 2 ^ 971 := by
    have between := Double.pow_ten_between.2
    have quarters := Nat.pow_add 2 2 969
    have least : 5010420900022432 * 2 ^ 971 ≤ steps * 2 ^ 971 := Nat.mul_le_mul_right _ many
    omega
  have own : steps.log2 = 52 := (Nat.log2_eq_iff nonzero).mpr ⟨by omega, small⟩
  have bits : (steps * 2 ^ 971).log2 = 1023 := by rw [log2_mul_two_pow nonzero, own]
  exact @leadingExponent_top steps 971 value bits

/-- Digits of a double that reach the largest power of ten stand for no more than the largest double
does, and there are at most eighteen of them. -/
theorem shortest_top {steps : Nat} {power : Int} (small : steps < 2 ^ 53) (low : power ≤ 971)
    (large : (10 ^ 308 : Nat) ≤ (shortest .even steps power).toRatio.size) :
    (shortest .even steps power).toRatio.size ≤ Double.greatest ∧
      291 ≤ (shortest .even steps power).exponent := by
  have nonzero : steps ≠ 0 := by
    rintro rfl
    rw [shortest_zero_size, ← Nat.cast_zero] at large
    exact absurd (Nat.cast_le.mp large) (Nat.not_le.mpr (pow_pos (by decide) 308))
  obtain ⟨atMost, exponents⟩ := size_shortest_le .even nonzero power
  obtain ⟨rfl, many⟩ := top_of_pow_ten_le small low (large.trans atMost)
  rw [leadingExponent_of_many small many] at exponents
  refine ⟨?_, exponents⟩
  rcases Nat.lt_or_ge steps (2 ^ 53 - 1) with lower | last
  · have room : (4 * steps + 2) * 2 ^ 969 ≤ Double.greatest := by
      rw [Double.greatest_eq]
      exact Nat.mul_le_mul_right _ (by omega)
    refine atMost.trans ((Double.cast_mul_two_pow _ 969).symm.trans_le (Nat.cast_le.mpr room))
  · -- The window of the largest double reaches above it, but its digits do not.
    obtain rfl : steps = 2 ^ 53 - 1 := by omega
    have digits : shortest .even (2 ^ 53 - 1) 971 = ⟨17976931348623157, 292⟩ := by decide +kernel
    have room : 17976931348623157 * 10 ^ 292 ≤ Double.greatest := by decide +kernel
    rw [digits, Digits.size_toRatio]
    refine Eq.trans_le ?_ (Nat.cast_le.mpr room)
    rw [Nat.cast_mul, Nat.cast_pow]
    rfl

end BlockCone.Decimal
