import EpisodicReplay.Proofs.Binary32.Integer
import EpisodicReplay.Proofs.Binary32.Range

/-! Binary32 numbers up to a power of two. Parts that make up a whole of such numbers do not leave the bound. -/

namespace EpisodicReplay.Binary32
open Float.Model (UnpackedFloat)
open Rounding (RoundsTo)
variable {number left right : Float32} {place : ℕ}

/-- A finite number whose absolute value is at most a power of two. -/
structure Within (place : ℕ) (number : Float32) : Prop where
  finite : number.isFinite = true
  bounded : |value number| ≤ 2 ^ place

theorem within_zero (place : ℕ) : Within place 0 where
  finite := isFinite_zero
  bounded := by
    rw [value_zero, abs_zero]
    positivity

/-- Inputs that are not finite count as zero. -/
theorem within_finiteOr (bounded : |value number| ≤ 2 ^ place) : Within place (finiteOr number 0) := by
  unfold finiteOr
  split
  case isTrue finite => exact ⟨finite, bounded⟩
  case isFalse => exact within_zero place

theorem InUnit.within (unit : InUnit number) : Within 0 number where
  finite := unit.finite
  bounded := by
    rw [pow_zero]
    exact unit.abs_value_le

theorem IsNearest.within {exact : ℚ} (nearest : IsNearest number exact) (bound : |exact| ≤ 2 ^ place) :
    Within place number where
  finite := nearest.isFinite
  bounded := by
    have normal : (-126 : ℤ) ≤ place := by omega
    have magnitude := nearest.magnitude_le normal (by rwa [zpow_natCast])
    rwa [zpow_natCast, ← Rounding.abs_value] at magnitude

namespace Within

theorem le_of_le {greater : ℕ} (within : Within place number) (ordered : place ≤ greater) : Within greater number where
  finite := within.finite
  bounded := within.bounded.trans (pow_le_pow_right₀ (by norm_num) ordered)

theorem sub (leftWithin : Within place left) (rightWithin : Within place right) (small : place < 127) :
    Within (place + 1) (left - right) := by
  have bound : |value left - value right| ≤ 2 ^ (place + 1) := by
    rw [pow_succ, mul_two]
    exact (abs_sub _ _).trans (add_le_add leftWithin.bounded rightWithin.bounded)
  exact (sub_isNearest leftWithin.finite rightWithin.finite
    (bound.trans (pow_le_pow_right₀ (by norm_num) small))).within bound

theorem abs (within : Within place number) : Within place number.abs where
  finite := isFinite_abs within.finite
  bounded := by
    rw [value_abs, abs_abs]
    exact within.bounded

theorem maximum (leftWithin : Within place left) (rightWithin : Within place right) :
    Within place (maximum left right) := by
  unfold Binary32.maximum
  split
  · exact rightWithin
  · split
    · exact rightWithin
    · exact leftWithin

end Within

/-- A number times a power of two is a number again, unless it is too large. -/
theorem exists_mul_two_pow (finite : number.isFinite = true) (small : |value number| * 2 ^ place ≤ 2 ^ 127) :
    ∃ scaled : Float32, scaled.isFinite = true ∧ value scaled = value number * 2 ^ place := by
  have numberCanonical := canonical number
  have valued : value number = Rounding.value number.toModel.unpack := rfl
  change number.toModel.unpack.isFinite = true at finite
  cases unpacked : number.toModel.unpack with
  | infinity | notANumber => rw [unpacked] at finite; cases finite
  | zero sign => exact ⟨0, isFinite_zero, by rw [value_zero, valued, unpacked, Rounding.value_zero, zero_mul]⟩
  | finite sign mantissa exponent positive =>
      rw [unpacked] at numberCanonical valued
      have exact : Rounding.value (.finite sign mantissa (exponent + place) positive) = value number * 2 ^ place := by
        rw [valued, Rounding.value_finite, Rounding.value_finite, zpow_add₀ two_ne_zero, zpow_natCast, mul_assoc]
      have absolute : |value number * 2 ^ place| = mantissa * 2 ^ (exponent + place) := by
        rw [← exact, Rounding.abs_value, Rounding.magnitude_finite]
      have nearest := @round_isNearest (.finite sign mantissa (exponent + place) positive) rfl (by
        rw [exact, abs_mul, abs_of_pos (show (0 : ℚ) < 2 ^ place by positivity)]
        exact small)
      rw [exact] at nearest
      obtain ⟨least, fits, -⟩ := Rounding.grid_count_iff.mp numberCanonical
      exact ⟨_, nearest.isFinite, RoundsTo.value_eq_of_count nearest absolute (by omega) fits⟩

namespace InUnit
variable {share : Float32}

/-- A share of a bounded number is at most that share of the bound. -/
theorem mul_within (unit : InUnit share) (within : Within place number) (small : place ≤ 127) :
    (share * number).isFinite = true ∧ |value (share * number)| ≤ value share * 2 ^ place := by
  have power : (2 : ℚ) ^ place ≤ 2 ^ 127 := pow_le_pow_right₀ (by norm_num) small
  have most : value share * 2 ^ place ≤ 2 ^ 127 :=
    (mul_le_of_le_one_left (by positivity) unit.upper).trans power
  have bound : |value share * value number| ≤ value share * 2 ^ place := by
    rw [abs_mul, abs_of_nonneg unit.lower]
    exact mul_le_mul_of_nonneg_left within.bounded unit.lower
  have room : |value share| * 2 ^ place ≤ 2 ^ 127 := by rwa [abs_of_nonneg unit.lower]
  obtain ⟨scaled, finite, exact⟩ := exists_mul_two_pow unit.finite room
  have nearest := mul_isNearest unit.finite within.finite (bound.trans most)
  rw [← exact] at bound ⊢
  exact ⟨nearest.isFinite, nearest.abs_value_le finite bound⟩

/-- A share and what is left of one make up one, up to half a step of the grid below one. -/
theorem add_one_sub_le (unit : InUnit share) : value share + value (1 - share) ≤ 1 + 2 ^ (-25 : ℤ) := by
  have rest := unit.one_sub
  have step : (0 : ℚ) ≤ 2 ^ (-25 : ℤ) := by positivity
  rcases unit.lower.eq_or_lt with zero | positive
  · rw [← zero]
    linarith [rest.upper]
  · have nearest := unit.one_sub_nearest
    obtain ⟨sign, absolute, nonneg, written, rounds⟩ := nearest
    have plain : absolute = 1 - value share := by
      have := congrArg abs written
      rw [Rounding.abs_signed, abs_of_nonneg nonneg, abs_of_nonneg (by linarith [unit.upper])] at this
      exact this.symm
    have below : absolute < 2 ^ (-24 + (24 : ℤ)) := by
      norm_num [plain, positive]
    have error := rounds.error_le (by decide) below
    have magnitude : Rounding.magnitude (1 - share).toModel.unpack = value (1 - share) := by
      rw [← Rounding.abs_value]
      exact abs_of_nonneg rest.lower
    rw [magnitude, plain] at error
    have upper := (abs_le.mp error).2
    norm_num at upper ⊢
    linarith

end InUnit

/-- Blending bounded numbers does not leave the bound: what rounding adds is less than half a step of the grid. -/
theorem blend_within {share : Float32} (unit : InUnit share) (leftWithin : Within place left)
    (rightWithin : Within place right) (small : place < 127) :
    Within place (share * left + (1 - share) * right) := by
  obtain ⟨leftFinite, leftBound⟩ := unit.mul_within leftWithin small.le
  obtain ⟨rightFinite, rightBound⟩ := unit.one_sub.mul_within rightWithin small.le
  have scale : (0 : ℚ) < 2 ^ place := by positivity
  have bound : |value (share * left) + value ((1 - share) * right)| ≤ (1 + 2 ^ (-25 : ℤ)) * 2 ^ place :=
    calc |value (share * left) + value ((1 - share) * right)|
      _ ≤ |value (share * left)| + |value ((1 - share) * right)| := abs_add_le _ _
      _ ≤ value share * 2 ^ place + value (1 - share) * 2 ^ place := add_le_add leftBound rightBound
      _ = (value share + value (1 - share)) * 2 ^ place := (add_mul ..).symm
      _ ≤ (1 + 2 ^ (-25 : ℤ)) * 2 ^ place := mul_le_mul_of_nonneg_right unit.add_one_sub_le scale.le
  have inside : (1 + 2 ^ (-25 : ℤ)) * 2 ^ place ≤ (2 : ℚ) ^ 127 :=
    calc (1 + 2 ^ (-25 : ℤ)) * 2 ^ place
      _ ≤ (2 : ℚ) * 2 ^ place := by gcongr; norm_num
      _ = 2 ^ (place + 1) := (pow_succ' ..).symm
      _ ≤ 2 ^ 127 := pow_le_pow_right₀ (by norm_num) small
  have nearest := add_isNearest leftFinite rightFinite (bound.trans inside)
  refine ⟨nearest.isFinite, ?_⟩
  have normal : (-126 : ℤ) ≤ place := by omega
  have magnitude := nearest.magnitude_le_of_near normal (by
    refine bound.trans_lt ?_
    change _ < (2 : ℚ) ^ (place : ℤ) + 2 ^ ((place : ℤ) - 24)
    rw [zpow_sub₀ two_ne_zero, zpow_natCast]
    norm_num
    linarith)
  rwa [zpow_natCast, ← Rounding.abs_value] at magnitude

/-- Blending numbers of the unit interval does not overshoot it. -/
theorem blend_inUnit {share : Float32} (unit : InUnit share) (leftUnit : InUnit left) (rightUnit : InUnit right) :
    InUnit (share * left + (1 - share) * right) := by
  have within := blend_within unit leftUnit.within rightUnit.within (by decide)
  have first := unit.mul leftUnit
  have second := unit.one_sub.mul rightUnit
  refine ⟨within.finite, ?_, ?_⟩
  · have nonneg := (first.add_nearest second).le_value isFinite_zero (by
      rw [value_zero]
      exact add_nonneg first.lower second.lower)
    rwa [value_zero] at nonneg
  · have bound := within.bounded
    rw [pow_zero] at bound
    exact le_of_abs_le bound

end EpisodicReplay.Binary32
