import EpisodicReplay.Proofs.Rounding.Operations

/-! The order of canonical numbers is the order of their values. -/

namespace EpisodicReplay.Rounding
open Float.Model (Format UnpackedFloat)
open Float.Model.UnpackedFloat (Sign)

/-- On one format, comparing exponents and then mantissas compares magnitudes. -/
theorem compare_then {spec : Format} {leftMantissa rightMantissa : ℕ} {leftExponent rightExponent : ℤ}
    (left : Grid spec (leftMantissa * 2 ^ leftExponent) leftExponent)
    (right : Grid spec (rightMantissa * 2 ^ rightExponent) rightExponent) :
    (compare leftExponent rightExponent).then (compare leftMantissa rightMantissa) =
      compare (leftMantissa * 2 ^ leftExponent : ℚ) (rightMantissa * 2 ^ rightExponent) := by
  rcases lt_trichotomy leftExponent rightExponent with order | rfl | order
  · have less := lt_of_not_ge fun reversed => (right.mono left reversed).not_gt order
    rw [compare_lt_iff_lt.mpr order, compare_lt_iff_lt.mpr less]
    rfl
  · have scale : (0 : ℚ) < 2 ^ leftExponent := by positivity
    rw [compare_eq_iff_eq.mpr rfl, Ordering.eq_then]
    rcases lt_trichotomy leftMantissa rightMantissa with order | rfl | order
    · rw [compare_lt_iff_lt.mpr order, eq_comm, compare_lt_iff_lt]
      gcongr
    · rw [compare_eq_iff_eq.mpr rfl, compare_eq_iff_eq.mpr rfl]
    · rw [compare_gt_iff_gt.mpr order, eq_comm, compare_gt_iff_gt]
      gcongr
  · have greater := lt_of_not_ge fun reversed => (left.mono right reversed).not_gt order
    rw [compare_gt_iff_gt.mpr order, compare_gt_iff_gt.mpr greater]
    rfl

theorem swap_compare (first second : ℚ) : (compare first second).swap = compare (-first) (-second) := by
  rcases lt_trichotomy first second with order | rfl | order
  · rw [compare_lt_iff_lt.mpr order, compare_gt_iff_gt.mpr (neg_lt_neg order)]
    rfl
  · rw [compare_eq_iff_eq.mpr rfl, compare_eq_iff_eq.mpr rfl]
    rfl
  · rw [compare_gt_iff_gt.mpr order, compare_lt_iff_lt.mpr (neg_lt_neg order)]
    rfl

theorem magnitude_pos (sign : Sign) (mantissa : ℕ) (exponent : ℤ) (positive : 0 < mantissa) :
    0 < magnitude (.finite sign mantissa exponent positive) := by
  have : (0 : ℚ) < mantissa := by exact_mod_cast positive
  simp only [magnitude]
  positivity

/-- Finite numbers compare as their values. -/
theorem compare_eq {spec : Format} {left right : UnpackedFloat} (leftFinite : left.isFinite = true)
    (leftCanonical : Canonical spec left) (rightFinite : right.isFinite = true)
    (rightCanonical : Canonical spec right) : left.compare right = some (compare (value left) (value right)) := by
  cases left with
  | infinity | notANumber => cases leftFinite
  | zero leftSign =>
      cases right with
      | infinity | notANumber => cases rightFinite
      | zero rightSign =>
          rw [value_zero, value_zero, compare_eq_iff_eq.mpr rfl]
          rfl
      | finite rightSign mantissa exponent positive =>
          have above := magnitude_pos rightSign mantissa exponent positive
          rw [value_zero]
          cases rightSign
          case negative => exact congrArg some (compare_gt_iff_gt.mpr (neg_neg_of_pos above)).symm
          case positive => exact congrArg some (compare_lt_iff_lt.mpr above).symm
  | finite leftSign leftMantissa leftExponent leftPositive =>
      have leftAbove := magnitude_pos leftSign leftMantissa leftExponent leftPositive
      cases right with
      | infinity | notANumber => cases rightFinite
      | zero rightSign =>
          rw [value_zero]
          cases leftSign
          case negative => exact congrArg some (compare_lt_iff_lt.mpr (neg_neg_of_pos leftAbove)).symm
          case positive => exact congrArg some (compare_gt_iff_gt.mpr leftAbove).symm
      | finite rightSign rightMantissa rightExponent rightPositive =>
          have rightAbove := magnitude_pos rightSign rightMantissa rightExponent rightPositive
          have order := compare_then leftCanonical rightCanonical
          cases leftSign <;> cases rightSign
          case negative.negative =>
            simp only [UnpackedFloat.compare, order]
            exact congrArg some (swap_compare ..)
          case negative.positive =>
            exact congrArg some (compare_lt_iff_lt.mpr ((neg_neg_of_pos leftAbove).trans rightAbove)).symm
          case positive.negative =>
            exact congrArg some (compare_gt_iff_gt.mpr ((neg_neg_of_pos rightAbove).trans leftAbove)).symm
          case positive.positive => exact congrArg some order

end EpisodicReplay.Rounding
