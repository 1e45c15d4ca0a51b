import EpisodicReplay.Proofs.Binary32.Integer

/-! Rounding to an integer, with halves away from zero, as a function of rationals. -/

namespace EpisodicReplay.Rounding
open Binary32 (nearestInteger nearestMagnitude)
open Float.Model (UnpackedFloat)
open Float.Model.UnpackedFloat (Sign)
variable {number : ℚ}

/-- The nearest integer; halves go away from zero. -/
def nearestAway (number : ℚ) : ℤ :=
  if 0 ≤ number then ⌊number + 1 / 2⌋ else ⌈number - 1 / 2⌉

example : nearestAway (5 / 2) = 3 ∧ nearestAway (-5 / 2) = -3 ∧ nearestAway (-7 / 3) = -2 := by decide +kernel

theorem nearestAway_of_nonneg (nonneg : 0 ≤ number) : nearestAway number = ⌊number + 1 / 2⌋ :=
  if_pos nonneg

theorem nearestAway_neg_of_nonneg (nonneg : 0 ≤ number) : nearestAway (-number) = -⌊number + 1 / 2⌋ := by
  rcases nonneg.lt_or_eq with positive | rfl
  · rw [nearestAway, if_neg (by linarith), ← neg_add', Int.ceil_neg]
  · norm_num [nearestAway]

theorem nearestAway_intCast (integer : ℤ) : nearestAway integer = integer := by
  rcases le_total 0 integer with nonneg | nonpos
  · rw [nearestAway_of_nonneg (by exact_mod_cast nonneg), Int.floor_intCast_add]
    norm_num
  · have flipped := @nearestAway_neg_of_nonneg (-integer) (by exact_mod_cast Int.neg_nonneg_of_nonpos nonpos)
    rw [neg_neg] at flipped
    rw [flipped, ← Int.cast_neg, Int.floor_intCast_add]
    norm_num

/-- Adding half a step before the shift rounds halves up. -/
theorem nearestMagnitude_eq_floor (mantissa : ℕ) (exponent : ℤ) :
    (nearestMagnitude mantissa exponent : ℤ) = ⌊(mantissa * 2 ^ exponent + 1 / 2 : ℚ)⌋ := by
  cases exponent with
  | ofNat places =>
      have whole : (mantissa * 2 ^ Int.ofNat places : ℚ) = ((mantissa <<< places : ℕ) : ℤ) := by
        rw [Nat.shiftLeft_eq, Int.ofNat_eq_natCast, zpow_natCast]
        push_cast
        rfl
      rw [whole, Int.floor_intCast_add, nearestMagnitude]
      norm_num
  | negSucc dropped =>
      have sum : (mantissa * 2 ^ Int.negSucc dropped + 1 / 2 : ℚ) =
          ((mantissa + 2 ^ dropped : ℕ) : ℚ) / ((2 ^ (dropped + 1) : ℕ) : ℚ) := by
        rw [zpow_negSucc]
        push_cast
        field_simp
        ring
      rw [sum, Rat.floor_natCast_div_natCast]
      change ((((mantissa + 2 ^ dropped) >>> (dropped + 1) : ℕ)) : ℤ) = _
      rw [Nat.shiftRight_eq_div_pow]
      norm_cast

theorem nearestInteger_eq_nearestAway (unpacked : UnpackedFloat) :
    nearestInteger unpacked = nearestAway (value unpacked) := by
  have still : nearestAway 0 = 0 := nearestAway_intCast 0
  cases unpacked with
  | notANumber | infinity | zero =>
      rw [abs_eq_zero.mp ((abs_value _).trans rfl), still]
      rfl
  | finite sign mantissa exponent positive =>
      have nonneg : (0 : ℚ) ≤ mantissa * 2 ^ exponent := by positivity
      cases sign
      case negative => exact (congrArg _ (nearestMagnitude_eq_floor ..)).trans (nearestAway_neg_of_nonneg nonneg).symm
      case positive => exact (nearestMagnitude_eq_floor ..).trans (nearestAway_of_nonneg nonneg).symm

end EpisodicReplay.Rounding
