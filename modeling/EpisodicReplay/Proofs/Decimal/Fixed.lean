import EpisodicReplay.Decimal.Fixed
import EpisodicReplay.Proofs.Rounding.Packing

/-!
Six decimal places and binary32. Rounding to six places and back to binary32 moves a number by less than a
millionth and leaves it alone from 16 on, and the places do not change any more.
-/

namespace EpisodicReplay.Decimal
open Float.Model (Format UnpackedFloat)
open Float.Model.UnpackedFloat (Sign)
open Rounding (Canonical Grid Nearest Rounds grid_count_iff limit magnitude nearest_natCast nearest_of_close)

theorem nearestEven_nearest (numerator : ℕ) {denominator : ℕ} (positive : 0 < denominator) :
    Nearest (nearestEven numerator denominator) ((numerator : ℚ) / denominator) := by
  have whole := Nat.div_add_mod numerator denominator
  have less := Nat.mod_lt numerator positive
  have cast : (0 : ℚ) < denominator := by exact_mod_cast positive
  have split : (numerator : ℚ) / denominator =
      (numerator / denominator : ℕ) + ((numerator % denominator : ℕ) : ℚ) / denominator := by
    have : (denominator * (numerator / denominator : ℕ) + (numerator % denominator : ℕ) : ℚ) = numerator := by
      exact_mod_cast whole
    rw [← this, add_div, mul_div_cancel_left₀ _ cast.ne']
  set quotient := numerator / denominator
  set remainder := numerator % denominator
  have lower : (0 : ℚ) ≤ (remainder : ℚ) / denominator := by positivity
  have upper : (remainder : ℚ) / denominator < 1 := by
    rw [div_lt_one cast]
    exact_mod_cast less
  have halved : denominator < 2 * remainder ↔ 1 / 2 < (remainder : ℚ) / denominator := by
    rw [lt_div_iff₀ cast, div_mul_eq_mul_div, one_mul, div_lt_iff₀ two_pos, mul_comm]
    exact_mod_cast Iff.rfl
  have tied : denominator = 2 * remainder ↔ (remainder : ℚ) / denominator = 1 / 2 := by
    rw [div_eq_div_iff cast.ne' two_ne_zero, one_mul, eq_comm, mul_comm]
    exact_mod_cast Iff.rfl
  rw [split]
  unfold nearestEven
  change Nearest (if denominator < 2 * remainder ∨ denominator = 2 * remainder ∧ quotient % 2 = 1 then quotient + 1
    else quotient) _
  split_ifs with up
  · rcases up with more | ⟨tie, odd⟩
    · have := halved.mp more
      apply nearest_of_close
      push_cast
      rw [abs_of_nonpos] <;> linarith
    · have := tied.mp tie
      refine ⟨?_, fun _ => by omega⟩
      push_cast
      rw [abs_of_nonpos] <;> linarith
  · rw [not_or, not_and, halved, not_lt, tied] at up
    refine ⟨?_, fun tie => ?_⟩
    · rw [abs_of_nonneg] <;> linarith
    · rw [abs_of_nonneg (by linarith)] at tie
      have := up.2 (by linarith)
      omega

/-- The units of a binary number are its nearest decimal with that many places. -/
theorem fixedUnits_nearest (places mantissa : ℕ) (exponent : ℤ) :
    Nearest (fixedUnits places mantissa exponent) (mantissa * 2 ^ exponent * 10 ^ places) := by
  have scaled : (mantissa : ℚ) * 2 ^ exponent * 10 ^ places =
      ((mantissa * 10 ^ places * 2 ^ exponent.toNat : ℕ) : ℚ) / (2 ^ (-exponent).toNat : ℕ) := by
    push_cast
    rcases le_total 0 exponent with nonneg | nonpos
    · obtain ⟨count, rfl⟩ := Int.eq_ofNat_of_zero_le nonneg
      simp
      ring
    · obtain ⟨count, rfl⟩ : ∃ count : ℕ, exponent = -count := ⟨(-exponent).toNat, by omega⟩
      simp
      ring
  rw [scaled]
  exact nearestEven_nearest _ (Nat.two_pow_pos _)

section sixPlaces
variable {sign : Sign} {mantissa units : ℕ} {exponent : ℤ} {rounded : UnpackedFloat}

theorem div_close (nearest : Nearest units (mantissa * 2 ^ exponent * 10 ^ 6)) :
    |(units : ℚ) / 10 ^ 6 - mantissa * 2 ^ exponent| ≤ 1 / (2 * 10 ^ 6) := by
  have close := abs_le.mp nearest.close
  rw [abs_le]
  constructor <;> linarith

/-- A number with no more than six places is kept by them. -/
theorem div_eq_of_natCast {whole : ℕ} (equal : (mantissa : ℚ) * 2 ^ exponent = whole)
    (nearest : Nearest units (mantissa * 2 ^ exponent * 10 ^ 6)) : (units : ℚ) / 10 ^ 6 = mantissa * 2 ^ exponent := by
  rw [equal] at nearest ⊢
  have counted : units = whole * 10 ^ 6 := nearest.unique (by exact_mod_cast nearest_natCast (whole * 10 ^ 6))
  rw [counted, Nat.cast_mul, Nat.cast_pow, Nat.cast_ofNat, mul_div_cancel_right₀ _ (by norm_num)]

/-- From 16 on, six places are finer than binary32 and give the number back. -/
theorem rounds_of_sixteen_le (canonical : Grid .binary32 (mantissa * 2 ^ exponent) exponent) (positive : 0 < mantissa)
    (nearest : Nearest units (mantissa * 2 ^ exponent * 10 ^ 6)) (large : (16 : ℚ) ≤ mantissa * 2 ^ exponent) :
    Rounds .binary32 sign (units / 10 ^ 6) (.finite sign mantissa exponent positive) := by
  obtain ⟨-, below, tight⟩ := grid_count_iff.mp canonical
  have least : Format.binary32.minExponent = -149 := rfl
  have bits : Format.binary32.mantissaBits = 24 := rfl
  have coarse : -19 ≤ exponent := by
    have : (2 : ℚ) ^ (4 : ℤ) < 2 ^ (exponent + 24) := (show (2 : ℚ) ^ (4 : ℤ) ≤ _ by norm_num; exact large).trans_lt
      canonical.below
    have := (zpow_lt_zpow_iff_right₀ (by norm_num : (1 : ℚ) < 2)).mp this
    omega
  have full : 2 ^ 23 ≤ mantissa := tight.resolve_left (by omega)
  rcases full.eq_or_lt with power | more
  · -- A power of two from 16 on is an integer, which six places keep.
    have whole : (mantissa : ℚ) * 2 ^ exponent = ((2 ^ (23 + exponent).toNat : ℕ) : ℚ) := by
      have distance : (((23 + exponent).toNat : ℕ) : ℤ) = 23 + exponent := Int.toNat_of_nonneg (by omega)
      rw [← power, Nat.cast_pow, Nat.cast_pow, Nat.cast_ofNat, ← zpow_natCast (2 : ℚ) (23 + exponent).toNat, distance,
        zpow_add₀ two_ne_zero]
      norm_num
    rw [div_eq_of_natCast whole nearest]
    exact (show Canonical .binary32 (.finite sign mantissa exponent positive) from canonical).rounds rfl
  · have step : 1 / 2 ^ 19 ≤ (2 : ℚ) ^ exponent := by
      calc (1 : ℚ) / 2 ^ 19
        _ = 2 ^ (-19 : ℤ) := by norm_num
        _ ≤ 2 ^ exponent := zpow_le_zpow_right₀ (by norm_num) coarse
    have close := abs_le.mp (div_close nearest)
    have scale : (0 : ℚ) < 2 ^ exponent := by positivity
    have lower : ((2 : ℚ) ^ 23 + 1) * 2 ^ exponent ≤ mantissa * 2 ^ exponent := by
      gcongr
      exact_mod_cast more
    have upper : (mantissa : ℚ) * 2 ^ exponent ≤ (2 ^ 24 - 1) * 2 ^ exponent := by
      gcongr
      have : (mantissa : ℚ) + 1 ≤ 2 ^ 24 := by exact_mod_cast below
      linarith
    have tiny : (1 : ℚ) / (2 * 10 ^ 6) < 1 / 2 * (1 / 2 ^ 19) := by norm_num
    refine ⟨mantissa, exponent, ⟨by omega, ?_, .inr ?_⟩, nearest_of_close ?_, ?_⟩
    · rw [Rounding.zpow_add_mantissaBits, bits]
      linarith
    · rw [Rounding.zpow_add_mantissaBits_sub_one, bits]
      norm_num at lower ⊢
      linarith
    · have scaled : (units : ℚ) / 10 ^ 6 / 2 ^ exponent - mantissa =
          (units / 10 ^ 6 - mantissa * 2 ^ exponent) / 2 ^ exponent := by field_simp
      rw [scaled, abs_div, abs_of_pos scale, div_lt_iff₀ scale]
      exact (div_close nearest).trans_lt (by linarith)
    · simp [Rounding.onGrid, positive, below]

/-- Below 16, binary32 is finer than six places by more than half. -/
theorem error_le_of_lt_sixteen (rounds : Rounds .binary32 sign (units / 10 ^ 6) rounded)
    (nearest : Nearest units (mantissa * 2 ^ exponent * 10 ^ 6)) (small : (mantissa : ℚ) * 2 ^ exponent < 16) :
    |magnitude rounded - units / 10 ^ 6| ≤ 1 / 2 ^ 21 := by
  have bound : units ≤ 16000000 := nearest.le_of_le (by norm_num; linarith)
  rcases bound.lt_or_eq with below | rfl
  · have error := rounds.error_le (show Format.binary32.minExponent ≤ -20 by decide) (by
      have : (units : ℚ) < 16000000 := by exact_mod_cast below
      have bits : ((Format.binary32.mantissaBits : ℕ) : ℤ) = 24 := rfl
      rw [bits]
      norm_num
      linarith)
    norm_num at error ⊢
    exact error
  · have exact : magnitude rounded = 16 := by
      have whole : ((16000000 : ℕ) : ℚ) / 10 ^ 6 = ((16 : ℕ) : ℚ) * 2 ^ (0 : ℤ) := by norm_num
      rw [whole] at rounds
      have := rounds.magnitude_eq_of_count (by decide) (by decide)
      rw [this]
      norm_num
    rw [exact]
    norm_num

/-- Every magnitude of a binary number has nearest units. -/
theorem exists_units (original : UnpackedFloat) : ∃ units, Nearest units (magnitude original * 10 ^ 6) := by
  cases original with
  | finite sign mantissa exponent positive => exact ⟨_, fixedUnits_nearest 6 mantissa exponent⟩
  | infinity | notANumber | zero =>
      refine ⟨0, ?_⟩
      rw [magnitude, zero_mul]
      · exact_mod_cast nearest_natCast 0
      · simp

theorem units_eq_zero {sign : Sign} (nearest : Nearest units (magnitude (.zero sign) * 10 ^ 6)) : units = 0 := by
  rw [Rounding.magnitude_zero, zero_mul] at nearest
  exact nearest.unique (by exact_mod_cast nearest_natCast 0)

/-- Six places and back: the number stays within a millionth, is kept from 16 on, and has the same places. -/
theorem six_places {original : UnpackedFloat} (canonical : Canonical .binary32 original)
    (finite : original.isFinite = true) (fits : magnitude original < limit .binary32)
    (nearest : Nearest units (magnitude original * 10 ^ 6))
    (rounds : Rounds .binary32 (Rounding.sign original) (units / 10 ^ 6) rounded) :
    magnitude rounded < limit .binary32 ∧ |magnitude rounded - magnitude original| < 1 / 10 ^ 6 ∧
      (16 ≤ magnitude original → rounded = original) ∧ Nearest units (magnitude rounded * 10 ^ 6) := by
  have kept (same : rounded = original) : magnitude rounded < limit .binary32 ∧
      |magnitude rounded - magnitude original| < 1 / 10 ^ 6 ∧
      (16 ≤ magnitude original → rounded = original) ∧ Nearest units (magnitude rounded * 10 ^ 6) := by
    subst same
    refine ⟨fits, ?_, fun _ => rfl, nearest⟩
    rw [sub_self]
    norm_num
  cases original with
  | infinity | notANumber => cases finite
  | zero sign =>
      obtain rfl := units_eq_zero nearest
      rw [Nat.cast_zero, zero_div] at rounds
      exact kept (rounds.unique (Rounding.rounds_zero ..))
  | finite sign mantissa exponent positive =>
      rcases le_or_gt 16 (magnitude (.finite sign mantissa exponent positive)) with large | small
      · exact kept (rounds.unique (rounds_of_sixteen_le canonical positive nearest large))
      · have error := abs_le.mp (error_le_of_lt_sixteen rounds nearest small)
        have close := abs_le.mp (div_close nearest)
        have gap : (1 : ℚ) / 2 ^ 21 < 1 / (2 * 10 ^ 6) := by norm_num
        have halves : (1 : ℚ) / (2 * 10 ^ 6) + 1 / (2 * 10 ^ 6) = 1 / 10 ^ 6 := by norm_num
        rw [Rounding.magnitude_finite] at small ⊢
        refine ⟨?_, ?_, fun large => absurd small large.not_gt, nearest_of_close ?_⟩
        · have : (17 : ℚ) < limit .binary32 := by norm_num [limit, Format.exponentBias]
          linarith
        · rw [abs_lt]
          constructor <;> linarith
        · rw [abs_lt]
          constructor <;> linarith

end sixPlaces

end EpisodicReplay.Decimal
