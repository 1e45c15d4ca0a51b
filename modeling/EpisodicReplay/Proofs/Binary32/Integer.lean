import EpisodicReplay.Proofs.Binary32
import EpisodicReplay.Proofs.Decimal.Scientific

/-! Integers as binary32 numbers, and the integer nearest to a binary32 number. -/

namespace EpisodicReplay.Binary32
open Float.Model (UnpackedFloat)
open Rounding (magnitude limit)

/-- Rounding a finite number from elsewhere gives the nearest one, unless it is too large. -/
theorem round_isNearest {unpacked : UnpackedFloat} (finite : unpacked.isFinite = true)
    (small : |Rounding.value unpacked| ≤ 2 ^ 127) : IsNearest (round unpacked) (Rounding.value unpacked) := by
  cases unpacked with
  | infinity | notANumber => cases finite
  | zero sign =>
      rw [Rounding.value_zero] at small ⊢
      exact isNearest_pack (Rounding.roundsTo_zero .binary32 sign) small
  | finite sign mantissa exponent positive =>
      exact isNearest_pack ⟨sign, _, Rounding.magnitude_nonneg _, rfl, Rounding.round_rounds positive⟩ small

/-- An integer of 32 bits is rounded once. -/
theorem toFloat32_isNearest (count : UInt32) : IsNearest count.toFloat32 count.toNat := by
  refine isNearest_pack ⟨.positive, count.toNat, Nat.cast_nonneg _, rfl, Rounding.ofNat_rounds ..⟩ ?_
  rw [abs_of_nonneg (Nat.cast_nonneg _)]
  have small : (count.toNat : ℚ) ≤ 2 ^ 32 := by exact_mod_cast count.toNat_lt.le
  exact small.trans (by norm_num)

/-- Counts of up to 23 bits are binary32 numbers. -/
theorem ofNat_exact {count : ℕ} (small : count < 2 ^ 23) :
    (ofNat count).isFinite = true ∧ value (ofNat count) = count := by
  obtain ⟨rounds, exact⟩ := Decimal.toFloat32_rounds small
  have finite : count.toUInt64.toFloat32.isFinite = true := rounds.isFinite
  have same : value count.toUInt64.toFloat32 = count := by
    rw [value, Rounding.value, rounds.sign_eq, exact]
    rfl
  have scaled : ofNat count = count.toUInt64.toFloat32 * 1 := by
    rw [ofNat, Float32.ofScientific, dif_pos ⟨small, Nat.zero_le _⟩]
    rfl
  have below : (count : ℚ) ≤ 2 ^ 127 := by
    have : (count : ℚ) ≤ 2 ^ 23 := by exact_mod_cast small.le
    exact this.trans (by norm_num)
  have nearest := mul_isNearest finite isFinite_one (by
    rwa [value_one, mul_one, same, abs_of_nonneg (Nat.cast_nonneg _)])
  rw [value_one, mul_one] at nearest
  rw [scaled]
  refine ⟨nearest.isFinite, ?_⟩
  rw [← same]
  exact le_antisymm (nearest.value_le finite le_rfl) (nearest.le_value finite le_rfl)

/-- A share of a count stays within the count. -/
theorem mul_ofNat_isNearest {share : Float32} {count : ℕ} (small : count < 2 ^ 23) (finite : share.isFinite = true)
    (bounded : |value share| ≤ 1) :
    IsNearest (share * ofNat count) (value share * count) ∧ |value (share * ofNat count)| ≤ count := by
  obtain ⟨countFinite, exact⟩ := ofNat_exact small
  have within : |value share * count| ≤ count := by
    rw [abs_mul, Nat.abs_cast]
    exact mul_le_of_le_one_left (Nat.cast_nonneg _) bounded
  have below : (count : ℚ) ≤ 2 ^ 127 := by
    have : (count : ℚ) ≤ 2 ^ 23 := by exact_mod_cast small.le
    exact this.trans (by norm_num)
  have nearest := mul_isNearest finite countFinite (by
    rw [exact]
    exact within.trans below)
  have bound := nearest.abs_value_le countFinite (by rwa [exact])
  rw [exact] at nearest bound
  exact ⟨nearest, bound⟩

/-- Rounding to an integer does not cross one. -/
theorem nearestMagnitude_le {mantissa bound : ℕ} {exponent : ℤ} (below : (mantissa : ℚ) * 2 ^ exponent ≤ bound) :
    nearestMagnitude mantissa exponent ≤ bound := by
  cases exponent with
  | ofNat places =>
      rw [nearestMagnitude, Nat.shiftLeft_eq]
      rw [Int.ofNat_eq_natCast, zpow_natCast] at below
      exact_mod_cast below
  | negSucc dropped =>
      rw [zpow_negSucc, ← div_eq_mul_inv, div_le_iff₀ (by positivity)] at below
      have scaled : mantissa ≤ bound * 2 ^ (dropped + 1) := by exact_mod_cast below
      have half : 2 ^ dropped < 2 ^ (dropped + 1) := Nat.pow_lt_pow_right (by norm_num) (Nat.lt_succ_self _)
      change (mantissa + 2 ^ dropped) >>> (dropped + 1) ≤ bound
      rw [Nat.shiftRight_eq_div_pow, ← Nat.lt_succ_iff, Nat.div_lt_iff_lt_mul (Nat.two_pow_pos _), Nat.succ_mul]
      omega

/-- The integer next to a number is a number too: it has few digits, or it is the number itself. -/
theorem magnitude_round_lt_limit (sign : UnpackedFloat.Sign) {mantissa : ℕ} {exponent : ℤ}
    (grid : Rounding.Grid .binary32 (mantissa * 2 ^ exponent) exponent)
    (small : (mantissa : ℚ) * 2 ^ exponent < limit .binary32) (positive : 0 < nearestMagnitude mantissa exponent) :
    magnitude (.round .binary32 sign (nearestMagnitude mantissa exponent) 0) < limit .binary32 := by
  have rounds := @Rounding.round_rounds .binary32 sign _ 0 positive
  rw [zpow_zero, mul_one] at rounds
  obtain ⟨least, fits, -⟩ := Rounding.grid_count_iff.mp grid
  cases exponent with
  | ofNat places =>
      have same : (nearestMagnitude mantissa (.ofNat places) : ℚ) = mantissa * 2 ^ Int.ofNat places := by
        rw [nearestMagnitude, Nat.shiftLeft_eq, Int.ofNat_eq_natCast, zpow_natCast]
        push_cast
        rfl
      rw [same] at rounds
      rwa [rounds.magnitude_eq_of_count least fits]
  | negSucc dropped =>
      have digits : (mantissa : ℚ) ≤ 2 ^ 24 := by exact_mod_cast fits.le
      have shrunk : (2 : ℚ) ^ Int.negSucc dropped ≤ 1 := zpow_le_one_of_nonpos₀ (by norm_num) (by omega)
      have few : nearestMagnitude mantissa (.negSucc dropped) ≤ 2 ^ 24 := nearestMagnitude_le (by
        push_cast
        exact (mul_le_of_le_one_right (Nat.cast_nonneg _) shrunk).trans digits)
      have bounded : magnitude (.round .binary32 sign (nearestMagnitude mantissa (.negSucc dropped)) 0) ≤
          (2 : ℚ) ^ (24 : ℤ) := by
        refine Rounding.RoundsTo.magnitude_le ⟨sign, _, Nat.cast_nonneg _, rfl, rounds⟩ (by decide) ?_
        rw [Rounding.abs_signed, Nat.abs_cast]
        exact_mod_cast few
      exact bounded.trans_lt (by norm_num [limit, Float.Model.Format.exponentBias])

theorem roundIntegral_isFinite {number : Float32} (finite : number.isFinite = true) :
    (roundIntegral number).isFinite = true := by
  have small := magnitude_lt_limit number
  have grid := canonical number
  change number.toModel.unpack.isFinite = true at finite
  unfold roundIntegral
  cases unpacked : number.toModel.unpack with
  | infinity | notANumber => rw [unpacked] at finite; cases finite
  | zero => exact finite
  | finite sign mantissa exponent positive =>
      rw [unpacked] at small grid
      have below := magnitude_round_lt_limit sign grid small
      dsimp only
      cases rounded : nearestMagnitude mantissa exponent with
      | zero => exact (@round_isNearest (.zero sign) rfl (by rw [Rounding.value_zero]; norm_num)).isFinite
      | succ count =>
          rw [rounded] at below
          have rounds := @Rounding.round_rounds .binary32 sign (count + 1) 0 count.succ_pos
          have kept : (round (.finite sign (count + 1) 0 count.succ_pos)).toModel.unpack =
              .round .binary32 sign (count + 1) 0 :=
            Rounding.unpack_pack (by decide) rounds.canonical (below count.succ_pos)
          change UnpackedFloat.isFinite (Float32.toModel _).unpack = true
          rw [kept]
          exact rounds.isFinite

theorem roundIntegral_of_not_isFinite {number : Float32} (infinite : number.isFinite = false) :
    roundIntegral number = number := by
  change number.toModel.unpack.isFinite = false at infinite
  unfold roundIntegral
  cases unpacked : number.toModel.unpack with
  | zero | finite => simp [unpacked, UnpackedFloat.isFinite] at infinite
  | infinity | notANumber => rfl

theorem natAbs_nearestInteger_le {number : Float32} {bound : ℕ} (small : |value number| ≤ bound) :
    (nearestInteger number.toModel.unpack).natAbs ≤ bound := by
  rw [value, Rounding.abs_value] at small
  cases unpacked : number.toModel.unpack with
  | notANumber | infinity | zero => exact Nat.zero_le _
  | finite sign mantissa exponent positive =>
      rw [unpacked] at small
      have rounded : nearestMagnitude mantissa exponent ≤ bound := nearestMagnitude_le small
      cases sign
      · rwa [nearestInteger, UnpackedFloat.Sign.apply, Int.natAbs_neg, Int.natAbs_natCast]
      · rwa [nearestInteger, UnpackedFloat.Sign.apply, Int.natAbs_natCast]

theorem nearestInteger_nonneg {number : Float32} (nonneg : 0 ≤ value number) :
    0 ≤ nearestInteger number.toModel.unpack := by
  rw [value] at nonneg
  cases unpacked : number.toModel.unpack with
  | notANumber | infinity | zero => exact le_rfl
  | finite sign mantissa exponent positive =>
      rw [unpacked] at nonneg
      cases sign
      · have above := Rounding.magnitude_pos .negative mantissa exponent positive
        rw [Rounding.value] at nonneg
        exact absurd nonneg (not_le.mpr (neg_neg_of_pos above))
      · exact Int.natCast_nonneg _

end EpisodicReplay.Binary32
