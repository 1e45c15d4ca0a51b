import EpisodicReplay.Proofs.Binary32.Integer
import EpisodicReplay.Proofs.Binary32.Range
import EpisodicReplay.Proofs.Tuning.Evaluation

/-! The mean of a count is the fraction of it, rounded to binary64 and from there to binary32. -/

namespace EpisodicReplay.Tuning
open Binary32
open Rounding (Rounds RoundsTo magnitude limit)

/-- The binary32 number nearest to the binary64 number nearest to a rational. -/
def IsTwiceRounded (number : Float32) (exact : ℚ) : Prop :=
  ∃ wide, RoundsTo .binary64 exact wide ∧ IsNearest number (Rounding.value wide)

/-- Counts of up to 53 bits are binary64 numbers. -/
theorem toFloat_rounds {count : ℕ} (small : count < 2 ^ 53) :
    Rounds .binary64 .positive count count.toUInt64.toFloat.toModel.unpack ∧
      magnitude count.toUInt64.toFloat.toModel.unpack = count := by
  have same : count.toUInt64.toNat = count := UInt64.toNat_ofNat_of_lt (small.trans (by decide))
  have rounds : Rounds .binary64 .positive (count * 2 ^ (0 : ℤ)) (.ofNat .binary64 count.toUInt64.toNat) := by
    rw [same, zpow_zero, mul_one]
    exact Rounding.ofNat_rounds ..
  have exact : magnitude (.ofNat .binary64 count.toUInt64.toNat) = count := by
    rw [rounds.magnitude_eq_of_count (by decide) (small.trans_eq (by decide)), zpow_zero, mul_one]
  have fits : magnitude (.ofNat .binary64 count.toUInt64.toNat) < limit .binary64 := by
    have below : (count : ℚ) < 2 ^ 53 := by exact_mod_cast small
    rw [exact]
    exact below.trans (pow_lt_pow_right₀ (by norm_num) (by decide))
  have kept : count.toUInt64.toFloat.toModel.unpack = .ofNat .binary64 count.toUInt64.toNat :=
    Rounding.unpack_pack (by decide) rounds.canonical fits
  rw [zpow_zero, mul_one] at rounds
  rw [kept]
  exact ⟨rounds, exact⟩

section
variable {part whole : ℕ} (inside : part ≤ whole) (positive : 0 < whole) (small : whole < 2 ^ 53)
include inside positive small

/-- The quotient of two counts is rounded once. -/
theorem quotient_rounds :
    Rounds .binary64 .positive (part / whole) (part.toUInt64.toFloat / whole.toUInt64.toFloat).toModel.unpack ∧
      magnitude (part.toUInt64.toFloat / whole.toUInt64.toFloat).toModel.unpack ≤ 1 := by
  obtain ⟨partRounds, partExact⟩ := toFloat_rounds (inside.trans_lt small)
  obtain ⟨wholeRounds, wholeExact⟩ := toFloat_rounds small
  have divisor : (0 : ℚ) < whole := by exact_mod_cast positive
  have share : (part : ℚ) / whole ≤ 1 := by
    rw [div_le_one divisor]
    exact_mod_cast inside
  have nonneg : (0 : ℚ) ≤ part / whole := by positivity
  have rounds : Rounds .binary64 .positive (part / whole)
      (part.toUInt64.toFloat.toModel.unpack.div .binary64 whole.toUInt64.toFloat.toModel.unpack) := by
    have divided := @Rounding.div_rounds .binary64 _ _ partRounds.isFinite wholeRounds.isFinite
      (by rw [wholeExact]; exact divisor.ne')
    rwa [partExact, wholeExact, partRounds.sign_eq, wholeRounds.sign_eq] at divided
  have bounded : magnitude
      (part.toUInt64.toFloat.toModel.unpack.div .binary64 whole.toUInt64.toFloat.toModel.unpack) ≤ (2 : ℚ) ^ (0 : ℤ) :=
    RoundsTo.magnitude_le ⟨.positive, part / whole, nonneg, rfl, rounds⟩ (by decide)
      (by rwa [zpow_zero, Rounding.abs_signed, abs_of_nonneg nonneg])
  rw [zpow_zero] at bounded
  have fits := lt_of_le_of_lt bounded (one_lt_pow₀ (by norm_num) (by decide) : (1 : ℚ) < limit .binary64)
  have kept : (part.toUInt64.toFloat / whole.toUInt64.toFloat).toModel.unpack =
      part.toUInt64.toFloat.toModel.unpack.div .binary64 whole.toUInt64.toFloat.toModel.unpack :=
    Rounding.unpack_pack (by decide) rounds.canonical fits
  rw [kept]
  exact ⟨rounds, bounded⟩

theorem mean_isTwiceRounded (fallback : Float32) :
    IsTwiceRounded (mean part.toUInt64.toFloat whole fallback) (part / whole) := by
  obtain ⟨rounds, bounded⟩ := quotient_rounds inside positive small
  have nonneg : (0 : ℚ) ≤ part / whole := by positivity
  rw [mean]
  generalize part.toUInt64.toFloat / whole.toUInt64.toFloat = quotient at rounds bounded ⊢
  have absolute : |Rounding.value quotient.toModel.unpack| ≤ 1 := by rwa [Rounding.abs_value]
  have low : 0 ≤ Rounding.value quotient.toModel.unpack := by
    rw [Rounding.value, rounds.sign_eq]
    exact Rounding.magnitude_nonneg _
  have nearest : IsNearest (narrow quotient) (Rounding.value quotient.toModel.unpack) :=
    round_isNearest rounds.isFinite (absolute.trans (by norm_num))
  have unit : InUnit (narrow quotient) := nearest.inUnit low (le_of_abs_le absolute)
  refine ⟨quotient.toModel.unpack, ⟨.positive, part / whole, nonneg, rfl, rounds⟩, ?_⟩
  rwa [finiteOr_of_isFinite nearest.isFinite, unit.clampUnit_eq]

/-- The mean of a count is the same for a multiple of both counts. -/
theorem mean_mul {copies : ℕ} (some : 0 < copies) (smallCopies : copies * whole < 2 ^ 53) (fallback : Float32) :
    mean (copies * part).toUInt64.toFloat (copies * whole) fallback = mean part.toUInt64.toFloat whole fallback := by
  obtain ⟨rounds, -⟩ := quotient_rounds inside positive small
  obtain ⟨copiesRounds, -⟩ :=
    quotient_rounds (Nat.mul_le_mul_left copies inside) (Nat.mul_pos some positive) smallCopies
  have reduced : ((copies * part : ℕ) : ℚ) / (copies * whole : ℕ) = part / whole := by
    have nonzero : (copies : ℚ) ≠ 0 := by exact_mod_cast some.ne'
    push_cast
    exact mul_div_mul_left _ _ nonzero
  rw [reduced] at copiesRounds
  have same : narrow ((copies * part).toUInt64.toFloat / (copies * whole).toUInt64.toFloat) =
      narrow (part.toUInt64.toFloat / whole.toUInt64.toFloat) := congrArg round (copiesRounds.unique rounds)
  rw [mean, mean, same]

end

end EpisodicReplay.Tuning
