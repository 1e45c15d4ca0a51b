import EpisodicReplay.Proofs.Binary32

/-! Decimals become the nearest binary32 number. -/

namespace EpisodicReplay.Decimal
open Float.Model (Format UnpackedFloat)
open Float.Model.UnpackedFloat (Sign)
open Rounding (Canonical Rounds magnitude limit)

/-- Counts of up to 23 bits are binary32 numbers. -/
theorem toFloat32_rounds {count : ℕ} (small : count < 2 ^ 23) :
    Rounds .binary32 .positive count count.toUInt64.toFloat32.toModel.unpack ∧
      magnitude count.toUInt64.toFloat32.toModel.unpack = count := by
  have same : count.toUInt64.toNat = count := UInt64.toNat_ofNat_of_lt (small.trans (by decide))
  have rounds : Rounds .binary32 .positive count (.ofNat .binary32 count.toUInt64.toNat) := by
    rw [same]
    exact Rounding.ofNat_rounds ..
  have exact : magnitude (.ofNat .binary32 count.toUInt64.toNat) = count := by
    have scaled : (count : ℚ) = count * 2 ^ (0 : ℤ) := by rw [zpow_zero, mul_one]
    rw [scaled] at rounds ⊢
    exact rounds.magnitude_eq_of_count (by decide) (small.trans (by decide))
  have fits : magnitude (.ofNat .binary32 count.toUInt64.toNat) < limit .binary32 := by
    have : (count : ℚ) < 2 ^ 23 := by exact_mod_cast small
    rw [exact]
    exact this.trans (by norm_num [limit, Format.exponentBias])
  have kept : count.toUInt64.toFloat32.toModel.unpack = .ofNat .binary32 count.toUInt64.toNat :=
    Rounding.unpack_pack (by decide) rounds.canonical fits
  rw [kept]
  exact ⟨rounds, exact⟩

theorem unpack_million : (Float32.exactlyRepresentablePowersOfTen[6]).toModel.unpack =
    .finite .positive 16000000 (-4) (by decide) :=
  rfl

/-- A number of millionths is rounded once. -/
theorem ofScientific_rounds (units : ℕ) : ∃ rounded, Float32.ofScientific units true 6 = .ofModel (.pack rounded) ∧
    Rounds .binary32 .positive (units / 10 ^ 6) rounded := by
  unfold Float32.ofScientific
  split
  case isTrue small =>
    obtain ⟨rounds, exact⟩ := toFloat32_rounds small.1
    have million : magnitude (.finite .positive 16000000 (-4) (by decide)) = 10 ^ 6 := by
      norm_num [magnitude]
    refine ⟨_, rfl, ?_⟩
    change Rounds _ _ _ (UnpackedFloat.div _ _ (Float32.exactlyRepresentablePowersOfTen[6]).toModel.unpack)
    rw [unpack_million, ← exact, ← million]
    have quotient := @Rounding.div_rounds .binary32 _ (.finite .positive 16000000 (-4) (by decide)) rounds.isFinite rfl
      (by rw [million]; norm_num)
    rwa [rounds.sign_eq] at quotient
  case isFalse large =>
    have nonzero : units ≠ 0 := fun zero => large ⟨by omega, by decide⟩
    have scaled : UnpackedFloat.ofScientific .binary32 units (-6) =
        UnpackedFloat.div .binary32 (.finite .positive units 0 (Nat.pos_of_ne_zero nonzero))
          (.finite .positive (10 ^ 6) 0 (by decide)) := by
      unfold UnpackedFloat.ofScientific
      rw [dif_neg nonzero, if_neg (by decide), if_neg (by norm_num),
        if_neg (by decide)]
      rfl
    refine ⟨_, congrArg (fun unpacked => Float32.ofModel (.pack unpacked)) scaled, ?_⟩
    have quotient := @Rounding.div_rounds .binary32 (.finite .positive units 0 (Nat.pos_of_ne_zero nonzero))
      (.finite .positive (10 ^ 6) 0 (by decide)) rfl rfl (by norm_num [magnitude])
    have exact : (units : ℚ) / 10 ^ 6 = magnitude (.finite .positive units 0 (Nat.pos_of_ne_zero nonzero)) /
        magnitude (.finite .positive (10 ^ 6) 0 (by decide)) := by
      norm_num [magnitude]
    rw [exact]
    exact quotient

end EpisodicReplay.Decimal
