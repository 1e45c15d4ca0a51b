import EpisodicReplay.Generator
import EpisodicReplay.Proofs.Binary32.Integer
import EpisodicReplay.Proofs.Binary32.Unit

/-! Where the draws of a generator lie, whatever its state. -/

namespace EpisodicReplay.Generator
open Binary32

theorem value_grain : value 16777216 = 2 ^ 24 := by
  have unpacked : (16777216 : Float32).toModel.unpack = .finite .positive (2 ^ 23) 1 (by decide) := rfl
  rw [value_of_unpack_eq unpacked]
  norm_num [Float.Model.UnpackedFloat.Sign.apply]

/-- The upper bits of a word count grains. -/
theorem toNat_upper_lt (word : UInt64) : (word >>> 40).toUInt32.toNat < 2 ^ 24 := by
  have bits : (word >>> 40).toUInt32.toNat = word.toNat >>> 40 % 2 ^ 32 := by simp
  rw [bits, Nat.shiftRight_eq_div_pow]
  have := word.toNat_lt
  omega

theorem unit_inUnit (generator : Generator) : InUnit generator.unit.1 := by
  let count := (generator.next.1 >>> 40).toUInt32
  have grains := toFloat32_isNearest count
  have few : (count.toNat : ℚ) ≤ 2 ^ 24 := by exact_mod_cast (toNat_upper_lt generator.next.1).le
  have low : 0 ≤ value count.toFloat32 := by
    have bound := grains.le_value isFinite_zero (by rw [value_zero]; exact Nat.cast_nonneg _)
    rwa [value_zero] at bound
  have high : value count.toFloat32 ≤ 2 ^ 24 := by
    have bound := grains.value_le (show (16777216 : Float32).isFinite = true from rfl) (by rwa [value_grain])
    rwa [value_grain] at bound
  have below : value count.toFloat32 / value 16777216 ≤ 1 := by
    rw [value_grain, div_le_one (by norm_num)]
    exact high
  have above : 0 ≤ value count.toFloat32 / value 16777216 := by
    rw [value_grain]
    positivity
  have nearest := div_isNearest grains.isFinite (show (16777216 : Float32).isFinite = true from rfl)
    (by rw [value_grain]; norm_num) (by rw [abs_of_nonneg above]; exact below.trans (by norm_num))
  exact nearest.inUnit above below

theorem signed_bounds (generator : Generator) :
    generator.signed.1.isFinite = true ∧ |value generator.signed.1| ≤ 1 := by
  have unit := unit_inUnit generator
  have two : (2 : Float32).isFinite = true := rfl
  have double : 0 ≤ value generator.unit.1 * value 2 ∧ value generator.unit.1 * value 2 ≤ value 2 := by
    have := unit.lower
    have := unit.upper
    rw [value_two]
    constructor <;> linarith
  have doubled := mul_isNearest unit.finite two (by
    rw [abs_of_nonneg double.1]
    exact double.2.trans (by rw [value_two]; norm_num))
  have low := doubled.le_value isFinite_zero (by rw [value_zero]; exact double.1)
  have high := doubled.value_le two double.2
  rw [value_zero] at low
  rw [value_two] at high
  have centred := sub_isNearest doubled.isFinite isFinite_one (by
    rw [value_one]
    exact (abs_le.mpr ⟨by linarith, by linarith⟩ : _ ≤ (1 : ℚ)).trans (by norm_num))
  have bounded := centred.abs_value_le isFinite_one (by
    rw [value_one]
    exact abs_le.mpr ⟨by linarith, by linarith⟩)
  rw [value_one] at bounded
  exact ⟨centred.isFinite, bounded⟩

end EpisodicReplay.Generator
