import EpisodicReplay.Json.Number
import EpisodicReplay.Proofs.Rounding.Packing

/-! Numbers that do not reach far in front of the point have a value. -/

namespace EpisodicReplay.Json
open Float.Model (Format UnpackedFloat)
open Rounding (Canonical magnitude limit)

section binary64

/-- A product that is not too large is finite. -/
theorem isInf_mul {left right : Float} (leftFinite : left.toModel.unpack.isFinite = true)
    (rightFinite : right.toModel.unpack.isFinite = true)
    (small : magnitude left.toModel.unpack * magnitude right.toModel.unpack ≤ 2 ^ 255) :
    (left * right).isInf = false := by
  have rounds := Rounding.mul_roundsTo leftFinite (@Rounding.canonical_unpack .binary64 left.toModel.toBits.toBitVec)
    rightFinite (@Rounding.canonical_unpack .binary64 right.toModel.toBits.toBitVec)
  have bounded : magnitude (left.toModel.unpack.mul .binary64 right.toModel.unpack) ≤ (2 : ℚ) ^ (255 : ℤ) := by
    refine rounds.magnitude_le (by decide) ?_
    rw [abs_mul, Rounding.abs_value, Rounding.abs_value]
    exact_mod_cast small
  have fits : magnitude (left.toModel.unpack.mul .binary64 right.toModel.unpack) < limit .binary64 :=
    lt_of_le_of_lt bounded (pow_lt_pow_right₀ (by norm_num) (by decide))
  have kept : (left * right).toModel.unpack = left.toModel.unpack.mul .binary64 right.toModel.unpack :=
    Rounding.unpack_pack (by decide) rounds.canonical fits
  have finite := rounds.isFinite
  change (left * right).toModel.unpack.isInf = false
  rw [kept]
  cases product : left.toModel.unpack.mul .binary64 right.toModel.unpack with
  | infinity => simp [product, UnpackedFloat.isFinite] at finite
  | notANumber | zero | finite => rfl

/-- Integers of 64 bits are finite. -/
theorem toFloat_magnitude_le (number : UInt64) :
    number.toFloat.toModel.unpack.isFinite = true ∧ magnitude number.toFloat.toModel.unpack ≤ 2 ^ 64 := by
  have rounds := Rounding.ofNat_rounds .binary64 number.toNat
  have small : ((number.toNat : ℕ) : ℚ) ≤ 2 ^ 64 := by exact_mod_cast number.toNat_lt.le
  have bounded : magnitude (.ofNat .binary64 number.toNat) ≤ (2 : ℚ) ^ (64 : ℤ) := by
    refine Rounding.RoundsTo.magnitude_le ⟨.positive, _, Nat.cast_nonneg _, rfl, rounds⟩ (by decide) ?_
    rw [Rounding.abs_signed, abs_of_nonneg (Nat.cast_nonneg _)]
    exact_mod_cast small
  have fits : magnitude (.ofNat .binary64 number.toNat) < limit .binary64 :=
    lt_of_le_of_lt bounded (pow_lt_pow_right₀ (by norm_num) (by decide))
  have kept : number.toFloat.toModel.unpack = .ofNat .binary64 number.toNat :=
    Rounding.unpack_pack (by decide) rounds.canonical fits
  rw [kept]
  exact ⟨rounds.isFinite, bounded⟩

theorem unpack_power : ∀ exponent ≤ 40, (match (Float.ofScientific 1 false exponent).toModel.unpack with
    | .finite _ mantissa place _ => decide (mantissa < 2 ^ 53 ∧ place ≤ 100 ∧ 2 ^ (-place).toNat ≤ mantissa)
    | _ => false) = true := by
  decide +kernel

/-- What the first powers of ten look like. -/
theorem exists_unpack_power {exponent : Nat} (small : exponent ≤ 40) : ∃ sign mantissa place positive,
    (Float.ofScientific 1 false exponent).toModel.unpack = .finite sign mantissa place positive ∧
      mantissa < 2 ^ 53 ∧ place ≤ 100 ∧ 2 ^ (-place).toNat ≤ mantissa := by
  have shape := unpack_power exponent small
  split at shape
  case h_1 sign mantissa place positive unpacked =>
    exact ⟨sign, mantissa, place, positive, unpacked, of_decide_eq_true shape⟩
  case h_2 => cases shape

/-- Powers of ten up to the fortieth are finite. -/
theorem power_magnitude_le {exponent : Nat} (small : exponent ≤ 40) :
    (Float.ofScientific 1 false exponent).toModel.unpack.isFinite = true ∧
      magnitude (Float.ofScientific 1 false exponent).toModel.unpack ≤ 2 ^ 153 := by
  obtain ⟨sign, mantissa, place, positive, unpacked, narrow, low, -⟩ := exists_unpack_power small
  rw [unpacked]
  refine ⟨rfl, ?_⟩
  have digits : (mantissa : ℚ) ≤ 2 ^ 53 := by exact_mod_cast narrow.le
  have scale : (2 : ℚ) ^ place ≤ 2 ^ (100 : ℤ) := zpow_le_zpow_right₀ (by norm_num) low
  calc (mantissa : ℚ) * 2 ^ place
    _ ≤ 2 ^ 53 * 2 ^ (100 : ℤ) := by gcongr
    _ = 2 ^ 153 := by norm_num

end binary64

namespace Number

/-- Division never leaves the range. -/
theorem scale?_isSome_of_neg (value : Float) {exponent : Int} (down : exponent < 0) :
    (scale? value exponent).isSome := by
  fun_induction scale? value exponent with
  | case1 => omega
  | case2 => omega
  | case3 => rfl
  | case4 => rfl
  | case5 => omega
  | case6 value exponent _ _ _ inductionHypothesis => exact inductionHypothesis (by omega)

theorem scale?_isSome {exponent : Int} (number : UInt64) (small : exponent ≤ 40) :
    (scale? number.toFloat exponent).isSome := by
  rcases lt_or_ge exponent 0 with down | up
  · exact scale?_isSome_of_neg _ down
  · obtain ⟨finite, bound⟩ := toFloat_magnitude_le number
    obtain ⟨powerFinite, powerBound⟩ := @power_magnitude_le exponent.toNat (by omega)
    have product : (number.toFloat * .ofScientific 1 false exponent.toNat).isInf = false := by
      refine isInf_mul finite powerFinite ?_
      calc
        magnitude number.toFloat.toModel.unpack * magnitude (Float.ofScientific 1 false exponent.toNat).toModel.unpack
        _ ≤ 2 ^ 64 * 2 ^ 153 := mul_le_mul bound powerBound (Rounding.magnitude_nonneg _) (by positivity)
        _ ≤ 2 ^ 255 := by norm_num
    rw [scale?, if_pos (by omega), if_pos up]
    simp [product]

/-- The significand takes no more digits than there are. -/
theorem appendDigits_length_le (significand : Nat) (digits : List Char) :
    (appendDigits significand digits).2.length ≤ digits.length := by
  induction digits generalizing significand with
  | nil => exact Nat.le_refl _
  | cons char rest inductionHypothesis =>
      rw [appendDigits]
      split
      · exact Nat.le_succ_of_le (inductionHypothesis _)
      · exact Nat.le_refl _

/-- How far an exponent moves digits in front of the point. -/
def upward : Option (Bool × List Char) → Nat
  | some (false, digits) => (Decimal.digitsValue? digits).getD 0
  | _ => 0

theorem magnitude?_isSome {number : Number} (near : number.whole.length + upward number.exponent ≤ 40) :
    number.magnitude?.isSome := by
  obtain ⟨negative, whole, fraction, exponent⟩ := number
  have wholeLeft := appendDigits_length_le 0 whole
  simp only [magnitude?]
  generalize appendDigits 0 whole = wholeRead at wholeLeft
  generalize appendDigits wholeRead.1 fraction = fractionRead
  cases exponent with
  | none =>
      refine scale?_isSome _ ?_
      simp only [upward] at near
      omega
  | some parts =>
      obtain ⟨down, digits⟩ := parts
      dsimp only
      split
      case isTrue =>
        refine scale?_isSome _ ?_
        cases down with
        | true =>
            simp only [upward] at near
            simp only [if_true]
            omega
        | false =>
            simp only [upward] at near
            simp only [Bool.false_eq_true, if_false]
            omega
      case isFalse far =>
        cases down with
        | true => rfl
        | false =>
            simp only [upward] at near
            omega

/-- A number that does not reach far has a value. -/
theorem value?_isSome {number : Number} (near : number.whole.length + upward number.exponent ≤ 40) :
    number.value?.isSome := by
  unfold value?
  dsimp only
  split
  · rfl
  · split
    · rfl
    · rw [Option.isSome_map]
      exact magnitude?_isSome near

end Number

end EpisodicReplay.Json
