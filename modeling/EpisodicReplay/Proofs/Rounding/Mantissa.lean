import EpisodicReplay.Proofs.Rounding.Nearest

/-! Rounding a mantissa of any length onto the grid of a format. -/

namespace EpisodicReplay.Rounding
open Float.Model (Format UnpackedFloat totalExponent)
open Float.Model.UnpackedFloat (Accuracy ExtendedMantissa Sign shiftToExponent shiftToTargetExponent roundWithAccuracy)

/-- What lies between a mantissa and a number, told by two residual bits. -/
def Residue (fraction : ℚ) : Bool → Bool → Prop
  | false, false => fraction = 0
  | false, true => 0 < fraction ∧ fraction < 1 / 2
  | true, false => fraction = 1 / 2
  | true, true => 1 / 2 < fraction ∧ fraction < 1

/-- A mantissa with residual bits says where a number lies between two integers. -/
def Encodes (extended : ExtendedMantissa) (number : ℚ) : Prop :=
  Residue (number - extended.mantissa) extended.roundBit extended.stickyBit

theorem Residue.nonneg {fraction : ℚ} {roundBit stickyBit : Bool} (residue : Residue fraction roundBit stickyBit) :
    0 ≤ fraction := by
  cases roundBit <;> cases stickyBit <;> simp only [Residue] at residue <;> linarith

theorem Residue.lt_one {fraction : ℚ} {roundBit stickyBit : Bool} (residue : Residue fraction roundBit stickyBit) :
    fraction < 1 := by
  cases roundBit <;> cases stickyBit <;> simp only [Residue] at residue <;> linarith

/-- A zero bit in front of a fraction halves it. -/
theorem Residue.zero {fraction : ℚ} {roundBit stickyBit : Bool} (residue : Residue fraction roundBit stickyBit) :
    Residue (fraction / 2) false (roundBit || stickyBit) := by
  cases roundBit <;> cases stickyBit <;> simp only [Residue, Bool.or_false, Bool.or_true] at residue ⊢
  case false.false => linarith
  all_goals constructor <;> linarith

/-- A one bit in front of a fraction adds a half. -/
theorem Residue.one {fraction : ℚ} {roundBit stickyBit : Bool} (residue : Residue fraction roundBit stickyBit) :
    Residue ((fraction + 1) / 2) true (roundBit || stickyBit) := by
  cases roundBit <;> cases stickyBit <;> simp only [Residue, Bool.or_false, Bool.or_true] at residue ⊢
  case false.false => linarith
  all_goals constructor <;> linarith

theorem Encodes.lower {extended : ExtendedMantissa} {number : ℚ} (encodes : Encodes extended number) :
    (extended.mantissa : ℚ) ≤ number := by
  have := Residue.nonneg encodes
  linarith

theorem Encodes.upper {extended : ExtendedMantissa} {number : ℚ} (encodes : Encodes extended number) :
    number < extended.mantissa + 1 := by
  have := Residue.lt_one encodes
  linarith

/-- Dropping the last bit halves the number. -/
theorem Encodes.shiftRightOne {extended : ExtendedMantissa} {number : ℚ} (encodes : Encodes extended number) :
    Encodes extended.shiftRightOne (number / 2) := by
  have whole := Nat.div_add_mod extended.mantissa 2
  unfold Encodes at encodes ⊢
  simp only [ExtendedMantissa.shiftRightOne]
  rcases Nat.mod_two_eq_zero_or_one extended.mantissa with last | last
  · have half : number / 2 - ((extended.mantissa / 2 : ℕ) : ℚ) = (number - extended.mantissa) / 2 := by
      have : (2 * (extended.mantissa / 2 : ℕ) + 0 : ℚ) = extended.mantissa := by exact_mod_cast last ▸ whole
      linarith
    rw [half, last]
    exact encodes.zero
  · have half : number / 2 - ((extended.mantissa / 2 : ℕ) : ℚ) = (number - extended.mantissa + 1) / 2 := by
      have : (2 * (extended.mantissa / 2 : ℕ) + 1 : ℚ) = extended.mantissa := by exact_mod_cast last ▸ whole
      linarith
    rw [half, last]
    exact encodes.one

theorem Encodes.shiftRight {extended : ExtendedMantissa} {number : ℚ} (encodes : Encodes extended number)
    (count : ℕ) : Encodes (extended >>> count) (number / 2 ^ count) := by
  induction count with
  | zero =>
      rw [pow_zero, div_one]
      exact encodes
  | succ count inductionHypothesis =>
      rw [pow_succ, ← div_div]
      exact inductionHypothesis.shiftRightOne

/-- The residual bits suffice to round. -/
theorem Encodes.nearest {extended : ExtendedMantissa} {number : ℚ} (encodes : Encodes extended number) :
    Nearest extended.roundedMantissa number := by
  obtain ⟨mantissa, roundBit, stickyBit⟩ := extended
  unfold Encodes at encodes
  cases roundBit <;> cases stickyBit <;> simp only [Residue] at encodes <;>
    simp only [ExtendedMantissa.roundedMantissa, ExtendedMantissa.accuracy, Accuracy.roundToNearestEven]
  case false.false =>
    rw [show number = mantissa by linarith]
    exact nearest_natCast mantissa
  case false.true =>
    apply nearest_of_close
    rw [abs_of_nonneg] <;> linarith
  case true.false =>
    rcases Nat.mod_two_eq_zero_or_one mantissa with last | last
    · rw [last, Nat.add_zero]
      exact ⟨by rw [encodes]; norm_num, fun _ => last⟩
    · rw [last]
      refine ⟨?_, fun _ => by omega⟩
      push_cast
      rw [abs_of_nonpos] <;> linarith
  case true.true =>
    apply nearest_of_close
    push_cast
    rw [abs_of_nonpos] <;> linarith

end EpisodicReplay.Rounding
