import EpisodicReplay.Proofs.Decimal.Digits
import EpisodicReplay.Proofs.Decimal.Shortest
import Mathlib

/-! How far the shortest decimal of a binary32 number reaches in front of the point. -/

namespace EpisodicReplay.Decimal
variable {interval : RoundingInterval} {tie : Tie} {step : Int} {count mantissa : Nat}

theorem digitCount_le {number places : Nat} (below : number < 10 ^ places) : digitCount number ≤ places := by
  induction number using digitCount.induct generalizing places with
  | case1 =>
      rw [digitCount, if_pos rfl]
      exact Nat.zero_le _
  | case2 number nonzero inductionHypothesis =>
      cases places with
      | zero => omega
      | succ places =>
          rw [digitCount, if_neg nonzero]
          exact Nat.succ_le_succ (inductionHypothesis (by rw [Nat.pow_succ] at below; omega))

theorem leadingExponent_lt {numerator denominator places : Nat} (positive : 0 < places)
    (below : numerator / denominator < 10 ^ places) : leadingExponent numerator denominator < places := by
  unfold leadingExponent
  split
  · omega
  · have := digitCount_le below
    omega

theorem pow_toNat_div (base : ℚ) (nonzero : base ≠ 0) (exponent : ℤ) :
    base ^ exponent.toNat / base ^ (-exponent).toNat = base ^ exponent := by
  conv_rhs => rw [← Int.toNat_sub_toNat_neg exponent]
  rw [zpow_sub₀ nonzero, zpow_natCast, zpow_natCast]

theorem RoundingInterval.value_div_denominator (mantissa : Nat) (exponent : Int) :
    ((ofBinary mantissa exponent).value : ℚ) / (ofBinary mantissa exponent).denominator = mantissa * 2 ^ exponent := by
  have scale := pow_toNat_div 2 two_ne_zero (exponent - 2)
  have quarter : (2 : ℚ) ^ exponent = 4 * 2 ^ (exponent - 2) := by
    rw [zpow_sub₀ two_ne_zero]
    ring
  rw [quarter, ← scale]
  simp only [ofBinary, Nat.pow_eq]
  push_cast
  ring

theorem RoundingInterval.denominator_pos (mantissa : Nat) (exponent : Int) :
    0 < (ofBinary mantissa exponent).denominator :=
  Nat.pow_pos two_pos

/-- A number on a grid lies at most one step above the value. -/
theorem RoundingInterval.onGrid?_le (positive : 0 < interval.denominator)
    (found : interval.onGrid? tie step = some count) :
    (count : ℚ) * 10 ^ step ≤ interval.value / interval.denominator + 10 ^ step := by
  let scale := 10 ^ (-step).toNat
  let unit := interval.denominator * 10 ^ step.toNat
  have near : count ≤ interval.value * scale / unit + 1 := by
    unfold onGrid? at found
    dsimp only at found
    split at found
    case h_1 =>
      split at found <;> cases found
      · exact Nat.le_refl _
      · exact Nat.le_succ _
    case h_2 =>
      cases found
      exact Nat.le_succ _
    case h_3 =>
      cases found
      exact Nat.le_refl _
    case h_4 => cases found
  have quotient : (interval.value * scale / unit : ℕ) * (unit : ℚ) ≤ interval.value * scale := by
    exact_mod_cast Nat.div_mul_le_self _ _
  have power := pow_toNat_div 10 (by norm_num) step
  have below : ((interval.value * scale / unit : ℕ) : ℚ) * 10 ^ step ≤ interval.value / interval.denominator := by
    have denominator : (0 : ℚ) < interval.denominator := by exact_mod_cast positive
    rw [← power, ← mul_div_assoc, div_le_div_iff₀ (by positivity) denominator]
    simp only [scale, unit] at quotient ⊢
    push_cast at quotient ⊢
    linarith
  have cast : (count : ℚ) ≤ (interval.value * scale / unit : ℕ) + 1 := by exact_mod_cast near
  calc (count : ℚ) * 10 ^ step
    _ ≤ ((interval.value * scale / unit : ℕ) + 1) * 10 ^ step := by gcongr
    _ ≤ interval.value / interval.denominator + 10 ^ step := by linarith

/-- The number that is written. -/
def Scaled.value (number : Scaled) : ℚ :=
  number.significand * 10 ^ number.exponent

theorem Scaled.trimmed_value (number : Scaled) : number.trimmed.value = number.value := by
  induction number using Scaled.trimmed.induct with
  | case1 number zero => rw [Scaled.trimmed, if_pos zero]
  | case2 number nonzero even inductionHypothesis =>
      have whole : (number.significand : ℚ) = 10 * (number.significand / 10 : ℕ) := by
        exact_mod_cast (Nat.mul_div_cancel' (Nat.dvd_of_mod_eq_zero even)).symm
      rw [Scaled.trimmed, if_neg nonzero, if_pos even, inductionHypothesis, value, value, whole,
        zpow_add_one₀ (by norm_num)]
      ring
  | case3 number nonzero odd => rw [Scaled.trimmed, if_neg nonzero, if_neg odd]

/-- The shortest decimal of a number below `2 ^ 128` is below `10 ^ 40`. -/
theorem shortest_value_lt {exponent : Int} (below : (mantissa : ℚ) * 2 ^ exponent < 2 ^ 128) :
    (shortest tie mantissa exponent).value < 10 ^ 40 := by
  have bound := RoundingInterval.value_div_denominator mantissa exponent
  have positive := RoundingInterval.denominator_pos mantissa exponent
  unfold shortest
  dsimp only
  generalize RoundingInterval.ofBinary mantissa exponent = interval at bound positive
  rw [← bound] at below
  have leading : leadingExponent interval.value interval.denominator < 39 := by
    refine leadingExponent_lt (by decide) ?_
    have cast : ((interval.value / interval.denominator : ℕ) : ℚ) < 10 ^ 39 :=
      lt_trans (lt_of_le_of_lt Nat.cast_div_le below) (by norm_num)
    exact_mod_cast cast
  rw [Scaled.trimmed_value]
  generalize search : List.findSome? _ (List.range 9) = found
  cases found with
  | none => norm_num [Scaled.value]
  | some scaled =>
      obtain ⟨extra, -, mapped⟩ := List.exists_of_findSome?_eq_some search
      obtain ⟨count, grid, rfl⟩ := Option.map_eq_some_iff.mp mapped
      have near := RoundingInterval.onGrid?_le positive grid
      have small : (10 : ℚ) ^ (leadingExponent interval.value interval.denominator - extra) ≤ 10 ^ (39 : ℤ) :=
        zpow_le_zpow_right₀ (by norm_num) (by omega)
      calc (count : ℚ) * 10 ^ (leadingExponent interval.value interval.denominator - extra)
        _ ≤ 2 ^ 128 + 10 ^ (39 : ℤ) := near.trans (add_le_add below.le small)
        _ < 10 ^ 40 := by norm_num

/-- How many digits stand in front of the point when a number is written in full, and at least one. -/
def Scaled.reach (number : Scaled) : Nat :=
  (number.exponent + (digits number.significand).length - 1).toNat + 1

theorem Scaled.reach_le {number : Scaled} {places : Nat} (positive : 0 < places) (below : number.value < 10 ^ places)
    (shape : 0 < number.significand ∨ number = ⟨0, 0⟩) : number.reach ≤ places := by
  obtain ⟨significand, exponent⟩ := number
  rcases shape with nonzero | plain
  · have one : (1 : ℚ) ≤ significand := by exact_mod_cast nonzero
    have lower : (10 : ℚ) ^ exponent < 10 ^ (places : ℤ) := by
      rw [zpow_natCast]
      exact lt_of_le_of_lt (le_mul_of_one_le_left (by positivity) one) below
    have inside : exponent < places := (zpow_lt_zpow_iff_right₀ (by norm_num)).mp lower
    obtain ⟨rest, split⟩ : ∃ rest : ℕ, (places : ℤ) = rest + exponent := ⟨(places - exponent).toNat, by omega⟩
    have short : significand < 10 ^ rest := by
      have scaled : (significand : ℚ) * 10 ^ exponent < 10 ^ rest * 10 ^ exponent := by
        rw [← zpow_natCast, ← zpow_add₀ (by norm_num), ← split, zpow_natCast]
        exact below
      exact_mod_cast lt_of_mul_lt_mul_right scaled (by positivity)
    have length := length_digits_le (by omega) short
    simp only [reach]
    omega
  · cases plain
    rw [reach, digits_zero]
    exact positive

end EpisodicReplay.Decimal
