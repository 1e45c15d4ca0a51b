import EpisodicReplay.Decimal.Shortest

/-! The shortest decimal of a positive number is positive. -/

namespace EpisodicReplay.Decimal
variable {interval : RoundingInterval} {tie : Tie} {step : Int} {count mantissa : Nat}

theorem RoundingInterval.low_pos (positive : 0 < mantissa) (exponent : Int) : 0 < (ofBinary mantissa exponent).low := by
  have scale : 0 < 2 ^ (exponent - 2).toNat := Nat.two_pow_pos _
  have below : (if mantissa = 2 ^ 23 ∧ exponent ≠ -149 then 1 else 2) < 4 * mantissa := by
    split <;> omega
  exact Nat.mul_pos (Nat.sub_pos_of_lt below) scale

/-- Zero lies outside an interval of positive numbers. -/
theorem RoundingInterval.pos_of_inside {low high scale unit lower : Nat} {closed : Bool} (lowPositive : 0 < low)
    (scalePositive : 0 < scale)
    (inside : (if closed then decide (low * scale ≤ lower * unit ∧ lower * unit ≤ high * scale)
      else decide (low * scale < lower * unit ∧ lower * unit < high * scale)) = true) : 0 < lower := by
  have scaled : 0 < low * scale := Nat.mul_pos lowPositive scalePositive
  rw [Nat.pos_iff_ne_zero]
  rintro rfl
  rw [Nat.zero_mul] at inside
  split at inside <;> have := of_decide_eq_true inside <;> omega

theorem RoundingInterval.onGrid?_pos (positive : 0 < interval.low) (found : interval.onGrid? tie step = some count) :
    0 < count := by
  have scale : 0 < 10 ^ (-step).toNat := Nat.pow_pos (by decide)
  unfold onGrid? at found
  dsimp only at found
  split at found
  case h_1 lower upper =>
    split at found <;> cases found
    · exact Nat.succ_pos _
    · exact pos_of_inside positive scale lower
  case h_2 lower _ =>
    cases found
    exact pos_of_inside positive scale lower
  case h_3 =>
    cases found
    exact Nat.succ_pos _
  case h_4 => cases found

theorem Scaled.trimmed_pos {number : Scaled} (positive : 0 < number.significand) : 0 < number.trimmed.significand := by
  induction number using Scaled.trimmed.induct with
  | case1 number zero => exact absurd zero (Nat.ne_of_gt positive)
  | case2 number _ even inductionHypothesis =>
      rw [Scaled.trimmed, if_neg (Nat.ne_of_gt positive), if_pos even]
      exact inductionHypothesis (by dsimp only; omega)
  | case3 number _ odd =>
      rw [Scaled.trimmed, if_neg (Nat.ne_of_gt positive), if_neg odd]
      exact positive

/-- The shortest decimal of a positive number is positive, unless none was found. -/
theorem shortest_pos (tie : Tie) (positive : 0 < mantissa) (exponent : Int) :
    0 < (shortest tie mantissa exponent).significand ∨ shortest tie mantissa exponent = ⟨0, 0⟩ := by
  unfold shortest
  dsimp only
  generalize search : List.findSome? _ (List.range 9) = found
  cases found with
  | none =>
      right
      rw [Option.getD_none, Scaled.trimmed, if_pos rfl]
  | some scaled =>
      left
      obtain ⟨extra, -, mapped⟩ := List.exists_of_findSome?_eq_some search
      obtain ⟨count, grid, rfl⟩ := Option.map_eq_some_iff.mp mapped
      exact Scaled.trimmed_pos (RoundingInterval.onGrid?_pos (RoundingInterval.low_pos positive exponent) grid)

end EpisodicReplay.Decimal
