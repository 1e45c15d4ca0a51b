import EpisodicReplay.Proofs.Binary32

/-! Binary32 numbers in the unit interval. -/

namespace EpisodicReplay.Binary32
variable {left right number : Float32}

/-- A finite number in `[0, 1]`. -/
structure InUnit (number : Float32) : Prop where
  finite : number.isFinite = true
  lower : 0 ≤ value number
  upper : value number ≤ 1

theorem inUnit_of_le (finite : number.isFinite = true) (lower : 0 ≤ number) (upper : number ≤ 1) : InUnit number where
  finite := finite
  lower := by rwa [le_iff isFinite_zero finite, value_zero] at lower
  upper := by rwa [le_iff finite isFinite_one, value_one] at upper

theorem clampUnit_inUnit (number : Float32) : InUnit (clampUnit number) := by
  unfold clampUnit clampOrLow clamp
  split_ifs with finite low high
  · exact inUnit_of_le rfl (by decide) (by decide)
  · exact inUnit_of_le rfl (by decide) (by decide)
  · rw [lt_iff finite isFinite_zero, value_zero, not_lt] at low
    rw [lt_iff isFinite_one finite, value_one, not_lt] at high
    exact ⟨finite, low, high⟩
  · exact inUnit_of_le rfl (by decide) (by decide)

theorem IsNearest.inUnit {exact : ℚ} (nearest : IsNearest number exact) (low : 0 ≤ exact) (high : exact ≤ 1) :
    InUnit number where
  finite := nearest.isFinite
  lower := by
    have bound := nearest.le_value isFinite_zero (by rwa [value_zero])
    rwa [value_zero] at bound
  upper := by
    have bound := nearest.value_le isFinite_one (by rwa [value_one])
    rwa [value_one] at bound

theorem inUnit_zero : InUnit 0 :=
  inUnit_of_le rfl (by decide) (by decide)

theorem inUnit_one : InUnit 1 :=
  inUnit_of_le rfl (by decide) (by decide)

theorem unitOr_inUnit (number : Float32) {fallback : Float32} (fallbackUnit : InUnit fallback) :
    InUnit (unitOr number fallback) := by
  have clamped := clampUnit_inUnit number
  unfold clampUnit clampOrLow at clamped
  unfold unitOr
  split at clamped
  case isTrue finite => rwa [if_pos finite]
  case isFalse infinite => rwa [if_neg infinite]

namespace InUnit
variable {otherLeft otherRight other : Float32}

theorem zero_le (unit : InUnit number) : 0 ≤ number := by
  rw [le_iff isFinite_zero unit.finite, value_zero]
  exact unit.lower

theorem le_one (unit : InUnit number) : number ≤ 1 := by
  rw [le_iff unit.finite isFinite_one, value_one]
  exact unit.upper

theorem abs_value_le (unit : InUnit number) : |value number| ≤ 1 := by
  rw [abs_of_nonneg unit.lower]
  exact unit.upper

theorem mul_nearest (leftUnit : InUnit left) (rightUnit : InUnit right) :
    IsNearest (left * right) (value left * value right) := by
  apply mul_isNearest leftUnit.finite rightUnit.finite
  rw [abs_mul]
  exact (mul_le_one₀ leftUnit.abs_value_le (abs_nonneg _) rightUnit.abs_value_le).trans (by norm_num)

theorem mul (leftUnit : InUnit left) (rightUnit : InUnit right) : InUnit (left * right) :=
  (leftUnit.mul_nearest rightUnit).inUnit (mul_nonneg leftUnit.lower rightUnit.lower)
    (mul_le_one₀ leftUnit.upper rightUnit.lower rightUnit.upper)

theorem mul_le (leftUnit : InUnit left) (rightUnit : InUnit right) (otherUnit : InUnit other)
    (ordered : value right ≤ value other) : value (left * right) ≤ value (left * other) :=
  (leftUnit.mul_nearest rightUnit).mono (leftUnit.mul_nearest otherUnit)
    (mul_le_mul_of_nonneg_left ordered leftUnit.lower)

theorem one_sub_nearest (unit : InUnit number) : IsNearest (1 - number) (1 - value number) := by
  have nearest := sub_isNearest isFinite_one unit.finite (by
    rw [value_one, abs_of_nonneg (by linarith [unit.upper])]
    exact (by linarith [unit.lower] : _ ≤ (1 : ℚ)).trans (by norm_num))
  rwa [value_one] at nearest

theorem one_sub (unit : InUnit number) : InUnit (1 - number) :=
  unit.one_sub_nearest.inUnit (by linarith [unit.upper]) (by linarith [unit.lower])

theorem one_sub_le (unit : InUnit number) (otherUnit : InUnit other) (ordered : value other ≤ value number) :
    value (1 - number) ≤ value (1 - other) :=
  unit.one_sub_nearest.mono otherUnit.one_sub_nearest (sub_le_sub_left ordered 1)

theorem add_nearest (leftUnit : InUnit left) (rightUnit : InUnit right) :
    IsNearest (left + right) (value left + value right) := by
  apply add_isNearest leftUnit.finite rightUnit.finite
  rw [abs_of_nonneg (add_nonneg leftUnit.lower rightUnit.lower)]
  exact (by linarith [leftUnit.upper, rightUnit.upper] : _ ≤ (2 : ℚ)).trans (by norm_num)

/-- A sum is in the unit interval if a sum of greater parts is. -/
theorem add_le (leftUnit : InUnit left) (rightUnit : InUnit right) (otherLeftUnit : InUnit otherLeft)
    (otherRightUnit : InUnit otherRight) (leftOrdered : value left ≤ value otherLeft)
    (rightOrdered : value right ≤ value otherRight) (whole : InUnit (otherLeft + otherRight)) :
    InUnit (left + right) ∧ value (left + right) ≤ value (otherLeft + otherRight) := by
  have nearest := leftUnit.add_nearest rightUnit
  have ordered := nearest.mono (otherLeftUnit.add_nearest otherRightUnit) (add_le_add leftOrdered rightOrdered)
  have above := nearest.le_value isFinite_zero (by
    rw [value_zero]
    exact add_nonneg leftUnit.lower rightUnit.lower)
  rw [value_zero] at above
  exact ⟨⟨nearest.isFinite, above, ordered.trans whole.upper⟩, ordered⟩

/-- Numbers of the unit interval are at most one apart. -/
theorem abs_sub (leftUnit : InUnit left) (rightUnit : InUnit right) : InUnit (left - right).abs := by
  have bound : |value left - value right| ≤ 1 :=
    abs_le.mpr ⟨by linarith [leftUnit.lower, rightUnit.upper], by linarith [leftUnit.upper, rightUnit.lower]⟩
  have nearest := sub_isNearest leftUnit.finite rightUnit.finite (bound.trans (by norm_num))
  have most := nearest.abs_value_le isFinite_one (by rwa [value_one])
  rw [value_one] at most
  refine ⟨isFinite_abs nearest.isFinite, ?_, ?_⟩
  · rw [value_abs]
    exact abs_nonneg _
  · rwa [value_abs]

theorem maximum (leftUnit : InUnit left) (rightUnit : InUnit right) : InUnit (maximum left right) := by
  unfold Binary32.maximum
  split
  · exact rightUnit
  · split
    · exact rightUnit
    · exact leftUnit

end InUnit

end EpisodicReplay.Binary32
