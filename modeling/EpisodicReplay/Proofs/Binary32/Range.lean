import EpisodicReplay.Proofs.Binary32.Unit

/-! Binary32 numbers between two others, and ranges inside the unit interval. -/

namespace EpisodicReplay.Binary32
open Float.Model (UnpackedFloat)
variable {low high left right number : Float32}

theorem isNaN_eq_false (finite : number.isFinite = true) : number.isNaN = false := by
  change number.toModel.unpack.isFinite = true at finite
  change number.toModel.unpack.isNaN = false
  cases unpacked : number.toModel.unpack <;> simp_all [UnpackedFloat.isFinite, UnpackedFloat.isNaN]

theorem beq_iff (leftFinite : left.isFinite = true) (rightFinite : right.isFinite = true) :
    (left == right) = true ↔ value left = value right := by
  change (left.toModel.unpack.beq right.toModel.unpack) = true ↔ _
  rw [UnpackedFloat.beq, Rounding.compare_eq leftFinite (canonical left) rightFinite (canonical right), beq_iff_eq,
    Option.some_inj]
  exact compare_eq_iff_eq

/-- A finite number between two others. -/
structure Between (low high number : Float32) : Prop where
  finite : number.isFinite = true
  lower : low ≤ number
  upper : number ≤ high

/-- The ends of a range inside the unit interval. -/
structure UnitRange (low high : Float32) : Prop where
  lowUnit : InUnit low
  highUnit : InUnit high
  ordered : low ≤ high

theorem InUnit.clampUnit_eq (unit : InUnit number) : clampUnit number = number := by
  have low : ¬number < 0 := by
    rw [lt_iff unit.finite isFinite_zero, value_zero, not_lt]
    exact unit.lower
  have high : ¬1 < number := by
    rw [lt_iff isFinite_one unit.finite, value_one, not_lt]
    exact unit.upper
  rw [clampUnit, clampOrLow, if_pos unit.finite, clamp, if_neg low, if_neg high]

theorem InUnit.unitOr_eq (unit : InUnit number) (fallback : Float32) : unitOr number fallback = number := by
  have clamped := unit.clampUnit_eq
  rw [clampUnit, clampOrLow, if_pos unit.finite] at clamped
  rwa [unitOr, if_pos unit.finite]

/-- Two numbers of the unit interval, put in order. -/
theorem unitRange_of_pair (leftUnit : InUnit left) (rightUnit : InUnit right) :
    UnitRange (minimum left right) (maximum left right) := by
  unfold minimum maximum
  rw [isNaN_eq_false leftUnit.finite, if_neg Bool.false_ne_true, if_neg Bool.false_ne_true]
  have lowerIff := lt_iff rightUnit.finite leftUnit.finite
  have upperIff := lt_iff leftUnit.finite rightUnit.finite
  split_ifs with lower upper upper
  · exact absurd (lowerIff.mp lower) (upperIff.mp upper).not_gt
  · exact ⟨rightUnit, leftUnit, (le_iff rightUnit.finite leftUnit.finite).mpr (lowerIff.mp lower).le⟩
  · exact ⟨leftUnit, rightUnit, (le_iff leftUnit.finite rightUnit.finite).mpr (upperIff.mp upper).le⟩
  · exact ⟨leftUnit, leftUnit, (le_iff leftUnit.finite leftUnit.finite).mpr le_rfl⟩

namespace UnitRange

theorem value_le (range : UnitRange low high) : value low ≤ value high :=
  (le_iff range.lowUnit.finite range.highUnit.finite).mp range.ordered

/-- Putting a range in order changes nothing, as far as numbers go. -/
theorem ordered_agrees (range : UnitRange low high) :
    (minimum low high == low) = true ∧ (maximum low high == high) = true := by
  have ordered := range.value_le
  have notBelow : ¬high < low := by
    rw [lt_iff range.highUnit.finite range.lowUnit.finite]
    exact ordered.not_gt
  unfold minimum maximum
  rw [isNaN_eq_false range.lowUnit.finite, if_neg Bool.false_ne_true, if_neg Bool.false_ne_true, if_neg notBelow]
  refine ⟨(beq_iff range.lowUnit.finite range.lowUnit.finite).mpr rfl, ?_⟩
  split_ifs with below
  · exact (beq_iff range.highUnit.finite range.highUnit.finite).mpr rfl
  · rw [lt_iff range.lowUnit.finite range.highUnit.finite, not_lt] at below
    exact (beq_iff range.lowUnit.finite range.highUnit.finite).mpr (le_antisymm ordered below)

/-- Whatever is clamped lies in the range. -/
theorem clampOrLow_between (range : UnitRange low high) (number : Float32) :
    Between low high (clampOrLow number low high) := by
  have itself {bound : Float32} (finite : bound.isFinite = true) : bound ≤ bound := (le_iff finite finite).mpr le_rfl
  unfold clampOrLow clamp
  split_ifs with finite below above
  · exact ⟨range.lowUnit.finite, itself range.lowUnit.finite, range.ordered⟩
  · exact ⟨range.highUnit.finite, range.ordered, itself range.highUnit.finite⟩
  · rw [lt_iff finite range.lowUnit.finite, not_lt] at below
    rw [lt_iff range.highUnit.finite finite, not_lt] at above
    exact ⟨finite, (le_iff range.lowUnit.finite finite).mpr below, (le_iff finite range.highUnit.finite).mpr above⟩
  · exact ⟨range.lowUnit.finite, itself range.lowUnit.finite, range.ordered⟩

theorem inUnit_of_between (range : UnitRange low high) (between : Between low high number) : InUnit number where
  finite := between.finite
  lower := range.lowUnit.lower.trans ((le_iff range.lowUnit.finite between.finite).mp between.lower)
  upper := ((le_iff between.finite range.highUnit.finite).mp between.upper).trans range.highUnit.upper

/-- A range that is a point has no other number in it. -/
theorem pinned (range : UnitRange low high) (between : Between low high number) (point : (low == high) = true) :
    (number == low) = true := by
  rw [beq_iff range.lowUnit.finite range.highUnit.finite] at point
  have lower := (le_iff range.lowUnit.finite between.finite).mp between.lower
  have upper := (le_iff between.finite range.highUnit.finite).mp between.upper
  exact (beq_iff between.finite range.lowUnit.finite).mpr (le_antisymm (point ▸ upper) lower)

end UnitRange

end EpisodicReplay.Binary32
