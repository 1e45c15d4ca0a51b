import EpisodicReplay.Proofs.Binary32.Range
import EpisodicReplay.Tuning.Space

/-! Normalized spaces, and what is drawn from them: it stays inside their bounds. -/

namespace EpisodicReplay.Tuning
open Binary32

/-- The bounds of a space lie in their domains and in order. -/
structure Space.Normal (space : Space) : Prop where
  alpha : UnitRange space.alphaLow space.alphaHigh
  align : UnitRange space.alignLow space.alignHigh
  ordered : space.warmupLow ≤ space.warmupHigh
  short : space.warmupHigh ≤ ExponentialFilter.maxWarmup

/-- Equal bound by bound, where floats are compared as numbers. -/
def Space.agree (left right : Space) : Bool :=
  left.alphaLow == right.alphaLow && left.alphaHigh == right.alphaHigh &&
    left.warmupLow == right.warmupLow && left.warmupHigh == right.warmupHigh &&
    left.alignLow == right.alignLow && left.alignHigh == right.alignHigh

/-- Parameters inside the bounds of a space. -/
structure Space.Inside (space : Space) (parameters : Parameters) : Prop where
  alpha : Between space.alphaLow space.alphaHigh parameters.alpha
  align : Between space.alignLow space.alignHigh parameters.allowAlign
  warmupLow : space.warmupLow ≤ parameters.warmup
  warmupHigh : parameters.warmup ≤ space.warmupHigh

/-- Parameters that have no choice in a dimension whose bounds are equal. -/
structure Space.Pins (space : Space) (parameters : Parameters) : Prop where
  alpha : (space.alphaLow == space.alphaHigh) = true → (parameters.alpha == space.alphaLow) = true
  align : (space.alignLow == space.alignHigh) = true → (parameters.allowAlign == space.alignLow) = true
  warmup : space.warmupLow = space.warmupHigh → parameters.warmup = space.warmupLow

theorem Space.normalized_normal (space : Space) : space.normalized.Normal where
  alpha := unitRange_of_pair (clampUnit_inUnit _) (clampUnit_inUnit _)
  align := unitRange_of_pair (clampUnit_inUnit _) (clampUnit_inUnit _)
  ordered := Nat.le_trans (Nat.min_le_left ..) (Nat.le_max_left ..)
  short := Nat.max_le.mpr ⟨Nat.min_le_right .., Nat.min_le_right ..⟩

namespace Space.Normal
variable {space : Space} {parameters : Parameters}

/-- Normalizing changes nothing any more. -/
theorem normalized_agrees (normal : space.Normal) : space.normalized.agree space = true := by
  obtain ⟨alphaLow, alphaHigh⟩ := normal.alpha.ordered_agrees
  obtain ⟨alignLow, alignHigh⟩ := normal.align.ordered_agrees
  have ordered := normal.ordered
  have short := normal.short
  have low : min space.warmupLow ExponentialFilter.maxWarmup = space.warmupLow := by omega
  have high : min space.warmupHigh ExponentialFilter.maxWarmup = space.warmupHigh := by omega
  simp only [Space.agree, Space.normalized, normal.alpha.lowUnit.clampUnit_eq, normal.alpha.highUnit.clampUnit_eq,
    normal.align.lowUnit.clampUnit_eq, normal.align.highUnit.clampUnit_eq, low, high, alphaLow, alphaHigh, alignLow,
    alignHigh, Nat.min_eq_left ordered, Nat.max_eq_right ordered, beq_self_eq_true, Bool.and_true]

theorem pins (normal : space.Normal) (inside : space.Inside parameters) : space.Pins parameters where
  alpha := normal.alpha.pinned inside.alpha
  align := normal.align.pinned inside.align
  warmup point := Nat.le_antisymm (point ▸ inside.warmupHigh) inside.warmupLow

theorem sample_inside (normal : space.Normal) (generator : Generator) :
    space.Inside (space.sample generator).1 where
  alpha := normal.alpha.clampOrLow_between _
  align := normal.align.clampOrLow_between _
  warmupLow := Nat.le_min.mpr ⟨Nat.le_max_left .., normal.ordered⟩
  warmupHigh := Nat.min_le_right ..

theorem perturb_inside (normal : space.Normal) (base : Parameters) (generator : Generator) :
    space.Inside (space.perturb base generator).1 where
  alpha := normal.alpha.clampOrLow_between _
  align := normal.align.clampOrLow_between _
  warmupLow := Nat.le_min.mpr ⟨Nat.le_max_left .., normal.ordered⟩
  warmupHigh := Nat.min_le_right ..

end Space.Normal

end EpisodicReplay.Tuning
