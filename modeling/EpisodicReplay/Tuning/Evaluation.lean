import EpisodicReplay.Episode
import EpisodicReplay.Tuning.Parameters

/-! Scoring parameters by replaying episodes through a fresh filter for each. -/

namespace EpisodicReplay.Tuning

/-- Sums over ticks, in binary64. -/
structure Totals where
  delta : Float
  harmony : Float
  consent : Float
  misaligned : Nat
  ticks : Nat

def Totals.zero : Totals :=
  ⟨0, 0, 0, 0, 0⟩

/-- The inputs of a filter at a tick, each in `[0, 1]`. Harmony falls back to influence. -/
def inputs (tick : Tick) : Float32 × Float32 × Float32 :=
  let influence := Binary32.clampUnit (Binary32.finiteOr tick.influence 0)
  let harmony := Binary32.clampUnit (Binary32.finiteOr tick.harmony influence)
  (influence, harmony, Binary32.clampUnit (Binary32.finiteOr tick.consent 0))

def isMisaligned (allowAlign consent influence : Float32) : Bool :=
  allowAlign < (consent - influence).abs

/-- Counts one filter step. -/
def Totals.add (totals : Totals) (allowAlign : Float32) (output : FilterStep) : Totals :=
  let influence := Binary32.clampUnit output.influence
  let harmony := Binary32.clampUnit output.harmony
  let consent := Binary32.clampUnit output.consent
  { delta := totals.delta + Binary32.widen (Binary32.finiteOr output.delta 0)
    harmony := totals.harmony + Binary32.widen harmony
    consent := totals.consent + Binary32.widen consent
    misaligned := totals.misaligned + (isMisaligned allowAlign consent influence).toNat
    ticks := totals.ticks + 1 }

section
variable {φ : Type} [SmoothingFilter φ]

/-- Replays ticks through a filter and counts its steps. -/
def replayTicks (allowAlign : Float32) (filter : φ) (totals : Totals) (ticks : List Tick) : φ × Totals :=
  ticks.foldl (fun (filter, totals) tick =>
    let (influence, harmony, consent) := inputs tick
    let (output, next) := SmoothingFilter.step filter influence harmony consent
    (next, totals.add allowAlign output)) (filter, totals)

end

/-- Every episode begins with a fresh filter. -/
def totalsOf (φ : Type) [SmoothingFilter φ] (episodes : List Episode) (parameters : Parameters) : Totals :=
  let alpha := Binary32.clampUnit parameters.alpha
  let warmup := min parameters.warmup ExponentialFilter.maxWarmup
  episodes.foldl (fun totals episode =>
    if episode.isEmpty then totals
    else (replayTicks parameters.allowAlign (SmoothingFilter.fresh alpha warmup : φ) totals episode.ticks.toList).2)
    .zero

/-- A mean in `[0, 1]`, narrowed to binary32. -/
def mean (total : Float) (count : Nat) (fallback : Float32) : Float32 :=
  Binary32.clampUnit (Binary32.finiteOr (Binary32.narrow (total / count.toUInt64.toFloat)) fallback)

/-- The weighted sum of a small delta, high harmony and few misalignments. -/
def lossOf (deltaMean harmonyMean misalignRate : Float32) : Float32 :=
  0.7 * deltaMean + 0.2 * (1 - harmonyMean) + 0.1 * misalignRate

def Totals.outcome (totals : Totals) (parameters : Parameters) : Outcome :=
  if totals.ticks = 0 then .unevaluated parameters
  else
    let deltaMean := mean totals.delta totals.ticks 1
    let harmonyMean := mean totals.harmony totals.ticks 0
    let consentMean := mean totals.consent totals.ticks 0
    let misalignRate := mean totals.misaligned.toUInt64.toFloat totals.ticks 1
    { parameters
      loss := lossOf deltaMean harmonyMean misalignRate
      deltaMean, harmonyMean, consentMean, misalignRate }

def evaluate (φ : Type) [SmoothingFilter φ] (episodes : List Episode) (parameters : Parameters) : Outcome :=
  (totalsOf φ episodes parameters).outcome parameters

end EpisodicReplay.Tuning
