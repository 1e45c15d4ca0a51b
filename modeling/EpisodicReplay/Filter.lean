import EpisodicReplay.Binary32
import EpisodicReplay.Failure

/-! Smoothing filters over influence, harmony and consent. -/

namespace EpisodicReplay

/-- Smoothed outputs, and the largest gap between an output and its raw input. -/
structure FilterStep where
  influence : Float32
  harmony : Float32
  consent : Float32
  delta : Float32
deriving DecidableEq

/-- A filter whose parameters can be tuned. A fresh filter carries nothing over from another one. -/
class SmoothingFilter (φ : Type) where
  fresh (alpha : Float32) (warmup : Nat) : φ
  step (filter : φ) (influence harmony consent : Float32) : FilterStep × φ
  reconfigure (alpha : Float32) (warmup : Nat) : InPlace φ Unit
  alpha (filter : φ) : Float32

/-- An exponential moving average. While warmup cycles are left, inputs pass straight through. -/
structure ExponentialFilter where
  alpha : Float32
  warmup : Nat
  influence : Float32
  harmony : Float32
  consent : Float32
deriving DecidableEq

namespace ExponentialFilter

def maxWarmup : Nat := 10
def defaultWarmup : Nat := 5
def defaultAlpha : Float32 := 0.3

def clampAlpha (alpha : Float32) : Float32 :=
  Binary32.unitOr alpha defaultAlpha

def ofAlpha (alpha : Float32) : ExponentialFilter :=
  ⟨clampAlpha alpha, defaultWarmup, 0, 0, 0⟩

def standard : ExponentialFilter :=
  ofAlpha defaultAlpha

def fresh (alpha : Float32) (warmup : Nat) : ExponentialFilter :=
  { ofAlpha alpha with warmup := min warmup maxWarmup }

/-- Forgets the smoothed values and restarts the default warmup. -/
def reset (filter : ExponentialFilter) : ExponentialFilter :=
  { filter with warmup := defaultWarmup, influence := 0, harmony := 0, consent := 0 }

/-- Moves from the smoothed value towards the input by the share `alpha`. -/
def blend (alpha input smoothed : Float32) : Float32 :=
  alpha * input + (1 - alpha) * smoothed

def advance (filter : ExponentialFilter) (influence harmony consent : Float32) : ExponentialFilter :=
  let alpha := clampAlpha filter.alpha
  if 0 < filter.warmup || alpha == 0 then
    { filter with warmup := filter.warmup - 1, influence, harmony, consent }
  else
    { filter with
      influence := blend alpha influence filter.influence
      harmony := blend alpha harmony filter.harmony
      consent := blend alpha consent filter.consent }

/-- Inputs that are not finite count as zero. -/
def step (filter : ExponentialFilter) (influence harmony consent : Float32) : FilterStep × ExponentialFilter :=
  let influence := Binary32.finiteOr influence 0
  let harmony := Binary32.finiteOr harmony 0
  let consent := Binary32.finiteOr consent 0
  let next := filter.advance influence harmony consent
  let delta := Binary32.maximum (Binary32.maximum (next.influence - influence).abs (next.harmony - harmony).abs)
    (next.consent - consent).abs
  (⟨next.influence, next.harmony, next.consent, delta⟩, next)

/-- Takes parameters inside `[0, 1]` and up to the longest warmup, and refuses all others. -/
def reconfigure (alpha : Float32) (warmup : Nat) : InPlace ExponentialFilter Unit := do
  if !(alpha.isFinite && 0 ≤ alpha && alpha ≤ 1 && warmup ≤ maxWarmup) then
    throw (.filterRejected alpha warmup)
  modify fun filter => { filter with alpha }
  modify fun filter => { filter with warmup }

instance : SmoothingFilter ExponentialFilter where
  fresh := fresh
  step := step
  reconfigure := reconfigure
  alpha := alpha

end ExponentialFilter

end EpisodicReplay
