import EpisodicReplay.Binary32

/-! One control cycle of telemetry. -/

namespace EpisodicReplay

structure Tick where
  amp : Float32
  tempo : Float32
  consent : Float32
  influence : Float32
  harmony : Float32
  dream : Float32
  filterDelta : Float32
  filterAlpha : Float32
deriving DecidableEq

namespace Tick

def zero : Tick :=
  ⟨0, 0, 0, 0, 0, 0, 0, 0⟩

instance : Inhabited Tick := ⟨zero⟩

/-- The channels in the order in which they are stored. -/
def values (tick : Tick) : List Float32 :=
  [tick.amp, tick.tempo, tick.consent, tick.influence, tick.harmony, tick.dream, tick.filterDelta, tick.filterAlpha]

def ofValues? : List Float32 → Option Tick
  | [amp, tempo, consent, influence, harmony, dream, filterDelta, filterAlpha] =>
    some ⟨amp, tempo, consent, influence, harmony, dream, filterDelta, filterAlpha⟩
  | _ => none

def zipWith (combine : Float32 → Float32 → Float32) (left right : Tick) : Tick where
  amp := combine left.amp right.amp
  tempo := combine left.tempo right.tempo
  consent := combine left.consent right.consent
  influence := combine left.influence right.influence
  harmony := combine left.harmony right.harmony
  dream := combine left.dream right.dream
  filterDelta := combine left.filterDelta right.filterDelta
  filterAlpha := combine left.filterAlpha right.filterAlpha

def isFinite (tick : Tick) : Bool :=
  tick.values.all Float32.isFinite

/-- A channel that is not finite takes its value from the previous tick, or zero where that has none either. -/
def sanitized (tick : Tick) (previous : Option Tick) : Tick :=
  zipWith (fun value fallback => Binary32.finiteOr value (Binary32.finiteOr fallback 0)) tick (previous.getD zero)

end Tick

end EpisodicReplay
