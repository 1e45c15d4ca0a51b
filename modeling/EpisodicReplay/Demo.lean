import EpisodicReplay.Buffer
import EpisodicReplay.Filter
import EpisodicReplay.Generator

/-! Synthetic telemetry with occasional bursts, run through a live filter. -/

namespace EpisodicReplay.Demo

def standardCycles : Nat := 600

/-- Every third stretch of eighty cycles begins with a burst. -/
def isBurst (cycle : Nat) : Bool :=
  cycle / 80 % 3 = 2 && cycle % 80 < 12

/-- Inputs of one cycle, with the random part of its tempo. -/
structure Signals where
  phase : Float32
  influence : Float32
  consent : Float32
  harmony : Float32
  tempoNoise : Float32

def signals (cycle : Nat) (filterNoise : Generator) : Signals × Generator :=
  let burst := isBurst cycle
  let phase := Binary32.ofNat cycle * 0.05
  let noise : Float32 := if burst then 0.45 else 0.05
  let (influenceNoise, generator) := filterNoise.signed
  let (consentNoise, generator) := generator.signed
  let (harmonyNoise, generator) := generator.signed
  let (tempoNoise, generator) := generator.signed
  let influence := 0.5 + 0.3 * phase.sin + noise * influenceNoise
  let consent := 0.55 + 0.25 * (phase * 0.7).cos + noise * consentNoise
  let harmony := 0.7 - (if burst then 0.5 else 0.0) + 0.05 * harmonyNoise
  ({ phase, tempoNoise
     influence := Binary32.clamp influence 0 1
     consent := Binary32.clamp consent 0 1
     harmony := Binary32.clamp harmony 0 1 }, generator)

def tickOf (signals : Signals) (output : FilterStep) (alpha : Float32) : Tick where
  amp := 0.5 + 0.5 * signals.phase.sin
  tempo := 1.0 + 0.1 * signals.tempoNoise
  consent := signals.consent
  influence := signals.influence
  harmony := signals.harmony
  dream := 0
  filterDelta := output.delta
  filterAlpha := alpha

/-- Fixed thresholds stand in for the detectors of a real source. -/
def tagOf (output : FilterStep) : Tag :=
  (if 0.3 < output.delta then .spike else .none) |||
    (if 0.5 < (output.consent - output.influence).abs then .align else .none) |||
    (if output.harmony < 0.3 then .lowHarmony else .none)

/-- A run under way, with the ids of the episodes captured so far, newest first. -/
structure State where
  buffer : Buffer History.standardCapacity Store.standardCapacity
  filter : ExponentialFilter
  generator : Generator
  captured : List UInt32

def State.cycle (state : State) (index : Nat) : StateM Files State := do
  let (signals, generator) := signals index state.generator
  let (output, filter) := state.filter.step signals.influence signals.harmony signals.consent
  let (id?, buffer) ← state.buffer.cycle (tickOf signals output filter.alpha) (tagOf output)
  return { buffer, filter, generator, captured := id?.toList ++ state.captured }

/-- Runs cycles from an index on. -/
def State.run (state : State) (index : Nat) : Nat → StateM Files State
  | 0 => return state
  | remaining + 1 => do (← state.cycle index).run (index + 1) remaining

end EpisodicReplay.Demo
