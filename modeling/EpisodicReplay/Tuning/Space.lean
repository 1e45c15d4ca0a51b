import EpisodicReplay.Generator
import EpisodicReplay.Tuning.Parameters

/-! The bounds of a search and the draws inside them. -/

namespace EpisodicReplay.Tuning
open Json (Value)

structure Space where
  alphaLow : Float32
  alphaHigh : Float32
  warmupLow : Nat
  warmupHigh : Nat
  alignLow : Float32
  alignHigh : Float32
deriving DecidableEq

namespace Space

def standard : Space :=
  ⟨0.1, 0.6, 0, 6, 0.4, 0.8⟩

instance : Inhabited Space := ⟨standard⟩

/-- Clamps every bound into its domain and puts each pair in order. -/
def normalized (space : Space) : Space :=
  let alphaLow := Binary32.clampUnit space.alphaLow
  let alphaHigh := Binary32.clampUnit space.alphaHigh
  let alignLow := Binary32.clampUnit space.alignLow
  let alignHigh := Binary32.clampUnit space.alignHigh
  let warmupLow := min space.warmupLow ExponentialFilter.maxWarmup
  let warmupHigh := min space.warmupHigh ExponentialFilter.maxWarmup
  { alphaLow := Binary32.minimum alphaLow alphaHigh
    alphaHigh := Binary32.maximum alphaLow alphaHigh
    warmupLow := min warmupLow warmupHigh
    warmupHigh := max warmupLow warmupHigh
    alignLow := Binary32.minimum alignLow alignHigh
    alignHigh := Binary32.maximum alignLow alignHigh }

/-- An independent uniform draw in each dimension of a normalized space. -/
def sample (space : Space) (generator : Generator) : Parameters × Generator :=
  let (alphaUnit, generator) := generator.unit
  let (alignUnit, generator) := generator.unit
  let (warmupUnit, generator) := generator.unit
  let alpha := space.alphaLow + (space.alphaHigh - space.alphaLow) * alphaUnit
  let align := space.alignLow + (space.alignHigh - space.alignLow) * alignUnit
  let span := Binary32.ofNat (space.warmupHigh - space.warmupLow)
  let warmup := space.warmupLow + (Binary32.nearestInteger (warmupUnit * span).toModel.unpack).toNat
  ({ alpha := Binary32.clampOrLow alpha space.alphaLow space.alphaHigh
     warmup := min (max space.warmupLow warmup) space.warmupHigh
     allowAlign := Binary32.clampOrLow align space.alignLow space.alignHigh }, generator)

/-- A tenth of a range, or a fixed small step where the range is a point. -/
def stepOf (span : Float32) : Float32 :=
  let step := span * 0.1
  if 0 < step then step else 0.02

/-- A draw near a base: each dimension moves by at most its step. -/
def perturb (space : Space) (base : Parameters) (generator : Generator) : Parameters × Generator :=
  let (alphaShift, generator) := generator.signed
  let (alignShift, generator) := generator.signed
  let (warmupShift, generator) := generator.signed
  let alpha := base.alpha + alphaShift * stepOf (space.alphaHigh - space.alphaLow)
  let align := base.allowAlign + alignShift * stepOf (space.alignHigh - space.alignLow)
  let warmupStep := Binary32.ofNat (max ((space.warmupHigh - space.warmupLow) / 10) 1)
  let warmup := base.warmup + Binary32.nearestInteger (warmupShift * warmupStep).toModel.unpack
  ({ alpha := Binary32.clampOrLow alpha space.alphaLow space.alphaHigh
     warmup := min (max space.warmupLow warmup.toNat) space.warmupHigh
     allowAlign := Binary32.clampOrLow align space.alignLow space.alignHigh }, generator)

def toJson (space : Space) : List Char :=
  Json.writeObject [
    ("alpha_min", Json.writeFloat32 space.alphaLow),
    ("alpha_max", Json.writeFloat32 space.alphaHigh),
    ("warmup_min", Json.writeNat space.warmupLow),
    ("warmup_max", Json.writeNat space.warmupHigh),
    ("align_min", Json.writeFloat32 space.alignLow),
    ("align_max", Json.writeFloat32 space.alignHigh)]

/-- A missing bound is that of the standard space. -/
def ofJson? (json : Value) : Option Space := do
  let fields ← json.fields? ["alpha_min", "alpha_max", "warmup_min", "warmup_max", "align_min", "align_max"]
  return {
    alphaLow := ← Json.optional? fields "alpha_min" Value.float32? standard.alphaLow
    alphaHigh := ← Json.optional? fields "alpha_max" Value.float32? standard.alphaHigh
    warmupLow := ← Json.optional? fields "warmup_min" warmup? standard.warmupLow
    warmupHigh := ← Json.optional? fields "warmup_max" warmup? standard.warmupHigh
    alignLow := ← Json.optional? fields "align_min" Value.float32? standard.alignLow
    alignHigh := ← Json.optional? fields "align_max" Value.float32? standard.alignHigh }

end Space

end EpisodicReplay.Tuning
