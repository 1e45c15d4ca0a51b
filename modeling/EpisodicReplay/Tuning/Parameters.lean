import EpisodicReplay.Filter
import EpisodicReplay.Json.Fields
import EpisodicReplay.Json.Writer

/-! Filter parameters and how well they did. -/

namespace EpisodicReplay.Tuning
open Json (Value)

structure Parameters where
  alpha : Float32
  warmup : Nat
  allowAlign : Float32
deriving DecidableEq

def Parameters.standard : Parameters :=
  ⟨0.3, 5, 0.5⟩

instance : Inhabited Parameters := ⟨.standard⟩

/-- Equal as numbers. A NaN agrees with nothing. -/
def Parameters.agree (left right : Parameters) : Bool :=
  left.alpha == right.alpha && left.warmup == right.warmup && left.allowAlign == right.allowAlign

/-- Parameters with their loss and the means that it weighs. -/
structure Outcome where
  parameters : Parameters
  loss : Float32
  deltaMean : Float32
  harmonyMean : Float32
  consentMean : Float32
  misalignRate : Float32
deriving DecidableEq

/-- The outcome of parameters that saw no tick: its loss is infinite. -/
def Outcome.unevaluated (parameters : Parameters) : Outcome :=
  ⟨parameters, Binary32.infinity, 0, 0, 0, 0⟩

instance : Inhabited Outcome := ⟨.unevaluated default⟩

def Outcome.isEvaluated (outcome : Outcome) : Bool :=
  outcome.loss.isFinite

/-- A warmup read from JSON fits 32 bits. -/
def warmup? (json : Value) : Option Nat :=
  json.natBelow? UInt32.size

def Parameters.toJson (parameters : Parameters) : List Char :=
  Json.writeObject [
    ("filter_alpha", Json.writeFloat32 parameters.alpha),
    ("warmup_cycles", Json.writeNat parameters.warmup),
    ("allow_align", Json.writeFloat32 parameters.allowAlign)]

def Parameters.ofJson? (json : Value) : Option Parameters := do
  let fields ← json.fields? ["filter_alpha", "warmup_cycles", "allow_align"]
  return {
    alpha := ← Json.required? fields "filter_alpha" Value.float32?
    warmup := ← Json.required? fields "warmup_cycles" warmup?
    allowAlign := ← Json.required? fields "allow_align" Value.float32? }

def Outcome.toJson (outcome : Outcome) : List Char :=
  Json.writeObject [
    ("config", outcome.parameters.toJson),
    ("loss", Json.writeFloat32 outcome.loss),
    ("delta_mean", Json.writeFloat32 outcome.deltaMean),
    ("harmony_mean", Json.writeFloat32 outcome.harmonyMean),
    ("consent_mean", Json.writeFloat32 outcome.consentMean),
    ("misalign_rate", Json.writeFloat32 outcome.misalignRate)]

def Outcome.ofJson? (json : Value) : Option Outcome := do
  let fields ← json.fields? ["config", "loss", "delta_mean", "harmony_mean", "consent_mean", "misalign_rate"]
  return {
    parameters := ← Json.required? fields "config" Parameters.ofJson?
    loss := ← Json.required? fields "loss" Value.float32?
    deltaMean := ← Json.required? fields "delta_mean" Value.float32?
    harmonyMean := ← Json.required? fields "harmony_mean" Value.float32?
    consentMean := ← Json.required? fields "consent_mean" Value.float32?
    misalignRate := ← Json.required? fields "misalign_rate" Value.float32? }

end EpisodicReplay.Tuning
