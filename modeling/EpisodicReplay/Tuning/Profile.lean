import EpisodicReplay.Files
import EpisodicReplay.Tuning.Parameters

/-! Tuned parameters in a file of their own. -/

namespace EpisodicReplay.Tuning
open Json (Value)

structure Profile where
  alpha : Float32
  warmup : Nat
  allowAlign : Float32
  loss : Option Float32
deriving DecidableEq

namespace Profile

def ofParameters (parameters : Parameters) : Profile :=
  ⟨parameters.alpha, parameters.warmup, parameters.allowAlign, none⟩

/-- The loss is kept only if it is finite. -/
def ofOutcome (outcome : Outcome) : Profile :=
  { ofParameters outcome.parameters with loss := if outcome.isEvaluated then some outcome.loss else none }

def parameters (profile : Profile) : Parameters :=
  ⟨profile.alpha, profile.warmup, profile.allowAlign⟩

def toJson (profile : Profile) : List Char :=
  Json.writeObject ([
    ("trs_alpha", Json.writeFloat32 profile.alpha),
    ("trs_warmup", Json.writeNat profile.warmup),
    ("allow_align", Json.writeFloat32 profile.allowAlign)] ++
    (profile.loss.map fun loss => ("loss", Json.writeFloat32 loss)).toList)

/-- A null loss is no loss. -/
def loss? : Value → Option (Option Float32)
  | .null => some none
  | json => json.float32?.map some

def ofJson? (json : Value) : Option Profile := do
  let fields ← json.fields? ["trs_alpha", "trs_warmup", "allow_align", "loss"]
  return {
    alpha := ← Json.required? fields "trs_alpha" Value.float32?
    warmup := ← Json.required? fields "trs_warmup" warmup?
    allowAlign := ← Json.required? fields "allow_align" Value.float32?
    loss := ← Json.optional? fields "loss" loss? none }

/-- How deep a profile may be nested. -/
def maxDepth : Nat := 127

/-- The last member of an object with a name. -/
def member? (json : Value) (name : String) : Option Value :=
  match json with
  | .object members => (members.reverse.find? fun (key, _) => Json.text? key = some name.toList).map Prod.snd
  | _ => none

def number? (json : Value) (name : String) : Option Json.NumberValue :=
  match member? json name with
  | some (.number spelling) => spelling.value?
  | _ => none

/-- A warmup is rounded to a whole cycle, halves away from zero, and clamped to the longest one. -/
def warmupOf : Json.NumberValue → Nat
  | .natural value => min value.toNat ExponentialFilter.maxWarmup
  | .negative _ => 0
  | .real value => min (Binary32.nearestInteger value.toModel.unpack).toNat ExponentialFilter.maxWarmup

/-- Reads a profile leniently: numbers of any spelling, and other members beside them. -/
def ofText (path text : String) : Except Failure Profile := do
  let json ← ((Json.parse? text.toList).filter (Value.isDecodable maxDepth)).elim (throw .json) pure
  let required (name : String) : Except Failure Json.NumberValue :=
    (number? json name).elim (throw (.missingField path name)) pure
  let alpha ← required "trs_alpha"
  let warmup ← required "trs_warmup"
  let allowAlign ← required "allow_align"
  return {
    alpha := Binary32.narrow alpha.toFloat
    warmup := warmupOf warmup
    allowAlign := Binary32.narrow allowAlign.toFloat
    loss := (number? json "loss").map fun loss => Binary32.narrow loss.toFloat }

def load (files : Files) (path : String) : Except Failure Profile :=
  match files.readText path with
  | .error fault => .error (.file path fault)
  | .ok text => ofText path text

def save (path : String) (profile : Profile) : FileAction Unit :=
  FileAction.write path (String.ofList (profile.toJson ++ ['\n'])).toUTF8

end Profile

end EpisodicReplay.Tuning
