import EpisodicReplay.Filter
import EpisodicReplay.Store.Selection

/-! Stored episodes driven back through a filter, with a trace line per tick. -/

namespace EpisodicReplay.Replay
open Json (Value)

structure Trace where
  tick : UInt32
  source : UInt32
  delta : Float32
  alpha : Float32
  /-- The gap between smoothed consent and smoothed influence. -/
  gap : Float32
  mode : String
deriving DecidableEq

def Trace.toJson (trace : Trace) : List Char :=
  Json.writeObject [
    ("tick", Json.writeNat trace.tick.toNat),
    ("src_idx", Json.writeNat trace.source.toNat),
    ("delta", Json.writeFloat32 trace.delta),
    ("alpha", Json.writeFloat32 trace.alpha),
    ("err_after", Json.writeFloat32 trace.gap),
    ("mode", Json.writeString trace.mode)]

def Trace.ofJson? (json : Value) : Option Trace := do
  let fields ← json.fields? ["tick", "src_idx", "delta", "alpha", "err_after", "mode"]
  return {
    tick := ← Json.required? fields "tick" Value.uint32?
    source := ← Json.required? fields "src_idx" Value.uint32?
    delta := ← Json.required? fields "delta" Value.float32?
    alpha := ← Json.required? fields "alpha" Value.float32?
    gap := ← Json.required? fields "err_after" Value.float32?
    mode := String.ofList (← Json.required? fields "mode" Value.string?) }

def Trace.line (trace : Trace) : String :=
  .ofList trace.toJson

def maxLabelLength : Nat := 63

/-- A label of bounded length without double quotes. An empty label stands for an unknown mode. -/
def modeLabel (mode : String) : String :=
  if mode.isEmpty then "unknown"
  else .ofList ((mode.toList.take maxLabelLength).map fun char => if char = '"' then '\'' else char)

/-- A number rounded to six places in binary32 steps; zero for what is not finite. -/
def sixPlaces (value : Float32) : Float32 :=
  if value.isFinite then Binary32.roundIntegral (value * 1000000) / 1000000 else 0

/-- A size-capped trace log. -/
structure TraceLog where
  path : String
  limit : Nat

def logName : String := "erb_replay.jsonl"

def TraceLog.inDirectory (directory : String) : TraceLog :=
  ⟨Path.join directory logName, Log.standardLimit⟩

/-- Appends traces in order and stops at the first failure. -/
def TraceLog.append (log : TraceLog) (traces : List Trace) : FileAction Unit :=
  traces.forM fun trace => Log.append log.path trace.line log.limit

/-- The inputs of a filter at a tick. A number that is not finite falls back, harmony to influence. -/
def inputs (tick : Tick) : Float32 × Float32 × Float32 :=
  let influence := Binary32.unitOr tick.influence 0
  (influence, Binary32.unitOr tick.harmony influence, Binary32.unitOr tick.consent 0)

section
variable {φ : Type} [SmoothingFilter φ] {capacity : Nat}

def Trace.ofStep (index : Nat) (source : UInt32) (mode : String) (output : FilterStep) (alpha : Float32) : Trace where
  tick := .ofNat index
  source := source
  delta := sixPlaces output.delta
  alpha := sixPlaces alpha
  gap := sixPlaces (Binary32.unitOr output.consent 0 - Binary32.unitOr output.influence 0).abs
  mode := mode

/-- The traces of ticks from an index on, and the filter after them. -/
def traceTicks (source : UInt32) (mode : String) (filter : φ) (index : Nat) : List Tick → List Trace × φ
  | [] => ([], filter)
  | tick :: rest =>
    let (influence, harmony, consent) := inputs tick
    let (output, next) := SmoothingFilter.step filter influence harmony consent
    let trace := Trace.ofStep index source mode output (SmoothingFilter.alpha next)
    let (traces, last) := traceTicks source mode next (index + 1) rest
    (trace :: traces, last)

/-- Replays one episode and logs its traces if there is a log. A failing log does not stop the replay. -/
def episode (episode : Episode) (source : UInt32) (mode : String) (filter : φ) (log : Option TraceLog) :
    StateM Files (List Trace × φ) := do
  let (traces, last) := traceTicks source (modeLabel mode) filter 0 episode.ticks.toList
  if let some log := log then
    let _ ← (log.append traces).run
  return (traces, last)

/-- Replays the given episodes one after another through one filter, and counts those that could be loaded. -/
def ids (store : Store capacity) (mode : String) (filter : φ) (log : Option TraceLog) :
    List UInt32 → StateM Files (Nat × φ)
  | [] => return (0, filter)
  | id :: rest => do
    match store.episode? (← get) id with
    | none => ids store mode filter log rest
    | some loaded =>
      let (_, next) ← episode loaded id mode filter log
      let (count, last) ← ids store mode next log rest
      return (count + 1, last)

/-- Replays all episodes that a selector picks. Picking none is a failure. -/
def selected (store : Store capacity) (selector : Selector) (filter : φ) (log : Option TraceLog) :
    FileAction (Nat × φ) := do
  match selector.select (store.records (← get)) with
  | [] => throw .noEpisodes
  | picked => liftM (ids store selector.label filter log picked)

end

end EpisodicReplay.Replay
