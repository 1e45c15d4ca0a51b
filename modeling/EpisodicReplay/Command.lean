import EpisodicReplay.Config
import EpisodicReplay.Demo
import EpisodicReplay.Overview
import EpisodicReplay.Replay
import EpisodicReplay.Tuning.Report
import EpisodicReplay.Tuning.Run

/-! The command line, as a function of arguments, environment and files. -/

namespace EpisodicReplay.Command

structure Invocation where
  arguments : List String
  environment : String → Option String

/-- What a command has changed and written so far. -/
structure Terminal where
  files : Files
  output : String
  errors : String

abbrev Action := InPlace Terminal

def say (line : String) : Action Unit :=
  modify fun terminal => { terminal with output := terminal.output ++ line ++ "\n" }

def warn (line : String) : Action Unit :=
  modify fun terminal => { terminal with errors := terminal.errors ++ line ++ "\n" }

def query (ask : Files → Except Failure α) : Action α := do
  liftExcept (ask (← get).files)
where
  liftExcept : Except Failure α → Action α
    | .ok answer => return answer
    | .error failure => throw failure

def onFiles (action : StateM Files α) : Action α := do
  let terminal ← get
  let (answer, files) := action.run terminal.files
  set { terminal with files }
  return answer

/-- Work on files; its failure is the failure of the command. -/
def onFilesOrFail (action : FileAction α) : Action α := do
  match ← onFiles action.run with
  | .ok answer => return answer
  | .error failure => throw failure

/-- Work on a state of its own, which is returned; its failure is the failure of the command. -/
def onStateOrFail {σ : Type} (start : σ) (work : Files → InPlace σ α) : Action (α × σ) := do
  match (work (← get).files).run.run start with
  | (.ok answer, last) => return (answer, last)
  | (.error failure, _) => throw failure

def help : List String := [
  "liminal (episodic replay buffer + filter auto-tuner)",
  "usage:",
  "  cargo run                       capture episodes from synthetic telemetry, then tune",
  "  cargo run -- demo [cycles]",
  "  cargo run -- tune               tune on stored episodes (LIMINAL_TUNE_SOURCE selects)",
  "  cargo run -- replay [selector]  latest | all | idx:N | tag:SPIKE|ALIGN|LOW_HARM",
  "  cargo run -- status",
  "  cargo run -- --help",
  "data lives under the platform data dir (override with LIMINAL_DATA_DIR)"]

def sayHelp : Action Unit :=
  help.forM say

/-- A variable that is set and not empty. -/
def nonEmpty? (invocation : Invocation) (name : String) : Option String :=
  (invocation.environment name).filter (· ≠ "")

/-- The directory that a user's programs keep their data in. -/
def userDataDirectory? (invocation : Invocation) : Option String :=
  match (nonEmpty? invocation "XDG_DATA_HOME").filter (·.startsWith "/") with
  | some directory => some directory
  | none => (nonEmpty? invocation "HOME").map (Path.join · ".local/share")

def dataPaths (invocation : Invocation) : Except Failure DataPaths :=
  match nonEmpty? invocation "LIMINAL_DATA_DIR" with
  | some root => .ok ⟨root⟩
  | none => match userDataDirectory? invocation with
    | some directory => .ok ⟨Path.join directory "liminal"⟩
    | none => .error .noDataDirectory

/-- The standard filter, with the saved profile if one loads and the filter takes it. -/
def liveFilter (files : Files) (paths : DataPaths) : ExponentialFilter :=
  match Tuning.Profile.load files paths.profile with
  | .ok profile => ((ExponentialFilter.reconfigure profile.alpha profile.warmup).run.run .standard).2
  | .error _ => .standard

def openStore (paths : DataPaths) : Action (Store Store.standardCapacity) :=
  onFiles (Store.openAt Store.standardCapacity_pos paths.logs)

def fixed (places : Nat) (value : Float32) : String :=
  .ofList (Decimal.fixed places value)

def outcomeLine (rank : Nat) (outcome : Tuning.Outcome) : String :=
  "  #" ++ toString rank ++ " loss=" ++ fixed 6 outcome.loss ++ " delta=" ++ fixed 6 outcome.deltaMean ++
    " harm=" ++ fixed 6 outcome.harmonyMean ++ " consent=" ++ fixed 6 outcome.consentMean ++
    " misalign=" ++ fixed 6 outcome.misalignRate ++ " alpha=" ++ fixed 4 outcome.parameters.alpha ++
    " warm=" ++ toString outcome.parameters.warmup ++ " align=" ++ fixed 4 outcome.parameters.allowAlign

/-- Tunes on the episodes of a store, then writes report and profile. A failing report is ignored. -/
def tuneOn (paths : DataPaths) (config : Config) (store : Store Store.standardCapacity) : Action Tuning.Outcome := do
  let (best, tuner) ← onStateOrFail Tuning.Tuner.standard fun files =>
    Tuning.Tuner.run ExponentialFilter store files config.tuning
  if !best.isEvaluated then
    warn "[tune] tuning search did not converge."
    throw .noEpisodes
  let shown := tuner.ranking.items.take Tuning.Report.length
  say ("[tune] top " ++ toString shown.length ++ " configs:")
  for (outcome, index) in shown.zipIdx do
    say (outcomeLine (index + 1) outcome)
  let _ ← onFiles (Tuning.Report.write paths.logs tuner.ranking.items).run
  onFilesOrFail ((Tuning.Profile.ofOutcome best).save paths.profile)
  return best

def tune (paths : DataPaths) (config : Config) : Action Unit := do
  let _ ← tuneOn paths config (← openStore paths)

def replay (paths : DataPaths) (selector : Selector) : Action Unit := do
  let store ← openStore paths
  let log := Replay.TraceLog.inDirectory paths.logs
  let filter := liveFilter (← get).files paths
  let (count, _) ← onFilesOrFail (Replay.selected store selector filter (some log))
  say ("replayed " ++ toString count ++ " episode(s) into " ++ Text.quoted log.path)

def idList (ids : List UInt32) : String :=
  "[" ++ ", ".intercalate (ids.map fun id => toString id.toNat) ++ "]"

def demo (paths : DataPaths) (config : Config) (cycles : Nat) : Action Unit := do
  let store ← openStore paths
  let start : Demo.State :=
    { buffer := .ofStore (by decide) config.window store
      filter := liveFilter (← get).files paths
      generator := .ofSeed config.tuning.seed
      captured := [] }
  let last ← onFiles (start.run 0 cycles)
  say ("captured " ++ toString last.captured.length ++ " episode(s) over " ++ toString cycles ++ " cycles: " ++
    idList last.captured.reverse)
  if last.buffer.store.cache.isEmpty then
    say "nothing to tune on"
  else
    let best ← tuneOn paths config last.buffer.store
    let (_, filter, tuner) ← onStateOrFail (last.filter, Tuning.Tuner.standard) fun _ => Tuning.Tuner.apply best
    say ("live filter now alpha=" ++ fixed 4 filter.alpha ++ " warmup=" ++ toString filter.warmup ++
      " (allow_align=" ++ fixed 4 tuner.allowAlign ++ ")")

def padRight (width : Nat) (text : String) : String :=
  .ofList (text.toList.rightpad width ' ')

def padLeft (width : Nat) (text : String) : String :=
  .ofList (text.toList.leftpad width ' ')

def recordLine (record : IndexRecord) : String :=
  "  #" ++ String.ofList (Decimal.paddedDigits 6 record.id.toNat) ++ " len=" ++ padLeft 3 (toString record.length) ++
    " tag=" ++ padRight 20 record.label ++ " delta_max=" ++ fixed 4 record.deltaMax ++
    " alpha_mean=" ++ fixed 4 record.alphaMean

/-- How many episodes a status lists. -/
def statusLength : Nat := 10

def status (paths : DataPaths) : Action Unit := do
  let store ← openStore paths
  let overview := store.overview (← get).files
  let nextId := match overview.nextId with
    | some id => "Some(" ++ toString id.toNat ++ ")"
    | none => "None"
  say ("store: persistent=" ++ toString overview.persistent ++ " next_id=" ++ nextId ++
    " cached=" ++ toString overview.cached ++ "/" ++ toString overview.capacity)
  (overview.episodes.reverse.take statusLength).forM (say ∘ recordLine)

/-- Runs a command that works on data, and returns its exit code. -/
def runOnData (paths : DataPaths) (config : Config) (name : String) (operand : Option String) : Action Nat := do
  match name with
  | "demo" =>
    demo paths config ((operand.bind fun text => Decimal.readCount? text.toList).getD Demo.standardCycles)
    return 0
  | "tune" =>
    tune paths config
    return 0
  | "replay" =>
    let selector ← match operand with
      | some text => query fun _ => Selector.parse text
      | none => pure .latest
    replay paths selector
    return 0
  | "status" =>
    status paths
    return 0
  | other =>
    warn ("Unknown command: " ++ other)
    sayHelp
    return 2

def isHelp (name : String) : Bool :=
  name == "--help" || name == "-h" || name == "help"

/-- Without a command the demo runs. -/
def runCommand (invocation : Invocation) : Action Nat := do
  let name := invocation.arguments.head?.getD "demo"
  if isHelp name then
    sayHelp
    return 0
  let paths ← query fun _ => dataPaths invocation
  let config ← query fun files => Config.load files paths.config
  runOnData paths (config.withEnvironment invocation.environment) name invocation.arguments[1]?

/-- What a finished command leaves behind. -/
structure Result where
  code : Nat
  output : String
  errors : String
  files : Files

/-- A failure is told on the error output and ends with the exit code one. -/
def run (invocation : Invocation) (files : Files) : Result :=
  match (runCommand invocation).run.run ⟨files, "", ""⟩ with
  | (.ok code, terminal) => ⟨code, terminal.output, terminal.errors, terminal.files⟩
  | (.error failure, terminal) =>
    ⟨1, terminal.output, terminal.errors ++ "Error: " ++ failure.details ++ "\n", terminal.files⟩

end EpisodicReplay.Command
