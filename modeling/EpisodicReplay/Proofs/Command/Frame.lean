import EpisodicReplay.Proofs.Command
import EpisodicReplay.Proofs.Files.Frame
import EpisodicReplay.Proofs.Replay
import EpisodicReplay.Proofs.Store.View
import EpisodicReplay.Proofs.Tuning.Report

/-!
What tuning and replaying leave alone. Each command has a log and a few texts that it writes; everything else in the
files is as before, and so is what the next command reads of the episodes.
-/

namespace EpisodicReplay

namespace Store
variable {capacity : Nat}

/-- Opening a store creates its directory and does nothing else to the files. -/
theorem openAt_files (capacity_pos : 0 < capacity) (directory : String) (files : Files) :
    ((openAt capacity_pos directory).run files).2 = (files.createDirectories directory).2 := by
  rcases created : files.createDirectories directory with ⟨_ | _, later⟩
  case error fault =>
    unfold openAt
    simp only [StateT.run_bind, StateT.run_get, StateT.run_set, pure_bind, created]
    rfl
  case ok => rw [run_openAt created]

theorem sparing_openAt (capacity_pos : 0 < capacity) (directory : String) (outputs : List String) :
    Sparing id directory outputs (openAt capacity_pos directory) := by
  intro files
  rw [openAt_files]
  exact files.createDirectories_spares directory outputs

end Store

theorem Tuning.Report.sparing_write {directory : String} {outputs : List String}
    (log : Path.join directory logName ∈ outputs) (best : Path.join directory bestName ∈ outputs)
    (outcomes : List Outcome) : Sparing id directory outputs (write directory outcomes).run := by
  unfold write
  split
  · exact .pure _
  · refine (FileAction.sparing_createDirectories directory outputs).runBind fun _ => ?_
    refine (Sparing.forIn fun item => (Log.sparing_append log _ _).runBind fun _ => .pure _).runBind fun _ => ?_
    exact (FileAction.sparing_write best _).runBind fun _ => .pure _

namespace Replay
variable {φ : Type} [SmoothingFilter φ] {capacity : Nat} {log : TraceLog} {directory : String} {outputs : List String}

theorem sparing_episode (output : log.path ∈ outputs) (loaded : Episode) (source : UInt32) (mode : String)
    (filter : φ) : Sparing id directory outputs (episode loaded source mode filter (some log)) := by
  have appends (traces : List Trace) : Sparing id directory outputs (log.append traces).run :=
    .forM fun _ => Log.sparing_append output _ _
  exact fun files => appends _ files

theorem sparing_ids (output : log.path ∈ outputs) (store : Store capacity) (mode : String) (filter : φ)
    (picked : List UInt32) : Sparing id directory outputs (ids store mode filter (some log) picked) := by
  induction picked generalizing filter with
  | nil => exact .pure _
  | cons id rest inductionHypothesis =>
      refine Sparing.get.bind fun files => ?_
      split
      · exact inductionHypothesis filter
      · exact (sparing_episode output _ id mode filter).bind fun result =>
          (inductionHypothesis result.2).bind fun _ => .pure _

theorem sparing_selected (output : log.path ∈ outputs) (store : Store capacity) (selector : Selector) (filter : φ) :
    Sparing id directory outputs (selected store selector filter (some log)).run := by
  intro files
  rw [run_selected]
  split
  · exact .refl files
  · exact sparing_ids output store _ filter _ files

end Replay

namespace Command

section sparing
variable {α : Type} {directory : String} {outputs : List String}

theorem sparing_say (line : String) : Sparing Terminal.files directory outputs (say line).run :=
  fun terminal => .refl terminal.files

theorem sparing_warn (line : String) : Sparing Terminal.files directory outputs (warn line).run :=
  fun terminal => .refl terminal.files

theorem sparing_query (ask : Files → Except Failure α) :
    Sparing Terminal.files directory outputs (query ask).run := by
  intro terminal
  rw [run_query]
  exact .refl terminal.files

theorem sparing_onStateOrFail {σ : Type} (start : σ) (work : Files → InPlace σ α) :
    Sparing Terminal.files directory outputs (onStateOrFail start work).run := by
  intro terminal
  rw [run_onStateOrFail]
  rcases (work terminal.files).run.run start with ⟨_ | _, _⟩ <;> exact .refl terminal.files

theorem sparing_onFiles {action : StateM Files α} (spares : Sparing id directory outputs action) :
    Sparing Terminal.files directory outputs (onFiles action).run := by
  intro terminal
  rw [run_onFiles]
  exact spares terminal.files

theorem sparing_onFilesOrFail {action : FileAction α} (spares : Sparing id directory outputs action.run) :
    Sparing Terminal.files directory outputs (onFilesOrFail action).run := by
  refine (sparing_onFiles spares).runBind ?_
  rintro (failure | answer)
  · exact .pure _
  · exact .pure _

end sparing

/-- The commands that work on the stored episodes and finish none. -/
inductive Task where
  | tune
  | replay (selector : Selector)

namespace Task

/-- The log that a command adds to. -/
def log (paths : DataPaths) : Task → String
  | tune => Path.join paths.logs Tuning.Report.logName
  | replay _ => Path.join paths.logs Replay.logName

/-- The files that a command writes anew. -/
def texts (paths : DataPaths) : Task → List String
  | tune => [Path.join paths.logs Tuning.Report.bestName, paths.profile]
  | replay _ => []

def outputs (task : Task) (paths : DataPaths) : List String :=
  task.log paths :: task.texts paths

theorem log_mem (task : Task) (paths : DataPaths) : task.log paths ∈ task.outputs paths :=
  List.mem_cons_self

theorem best_mem (paths : DataPaths) : Path.join paths.logs Tuning.Report.bestName ∈ tune.outputs paths :=
  List.mem_cons_of_mem _ List.mem_cons_self

theorem profile_mem (paths : DataPaths) : paths.profile ∈ tune.outputs paths :=
  List.mem_cons_of_mem _ (List.mem_cons_of_mem _ List.mem_cons_self)

def perform (paths : DataPaths) (config : Config) : Task → Action Unit
  | tune => Command.tune paths config
  | replay selector => Command.replay paths selector

end Task

/-- The task that is asked for. A replay needs a valid selector, or none. -/
def task? (invocation : Invocation) : Option Task :=
  match invocation.arguments with
  | "tune" :: _ => some .tune
  | ["replay"] => some (.replay .latest)
  | "replay" :: text :: _ => (Selector.parse? text).map .replay
  | _ => none

/-- A task is performed with the configuration of the data directory. -/
theorem runCommand_of_task {invocation : Invocation} {paths : DataPaths} {task : Task}
    (located : dataPaths invocation = .ok paths) (asked : task? invocation = some task) :
    runCommand invocation = do
      let config ← query fun files => Config.load files paths.config
      task.perform paths (config.withEnvironment invocation.environment)
      return 0 := by
  have data : (query fun _ => dataPaths invocation) = (pure paths : Action DataPaths) := by
    rw [located]
    rfl
  unfold runCommand
  rw [data]
  unfold task? at asked
  split at asked
  case h_1 rest arguments =>
    cases asked
    rw [arguments]
    rfl
  case h_2 arguments =>
    cases asked
    rw [arguments]
    rfl
  case h_3 text rest arguments =>
    obtain ⟨selector, parsed, rfl⟩ := Option.map_eq_some_iff.mp asked
    have read : (query fun _ => Selector.parse text) = (pure selector : Action Selector) := by
      rw [Selector.parse?] at parsed
      cases result : Selector.parse text with
      | error failure =>
          rw [result] at parsed
          cases parsed
      | ok value =>
          rw [result] at parsed
          cases parsed
          rfl
    rw [arguments]
    change (do
      let config ← query fun files => Config.load files paths.config
      let selector ← query fun _ => Selector.parse text
      replay paths selector
      return 0 : Action Nat) = _
    rw [read]
    rfl
  case h_4 => cases asked

section spares
variable {paths : DataPaths} {config : Config}

theorem sparing_openStore (outputs : List String) :
    Sparing Terminal.files paths.logs outputs (openStore paths).run :=
  sparing_onFiles (Store.sparing_openAt _ paths.logs outputs)

theorem sparing_tuneOn (store : Store Store.standardCapacity) :
    Sparing Terminal.files paths.logs (Task.tune.outputs paths) (tuneOn paths config store).run := by
  unfold tuneOn
  refine (sparing_onStateOrFail _ _).runBind fun found => ?_
  dsimp only
  have reported : Sparing id paths.logs (Task.tune.outputs paths)
      (Tuning.Report.write paths.logs found.2.ranking.items).run :=
    Tuning.Report.sparing_write (Task.log_mem .tune paths) (Task.best_mem paths) _
  have saved : Sparing id paths.logs (Task.tune.outputs paths)
      ((Tuning.Profile.ofOutcome found.1).save paths.profile).run :=
    FileAction.sparing_write (Task.profile_mem paths) _
  split
  · exact (sparing_warn _).runBind fun _ terminal => .refl terminal.files
  · refine (sparing_say _).runBind fun _ => ?_
    refine (Sparing.forIn fun item => (sparing_say _).runBind fun _ => .pure _).runBind fun _ => ?_
    exact (sparing_onFiles reported).runBind fun _ => (sparing_onFilesOrFail saved).runBind fun _ => .pure _

theorem sparing_perform (task : Task) :
    Sparing Terminal.files paths.logs (task.outputs paths) (task.perform paths config).run := by
  cases task with
  | tune => exact (sparing_openStore _).runBind fun store => (sparing_tuneOn store).runBind fun _ => .pure _
  | replay selector =>
      refine (sparing_openStore _).runBind fun store => ?_
      refine Sparing.runBind (fun terminal => .refl terminal.files) fun terminal => ?_
      have output := Task.log_mem (.replay selector) paths
      exact (sparing_onFilesOrFail (Replay.sparing_selected output store selector _)).runBind fun _ => sparing_say _

end spares

/-- Whatever the files are, a command leaves all of them alone but its outputs. -/
theorem run_spares {invocation : Invocation} {paths : DataPaths} {task : Task}
    (located : dataPaths invocation = .ok paths) (asked : task? invocation = some task) (files : Files) :
    files.Spares paths.logs (task.outputs paths) (run invocation files).files := by
  have spares : Sparing Terminal.files paths.logs (task.outputs paths) (runCommand invocation).run := by
    rw [runCommand_of_task located asked]
    exact (sparing_query _).runBind fun config => (sparing_perform task).runBind fun _ => .pure _
  have spared := spares ⟨files, "", ""⟩
  unfold run
  rcases ran : (runCommand invocation).run.run ⟨files, "", ""⟩ with ⟨failure | code, later⟩ <;> rwa [ran] at spared

end Command

namespace DataPaths
variable {paths : DataPaths}

theorem logs_isName : Path.IsName "logs" :=
  ⟨by decide, by decide, by decide, by decide, by decide, by decide⟩

theorem config_isName : Path.IsName "config.json" :=
  ⟨by decide, by decide, by decide, by decide, by decide, by decide⟩

theorem profile_isName : Path.IsName "tune_profile.json" :=
  ⟨by decide, by decide, by decide, by decide, by decide, by decide⟩

theorem logs_ne_empty (paths : DataPaths) : paths.logs ≠ "" :=
  Path.join_ne_empty logs_isName paths.root

variable (named : paths.root ≠ "") (files : Files)
include named

theorem placeOf_logs : files.placeOf paths.logs = files.placeOf paths.root ++ ["logs"] :=
  Files.placeOf_join logs_isName named files

theorem placeOf_config : files.placeOf paths.config = files.placeOf paths.root ++ ["config.json"] :=
  Files.placeOf_join config_isName named files

theorem placeOf_profile : files.placeOf paths.profile = files.placeOf paths.root ++ ["tune_profile.json"] :=
  Files.placeOf_join profile_isName named files

/-- A file in the logs directory lies two names behind the root. -/
theorem placeOf_logFile {name : String} (isName : Path.IsName name) :
    files.placeOf (Path.join paths.logs name) = files.placeOf paths.root ++ ["logs", name] := by
  rw [Files.placeOf_join isName paths.logs_ne_empty, placeOf_logs named, List.append_assoc]
  rfl

end DataPaths

namespace Command
variable {invocation : Invocation} {paths : DataPaths} {task : Task}

theorem root_ne_empty (located : dataPaths invocation = .ok paths) : paths.root ≠ "" := by
  unfold dataPaths at located
  split at located
  case h_1 root set =>
    cases located
    exact of_decide_eq_true (Option.filter_eq_some_iff.mp set).2
  case h_2 =>
    split at located
    case h_1 directory user =>
      cases located
      have isName : Path.IsName "liminal" :=
        ⟨by decide, by decide, by decide, by decide, by decide, by decide⟩
      exact Path.join_ne_empty isName directory
    case h_2 => cases located

/-- What stands behind the root in the places of outputs. -/
def outputNames : List (List String) :=
  [["logs", Tuning.Report.logName], ["logs", Tuning.Report.bestName], ["tune_profile.json"], ["logs", Replay.logName]]

theorem mem_outputNames (named : paths.root ≠ "") {files : Files} {place : Location}
    (output : place ∈ (task.outputs paths).map files.placeOf) :
    ∃ names ∈ outputNames, place = files.placeOf paths.root ++ names := by
  have inLogs {name : String} (isName : Path.IsName name) := DataPaths.placeOf_logFile named files isName
  obtain ⟨path, member, rfl⟩ := List.mem_map.mp output
  cases task with
  | tune =>
      simp only [Task.outputs, Task.log, Task.texts, List.mem_cons, List.not_mem_nil, or_false] at member
      rcases member with rfl | rfl | rfl
      · exact ⟨_, by decide, inLogs Tuning.Report.logName_isName⟩
      · exact ⟨_, by decide, inLogs Tuning.Report.bestName_isName⟩
      · exact ⟨_, by decide, DataPaths.placeOf_profile named files⟩
  | replay selector =>
      simp only [Task.outputs, Task.log, Task.texts, List.mem_singleton] at member
      subst member
      exact ⟨_, by decide, inLogs Replay.logName_isName⟩

/-- The configuration is no output, and neither is a file that a store reads. -/
theorem not_output (named : paths.root ≠ "") (task : Task) (files : Files) :
    files.placeOf paths.config ∉ (task.outputs paths).map files.placeOf ∧
      ∀ name, Store.Reads name → files.placeOf paths.logs ++ [name] ∉ (task.outputs paths).map files.placeOf := by
  refine ⟨fun output => ?_, fun name reads output => ?_⟩
  · obtain ⟨names, member, equal⟩ := mem_outputNames named output
    rw [DataPaths.placeOf_config named] at equal
    rw [← List.append_cancel_left equal] at member
    exact absurd member (by decide)
  · obtain ⟨names, member, equal⟩ := mem_outputNames named output
    rw [DataPaths.placeOf_logs named, List.append_assoc] at equal
    rw [← List.append_cancel_left equal] at member
    have inLogs : name = Tuning.Report.logName ∨ name = Tuning.Report.bestName ∨ name = Replay.logName := by
      simpa [outputNames] using member
    rcases inLogs with rfl | rfl | rfl <;> exact absurd reads (by decide)

end Command

end EpisodicReplay
