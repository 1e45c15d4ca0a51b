import EpisodicReplay.Proofs.Command.Effect
import EpisodicReplay.Proofs.Store.Identifiers

/-!
Tuning and replaying can be repeated. What they read is none of their outputs, so a second run prints the same, adds
the same lines to the log and writes the same texts.
-/

namespace EpisodicReplay.Command
variable {paths : DataPaths} {task : Task} {files : Files} {root : Location}

/-- No access to a file fails: the logs directory is there or can be made, a configuration that is there is found, and
no directory is in the place of a file. -/
structure Undisturbed (task : Task) (paths : DataPaths) (files : Files) : Prop where
  usable : Session.Usable files paths.logs
  found : files.entry? (files.placeOf paths.config) ≠ none → ∃ place, files.locate paths.config = .ok place
  free : ∀ path ∈ paths.config :: task.outputs paths,
    Files.entry? (files.createDirectories paths.logs).2 (files.placeOf path) ≠ some .directory

section created
variable (undisturbed : Undisturbed task paths files)
include undisturbed

/-- Once the logs directory is made, everything is settled. -/
theorem Undisturbed.exists_settled (named : paths.root ≠ "") :
    ∃ root, Settled task paths root (files.createDirectories paths.logs).2 := by
  obtain ⟨place, directoryAt⟩ :=
    Files.directoryAt_of_createDirectories undisturbed.usable.named undisturbed.usable.created
  obtain ⟨root, base, rfl⟩ := directoryAt.exists_parent DataPaths.logs_isName named
  refine ⟨root, base, ⟨directoryAt, undisturbed.usable.room⟩, fun path member => ?_⟩
  rw [(files.createDirectories_spares paths.logs []).placeOf]
  exact undisturbed.free path member

/-- Making the logs directory leaves what is read and written beside it. -/
theorem Undisturbed.entry_created {path : String} (member : path ∈ paths.config :: task.outputs paths) :
    Files.entry? (files.createDirectories paths.logs).2 (files.placeOf path) = files.entry? (files.placeOf path) := by
  have spares := files.createDirectories_spares paths.logs []
  rcases spares.entry (files.placeOf path) List.not_mem_nil with same | ⟨-, new, -⟩
  · exact same
  · exact absurd new (undisturbed.free path member)

theorem Undisturbed.loadConfig_created {root : Location}
    (settled : Settled task paths root (files.createDirectories paths.logs).2) :
    Config.load (files.createDirectories paths.logs).2 paths.config = Config.load files paths.config := by
  have spares := files.createDirectories_spares paths.logs []
  have readyAt := settled.configAt
  have placed : files.placeOf paths.config = root ++ ["config.json"] := by
    rw [← spares.placeOf, readyAt.placeOf]
  have same := undisturbed.entry_created List.mem_cons_self
  rw [placed] at same
  have before (place : Location) (new : Files.entry? (files.createDirectories paths.logs).2 place = some .directory) :
      files.entry? place = some .directory ∨ files.entry? place = none := by
    rcases spares.entry place List.not_mem_nil with kept | ⟨missing, -⟩
    · exact .inl (kept ▸ new)
    · exact .inr missing
  have read : (files.createDirectories paths.logs).2.read paths.config = files.read paths.config := by
    rcases readyAt.locate_before spares.current before with located | missed
    · exact Files.FileAt.read_congr ⟨located, readyAt.slash, readyAt.inside⟩ readyAt same
    · -- A configuration that is there would have been found.
      have missing : files.entry? (root ++ ["config.json"]) = none := by
        by_contra there
        obtain ⟨place, located⟩ := undisturbed.found (placed ▸ there)
        rw [located] at missed
        cases missed
      rw [missing] at same
      simp [Files.read, Files.find, readyAt.located, same, missed, bind, Except.bind, throw, throwThe,
        MonadExceptOf.throw]
  rw [Config.load, Config.load, Files.readText, Files.readText, read]

/-- Opening the store first makes the logs directory. -/
theorem Undisturbed.run_openAt_created {root : Location}
    (settled : Settled task paths root (files.createDirectories paths.logs).2)
    (capacity_pos : 0 < Store.standardCapacity) : (Store.openAt capacity_pos paths.logs).run files =
      (Store.openAt capacity_pos paths.logs).run (files.createDirectories paths.logs).2 := by
  rw [Store.run_openAt (Prod.ext undisturbed.usable.created rfl),
    Store.run_openAt settled.home.directoryAt.createDirectories_eq]

theorem Undisturbed.written_created {root : Location}
    (settled : Settled task paths root (files.createDirectories paths.logs).2) (config : Config) :
    task.written paths config files = task.written paths config (files.createDirectories paths.logs).2 := by
  rw [Task.written, Task.written, undisturbed.run_openAt_created settled]

theorem Undisturbed.run_perform_created {root : Location}
    (settled : Settled task paths root (files.createDirectories paths.logs).2) (config : Config)
    (output errors : String) : (task.perform paths config).run.run ⟨files, output, errors⟩ =
      (task.perform paths config).run.run ⟨(files.createDirectories paths.logs).2, output, errors⟩ := by
  have opened : (openStore paths).run.run ⟨files, output, errors⟩ =
      (openStore paths).run.run ⟨(files.createDirectories paths.logs).2, output, errors⟩ := by
    rw [openStore, run_onFiles, run_onFiles, undisturbed.run_openAt_created settled]
  cases task with
  | tune => rw [Task.perform, tune, run_bind, run_bind, opened]
  | replay selector => rw [Task.perform, replay, run_bind, run_bind, opened]

end created

/-- What a command leaves behind when its task has ended. -/
def Result.ofEnd : Except Failure Unit × Terminal → Result
  | (.ok (), terminal) => ⟨0, terminal.output, terminal.errors, terminal.files⟩
  | (.error failure, terminal) =>
    ⟨1, terminal.output, terminal.errors ++ "Error: " ++ failure.details ++ "\n", terminal.files⟩

theorem run_of_task {invocation : Invocation} (located : dataPaths invocation = .ok paths)
    (asked : task? invocation = some task) (files : Files) : run invocation files =
      match Config.load files paths.config with
      | .error failure => Result.ofEnd (.error failure, ⟨files, "", ""⟩)
      | .ok config => Result.ofEnd
        ((task.perform paths (config.withEnvironment invocation.environment)).run.run ⟨files, "", ""⟩) := by
  unfold run
  rw [runCommand_of_task located asked, run_bind, run_query]
  cases Config.load files paths.config with
  | error failure => rfl
  | ok config =>
      dsimp only
      rw [run_bind]
      rcases (task.perform paths (config.withEnvironment invocation.environment)).run.run ⟨files, "", ""⟩ with
        ⟨_ | _, terminal⟩ <;> rfl

/-- What a command leaves as it was: all but its outputs and the way to the logs directory, and in any case the
configuration, the index and whatever is named like an episode. -/
structure LeavesData (task : Task) (paths : DataPaths) (files later : Files) : Prop where
  spares : files.Spares paths.logs (task.outputs paths) later
  config : ∀ entry, files.entry? (files.placeOf paths.config) = some entry →
    later.entry? (files.placeOf paths.config) = some entry
  data : ∀ name, Store.Reads name → ∀ entry, files.entry? (files.placeOf paths.logs ++ [name]) = some entry →
    later.entry? (files.placeOf paths.logs ++ [name]) = some entry

/-- What a command writes for its task, if its configuration can be read. -/
def written (invocation : Invocation) (task : Task) (paths : DataPaths) (files : Files) :
    List String × List (String × String) :=
  match Config.load files paths.config with
  | .ok config => task.written paths (config.withEnvironment invocation.environment) files
  | .error _ => ([], [])

/-- The second of two runs ends like the first, adds the same lines to the log, and writes the same texts: those that
the files tell before the first run. A run that succeeds writes all its texts, and one that fails writes nothing. -/
structure Repeats (invocation : Invocation) (task : Task) (paths : DataPaths) (files : Files) (once twice : Result) :
    Prop where
  code : twice.code = once.code
  output : twice.output = once.output
  errors : twice.errors = once.errors
  written : ∃ lines texts, written invocation task paths files = (lines, texts) ∧
    Writes paths.logs (task.log paths) lines texts files once.files ∧
    Writes paths.logs (task.log paths) lines texts once.files twice.files ∧
    (once.code = 0 → texts.map Prod.fst = task.texts paths) ∧ (once.code ≠ 0 → lines = [] ∧ texts = [])

theorem Undisturbed.repeats {invocation : Invocation} (undisturbed : Undisturbed task paths files)
    (located : dataPaths invocation = .ok paths) (asked : task? invocation = some task) :
    Repeats invocation task paths files (run invocation files) (run invocation (run invocation files).files) := by
  obtain ⟨root, settled⟩ := undisturbed.exists_settled (root_ne_empty located)
  have loaded := undisturbed.loadConfig_created settled
  have created := undisturbed.run_perform_created settled
  have sameWritten := undisturbed.written_created settled
  have spares (outputs : List String) := files.createDirectories_spares paths.logs outputs
  have logSame := undisturbed.entry_created (List.mem_cons_of_mem _ (task.log_mem paths))
  generalize (files.createDirectories paths.logs).2 = ready at settled loaded created sameWritten spares logSame
  cases read : Config.load files paths.config with
  | error failure =>
      have failed : run invocation files = Result.ofEnd (.error failure, ⟨files, "", ""⟩) := by
        rw [run_of_task located asked, read]
      have again : run invocation (run invocation files).files = run invocation files := by
        rw [failed]
        exact failed
      rw [again, failed]
      exact ⟨rfl, rfl, rfl, [], [], by rw [written, read], .nothing .., .nothing .., nofun, fun _ => ⟨rfl, rfl⟩⟩
  | ok config =>
      obtain ⟨effect, whole, tells, effects⟩ :=
        exists_effect settled (config.withEnvironment invocation.environment)
      have told : written invocation task paths files = (effect.lines, effect.texts) := by
        rw [written, read, tells, ← sameWritten]
      obtain ⟨once, wrote, ends⟩ := effects ready (.refl settled)
      have agrees := wrote.agrees settled whole.subset
      obtain ⟨twice, wroteAgain, endsAgain⟩ := effects once agrees
      have first : run invocation files = Result.ofEnd (effect.outcome, ⟨once, "" ++ effect.printed, ""⟩) := by
        rw [run_of_task located asked, read]
        dsimp only
        rw [created, ends]
      have second : run invocation once = Result.ofEnd (effect.outcome, ⟨twice, "" ++ effect.printed, ""⟩) := by
        rw [run_of_task located asked, agrees.loadConfig, loaded, read]
        dsimp only
        rw [endsAgain]
      obtain ⟨outcome, printed, lines, texts⟩ := effect
      cases outcome with
      | ok =>
          rw [first, Result.ofEnd, second]
          exact ⟨rfl, rfl, rfl, lines, texts, told, wrote.after spares logSame, wroteAgain, fun _ => whole,
            fun failed => absurd rfl failed⟩
      | error failure =>
          rw [first, Result.ofEnd, second]
          exact ⟨rfl, rfl, rfl, lines, texts, told, wrote.after spares logSame, wroteAgain, nofun, fun _ => whole⟩

/-- Whatever the files are, tuning and replaying leave the data alone. If no access to a file fails, they can be
repeated: the report of the search, or the traces of the episodes that are found, are added to the log each time. -/
theorem repeatable {invocation : Invocation} (located : dataPaths invocation = .ok paths)
    (asked : task? invocation = some task) (files : Files) :
    LeavesData task paths files (run invocation files).files ∧ (Undisturbed task paths files →
      Repeats invocation task paths files (run invocation files) (run invocation (run invocation files).files)) := by
  have spares := run_spares located asked files
  obtain ⟨config, data⟩ := not_output (root_ne_empty located) task files
  exact ⟨⟨spares, fun _ => spares.kept config, fun name reads _ => spares.kept (data name reads)⟩,
    fun undisturbed => undisturbed.repeats located asked⟩

/-- A data directory with a configuration and one episode. -/
def oneEpisode : Files :=
  let config := "\x7b\"tune\":\x7b\"trials\":1,\"local_refine\":0\x7d\x7d"
  let line := (IndexRecord.ofEpisode 0 Tuning.singleTick).line
  ⟨[(["data"], .directory), (["data", "config.json"], .file config.toUTF8), (["data", "logs"], .directory),
    (["data", "logs", Store.indexName], .file (line ++ "\n").toUTF8),
    (["data", "logs", EpisodeFile.name 0], .file (EpisodeFile.write Tuning.singleTick).toUTF8)], []⟩

/-- A command in the data directory. -/
def inData (arguments : List String) : Invocation :=
  ⟨arguments, fun name => if name = "LIMINAL_DATA_DIR" then some "data" else none⟩

/-- The trace of the only tick. -/
def onlyLine : String :=
  "\x7b\"tick\":0,\"src_idx\":0,\"delta\":0.0,\"alpha\":0.3,\"err_after\":0.4,\"mode\":\"latest\"\x7d"

/-- The one episode is tuned on twice, or replayed twice. -/
theorem repeatable_oneEpisode :
    let tuned := run (inData ["tune"]) oneEpisode
    let replayed := run (inData ["replay"]) oneEpisode
    let again := run (inData ["replay"]) replayed.files
    (tuned.code = 0 ∧ LeavesData .tune ⟨"data"⟩ oneEpisode tuned.files ∧
      Repeats (inData ["tune"]) .tune ⟨"data"⟩ oneEpisode tuned (run (inData ["tune"]) tuned.files)) ∧
    replayed.code = 0 ∧ LeavesData (.replay .latest) ⟨"data"⟩ oneEpisode replayed.files ∧
      Repeats (inData ["replay"]) (.replay .latest) ⟨"data"⟩ oneEpisode replayed again ∧
      (written (inData ["replay"]) (.replay .latest) ⟨"data"⟩ oneEpisode).1 = [onlyLine] ∧
      again.files.contentAt ["data", "logs", Replay.logName] = Log.written [onlyLine, onlyLine] := by
  intro tuned replayed again
  let paths : DataPaths := ⟨"data"⟩
  have undisturbed (task : Task) (free : ∀ path ∈ paths.config :: task.outputs paths,
      Files.entry? (oneEpisode.createDirectories paths.logs).2 (oneEpisode.placeOf path) ≠ some .directory) :
      Undisturbed task paths oneEpisode :=
    ⟨⟨DataPaths.logs_ne_empty _, by decide +kernel, by decide +kernel⟩,
      fun _ => ⟨["data", "config.json"], by decide +kernel⟩, free⟩
  have logged : replayed.code = 0 ∧
      (written (inData ["replay"]) (.replay .latest) paths oneEpisode).1 = [onlyLine] ∧
      again.files.contentAt ["data", "logs", Replay.logName] = Log.written [onlyLine, onlyLine] := by
    decide +kernel
  obtain ⟨tuneLeaves, tuneRepeats⟩ := @repeatable ⟨"data"⟩ .tune (inData ["tune"]) rfl rfl oneEpisode
  obtain ⟨replayLeaves, replayRepeats⟩ :=
    @repeatable ⟨"data"⟩ (.replay .latest) (inData ["replay"]) rfl rfl oneEpisode
  exact ⟨⟨by decide +kernel, tuneLeaves, tuneRepeats (undisturbed .tune (by decide +kernel))⟩, logged.1,
    replayLeaves, replayRepeats (undisturbed (.replay .latest) (by decide +kernel)), logged.2⟩

end EpisodicReplay.Command
