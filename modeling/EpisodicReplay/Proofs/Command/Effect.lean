import EpisodicReplay.Proofs.Command.Frame

/-!
What tuning and replaying do once their directories are there. How a command ends, what it prints and what it writes
depends on nothing that it writes itself.
-/

namespace EpisodicReplay.Command
variable {paths : DataPaths} {task : Task} {config : Config} {files later : Files} {root : Location}

/-- A log has got lines, some files have got texts, and the rest is spared. -/
structure Writes (directory log : String) (lines : List String) (texts : List (String × String))
    (files later : Files) : Prop where
  spares : files.Spares directory (log :: texts.map Prod.fst) later
  log : later.entry? (files.placeOf log) =
    Log.extended Log.standardLimit ( files.entry? (files.placeOf log)) lines
  texts : ∀ text ∈ texts, later.entry? (files.placeOf text.1) = some (.file text.2.toUTF8)

theorem Writes.nothing (directory log : String) (files : Files) : Writes directory log [] [] files files :=
  ⟨.refl files, rfl, List.forall_mem_nil _⟩

/-- Directories that were made before, away from the log, make no difference. -/
theorem Writes.after {directory log : String} {lines : List String} {texts : List (String × String)} {ready : Files}
    (spares : ∀ outputs, files.Spares directory outputs ready)
    (same : ready.entry? (files.placeOf log) = files.entry? (files.placeOf log))
    (writes : Writes directory log lines texts ready later) : Writes directory log lines texts files later where
  spares := (spares _).trans writes.spares
  log := by
    rw [← same, ← (spares []).placeOf]
    exact writes.log
  texts text member := by
    rw [← (spares []).placeOf]
    exact writes.texts text member

/-- The texts of a tuning that ends in an outcome. -/
def tuneTexts (paths : DataPaths) (best : Tuning.Outcome) : List (String × String) :=
  [(Path.join paths.logs Tuning.Report.bestName, Tuning.Report.bestLine best ++ "\n"),
    (paths.profile, String.ofList ((Tuning.Profile.ofOutcome best).toJson ++ ['\n']))]

/-- The lines of its log and the texts of its other outputs, as a store tells a task: the report of the search, or the
traces of the episodes that are found. -/
def Task.writtenFrom (paths : DataPaths) (config : Config) (store : Store Store.standardCapacity) (files : Files) :
    Task → List String × List (String × String)
  | .tune =>
    match (Tuning.Tuner.run ExponentialFilter store files config.tuning).run.run .standard with
    | (.ok best, tuner) => (Tuning.Report.lines tuner.ranking.items, tuneTexts paths best)
    | (.error _, _) => ([], [])
  | .replay selector =>
    let picked := selector.select (store.records files)
    ((Replay.played store files selector.label (liveFilter files paths) picked).2.map Replay.Trace.line, [])

/-- A task works on the store that it opens. -/
def Task.written (paths : DataPaths) (config : Config) (files : Files) (task : Task) :
    List String × List (String × String) :=
  let opened := (Store.openAt Store.standardCapacity_pos paths.logs).run files
  task.writtenFrom paths config opened.1 opened.2

/-- The directories of a command are there, and no other directory is in the way of what it reads and writes. -/
structure Settled (task : Task) (paths : DataPaths) (root : Location) (files : Files) : Prop where
  base : files.DirectoryAt paths.root root
  home : Store.HomeAt files paths.logs (root ++ ["logs"])
  free : ∀ path ∈ paths.config :: task.outputs paths, files.entry? (files.placeOf path) ≠ some .directory

namespace Settled

theorem named (settled : Settled task paths root files) : paths.root ≠ "" :=
  (Files.checkPath_eq_ok.mp settled.base.checked).2.1

theorem logFileAt (settled : Settled task paths root files) {name : String} (isName : Path.IsName name)
    (short : name.utf8ByteSize ≤ EpisodeFile.longestName) :
    files.FileAt (Path.join paths.logs name) (root ++ ["logs"] ++ [name]) :=
  settled.home.directoryAt.fileAt isName (Nat.le_trans (Nat.add_le_add_left short _) settled.home.room)

theorem rootFileAt (settled : Settled task paths root files) {name : String} (isName : Path.IsName name)
    (short : name.utf8ByteSize ≤ EpisodeFile.longestName) :
    files.FileAt (Path.join paths.root name) (root ++ [name]) := by
  obtain ⟨rest, path⟩ := Path.exists_join DataPaths.logs_isName settled.named
  have longer : paths.logs.utf8ByteSize = paths.root.utf8ByteSize + rest.utf8ByteSize := by
    rw [DataPaths.logs, path, String.utf8ByteSize_append]
  have room := settled.home.room
  exact settled.base.fileAt isName (by omega)

theorem configAt (settled : Settled task paths root files) : files.FileAt paths.config (root ++ ["config.json"]) :=
  settled.rootFileAt DataPaths.config_isName (by decide)

theorem profileAt (settled : Settled task paths root files) :
    files.FileAt paths.profile (root ++ ["tune_profile.json"]) :=
  settled.rootFileAt DataPaths.profile_isName (by decide)

/-- No directory is in the place of an output. -/
theorem outputFree (settled : Settled task paths root files) {path : String} {place : Location}
    (fileAt : files.FileAt path place) (output : path ∈ task.outputs paths) :
    files.entry? place ≠ some .directory :=
  fileAt.placeOf ▸ settled.free path (List.mem_cons_of_mem _ output)

/-- Opening the store changes no file. -/
theorem opened (settled : Settled task paths root files) :
    let opened := (Store.openAt Store.standardCapacity_pos paths.logs).run files
    opened.1.directory = some paths.logs ∧ opened.2 = files :=
  (Store.openAt_nextId settled.home.directoryAt.createDirectories_eq).2

theorem written_eq (settled : Settled task paths root files) (config : Config) :
    task.written paths config files =
      task.writtenFrom paths config ((Store.openAt Store.standardCapacity_pos paths.logs).run files).1 files := by
  rw [Task.written, settled.opened.2]

end Settled

/-- Settled files that differ in the outputs only. -/
structure Agrees (task : Task) (paths : DataPaths) (root : Location) (files later : Files) : Prop where
  settled : Settled task paths root files
  laterSettled : Settled task paths root later
  entry : ∀ place, place ∉ (task.outputs paths).map files.placeOf → later.entry? place = files.entry? place

namespace Agrees

theorem refl (settled : Settled task paths root files) : Agrees task paths root files files :=
  ⟨settled, settled, fun _ _ => rfl⟩

/-- A store sees no difference. -/
theorem looksSame (agrees : Agrees task paths root files later) :
    Store.LooksSame paths.logs (root ++ ["logs"]) files later where
  home := agrees.settled.home
  laterHome := agrees.laterSettled.home
  entry name reads := by
    have unwritten := (not_output agrees.settled.named task files).2 name reads
    rw [agrees.settled.home.directoryAt.placeOf] at unwritten
    exact agrees.entry _ unwritten

/-- A file beside the logs directory reads the same if it is no output. -/
theorem readText (agrees : Agrees task paths root files later) {path : String} {place : Location}
    (fileAt : files.FileAt path place) (laterAt : later.FileAt path place)
    (unwritten : files.placeOf path ∉ (task.outputs paths).map files.placeOf) :
    later.readText path = files.readText path := by
  rw [fileAt.placeOf] at unwritten
  rw [Files.readText, Files.readText, fileAt.read_congr laterAt (agrees.entry place unwritten)]

theorem loadConfig (agrees : Agrees task paths root files later) :
    Config.load later paths.config = Config.load files paths.config := by
  rw [Config.load, Config.load, agrees.readText agrees.settled.configAt agrees.laterSettled.configAt
    (not_output agrees.settled.named task files).1]

end Agrees

/-- What was written where everything is settled leaves it settled. -/
theorem Writes.agrees {lines : List String} {texts : List (String × String)} (settled : Settled task paths root files)
    (writes : Writes paths.logs (task.log paths) lines texts files later)
    (outputs : texts.map Prod.fst ⊆ task.texts paths) : Agrees task paths root files later := by
  have entry (place : Location) (elsewhere : place ∉ (task.log paths :: texts.map Prod.fst).map files.placeOf) :
      later.entry? place = files.entry? place := by
    rcases writes.spares.entry place elsewhere with same | ⟨missing, -, onWay⟩
    · exact same
    · rw [settled.home.directoryAt.directory_of_onWay onWay] at missing
      cases missing
  have within : task.log paths :: texts.map Prod.fst ⊆ task.outputs paths := List.cons_subset_cons _ outputs
  have unwritten (place : Location) (elsewhere : place ∉ (task.outputs paths).map files.placeOf) :
      later.entry? place = files.entry? place :=
    entry place fun written => elsewhere (List.map_subset _ within written)
  have noDirectory (place : Location) (free : files.entry? place ≠ some .directory) :
      later.entry? place ≠ some .directory := by
    by_cases written : place ∈ (task.log paths :: texts.map Prod.fst).map files.placeOf
    · rw [List.map_cons, List.mem_cons, List.map_map, List.mem_map] at written
      rcases written with rfl | ⟨text, member, rfl⟩
      · rw [writes.log]
        exact Log.extended_ne_directory free lines
      · rw [Function.comp_apply, writes.texts text member]
        simp
    · rwa [entry place written]
  have keeps (place : Location) (found : files.entry? place = some .directory) :
      later.entry? place = some .directory := by
    rw [unwritten]
    · exact found
    · intro output
      obtain ⟨path, member, rfl⟩ := List.mem_map.mp output
      exact settled.free path (List.mem_cons_of_mem _ member) found
  refine ⟨settled, ⟨?_, ⟨?_, settled.home.room⟩, ?_⟩, unwritten⟩
  · exact settled.base.of_keeps writes.spares.current keeps
  · exact settled.home.directoryAt.of_keeps writes.spares.current keeps
  · intro path member
    rw [writes.spares.placeOf]
    exact noDirectory _ (settled.free path member)

/-- How a command ends, what it prints, and what it writes. -/
structure Effect where
  outcome : Except Failure Unit
  printed : String
  lines : List String
  texts : List (String × String)

namespace Effect

/-- A command that succeeds writes all its texts, and one that fails writes nothing. -/
def Whole (effect : Effect) (texts : List String) : Prop :=
  match effect.outcome with
  | .ok () => effect.texts.map Prod.fst = texts
  | .error _ => effect.lines = [] ∧ effect.texts = []

theorem Whole.subset {effect : Effect} {texts : List String} (whole : effect.Whole texts) :
    effect.texts.map Prod.fst ⊆ texts := by
  unfold Whole at whole
  split at whole
  case h_1 => exact whole ▸ List.Subset.refl _
  case h_2 =>
    rw [whole.2]
    exact List.nil_subset _

/-- The effect writes what belongs to the task. -/
def Tells (effect : Effect) (task : Task) (paths : DataPaths) (config : Config) (files : Files) : Prop :=
  (effect.lines, effect.texts) = task.written paths config files

/-- The action has the effect on the files, whatever was printed before. -/
def Of (effect : Effect) (directory log : String) (action : Action Unit) (files later : Files) : Prop :=
  Writes directory log effect.lines effect.texts files later ∧ ∀ output errors,
    action.run.run ⟨files, output, errors⟩ = (effect.outcome, ⟨later, output ++ effect.printed, errors⟩)

end Effect

theorem exists_forM_say {α : Type} (items : List α) (lineOf : α → String) : ∃ printed, ∀ terminal : Terminal,
    (items.forM fun item => say (lineOf item)).run.run terminal =
      (.ok ⟨⟩, { terminal with output := terminal.output ++ printed }) := by
  induction items with
  | nil => exact ⟨"", fun terminal => by rw [String.append_empty]; rfl⟩
  | cons item items inductionHypothesis =>
      obtain ⟨printed, runs⟩ := inductionHypothesis
      refine ⟨lineOf item ++ "\n" ++ printed, fun terminal => ?_⟩
      rw [List.forM, run_bind, run_say]
      dsimp only
      rw [runs, String.append_assoc, String.append_assoc, String.append_assoc]

section tune
variable {store : Store Store.standardCapacity} {best : Tuning.Outcome} {tuner : Tuning.Tuner}

/-- The report and the profile are written one after the other. -/
theorem exists_writes_tune (settled : Settled .tune paths root files) (evaluated : best.isEvaluated)
    (first : tuner.ranking.items.head? = some best) : ∃ count reported later,
      (Tuning.Report.write paths.logs tuner.ranking.items).run.run files = (.ok count, reported) ∧
        ((Tuning.Profile.ofOutcome best).save paths.profile).run.run reported = (.ok (), later) ∧
          Writes paths.logs (Task.tune.log paths) (Tuning.Report.lines tuner.ranking.items) (tuneTexts paths best)
            files later := by
  have logAt := settled.logFileAt Tuning.Report.logName_isName (by decide)
  have bestAt := settled.logFileAt Tuning.Report.bestName_isName (by decide)
  have profileAt := settled.profileAt
  have logFree := settled.outputFree logAt (Task.log_mem .tune paths)
  have bestFree := settled.outputFree bestAt (Task.best_mem paths)
  obtain ⟨others, top⟩ := Tuning.Report.top_of_first evaluated first
  obtain ⟨reported, run, written⟩ :=
    Tuning.Report.run_write top settled.home.directoryAt logAt bestAt logFree bestFree
  have reportedProfile := profileAt.of_keeps written.current fun place found =>
    (written.entry place (fun equal => logFree (equal ▸ found)) fun equal => bestFree (equal ▸ found)).trans found
  have beside {name : String} : root ++ ["tune_profile.json"] ≠ root ++ ["logs"] ++ [name] := fun equal =>
    absurd (congrArg List.length equal) (by simp)
  have noDirectory : reported.entry? (root ++ ["tune_profile.json"]) ≠ some .directory := by
    rw [written.entry _ beside beside]
    exact settled.outputFree profileAt (Task.profile_mem paths)
  let text := String.ofList ((Tuning.Profile.ofOutcome best).toJson ++ ['\n'])
  have saved : ((Tuning.Profile.ofOutcome best).save paths.profile).run.run reported =
      (.ok (), reported.put (root ++ ["tune_profile.json"]) (.file text.toUTF8)) :=
    FileAction.run_write reportedProfile noDirectory
  have sameSaved := Files.put_sameBut reported profileAt.inside (.file text.toUTF8)
  have spares : files.Spares paths.logs (Task.tune.outputs paths)
      ((Tuning.Report.write paths.logs tuner.ranking.items).run.run files).2 :=
    Tuning.Report.sparing_write (Task.log_mem .tune paths) (Task.best_mem paths) _ files
  rw [run] at spares
  refine ⟨_, reported, _, run, saved, ⟨?_, ?_, ?_⟩⟩
  · exact spares.trans (sameSaved.spares (Task.profile_mem paths) reportedProfile.placeOf)
  · rw [Task.log, logAt.placeOf, sameSaved.entry _ beside.symm]
    exact written.log
  · intro text member
    simp only [tuneTexts, List.mem_cons, List.not_mem_nil, or_false] at member
    rcases member with rfl | rfl
    · rw [bestAt.placeOf, sameSaved.entry _ beside.symm]
      exact written.best
    · rw [profileAt.placeOf, Files.entry?_put profileAt.inside, if_pos rfl]

theorem exists_run_tuneOn (paths : DataPaths) (config : Config) (store : Store Store.standardCapacity)
    (best : Tuning.Outcome) (tuner : Tuning.Tuner) (evaluated : best.isEvaluated)
    (first : tuner.ranking.items.head? = some best) : ∃ printed, ∀ {files : Files} {root : Location},
      Settled .tune paths root files →
      (Tuning.Tuner.run ExponentialFilter store files config.tuning).run.run .standard = (.ok best, tuner) →
      ∃ later, Writes paths.logs (Task.tune.log paths) (Tuning.Report.lines tuner.ranking.items)
          (tuneTexts paths best) files later ∧
        ∀ output errors, (tuneOn paths config store).run.run ⟨files, output, errors⟩ =
          (.ok best, ⟨later, output ++ printed, errors⟩) := by
  let shown := tuner.ranking.items.take Tuning.Report.length
  let heading := "[tune] top " ++ toString shown.length ++ " configs:"
  obtain ⟨printed, told⟩ := exists_forM_say shown.zipIdx fun item => outcomeLine (item.2 + 1) item.1
  refine ⟨heading ++ "\n" ++ printed, fun {files root} settled ran => ?_⟩
  obtain ⟨count, reported, later, report, profile, writes⟩ := exists_writes_tune settled evaluated first
  refine ⟨later, writes, fun output errors => ?_⟩
  unfold tuneOn
  rw [run_bind, run_onStateOrFail]
  dsimp only
  rw [ran]
  dsimp only
  rw [evaluated, if_neg (by decide), run_bind, run_say]
  dsimp only
  rw [forIn_yield, run_bind, told]
  dsimp only
  rw [run_bind, run_onFiles]
  dsimp only
  rw [report, run_bind, run_onFilesOrFail]
  dsimp only
  rw [profile]
  have joined (heading : String) : output ++ heading ++ "\n" ++ printed = output ++ (heading ++ "\n" ++ printed) := by
    simp only [String.append_assoc]
  dsimp only
  rw [joined]
  rfl

/-- Opening the store where everything is settled changes no file, and the store is the same wherever no difference is
seen. -/
theorem run_openStore (agrees : Agrees task paths root files later) (output errors : String) :
    (openStore paths).run.run ⟨later, output, errors⟩ =
      (.ok ((Store.openAt Store.standardCapacity_pos paths.logs).run files).1, ⟨later, output, errors⟩) := by
  rw [openStore, run_onFiles, Store.openAt_files, agrees.laterSettled.home.directoryAt.createDirectories_eq,
    agrees.looksSame.openAt]

theorem exists_effect_tune (settled : Settled .tune paths root files) (config : Config) :
    ∃ effect : Effect, effect.Whole (Task.tune.texts paths) ∧ effect.Tells .tune paths config files ∧
      ∀ later, Agrees .tune paths root files later →
        ∃ last, effect.Of paths.logs (Task.tune.log paths) (tune paths config) later last := by
  let store := ((Store.openAt Store.standardCapacity_pos paths.logs).run files).1
  have stocked : store.Stocked := (Store.Obtained.openAt _ paths.logs files).stocked
  have based : store.directory = some paths.logs := settled.opened.1
  have opens {later : Files} (agrees : Agrees .tune paths root files later) (output errors : String) :
      (tune paths config).run.run ⟨later, output, errors⟩ =
        (tuneOn paths config store >>= fun _ => return ()).run.run ⟨later, output, errors⟩ := by
    rw [tune, run_bind, run_openStore agrees]
  have searches {later : Files} (agrees : Agrees .tune paths root files later) :
      Tuning.Tuner.run ExponentialFilter store later config.tuning =
        Tuning.Tuner.run ExponentialFilter store files config.tuning := by
    rw [Tuning.Tuner.run, Tuning.Tuner.run, agrees.looksSame.selectForTuning based]
  have tells := settled.written_eq config
  rw [Task.writtenFrom] at tells
  by_cases nothing : store.selectForTuning files config.tuning.source config.tuning.selectCount = []
  · have failed := @Tuning.Tuner.run_of_eq_nil ExponentialFilter _ _ store files config.tuning .standard nothing
    rw [failed] at tells
    refine ⟨⟨.error .noEpisodes, "", [], []⟩, ⟨rfl, rfl⟩, tells.symm, fun later agrees => ⟨later, .nothing .., ?_⟩⟩
    intro output errors
    rw [opens agrees, run_bind, tuneOn, run_bind, run_onStateOrFail, searches agrees, failed, String.append_empty]
  · obtain ⟨best, ranking, found, spent⟩ :=
      @Tuning.Tuner.exists_run ExponentialFilter _ _ store files config.tuning .standard stocked nothing
    obtain ⟨printed, runs⟩ := exists_run_tuneOn paths config store best
      { Tuning.Tuner.standard with ranking } spent.evaluated spent.first
    rw [found] at tells
    refine ⟨⟨.ok (), printed, Tuning.Report.lines ranking.items, tuneTexts paths best⟩, rfl, tells.symm,
      fun later agrees => ?_⟩
    obtain ⟨last, writes, run⟩ := runs agrees.laterSettled (searches agrees ▸ found)
    refine ⟨last, writes, fun output errors => ?_⟩
    rw [opens agrees, run_bind, run]
    rfl

end tune

section replay
variable {selector : Selector}

/-- The log of traces is a file in the logs directory, or can become one. -/
theorem Settled.traceAt (settled : Settled (.replay selector) paths root files) :
    files.FileAt (Replay.TraceLog.inDirectory paths.logs).path (root ++ ["logs"] ++ [Replay.logName]) ∧
      files.entry? (root ++ ["logs"] ++ [Replay.logName]) ≠ some .directory := by
  have logAt := settled.logFileAt Replay.logName_isName (by decide)
  exact ⟨logAt, settled.outputFree logAt (Task.log_mem (.replay selector) paths)⟩

/-- No episode is read from the log of traces. -/
theorem Settled.episode?_of_sameBut {store : Store Store.standardCapacity}
    (settled : Settled (.replay selector) paths root files) (based : store.directory = some paths.logs)
    (same : files.SameBut later (root ++ ["logs"] ++ [Replay.logName])) (id : UInt32) :
    store.episode? later id = store.episode? files id := by
  have looksSame : Store.LooksSame paths.logs (root ++ ["logs"]) files later := by
    refine ⟨settled.home, settled.home.of_sameBut same settled.traceAt.2, fun name reads => ?_⟩
    refine same.entry _ fun equal => ?_
    rw [List.singleton_inj.mp (List.append_cancel_left equal)] at reads
    exact absurd reads (by decide)
  exact looksSame.episode? based id

theorem liveFilter_congr (agrees : Agrees (.replay selector) paths root files later) :
    liveFilter later paths = liveFilter files paths := by
  have unwritten : files.placeOf paths.profile ∉ (Task.outputs (.replay selector) paths).map files.placeOf := by
    rw [Task.outputs, Task.texts, List.map_singleton, List.mem_singleton]
    change ¬_ = files.placeOf (Replay.TraceLog.inDirectory paths.logs).path
    rw [agrees.settled.traceAt.1.placeOf, agrees.settled.profileAt.placeOf]
    exact fun equal => absurd (congrArg List.length equal) (by simp)
  rw [liveFilter, liveFilter, Tuning.Profile.load, Tuning.Profile.load,
    agrees.readText agrees.settled.profileAt agrees.laterSettled.profileAt unwritten]

theorem exists_effect_replay (settled : Settled (.replay selector) paths root files) (config : Config) :
    ∃ effect : Effect, effect.Whole [] ∧ effect.Tells (.replay selector) paths config files ∧
      ∀ later, Agrees (.replay selector) paths root files later →
        ∃ last, effect.Of paths.logs (Task.log paths (.replay selector)) (replay paths selector) later last := by
  let store := ((Store.openAt Store.standardCapacity_pos paths.logs).run files).1
  let log := Replay.TraceLog.inDirectory paths.logs
  have based : store.directory = some paths.logs := settled.opened.1
  have opens {later : Files} (agrees : Agrees (.replay selector) paths root files later) (output errors : String) :
      (replay paths selector).run.run ⟨later, output, errors⟩ = (do
        let replayed ← onFilesOrFail (Replay.selected store selector (liveFilter files paths) (some log))
        say ("replayed " ++ toString replayed.1 ++ " episode(s) into " ++ Text.quoted log.path) : Action Unit).run.run
          ⟨later, output, errors⟩ := by
    rw [replay, run_bind, run_openStore agrees, ← liveFilter_congr agrees]
    rfl
  have tells := settled.written_eq config
  rw [Task.writtenFrom] at tells
  cases picked : selector.select (store.records files) with
  | nil =>
      rw [picked] at tells
      refine ⟨⟨.error .noEpisodes, "", [], []⟩, ⟨rfl, rfl⟩, tells.symm, fun later agrees => ⟨later, .nothing .., ?_⟩⟩
      intro output errors
      rw [opens agrees, run_bind, run_onFilesOrFail, Replay.run_selected, agrees.looksSame.records based, picked,
        String.append_empty]
  | cons id rest =>
      let played := Replay.played store files selector.label (liveFilter files paths) (id :: rest)
      let line := "replayed " ++ toString played.1.1 ++ " episode(s) into " ++ Text.quoted log.path
      rw [picked] at tells
      refine ⟨⟨.ok (), line ++ "\n", played.2.map Replay.Trace.line, []⟩, rfl, tells.symm, fun later agrees => ?_⟩
      obtain ⟨logAt, logFree⟩ := agrees.laterSettled.traceAt
      obtain ⟨last, run, same, added⟩ := @Replay.run_ids ExponentialFilter _ _ store later log _ selector.label
        (liveFilter files paths) (id :: rest) logAt logFree fun last same =>
          agrees.laterSettled.episode?_of_sameBut based same
      rw [Replay.played_congr (agrees.looksSame.episode? based)] at run added
      refine ⟨last, ⟨?_, ?_, List.forall_mem_nil _⟩, fun output errors => ?_⟩
      · exact same.spares (Task.log_mem (.replay selector) paths) logAt.placeOf
      · change last.entry? (later.placeOf log.path) = Log.extended _ ( later.entry? (later.placeOf log.path)) _
        rw [logAt.placeOf]
        exact added
      · rw [opens agrees, run_bind, run_onFilesOrFail, Replay.run_selected, agrees.looksSame.records based, picked]
        dsimp only
        rw [run]
        have joined : output ++ line ++ "\n" = output ++ (line ++ "\n") := String.append_assoc
        exact congrArg (fun text => ((.ok (), ⟨last, text, errors⟩) : Except Failure Unit × Terminal)) joined

end replay

/-- Every run on files without a visible difference has the same effect. -/
theorem exists_effect (settled : Settled task paths root files) (config : Config) :
    ∃ effect : Effect, effect.Whole (task.texts paths) ∧ effect.Tells task paths config files ∧
      ∀ later, Agrees task paths root files later →
        ∃ last, effect.Of paths.logs (task.log paths) (task.perform paths config) later last := by
  cases task with
  | tune => exact exists_effect_tune settled config
  | replay selector => exact exists_effect_replay settled config

end EpisodicReplay.Command
