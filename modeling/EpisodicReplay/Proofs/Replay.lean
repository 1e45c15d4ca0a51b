import EpisodicReplay.Proofs.Log
import EpisodicReplay.Replay

/-!
What a replay answers, and what it adds to its log: the traces of the episodes that the store finds, each from the filter
that the one before has left. The answer is the same if the log cannot always be written.
-/

namespace EpisodicReplay.Replay

theorem logName_isName : Path.IsName logName :=
  ⟨by decide, by decide, by decide, by decide, by decide, by decide⟩

variable {φ : Type} [SmoothingFilter φ] {capacity : Nat} {store : Store capacity} {files later : Files}
  {log : TraceLog} {place : Location} {mode : String} {filter : φ} {picked : List UInt32}

/-- The bytes of the line of a trace. -/
def Trace.bytes (trace : Trace) : ByteArray :=
  (trace.line ++ "\n").toUTF8

/-- A write that fails. -/
structure Fault where
  failure : Failure
  /-- How many bytes of the line are written before it fails, if the log can be opened. -/
  count : Option Nat

/-- What the log gets of the line of a trace. -/
def Fault.part (fault : Fault) (trace : Trace) : ByteArray :=
  match fault.count with
  | none => .empty
  | some count => trace.bytes.extract 0 (min count trace.bytes.size)

/-- Which writes fail. -/
abbrev Faults := Trace → Files → Option Fault

/-- Adds a trace to a log, unless the write fails. -/
def TraceLog.appendUnless (log : TraceLog) (faults : Faults) (trace : Trace) : FileAction Unit := do
  match faults trace (← get) with
  | none => Log.append log.path trace.line log.limit
  | some fault =>
    if fault.count.isSome then Log.appendBytes log.path (fault.part trace) log.limit
    throw fault.failure

section append
variable {faults : Faults} {trace : Trace}

theorem run_appendUnless (log : TraceLog) (works : faults trace files = none) :
    (log.appendUnless faults trace).run.run files = (Log.append log.path trace.line log.limit).run.run files := by
  change StateT.run (ExceptT.run (match faults trace files with
    | none => Log.append log.path trace.line log.limit
    | some _ => _ : FileAction Unit)) files = _
  rw [works]

/-- A write that fails adds a part of the line, or changes nothing. -/
theorem run_appendUnless_fault (log : TraceLog) {fault : Fault} (fails : faults trace files = some fault) :
    ∃ failure, (log.appendUnless faults trace).run.run files =
      (.error failure, if fault.count.isSome then
        ((Log.appendBytes log.path (fault.part trace) log.limit).run.run files).2 else files) := by
  change ∃ failure, StateT.run (ExceptT.run (match faults trace files with
    | none => _
    | some fault => do
      if fault.count.isSome then Log.appendBytes log.path (fault.part trace) log.limit
      throw fault.failure : FileAction Unit)) files = _
  rw [fails]
  dsimp only
  split
  case isTrue =>
    rw [run_bind]
    rcases (Log.appendBytes log.path (fault.part trace) log.limit).run.run files with ⟨failure | _, later⟩
    · exact ⟨failure, rfl⟩
    · exact ⟨fault.failure, rfl⟩
  case isFalse => exact ⟨fault.failure, rfl⟩

end append

/-- Replays one episode with a log that cannot always be written. -/
def episodeUnless (faults : Faults) (loaded : Episode) (source : UInt32) (mode : String) (filter : φ)
    (log : Option TraceLog) : StateM Files (List Trace × φ) := do
  let (traces, last) := traceTicks source (modeLabel mode) filter 0 loaded.ticks.toList
  if let some log := log then
    let _ ← (traces.forM (log.appendUnless faults)).run
  return (traces, last)

/-- Replays the given episodes with a log that cannot always be written. -/
def idsUnless (faults : Faults) (store : Store capacity) (mode : String) (filter : φ) (log : Option TraceLog) :
    List UInt32 → StateM Files (Nat × φ)
  | [] => return (0, filter)
  | id :: rest => do
    match store.episode? (← get) id with
    | none => idsUnless faults store mode filter log rest
    | some loaded =>
      let (_, next) ← episodeUnless faults loaded id mode filter log
      let (count, last) ← idsUnless faults store mode next log rest
      return (count + 1, last)

/-- Replays all episodes that a selector picks with a log that cannot always be written. -/
def selectedUnless (faults : Faults) (store : Store capacity) (selector : Selector) (filter : φ)
    (log : Option TraceLog) : FileAction (Nat × φ) := do
  match selector.select (store.records (← get)) with
  | [] => throw .noEpisodes
  | picked => liftM (idsUnless faults store selector.label filter log picked)

/-- Neither the log nor a failing write has a say in what a replay answers. -/
theorem fst_run_episodeUnless (faults : Faults) (loaded : Episode) (source : UInt32) (mode : String) (filter : φ)
    (log : Option TraceLog) (files : Files) :
    ((episodeUnless faults loaded source mode filter log).run files).1 =
      traceTicks source (modeLabel mode) filter 0 loaded.ticks.toList := by
  cases log <;> rfl

theorem fst_run_episode (loaded : Episode) (source : UInt32) (mode : String) (filter : φ) (log : Option TraceLog)
    (files : Files) : ((episode loaded source mode filter log).run files).1 =
      traceTicks source (modeLabel mode) filter 0 loaded.ticks.toList :=
  fst_run_episodeUnless (fun _ _ => none) loaded source mode filter log files

theorem run_idsUnless_cons (faults : Faults) (store : Store capacity) (mode : String) (filter : φ)
    (log : Option TraceLog) (id : UInt32) (rest : List UInt32) (files : Files) :
    (idsUnless faults store mode filter log (id :: rest)).run files =
      match store.episode? files id with
      | none => (idsUnless faults store mode filter log rest).run files
      | some loaded =>
        let next := (traceTicks id (modeLabel mode) filter 0 loaded.ticks.toList).2
        let logged := ((episodeUnless faults loaded id mode filter log).run files).2
        let ((count, last), later) := (idsUnless faults store mode next log rest).run logged
        ((count + 1, last), later) := by
  change StateT.run (match store.episode? files id with
    | none => idsUnless faults store mode filter log rest
    | some loaded => do
      let replayed ← episodeUnless faults loaded id mode filter log
      let counted ← idsUnless faults store mode replayed.2 log rest
      return (counted.1 + 1, counted.2) : StateM Files _) files = _
  cases store.episode? files id with
  | none => rfl
  | some loaded => cases log <;> rfl

theorem run_selectedUnless (faults : Faults) (store : Store capacity) (selector : Selector) (filter : φ)
    (log : Option TraceLog) (files : Files) :
    (selectedUnless faults store selector filter log).run.run files =
      match selector.select (store.records files) with
      | [] => (.error .noEpisodes, files)
      | picked =>
        let (answer, later) := (idsUnless faults store selector.label filter log picked).run files
        (.ok answer, later) := by
  change StateT.run (ExceptT.run (match selector.select (store.records files) with
    | [] => throw .noEpisodes
    | picked => liftM (idsUnless faults store selector.label filter log picked) : FileAction (Nat × φ))) files = _
  cases selector.select (store.records files) <;> rfl

theorem idsUnless_none (store : Store capacity) (mode : String) (filter : φ) (log : Option TraceLog)
    (picked : List UInt32) :
    idsUnless (fun _ _ => none) store mode filter log picked = ids store mode filter log picked := by
  induction picked generalizing filter with
  | nil => rfl
  | cons id rest inductionHypothesis =>
      unfold idsUnless ids
      refine bind_congr fun files => ?_
      cases store.episode? files id with
      | none => exact inductionHypothesis filter
      | some loaded =>
          refine bind_congr fun (_, next) => ?_
          dsimp only
          rw [inductionHypothesis]

/-- If no write fails, the replay is the plain one. -/
theorem selectedUnless_none (store : Store capacity) (selector : Selector) (filter : φ) (log : Option TraceLog) :
    selectedUnless (fun _ _ => none) store selector filter log = selected store selector filter log := by
  unfold selectedUnless selected
  refine bind_congr fun files => ?_
  cases selector.select (store.records files) with
  | nil => rfl
  | cons id rest => exact congrArg liftM (idsUnless_none store selector.label filter log (id :: rest))

theorem run_ids_cons (log : Option TraceLog) (id : UInt32) (rest : List UInt32) :
    (ids store mode filter log (id :: rest)).run files =
      match store.episode? files id with
      | none => (ids store mode filter log rest).run files
      | some loaded =>
        let next := (traceTicks id (modeLabel mode) filter 0 loaded.ticks.toList).2
        let logged := ((episode loaded id mode filter log).run files).2
        let ((count, last), later) := (ids store mode next log rest).run logged
        ((count + 1, last), later) := by
  simp only [← idsUnless_none]
  exact run_idsUnless_cons (fun _ _ => none) store mode filter log id rest files

theorem run_selected (store : Store capacity) (selector : Selector) (filter : φ) (log : Option TraceLog)
    (files : Files) : (selected store selector filter log).run.run files =
      match selector.select (store.records files) with
      | [] => (.error .noEpisodes, files)
      | picked =>
        let (answer, later) := (ids store selector.label filter log picked).run files
        (.ok answer, later) := by
  simp only [← selectedUnless_none, ← idsUnless_none]
  exact run_selectedUnless (fun _ _ => none) store selector filter log files

/-- The answer of a replay and its traces, if the files stay as they are. -/
def played (store : Store capacity) (files : Files) (mode : String) (filter : φ) :
    List UInt32 → (Nat × φ) × List Trace
  | [] => ((0, filter), [])
  | id :: rest =>
    match store.episode? files id with
    | none => played store files mode filter rest
    | some loaded =>
      let (traces, next) := traceTicks id (modeLabel mode) filter 0 loaded.ticks.toList
      let ((count, last), more) := played store files mode next rest
      ((count + 1, last), traces ++ more)

theorem played_congr (same : ∀ id, store.episode? later id = store.episode? files id) :
    played store later mode filter picked = played store files mode filter picked := by
  induction picked generalizing filter with
  | nil => rfl
  | cons id rest inductionHypothesis => simp only [played, same, inductionHypothesis]

/-- The log gets the traces of the episodes that are found before, if it is none of their files. -/
theorem run_ids (fileAt : files.FileAt log.path place) (noDirectory : files.entry? place ≠ some .directory)
    (unread : ∀ later, files.SameBut later place → ∀ id, store.episode? later id = store.episode? files id) :
    ∃ later, (ids store mode filter (some log) picked).run files =
        ((played store files mode filter picked).1, later) ∧ files.SameBut later place ∧
      later.entry? place = Log.extended log.limit ( files.entry? place)
        ((played store files mode filter picked).2.map Trace.line) := by
  induction picked generalizing filter files with
  | nil => exact ⟨files, rfl, .refl files place, rfl⟩
  | cons id rest inductionHypothesis =>
      rw [run_ids_cons]
      unfold played
      cases store.episode? files id with
      | none => exact inductionHypothesis fileAt noDirectory unread
      | some loaded =>
          have logs : ((episode loaded id mode filter (some log)).run files).2 =
              ((log.append (traceTicks id (modeLabel mode) filter 0 loaded.ticks.toList).1).run.run files).2 := rfl
          dsimp only
          rw [logs]
          generalize traceTicks id (modeLabel mode) filter 0 loaded.ticks.toList = traced
          obtain ⟨next, logged, same, stillFile, added⟩ :=
            @Log.run_forM_append log.path log.limit files place Trace traced.1 Trace.line fileAt noDirectory
          have known (other : UInt32) : store.episode? next other = store.episode? files other :=
            unread next same other
          obtain ⟨last, run, sameLast, extended⟩ := @inductionHypothesis next traced.2
            (fileAt.of_sameBut same noDirectory) stillFile fun later sameLater other =>
              (unread later (same.trans sameLater) other).trans (known other).symm
          rw [played_congr known] at run extended
          have appended : ((log.append traced.1).run.run files).2 = next := congrArg Prod.snd logged
          rw [appended, run]
          refine ⟨last, rfl, same.trans sameLast, ?_⟩
          rw [extended, added, List.map_append]
          exact List.foldl_append.symm

end EpisodicReplay.Replay
