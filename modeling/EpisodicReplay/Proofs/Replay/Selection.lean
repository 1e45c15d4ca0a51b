import EpisodicReplay.Proofs.Replay.Interruption
import EpisodicReplay.Proofs.Replay.Observed
import EpisodicReplay.Proofs.Store.Selection

/-!
A replay of selected episodes. It takes the filter through the episodes that can be loaded, one after another, and logs
their traces in this order. What becomes of the log changes nothing in it.
-/

namespace EpisodicReplay

namespace Store
variable {capacity : Nat} {files later : Files}

/-- The picked episodes that can be loaded, as often as they are picked. -/
def found (store : Store capacity) (files : Files) (picked : List UInt32) : List EpisodeRecord :=
  picked.filterMap fun id => (store.episode? files id).map (EpisodeRecord.mk id)

theorem found_cons (store : Store capacity) (files : Files) (id : UInt32) (rest : List UInt32) :
    store.found files (id :: rest) =
      match store.episode? files id with
      | none => store.found files rest
      | some loaded => ⟨id, loaded⟩ :: store.found files rest := by
  rw [found, List.filterMap_cons]
  cases store.episode? files id <;> rfl

theorem found_congr {store : Store capacity} (same : ∀ id, store.episode? later id = store.episode? files id)
    (picked : List UInt32) : store.found later picked = store.found files picked := by
  simp only [found, same]

theorem toOption_readEpisode {path : String} (same : (later.read path).toOption = (files.read path).toOption) :
    (readEpisode later path).toOption = (readEpisode files path).toOption := by
  unfold readEpisode
  cases before : files.read path <;> cases after : later.read path <;> rw [before, after] at same <;> cases same <;> rfl

/-- The store finds the same episodes, whatever is in the file of the path. -/
def Overlooks (store : Store capacity) (path : String) : Prop :=
  ∀ files later, files.TouchesOnly path later → ∀ id, store.episode? later id = store.episode? files id

theorem overlooks_of_ne {store : Store capacity} {path : String}
    (apart : ∀ (files : Files) directory id,
      files.placeOf (Path.join directory (EpisodeFile.name id)) ≠ files.placeOf path) :
    store.Overlooks path := by
  intro files later touches id
  unfold episode? loadEpisode
  cases store.cache.toList.find? (·.id == id) with
  | some record => rfl
  | none =>
      cases store.directory with
      | none => rfl
      | some directory => exact toOption_readEpisode (touches.toOption_read (apart files directory id))

end Store

namespace Replay

/-- No store reads the log of a replay. -/
theorem overlooks_log {capacity : Nat} (store : Store capacity) (directory : String) :
    store.Overlooks (Path.join directory logName) := by
  refine Store.overlooks_of_ne fun files other id same => ?_
  have last := Files.getLast?_placeOf_join (EpisodeFile.name_isName id) other files
  rw [same, Files.getLast?_placeOf_join logName_isName] at last
  -- The name of an episode file has no l.
  have name : logName = EpisodeFile.name id := Option.some.inj last
  have letter : 'l' ∈ (EpisodeFile.name id).toList := name ▸ (by decide : 'l' ∈ logName.toList)
  exact absurd (EpisodeFile.mem_name id 'l' letter) (by decide)

variable {φ : Type} [SmoothingFilter φ] {capacity : Nat} {store : Store capacity} {files later last : Files}
  {log : Option TraceLog} {place : Location} {mode : String} {filter : φ} {picked : List UInt32} {faults : Faults}

/-- The traces of episodes that go through one filter, one after another, and the filter after them. -/
def replayAll (mode : String) (filter : φ) : List EpisodeRecord → List (List Trace) × φ
  | [] => ([], filter)
  | record :: rest =>
    let (traces, next) := ((episode record.episode record.id mode filter none).run .empty).1
    let (others, last) := replayAll mode next rest
    (traces :: others, last)

theorem replayAll_cons (mode : String) (filter : φ) (record : EpisodeRecord) (rest : List EpisodeRecord) :
    replayAll mode filter (record :: rest) =
      let (traces, next) := traceTicks record.id (modeLabel mode) filter 0 record.episode.ticks.toList
      let (others, last) := replayAll mode next rest
      (traces :: others, last) :=
  rfl

/-- There is a trace for each tick. -/
theorem map_length_replayAll (mode : String) (filter : φ) (records : List EpisodeRecord) :
    (replayAll mode filter records).1.map List.length = records.map fun record => record.episode.length := by
  induction records generalizing filter with
  | nil => rfl
  | cons record rest inductionHypothesis =>
      rw [replayAll_cons, List.map_cons, List.map_cons, inductionHypothesis, traces_eq, List.length_mapIdx,
        length_callsOf, Array.length_toList, Episode.length]

/-- Only the log has changed, if there is one. -/
def OnlyLogged (log : Option TraceLog) (files later : Files) : Prop :=
  match log with
  | none => later = files
  | some log => files.TouchesOnly log.path later

theorem OnlyLogged.refl (log : Option TraceLog) (files : Files) : OnlyLogged log files files := by
  cases log with
  | none => rfl
  | some log => exact .nothing

theorem OnlyLogged.trans (first : OnlyLogged log files later) (second : OnlyLogged log later last) :
    OnlyLogged log files last := by
  cases log with
  | none => exact Eq.trans second first
  | some log => exact Files.TouchesOnly.trans first second

theorem episodeUnless_onlyLogged (faults : Faults) (loaded : Episode) (source : UInt32) (mode : String) (filter : φ)
    (log : Option TraceLog) (files : Files) :
    OnlyLogged log files ((episodeUnless faults loaded source mode filter log).run files).2 := by
  cases log with
  | none => rfl
  | some log => exact forM_touchesOnly log faults _ files

section overlooked
variable (overlooks : ∀ given ∈ log, store.Overlooks given.path)
include overlooks

theorem episode?_of_onlyLogged (only : OnlyLogged log files later) (id : UInt32) :
    store.episode? later id = store.episode? files id := by
  cases log with
  | none => exact congrArg (store.episode? · id) only
  | some log => exact overlooks log rfl files later only id

/-- The episodes that are found are replayed, and nothing but the log is touched. -/
theorem run_idsUnless (faults : Faults) (mode : String) (filter : φ) (picked : List UInt32) (files : Files) :
    ∃ later, (idsUnless faults store mode filter log picked).run files =
        (((store.found files picked).length, (replayAll mode filter (store.found files picked)).2), later) ∧
      OnlyLogged log files later := by
  induction picked generalizing filter files with
  | nil => exact ⟨files, rfl, .refl log files⟩
  | cons id rest inductionHypothesis =>
      rw [run_idsUnless_cons, Store.found_cons]
      cases store.episode? files id with
      | none => exact inductionHypothesis filter files
      | some loaded =>
          have only := episodeUnless_onlyLogged faults loaded id mode filter log files
          dsimp only
          generalize ((episodeUnless faults loaded id mode filter log).run files).2 = logged at only ⊢
          obtain ⟨later, run, onlyRest⟩ := inductionHypothesis
            (traceTicks id (modeLabel mode) filter 0 loaded.ticks.toList).2 logged
          rw [run, Store.found_congr (episode?_of_onlyLogged overlooks only) rest]
          exact ⟨later, rfl, only.trans onlyRest⟩

/-- Picking no episode is the only failure. -/
theorem answer_selectedUnless (faults : Faults) (selector : Selector) (filter : φ) (files : Files) :
    let records := store.records files
    let found := store.found files (selector.select records)
    let ran := (selectedUnless faults store selector filter log).run.run files
    (ran.1 = .error .noEpisodes ↔ ¬∃ record ∈ records, selector.Matches records record) ∧
      (ran.1 = .error .noEpisodes → ran.2 = files) ∧
      (ran.1 ≠ .error .noEpisodes →
        ran.1 = .ok (found.length, (replayAll selector.label filter found).2) ∧ OnlyLogged log files ran.2) := by
  dsimp only
  rw [← Selector.select_eq_nil_iff, run_selectedUnless]
  cases selector.select (store.records files) with
  | nil => exact ⟨⟨fun _ => rfl, fun _ => rfl⟩, fun _ => rfl, fun other => absurd rfl other⟩
  | cons id rest =>
      obtain ⟨later, run, only⟩ := run_idsUnless overlooks faults selector.label filter (id :: rest) files
      dsimp only
      rw [run]
      exact ⟨⟨nofun, nofun⟩, nofun, fun _ => ⟨rfl, only⟩⟩

end overlooked

/-- The log gets the lines of each episode until the first write of it that fails, behind what it was. -/
theorem exists_parts {log : TraceLog} (faults : Faults) (overlooks : store.Overlooks log.path)
    (fileAt : files.FileAt log.path place) (free : files.entry? place ≠ some .directory)
    (fits : Log.Fits log.limit (files.contentAt place)
      ((replayAll mode filter (store.found files picked)).1.flatten.map Trace.line)) :
    ∃ parts, List.Forall₂ (Gets faults) (replayAll mode filter (store.found files picked)).1 parts ∧
      ((idsUnless faults store mode filter (some log) picked).run files).2.contentAt place =
        parts.foldl (· ++ ·) (files.contentAt place) := by
  induction picked generalizing filter files with
  | nil => exact ⟨[], .nil, rfl⟩
  | cons id rest inductionHypothesis =>
      rw [Store.found_cons] at fits ⊢
      rw [run_idsUnless_cons]
      cases loading : store.episode? files id with
      | none =>
          rw [loading] at fits
          exact inductionHypothesis fileAt free fits
      | some loaded =>
          rw [loading] at fits
          dsimp only at fits ⊢
          rw [replayAll_cons] at fits ⊢
          dsimp only at fits ⊢
          rw [List.flatten_cons, List.map_append] at fits
          have logs : ((episodeUnless faults loaded id mode filter (some log)).run files).2 =
              (((traceTicks id (modeLabel mode) filter 0 loaded.ticks.toList).1.forM
                (log.appendUnless faults)).run.run files).2 := rfl
          rw [logs]
          generalize traceTicks id (modeLabel mode) filter 0 loaded.ticks.toList = traced at fits ⊢
          have only := forM_touchesOnly log faults traced.1 files
          obtain ⟨part, gets, content⟩ := exists_gets faults fileAt free fits.start
          generalize ((traced.1.forM (log.appendUnless faults)).run.run files).2 = logged at only content ⊢
          obtain ⟨same, stillFree⟩ := only.sameBut fileAt free
          have known := Store.found_congr (overlooks files logged only) rest
          -- A torn line only leaves more room for the lines of the episodes after it.
          have room : Log.Fits log.limit (logged.contentAt place)
              ((replayAll mode traced.2 (store.found logged rest)).1.flatten.map Trace.line) := by
            rw [content, known]
            exact fits.after gets.size_le
          obtain ⟨parts, others, added⟩ := inductionHypothesis (fileAt.of_sameBut same free) stillFree room
          rw [known] at others
          refine ⟨part :: parts, .cons gets others, ?_⟩
          rw [List.foldl_cons, ← content, ← added]
          rfl

/-- If no write fails, the log gets all lines. -/
theorem foldl_parts {replayed : List (List Trace)} {parts : List ByteArray}
    (works : ∀ trace state, faults trace state = none) (gets : List.Forall₂ (Gets faults) replayed parts)
    (before : ByteArray) :
    parts.foldl (· ++ ·) before = before ++ Log.written (replayed.flatten.map Trace.line) := by
  induction gets generalizing before with
  | nil => exact ByteArray.append_empty.symm
  | cons first _ inductionHypothesis =>
      rw [List.foldl_cons, inductionHypothesis, first.eq_written fun trace _ => works trace, List.flatten_cons,
        List.map_append, Log.written_append, ByteArray.append_assoc]

/-- A replay of selected episodes fails just if the selector matches no record, and changes nothing then. Otherwise it
counts the picked episodes that can be loaded, leaves the filter as it is after them, and touches only the log, which
gets a line for each of their ticks. No log and no failing write changes the answer, and a failing write costs the log
no more than the rest of the lines of its episode. -/
theorem selected_logs (store : Store capacity) (selector : Selector) (filter : φ) (directory : String) (limit : Nat)
    (files : Files) :
    let log : TraceLog := { TraceLog.inDirectory directory with limit := limit }
    let records := store.records files
    let found := store.found files (selector.select records)
    let replayed := (replayAll selector.label filter found).1
    let last := (replayAll selector.label filter found).2
    (∀ faults, ∀ given ∈ [none, some log],
      let ran := (selectedUnless faults store selector filter given).run.run files
      (ran.1 = .error .noEpisodes ↔ ¬∃ record ∈ records, selector.Matches records record) ∧
        (ran.1 = .error .noEpisodes → ran.2 = files) ∧
        (ran.1 ≠ .error .noEpisodes → ran.1 = .ok (found.length, last) ∧ OnlyLogged given files ran.2)) ∧
      replayed.map List.length = found.map (fun record => record.episode.length) ∧
      (∀ place, files.locateFile log.path = .ok place →
        Log.Fits limit (files.contentAt place) (replayed.flatten.map Trace.line) →
        ((selected store selector filter (some log)).run.run files).2.contentAt place =
            files.contentAt place ++ Log.written (replayed.flatten.map Trace.line) ∧
          ∀ faults, ∃ parts, List.Forall₂ (Gets faults) replayed parts ∧
            ((selectedUnless faults store selector filter (some log)).run.run files).2.contentAt place =
              parts.foldl (· ++ ·) (files.contentAt place)) ∧
      (∀ given, selectedUnless (fun _ _ => none) store selector filter given = selected store selector filter given) ∧
      ∀ loaded source mode (filter : φ), EpisodeLogged loaded source mode filter := by
  intro log records found replayed last
  have overlooks : store.Overlooks log.path := overlooks_log store directory
  have partly (faults : Faults) (place : Location) (located : files.locateFile log.path = .ok place)
      (fits : Log.Fits limit (files.contentAt place) (replayed.flatten.map Trace.line)) :
      ∃ parts, List.Forall₂ (Gets faults) replayed parts ∧
        ((selectedUnless faults store selector filter (some log)).run.run files).2.contentAt place =
          parts.foldl (· ++ ·) (files.contentAt place) := by
    obtain ⟨fileAt, free⟩ := Files.fileAt_of_locateFile located
    obtain ⟨parts, gets, content⟩ := @exists_parts φ _ capacity store files place selector.label filter
      (selector.select records) log faults overlooks fileAt free fits
    refine ⟨parts, gets, ?_⟩
    rw [run_selectedUnless, ← content]
    cases selector.select records <;> rfl
  refine ⟨fun faults given member => ?_, map_length_replayAll .., fun place located fits => ⟨?_, fun faults => ?_⟩,
    selectedUnless_none store selector filter, episode_logged⟩
  · refine answer_selectedUnless (fun used among => ?_) faults selector filter files
    rcases List.mem_pair.mp member with rfl | rfl
    · cases among
    · obtain rfl := Option.some.inj among
      exact overlooks
  · obtain ⟨parts, gets, content⟩ := partly (fun _ _ => none) place located fits
    rw [← selectedUnless_none, content, foldl_parts (fun _ _ => rfl) gets]
  · exact partly faults place located fits

/-- An index of two episodes, of which only the second one has a file. -/
def gapLogs : Files :=
  let episode := Episode.ofTicks [.zero] .spike
  let lines := [7, 8].map fun id => (IndexRecord.ofEpisode id episode).line
  ⟨[(["logs"], .directory), (["logs", Store.indexName], .file (Log.written lines)),
    (["logs", EpisodeFile.name 8], .file (EpisodeFile.write episode).toUTF8)], []⟩

def gapStore : Store 4 :=
  { Store.inMemory (Nat.succ_pos 3) with directory := some "logs" }

theorem gapStore_found :
    gapStore.found gapLogs (Selector.all.select (gapStore.records gapLogs)) = [⟨8, .ofTicks [.zero] .spike⟩] := by
  decide +kernel

def gapLine : String :=
  "\x7b\"tick\":0,\"src_idx\":8,\"delta\":0.0,\"alpha\":0.5,\"err_after\":0.0,\"mode\":\"ALL\"\x7d"

/-- The episode that cannot be loaded is left out, and the other one is logged. -/
theorem selected_logs_gapStore :
    ((selected gapStore .all (ExponentialFilter.fresh 0.5 0) (some (.inDirectory "logs"))).run.run
      gapLogs).2.contentAt ["logs", logName] = Log.written [gapLine] := by
  obtain ⟨-, -, logged, -, -⟩ :=
    selected_logs gapStore .all (ExponentialFilter.fresh 0.5 0) "logs" Log.standardLimit gapLogs
  rw [gapStore_found] at logged
  have located : gapLogs.locateFile (Path.join "logs" logName) = .ok ["logs", logName] :=
    ((Session.directoryAt_logs rfl rfl).fileAt logName_isName (by decide)).locateFile_file (by decide)
  have lines : (replayAll "ALL" (ExponentialFilter.fresh 0.5 0) [⟨8, .ofTicks [.zero] .spike⟩]).1.flatten.map
      Trace.line = [gapLine] := by
    decide +kernel
  have fits : Log.Fits Log.standardLimit (gapLogs.contentAt ["logs", logName]) [gapLine] := by
    decide +kernel
  have content := (logged ["logs", logName] located (lines ▸ fits)).1
  rw [← lines]
  exact content.trans ByteArray.empty_append

end Replay

end EpisodicReplay
