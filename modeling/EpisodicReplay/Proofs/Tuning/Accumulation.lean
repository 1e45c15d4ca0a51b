import EpisodicReplay.Proofs.Files.Frame
import EpisodicReplay.Proofs.Json.Record
import EpisodicReplay.Proofs.Tuning.Report

/-! Reports add up in one directory: the log has the lines of all of them, and the best outcome is the newest one. -/

namespace EpisodicReplay

namespace Json
variable {texts : List (String × List Char)}

/-- Text of one line that spells an object with these members, each of them given by its own text. -/
def Tells (text : List Char) (members : List (String × List Char)) : Prop :=
  Text.IsLine text ∧ ∃ fields, (parse? text).bind (Value.fields? (members.map Prod.fst)) = some fields ∧
    List.Forall₂ (fun member field => field.1 = member.1 ∧ parse? member.2 = some field.2) members fields

theorem exists_members (spelled : ∀ text ∈ texts, ∃ value, Spells text.2 value) :
    ∃ members : List Member, members.map Member.written = texts := by
  induction texts with
  | nil => exact ⟨[], rfl⟩
  | cons text rest inductionHypothesis =>
      obtain ⟨⟨value, first⟩, later⟩ := List.forall_mem_cons.mp spelled
      obtain ⟨members, rfl⟩ := inductionHypothesis later
      exact ⟨⟨text.1, text.2, value, first⟩ :: members, rfl⟩

theorem tells_writeObject (nonempty : texts ≠ []) (distinct : (texts.map Prod.fst).Nodup)
    (spelled : ∀ text ∈ texts, ∃ value, Spells text.2 value) :
    (∃ value, Spells (writeObject texts) value) ∧ Tells (writeObject texts) texts := by
  obtain ⟨members, rfl⟩ := exists_members spelled
  have spells := @spells_writeObject members fun empty => nonempty (by rw [empty]; rfl)
  rw [List.map_map] at distinct
  refine ⟨⟨_, spells⟩, spells.single, members.map Member.field, ?_, ?_⟩
  · rw [spells.parse?, Option.bind_some, List.map_map]
    exact fields?_members rfl distinct
  · rw [List.forall₂_map_left_iff, List.forall₂_map_right_iff, List.forall₂_same]
    exact fun member _ => ⟨rfl, member.spelled.parse?⟩

end Json

namespace Tuning.Report
variable {files later : Files} {directory : String} {logPlace bestPlace : Location} {outcomes : List Outcome}
  {batches : List (List Outcome)}

section content

/-- A line is an object with the rank, the scores and the parameters of an outcome. -/
theorem tells_line (rank : Nat) (outcome : Outcome) : Json.Tells (line rank outcome).toList
    ([("mode", Json.writeString "erb"), ("rank", Json.writeNat rank)] ++ scores outcome ++
      [("cfg", (Profile.ofParameters outcome.parameters).toJson)]) := by
  have parameters : ∃ value, Json.Spells (Profile.ofParameters outcome.parameters).toJson value := by
    refine (Json.tells_writeObject (by simp) (by simp [Profile.ofParameters]) ?_).1
    simp [Profile.ofParameters, Json.spells_writeFloat32, Exists.intro _ (Json.spells_writeNat _)]
  rw [line, String.toList_ofList]
  refine (Json.tells_writeObject (by simp) (by simp [scores]) ?_).2
  simp [scores, Json.spells_writeFloat32, parameters, Exists.intro _ (Json.spells_writeNat rank),
    Exists.intro _ (Json.spells_writeString "erb")]

/-- The file of the best outcome has its parameters and scores. -/
theorem tells_bestLine (outcome : Outcome) : Json.Tells (bestLine outcome).toList
    ([("trs_alpha", Json.writeFloat32 outcome.parameters.alpha),
      ("trs_warmup", Json.writeNat outcome.parameters.warmup),
      ("allow_align", Json.writeFloat32 outcome.parameters.allowAlign)] ++ scores outcome) := by
  rw [bestLine, String.toList_ofList]
  refine (Json.tells_writeObject (by simp) (by simp [scores]) ?_).2
  simp [scores, Json.spells_writeFloat32, Exists.intro _ (Json.spells_writeNat outcome.parameters.warmup)]

end content

section lines

/-- The lines of a report are those of its first evaluated outcomes, which are numbered from zero on. -/
theorem getElem?_lines (outcomes : List Outcome) (rank : Nat) : (lines outcomes)[rank]? =
    if rank < length then ((outcomes.filter Outcome.isEvaluated)[rank]?).map (line rank) else none := by
  rw [lines, top, List.getElem?_map, List.getElem?_zipIdx, List.getElem?_take]
  split
  · rw [Option.map_map, Nat.zero_add]
    rfl
  · rfl

theorem length_top (outcomes : List Outcome) :
    (top outcomes).length = min length (outcomes.countP Outcome.isEvaluated) := by
  rw [top, List.length_take, List.countP_eq_length_filter]

theorem head?_top (outcomes : List Outcome) : (top outcomes).head? = outcomes.find? Outcome.isEvaluated := by
  rw [top, List.head?_take, if_neg (by decide), List.head?_filter]

theorem top_eq_nil (unevaluated : ∀ outcome ∈ outcomes, ¬outcome.isEvaluated) : top outcomes = [] := by
  rw [top, List.filter_eq_nil_iff.mpr unevaluated, List.take_nil]

end lines

/-- Without anything to report nothing is touched. -/
theorem run_write_of_eq_nil (none : top outcomes = []) (directory : String) (files : Files) :
    (write directory outcomes).run.run files = (.ok 0, files) := by
  rw [write, none]
  rfl

/-- The first evaluated outcome of the most recent batch that has one. -/
def latestBest? (batches : List (List Outcome)) : Option Outcome :=
  (batches.filterMap (List.find? Outcome.isEvaluated)).getLast?

theorem latestBest?_cons (outcomes : List Outcome) (batches : List (List Outcome)) :
    latestBest? (outcomes :: batches) = (latestBest? batches).or (outcomes.find? Outcome.isEvaluated) := by
  rw [latestBest?, latestBest?, List.filterMap_cons]
  cases outcomes.find? Outcome.isEvaluated with
  | none => rw [Option.or_none]
  | some first =>
      dsimp only
      rw [List.getLast?_cons]
      cases (batches.filterMap (List.find? Outcome.isEvaluated)).getLast? <;> rfl

/-- Reports one after another into one directory, each with what it returns. -/
def writeAll (directory : String) (batches : List (List Outcome)) : StateM Files (List (Except Failure Nat)) :=
  batches.mapM fun outcomes => (write directory outcomes).run

theorem run_writeAll_cons (directory : String) (outcomes : List Outcome) (batches : List (List Outcome))
    (files : Files) : (writeAll directory (outcomes :: batches)).run files =
      let (result, next) := (write directory outcomes).run.run files
      let (results, later) := (writeAll directory batches).run next
      (result :: results, later) := by
  rw [writeAll, List.mapM_cons]
  rfl

/-- The two files of a directory have names of their own. -/
theorem bestPlace_ne_logPlace (logAt : files.FileAt (Path.join directory logName) logPlace)
    (bestAt : files.FileAt (Path.join directory bestName) bestPlace) : bestPlace ≠ logPlace := by
  intro equal
  have names := Files.getLast?_placeOf_join bestName_isName directory files
  rw [bestAt.placeOf, equal, ← logAt.placeOf, Files.getLast?_placeOf_join logName_isName] at names
  exact absurd names (by decide)

/-- The directory of the reports is there or can be created, and both of their files can be written in it. -/
structure Writable (directory : String) (logPlace bestPlace : Location) (files : Files) : Prop where
  created : (files.createDirectories directory).1 = .ok ()
  log : (files.createDirectories directory).2.locateFile (Path.join directory logName) = .ok logPlace
  best : (files.createDirectories directory).2.locateFile (Path.join directory bestName) = .ok bestPlace

/-- After a report there is room for another one in the same places. -/
theorem Added.writable {first : Outcome} {made : Files} (added : Added outcomes first logPlace bestPlace made later)
    (created : files.createDirectories directory = (.ok (), made))
    (logAt : made.FileAt (Path.join directory logName) logPlace)
    (bestAt : made.FileAt (Path.join directory bestName) bestPlace)
    (logFree : made.entry? logPlace ≠ some .directory) (bestFree : made.entry? bestPlace ≠ some .directory) :
    Writable directory logPlace bestPlace later := by
  have keeps (place : Location) (known : made.entry? place = some .directory) :
      later.entry? place = some .directory := by
    rw [added.entry place (fun equal => logFree (equal ▸ known)) fun equal => bestFree (equal ▸ known)]
    exact known
  have again : later.createDirectories directory = (.ok (), later) :=
    Files.createDirectories_of_keeps created added.current keeps
  refine ⟨congrArg Prod.fst again, ?_, ?_⟩
  · rw [again]
    refine (logAt.of_keeps added.current keeps).locateFile_file ?_
    rw [added.log]
    exact Log.extended_ne_directory logFree (lines outcomes)
  · rw [again]
    refine (bestAt.of_keeps added.current keeps).locateFile_file ?_
    rw [added.best]
    simp

/-- What is in the file of the best outcome after reports. -/
def bestEntry (before : Option FileEntry) (best : Option Outcome) : Option FileEntry :=
  best.elim before fun outcome => some (.file (bestLine outcome ++ "\n").toUTF8)

theorem bestEntry_or (before : Option FileEntry) (newer older : Option Outcome) :
    bestEntry before (newer.or older) = bestEntry (bestEntry before older) newer := by
  cases newer <;> rfl

/-- One report: its lines are added, and its best outcome replaces the one before. -/
theorem Writable.run_write (writable : Writable directory logPlace bestPlace files)
    (fits : Log.Fits Log.standardLimit (files.contentAt logPlace) (lines outcomes)) :
    ∃ later, (write directory outcomes).run.run files = (.ok (top outcomes).length, later) ∧
      Writable directory logPlace bestPlace later ∧
      later.contentAt logPlace = files.contentAt logPlace ++ Log.written (lines outcomes) ∧
      later.entry? bestPlace = bestEntry ( files.entry? bestPlace) (outcomes.find? Outcome.isEvaluated) := by
  cases found : top outcomes with
  | nil =>
      have none : outcomes.find? Outcome.isEvaluated = none := by rw [← head?_top, found, List.head?_nil]
      refine ⟨files, run_write_of_eq_nil found directory files, writable, ?_, by rw [none]; rfl⟩
      rw [lines, found]
      exact ByteArray.append_empty.symm
  | cons first others =>
      have some : outcomes.find? Outcome.isEvaluated = some first := by rw [← head?_top, found, List.head?_cons]
      obtain ⟨logAt, logFree⟩ := Files.fileAt_of_locateFile writable.log
      obtain ⟨bestAt, bestFree⟩ := Files.fileAt_of_locateFile writable.best
      have kept := Files.entry?_createDirectories logFree
      have created : files.createDirectories directory = (.ok (), (files.createDirectories directory).2) :=
        Prod.ext writable.created rfl
      generalize (files.createDirectories directory).2 = made at logAt logFree bestAt bestFree kept created
      have apart := bestPlace_ne_logPlace logAt bestAt
      obtain ⟨later, run, added⟩ := run_write_created found created logAt bestAt logFree bestFree apart
      refine ⟨later, run, added.writable created logAt bestAt logFree bestFree, ?_, ?_⟩
      · change Log.contentOf (later.entry? logPlace) = Log.contentOf ( files.entry? logPlace) ++ _
        rw [added.log, kept]
        exact Log.contentOf_extended fits
      · rw [added.best, some]
        rfl

/-- All the reports: the log grows by the lines of each of them, and the newest best outcome is left. -/
theorem Writable.run_writeAll (writable : Writable directory logPlace bestPlace files)
    (fits : Log.Fits Log.standardLimit (files.contentAt logPlace) (batches.flatMap lines)) :
    ∃ later, (writeAll directory batches).run files = (batches.map fun outcomes => .ok (top outcomes).length, later) ∧
      later.contentAt logPlace = files.contentAt logPlace ++ Log.written (batches.flatMap lines) ∧
      later.entry? bestPlace = bestEntry ( files.entry? bestPlace) (latestBest? batches) := by
  induction batches generalizing files with
  | nil => exact ⟨files, rfl, ByteArray.append_empty.symm, rfl⟩
  | cons outcomes batches inductionHypothesis =>
      rw [List.flatMap_cons] at fits
      obtain ⟨next, run, nextWritable, nextLog, nextBest⟩ := writable.run_write fits.start
      have nextFits : Log.Fits Log.standardLimit (next.contentAt logPlace) (batches.flatMap lines) := by
        rw [nextLog]
        exact fits.after (Nat.le_refl _)
      obtain ⟨later, rest, log, best⟩ := inductionHypothesis nextWritable nextFits
      refine ⟨later, ?_, ?_, ?_⟩
      · rw [run_writeAll_cons, run]
        dsimp only
        rw [rest]
        rfl
      · rw [log, nextLog, List.flatMap_cons, Log.written_append, ByteArray.append_assoc]
      · rw [best, nextBest, latestBest?_cons, bestEntry_or]

/-- Reports into one directory, as long as the log has room. Each of them adds a line for each of its first three
evaluated outcomes, which are ranked from zero on, and returns how many these are. The log is what it was with the lines
of all reports behind it, in order, and the file of the best outcome is about the first evaluated one of the most recent
report that had one. A report on outcomes none of which was evaluated changes nothing, wherever it would go. -/
theorem writeAll_accumulates (writable : Writable directory logPlace bestPlace files) (batches : List (List Outcome))
    (fits : Log.Fits Log.standardLimit (files.contentAt logPlace) (batches.flatMap lines)) :
    (∃ later, (writeAll directory batches).run files =
        (batches.map fun outcomes => .ok (min 3 (outcomes.countP Outcome.isEvaluated)), later) ∧
      later.contentAt logPlace = files.contentAt logPlace ++ Log.written (batches.flatMap lines) ∧
      later.entry? bestPlace = bestEntry ( files.entry? bestPlace) (latestBest? batches)) ∧
    (∀ outcomes rank, (lines outcomes)[rank]? =
      if rank < 3 then ((outcomes.filter Outcome.isEvaluated)[rank]?).map (line rank) else none) ∧
    (∀ rank outcome, Json.Tells (line rank outcome).toList
      ([("mode", Json.writeString "erb"), ("rank", Json.writeNat rank)] ++ scores outcome ++
        [("cfg", (Profile.ofParameters outcome.parameters).toJson)])) ∧
    (∀ outcome, Json.Tells (bestLine outcome).toList
      ([("trs_alpha", Json.writeFloat32 outcome.parameters.alpha),
        ("trs_warmup", Json.writeNat outcome.parameters.warmup),
        ("allow_align", Json.writeFloat32 outcome.parameters.allowAlign)] ++ scores outcome)) ∧
    ∀ outcomes : List Outcome, (∀ outcome ∈ outcomes, ¬outcome.isEvaluated) →
      ∀ anywhere untouched, (write anywhere outcomes).run.run untouched = (.ok 0, untouched) := by
  refine ⟨?_, getElem?_lines, tells_line, tells_bestLine, fun outcomes unevaluated =>
    run_write_of_eq_nil (top_eq_nil unevaluated)⟩
  obtain ⟨later, run, log, best⟩ := writable.run_writeAll fits
  refine ⟨later, ?_, log, best⟩
  rw [run]
  simp only [length_top]
  rfl

/-- The second of three reports has nothing to tell, and the third one replaces the best outcome of the first. -/
theorem writeAll_accumulates_thrice :
    let skipped : Outcome := .unevaluated .standard
    let reached (loss : Float32) : Outcome := ⟨⟨0.25, 2, 0.5⟩, loss, 0.5, 0.75, 0.5, 0.25⟩
    let batches := [[skipped, reached 0.5], [skipped],
      [reached 0.25, skipped, reached 0.375, reached 0.625, reached 0.75]]
    Writable "logs" ["logs", logName] ["logs", bestName] .empty ∧
      Log.Fits Log.standardLimit (Files.empty.contentAt ["logs", logName]) (batches.flatMap lines) ∧
      ∃ later, (writeAll "logs" batches).run .empty = ([.ok 1, .ok 0, .ok 3], later) ∧
        later.contentAt ["logs", logName] = Log.written [line 0 (reached 0.5), line 0 (reached 0.25),
          line 1 (reached 0.375), line 2 (reached 0.625)] ∧
        later.entry? ["logs", bestName] = some (.file (bestLine (reached 0.25) ++ "\n").toUTF8) := by
  intro skipped reached batches
  have writable : Writable "logs" ["logs", logName] ["logs", bestName] .empty :=
    ⟨by decide +kernel, by decide +kernel, by decide +kernel⟩
  have fits : Log.Fits Log.standardLimit (Files.empty.contentAt ["logs", logName]) (batches.flatMap lines) := by
    decide +kernel
  have ranked : batches.map top = [[reached 0.5], [], [reached 0.25, reached 0.375, reached 0.625]] := by
    decide +kernel
  have told : batches.flatMap lines = [line 0 (reached 0.5), line 0 (reached 0.25), line 1 (reached 0.375),
      line 2 (reached 0.625)] := by
    have through := List.flatMap_map top (fun kept => kept.zipIdx.map fun item => line item.2 item.1) batches
    rw [ranked] at through
    exact through.symm
  have latest : latestBest? batches = some (reached 0.25) := by decide +kernel
  have counts : (batches.map fun outcomes => min 3 (outcomes.countP Outcome.isEvaluated)) = [1, 0, 3] := by
    decide +kernel
  obtain ⟨⟨later, run, log, best⟩, -⟩ := writeAll_accumulates writable batches fits
  refine ⟨writable, fits, later, ?_, ?_, ?_⟩
  · rw [run]
    exact congrArg (fun counts : List Nat => (counts.map Except.ok, later)) counts
  · rw [log, told]
    exact ByteArray.empty_append
  · rw [best, latest]
    rfl

end Tuning.Report

end EpisodicReplay
