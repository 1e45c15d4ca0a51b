import EpisodicReplay.Proofs.Log
import EpisodicReplay.Tuning.Report

/-! What a report leaves in its directory: a line for each of the best outcomes in the log, and the very best in a
file of its own. -/

namespace EpisodicReplay

namespace Tuning.Report
variable {files : Files} {directory : String} {place : Location} {outcomes others : List Outcome} {first : Outcome}

theorem logName_isName : Path.IsName logName :=
  ⟨by decide, by decide, by decide, by decide, by decide, by decide⟩

theorem bestName_isName : Path.IsName bestName :=
  ⟨by decide, by decide, by decide, by decide, by decide, by decide⟩

/-- The lines of a report. -/
def lines (outcomes : List Outcome) : List String :=
  (top outcomes).zipIdx.map fun (outcome, rank) => line rank outcome

/-- What a report has done to the files. -/
structure Written (outcomes : List Outcome) (first : Outcome) (place : Location) (files later : Files) : Prop where
  current : later.current = files.current
  log : later.entry? (place ++ [logName]) =
    Log.extended Log.standardLimit ( files.entry? (place ++ [logName])) (lines outcomes)
  best : later.entry? (place ++ [bestName]) = some (.file (bestLine first ++ "\n").toUTF8)
  entry : ∀ other, other ≠ place ++ [logName] → other ≠ place ++ [bestName] →
    later.entry? other = files.entry? other

/-- What a report has done to the files, if its log and the best outcome have any two places. -/
structure Added (outcomes : List Outcome) (first : Outcome) (logPlace bestPlace : Location) (files later : Files) :
    Prop where
  current : later.current = files.current
  log : later.entry? logPlace = Log.extended Log.standardLimit ( files.entry? logPlace) (lines outcomes)
  best : later.entry? bestPlace = some (.file (bestLine first ++ "\n").toUTF8)
  entry : ∀ other, other ≠ logPlace → other ≠ bestPlace → later.entry? other = files.entry? other

/-- The directory is created first, then the lines are added, and the best outcome comes last. -/
theorem run_write_created {made : Files} {logPlace bestPlace : Location} (found : top outcomes = first :: others)
    (created : files.createDirectories directory = (.ok (), made))
    (logAt : made.FileAt (Path.join directory logName) logPlace)
    (bestAt : made.FileAt (Path.join directory bestName) bestPlace)
    (logFree : made.entry? logPlace ≠ some .directory) (bestFree : made.entry? bestPlace ≠ some .directory)
    (apart : bestPlace ≠ logPlace) :
    ∃ later, (write directory outcomes).run.run files = (.ok (others.length + 1), later) ∧
      Added outcomes first logPlace bestPlace made later := by
  obtain ⟨logged, run, same, stillFile, added⟩ := @Log.run_forM_append (Path.join directory logName) Log.standardLimit
    made logPlace _ (top outcomes).zipIdx (fun item => line item.2 item.1) logAt logFree
  have loggedBest : logged.entry? bestPlace ≠ some .directory := by
    rwa [same.entry _ apart]
  have sameBest := Files.put_sameBut logged bestAt.inside (.file (bestLine first ++ "\n").toUTF8)
  refine ⟨logged.put bestPlace (.file (bestLine first ++ "\n").toUTF8), ?_, ?_, ?_, ?_, ?_⟩
  · rw [found] at run
    rw [write, found]
    dsimp only
    rw [run_bind, FileAction.run_createDirectories, created]
    dsimp only [Except.mapError]
    rw [forIn_yield, run_bind, run]
    dsimp only
    rw [run_bind, FileAction.run_write (bestAt.of_sameBut same logFree) loggedBest]
    rfl
  · exact sameBest.current.trans same.current
  · rw [sameBest.entry _ apart.symm, added]
    rfl
  · rw [Files.entry?_put bestAt.inside, if_pos rfl]
  · intro other notLog notBest
    rw [sameBest.entry other notBest, same.entry other notLog]

theorem run_write (found : top outcomes = first :: others) (directoryAt : files.DirectoryAt directory place)
    (logAt : files.FileAt (Path.join directory logName) (place ++ [logName]))
    (bestAt : files.FileAt (Path.join directory bestName) (place ++ [bestName]))
    (logFree : files.entry? (place ++ [logName]) ≠ some .directory)
    (bestFree : files.entry? (place ++ [bestName]) ≠ some .directory) :
    ∃ later, (write directory outcomes).run.run files = (.ok (others.length + 1), later) ∧
      Written outcomes first place files later := by
  have apart : place ++ [bestName] ≠ place ++ [logName] := fun equal =>
    absurd (List.singleton_inj.mp (List.append_cancel_left equal)) (by decide)
  obtain ⟨later, run, added⟩ :=
    run_write_created found directoryAt.createDirectories_eq logAt bestAt logFree bestFree apart
  exact ⟨later, run, added.current, added.log, added.best, added.entry⟩

/-- A report on a ranking begins with the first outcome, if that was evaluated. -/
theorem top_of_first (evaluated : first.isEvaluated) (leads : outcomes.head? = some first) :
    ∃ others, top outcomes = first :: others := by
  obtain ⟨rest, rfl⟩ := List.head?_eq_some_iff.mp leads
  exact ⟨_, by rw [top, List.filter_cons_of_pos evaluated]; rfl⟩

end Tuning.Report

end EpisodicReplay
