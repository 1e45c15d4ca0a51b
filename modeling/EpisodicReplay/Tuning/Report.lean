import EpisodicReplay.Log
import EpisodicReplay.Tuning.Profile

/-! The best outcomes of a search in a log, and the very best in a file. -/

namespace EpisodicReplay.Tuning.Report

/-- How many outcomes a report lists. -/
def length : Nat := 3

def logName : String := "tune_report.jsonl"
def bestName : String := "tune_best.json"

/-- The scores of an outcome as members of an object. -/
def scores (outcome : Outcome) : List (String × List Char) := [
  ("loss", Json.writeFloat32 outcome.loss),
  ("delta_mean", Json.writeFloat32 outcome.deltaMean),
  ("harm_mean", Json.writeFloat32 outcome.harmonyMean),
  ("consent_mean", Json.writeFloat32 outcome.consentMean),
  ("misalign_rate", Json.writeFloat32 outcome.misalignRate)]

def line (rank : Nat) (outcome : Outcome) : String :=
  .ofList <| Json.writeObject <|
    [("mode", Json.writeString "erb"), ("rank", Json.writeNat rank)] ++ scores outcome ++
      [("cfg", (Profile.ofParameters outcome.parameters).toJson)]

def bestLine (outcome : Outcome) : String :=
  .ofList <| Json.writeObject <| [
    ("trs_alpha", Json.writeFloat32 outcome.parameters.alpha),
    ("trs_warmup", Json.writeNat outcome.parameters.warmup),
    ("allow_align", Json.writeFloat32 outcome.parameters.allowAlign)] ++ scores outcome

/-- The first evaluated outcomes. -/
def top (outcomes : List Outcome) : List Outcome :=
  (outcomes.filter Outcome.isEvaluated).take length

/-- Writes a report into a directory and returns how many lines it has. Without an evaluated outcome nothing is
written. -/
def write (directory : String) (outcomes : List Outcome) : FileAction Nat := do
  match top outcomes with
  | [] => return 0
  | best :: others =>
    FileAction.createDirectories directory
    for (outcome, rank) in (best :: others).zipIdx do
      Log.append (Path.join directory logName) (line rank outcome) Log.standardLimit
    FileAction.write (Path.join directory bestName) (bestLine best ++ "\n").toUTF8
    return others.length + 1

end EpisodicReplay.Tuning.Report
