import EpisodicReplay.Command

/-! The program: loads the data directory, runs one command on it, and writes back what has changed. -/

namespace EpisodicReplay.Main

def variableNames : List String := [
  "HOME", "XDG_DATA_HOME", "LIMINAL_DATA_DIR", "LIMINAL_ERB_PRE", "LIMINAL_ERB_POST", "LIMINAL_TUNE_TRIALS",
  "LIMINAL_TUNE_REFINE", "LIMINAL_TUNE_SEED", "LIMINAL_TUNE_SOURCE"]

def readEnvironment : IO (String → Option String) := do
  let settings ← variableNames.mapM fun name => return (name, ← IO.getEnv name)
  return fun name => (settings.lookup name).join

def pathOf (location : Location) : String :=
  "/" ++ "/".intercalate location

/-- The names in a directory, or nothing if there is none. -/
def namesIn? (location : Location) : IO (Option (List String)) := do
  try
    let directory ← IO.FS.realPath (pathOf location)
    return some ((← directory.readDir).toList.map fun entry => entry.fileName)
  catch _ => return none

/-- Loads what lies at a place and below it. -/
partial def load (files : Files) (location : Location) : IO Files := do
  match ← namesIn? location with
  | some names => names.foldlM (fun files name => load files (location ++ [name])) (files.put location .directory)
  | none =>
    try return files.put location (.file (← IO.FS.readBinFile (pathOf location)))
    catch _ => return files

/-- Loads what lies at a place itself, without what is below a directory. -/
def loadOne (files : Files) (location : Location) : IO Files := do
  if location.isEmpty then return files
  if (← namesIn? location).isSome then return files.put location .directory
  try
    let _ ← IO.FS.Handle.mk (pathOf location) .read
    return files.put location (.file .empty)
  catch _ => return files

/-- Loads the places that a path leads through, and all that is below its end. -/
def loadAt (current : Location) (path : String) : IO Files := do
  let names := Path.names path
  let start := if path.startsWith "/" then [] else current
  let mut files : Files := ⟨[], current⟩
  for count in List.range names.length do
    let place := (names.take count).foldl Files.descend start
    for depth in List.range (place.length + 1) do
      files ← loadOne files (place.take depth)
  load files (names.foldl Files.descend start)

/-- Writes the entries that are new or have changed. -/
def save (before after : Files) : IO Unit := do
  for (location, entry) in after.entries do
    if before.entries.lookup location ≠ some entry then
      match entry with
      | .directory => IO.FS.createDirAll (pathOf location)
      | .file content => IO.FS.writeBinFile (pathOf location) content

end EpisodicReplay.Main

open EpisodicReplay in
def main (arguments : List String) : IO UInt32 := do
  let invocation : Command.Invocation := ⟨arguments, ← Main.readEnvironment⟩
  let current := Path.names (← IO.currentDir).toString
  let before ← match Command.dataPaths invocation with
    | .ok paths => Main.loadAt current paths.root
    | .error _ => pure ⟨[], current⟩
  let result := Command.run invocation before
  Main.save before result.files
  IO.print result.output
  IO.eprint result.errors
  return .ofNat result.code
