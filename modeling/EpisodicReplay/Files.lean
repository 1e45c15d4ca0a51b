import EpisodicReplay.Failure
import EpisodicReplay.Path

/-! A tree of files and directories, and what can be done with it. -/

namespace EpisodicReplay

inductive FileEntry where
  | directory
  | file (content : ByteArray)

instance : DecidableEq FileEntry
  | .directory, .directory => isTrue rfl
  | .directory, .file _ => isFalse nofun
  | .file _, .directory => isFalse nofun
  | .file first, .file second =>
    match ByteArray.instDecidableEq first second with
    | isTrue equal => isTrue (congrArg FileEntry.file equal)
    | isFalse different => isFalse fun equal => different (FileEntry.file.inj equal)

/-- A place in the tree: the names from the root down. -/
abbrev Location := List String

/-- Everything below the root, and the directory in which relative paths begin. -/
structure Files where
  entries : List (Location × FileEntry)
  current : Location

namespace Files

def empty : Files :=
  ⟨[], []⟩

def entry? (files : Files) (location : Location) : Option FileEntry :=
  if location.isEmpty then some .directory else files.entries.lookup location

/-- Puts an entry at a place, instead of the one that was there. -/
def put (files : Files) (location : Location) (entry : FileEntry) : Files :=
  if (files.entries.lookup location).isSome then
    { files with entries := files.entries.map fun old => if old.1 = location then (location, entry) else old }
  else { files with entries := files.entries ++ [(location, entry)] }

/-- Where the names of a path begin. -/
def origin (files : Files) (path : String) : Location :=
  if path.startsWith "/" then [] else files.current

def descend (location : Location) (name : String) : Location :=
  match name with
  | "." => location
  | ".." => location.dropLast
  | _ => location ++ [name]

/-- Follows names down. Every place on the way has to be a directory; the last one need not exist. -/
def walk (files : Files) (location : Location) : List String → Except FileFault Location
  | [] => .ok location
  | name :: rest =>
    match files.entry? location with
    | some .directory =>
      if Path.longestName < name.utf8ByteSize then .error .nameTooLong
      else files.walk (descend location name) rest
    | some (.file _) => .error .notDirectory
    | none => .error .notFound

/-- Refuses a path that can name nothing, whatever the files are. -/
def checkPath (path : String) : Except FileFault Unit :=
  if path.toList.contains '\x00' then .error .zeroByte
  else if path.isEmpty then .error .notFound
  else if Path.longestPath < path.utf8ByteSize then .error .nameTooLong
  else .ok ()

def locate (files : Files) (path : String) : Except FileFault Location := do
  checkPath path
  files.walk (files.origin path) (Path.names path)

/-- The location of a path and what is there. A slash at the end asks for a directory. -/
def find (files : Files) (path : String) : Except FileFault (Location × FileEntry) := do
  let location ← files.locate path
  match files.entry? location with
  | some (.file content) => if path.endsWith "/" then throw .notDirectory else return (location, .file content)
  | some .directory => return (location, .directory)
  | none => throw .notFound

def read (files : Files) (path : String) : Except FileFault ByteArray := do
  match (← files.find path).2 with
  | .file content => return content
  | .directory => throw .isDirectory

/-- The content of a file as text. -/
def readText (files : Files) (path : String) : Except FileFault String := do
  match String.fromUTF8? (← files.read path) with
  | some text => return text
  | none => throw .notText

/-- The directory that the last name of a path is looked up in. -/
def locateParent (files : Files) (path : String) : Except FileFault Location := do
  checkPath path
  files.walk (files.origin path) ((Path.names path).dropLast ++ ["."])

/-- The location of a file that may be written: there is a file, or nothing yet. A slash at the end asks for a
directory, whatever is there. -/
def locateFile (files : Files) (path : String) : Except FileFault Location := do
  if path.endsWith "/" then
    let _ ← files.locateParent path
    throw .isDirectory
  let location ← files.locate path
  match files.entry? location with
  | some .directory => throw .isDirectory
  | _ => return location

def write (files : Files) (path : String) (content : ByteArray) : Except FileFault Files := do
  return files.put (← files.locateFile path) (.file content)

/-- Adds content at the end of a file, which is created if need be. -/
def append (files : Files) (path : String) (content : ByteArray) : Except FileFault Files := do
  let location ← files.locateFile path
  match files.entry? location with
  | some (.file before) => return files.put location (.file (before ++ content))
  | _ => return files.put location (.file content)

/-- The size that a directory reports. -/
def directorySize : Nat := 4096

def size (files : Files) (path : String) : Except FileFault Nat := do
  match (← files.find path).2 with
  | .file content => return content.size
  | .directory => return directorySize

/-- Makes a directory where nothing is yet. -/
def makeDirectory (files : Files) (origin : Location) (names : List String) : Except FileFault Files := do
  let location ← files.walk origin names
  match files.entry? location with
  | some _ => throw .exists
  | none => return files.put location .directory

def isDirectory (files : Files) (origin : Location) (names : List String) : Bool :=
  match (files.walk origin names).map files.entry? with
  | .ok (some .directory) => true
  | _ => false

/-- Makes a directory unless there is one. -/
def ensureDirectory (files : Files) (origin : Location) (names : List String) : Except FileFault Files :=
  match files.makeDirectory origin names with
  | .ok made => .ok made
  | .error fault => if files.isDirectory origin names then .ok files else .error fault

/-- Ensures the first of the places. If its way is missing, the places after it come first. What was made before
a fault stays. -/
def ensureUpward (files : Files) (origin : Location) : List (List String) → Except FileFault Unit × Files
  | [] => (.ok (), files)
  | names :: upper =>
    match files.ensureDirectory origin names with
    | .ok made => (.ok (), made)
    | .error .notFound =>
      match files.ensureUpward origin upper with
      | (.ok (), ready) =>
        match ready.ensureDirectory origin names with
        | .ok made => (.ok (), made)
        | .error fault => (.error fault, ready)
      | failed => failed
    | .error fault => (.error fault, files)

/-- Creates a directory and those above it, as far as they are missing. -/
def createDirectories (files : Files) (path : String) : Except FileFault Unit × Files :=
  if path.isEmpty then (.ok (), files)
  else match checkPath path with
    | .ok () => files.ensureUpward (files.origin path) (Path.names path :: Path.above (Path.names path))
    | .error fault => (.error fault, files)

/-- The names in a directory. -/
def list (files : Files) (path : String) : Except FileFault (List String) := do
  match ← files.find path with
  | (location, .directory) =>
    return files.entries.filterMap fun (other, _) =>
      if other.dropLast = location then other.getLast? else none
  | (_, .file _) => throw .notDirectory

end Files

/-- Work on files that may fail. -/
abbrev FileAction := InPlace Files

namespace FileAction

/-- Changes the files, or fails with the path that was used. -/
def modify (path : String) (change : Files → Except FileFault Files) : FileAction Unit := do
  match change (← get) with
  | .ok files => set files
  | .error fault => throw (.file path fault)

def write (path : String) (content : ByteArray) : FileAction Unit :=
  modify path (·.write path content)

def createDirectories (path : String) : FileAction Unit := do
  let (result, files) := (← get).createDirectories path
  set files
  match result with
  | .ok () => return
  | .error fault => throw (.file path fault)

end FileAction

end EpisodicReplay
