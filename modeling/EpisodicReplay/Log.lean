import EpisodicReplay.Files

/-! Append-only logs of lines with a limit on their size. -/

namespace EpisodicReplay.Log

/-- The limit of a log, in bytes, unless another one is set. -/
def standardLimit : Nat := 5 * 1024 * 1024

/-- Empties a file that has grown beyond a limit; tells whether it did. -/
def trim (path : String) (limit : Nat) : FileAction Bool := do
  match (← get).size path with
  | .ok size =>
    if limit < size then
      FileAction.write path .empty
      return true
    else return false
  | .error .notFound => return false
  | .error fault => throw (.file path fault)

/-- Adds a line to a log, which is emptied first if it has grown beyond the limit. -/
def append (path : String) (line : String) (limit : Nat) : FileAction Unit := do
  let _ ← trim path limit
  FileAction.modify path (·.append path (line ++ "\n").toUTF8)

end EpisodicReplay.Log
