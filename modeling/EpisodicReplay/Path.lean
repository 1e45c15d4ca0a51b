import EpisodicReplay.Text.Lines

/-! Paths as text, and the names that they consist of. -/

namespace EpisodicReplay.Path

/-- A path inside a directory. An absolute path stays as it is. -/
def join (directory name : String) : String :=
  if name.startsWith "/" || directory.isEmpty then name
  else if directory.endsWith "/" then directory ++ name
  else directory ++ "/" ++ name

/-- The names in a path, in order. A dot stays: it asks for a directory to come before it. -/
def names (path : String) : List String :=
  ((Text.splitBy (· == '/') path.toList).map String.ofList).filter (· ≠ "")

/-- The names of the directories above a place, nearest first. A dot adds no place of its own. -/
def above (names : List String) : List (List String) :=
  let proper := (names.reverse.dropWhile (· = ".")).reverse
  ((List.range proper.length).reverse.map proper.take).filter fun upper => upper.getLast?.any (· ≠ ".")

/-- The most bytes of UTF-8 in one name. -/
def longestName : Nat := 255

/-- The most bytes of UTF-8 in a whole path. -/
def longestPath : Nat := 4095

end EpisodicReplay.Path
