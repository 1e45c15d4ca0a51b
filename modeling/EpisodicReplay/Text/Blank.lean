/-! Blank characters, trimming and splitting. -/

namespace EpisodicReplay.Text

/-- The characters with the Unicode property `White_Space`. -/
def isBlank (char : Char) : Bool :=
  let code := char.toNat
  (0x09 ≤ code && code ≤ 0x0d) || code == 0x20 || code == 0x85 || code == 0xa0 || code == 0x1680 ||
    (0x2000 ≤ code && code ≤ 0x200a) || code == 0x2028 || code == 0x2029 || code == 0x202f || code == 0x205f ||
    code == 0x3000

/-- Removes blank characters at both ends. -/
def trim (chars : List Char) : List Char :=
  ((chars.dropWhile isBlank).reverse.dropWhile isBlank).reverse

/-- The parts between separators. There is one part more than there are separators. -/
def splitBy {α : Type} (isSeparator : α → Bool) (items : List α) : List (List α) :=
  items.foldr (fun item parts =>
    if isSeparator item then [] :: parts
    else match parts with
      | [] => [[item]]
      | part :: others => (item :: part) :: others) [[]]

/-- What follows a given beginning. -/
def dropLeading? (leading : String) (chars : List Char) : Option (List Char) :=
  if leading.toList.isPrefixOf chars then some (chars.drop leading.length) else none

/-- What stands before a given ending. -/
def dropTrailing? (trailing : String) (chars : List Char) : Option (List Char) :=
  if trailing.toList.isSuffixOf chars then some (chars.take (chars.length - trailing.length)) else none

/-- Equality up to the case of ASCII letters. -/
def equalsIgnoringCase (word : String) (chars : List Char) : Bool :=
  chars.map Char.toLower == word.toList.map Char.toLower

end EpisodicReplay.Text
