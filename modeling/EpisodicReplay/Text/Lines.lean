import EpisodicReplay.Text.Blank

/-! File content as lines of bytes. -/

namespace EpisodicReplay.Text

def newline : UInt8 := 10

def carriageReturn : UInt8 := 13

def dropReturn (line : List UInt8) : List UInt8 :=
  if line.getLast? = some carriageReturn then line.dropLast else line

/-- The lines of some content without their ends. Only a line that a newline ends loses its carriage return,
and an empty last part is no line. -/
def lines (content : ByteArray) : List (List UInt8) :=
  let parts := splitBy (· == newline) content.data.toList
  parts.dropLast.map dropReturn ++ parts.getLast?.toList.filter (!·.isEmpty)

/-- The text that bytes encode, if they are UTF-8. -/
def decode? (bytes : List UInt8) : Option String :=
  String.fromUTF8? ⟨bytes.toArray⟩

end EpisodicReplay.Text
