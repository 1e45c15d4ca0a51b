import EpisodicReplay.Text.Blank

/-! Why an episode was captured, as a set of bits. -/

namespace EpisodicReplay

structure Tag where
  bits : UInt32
deriving DecidableEq, Repr

namespace Tag

def none : Tag := ⟨0⟩
def spike : Tag := ⟨1⟩
def align : Tag := ⟨2⟩
def lowHarmony : Tag := ⟨4⟩
def all : Tag := ⟨7⟩

instance : Inhabited Tag := ⟨none⟩

instance : OrOp Tag := ⟨fun left right => ⟨left.bits ||| right.bits⟩⟩

def isEmpty (tag : Tag) : Bool :=
  tag.bits == 0

def intersects (left right : Tag) : Bool :=
  left.bits &&& right.bits != 0

/-- The tags that have a name, in the order in which labels list them. -/
def named : List (Tag × String) :=
  [(spike, "SPIKE"), (align, "ALIGN"), (lowHarmony, "LOW_HARM")]

/-- The names of the set bits between bars. Bits without a name are left out. -/
def label (tag : Tag) : String :=
  if tag.isEmpty then "NONE"
  else "|".intercalate ((named.filter fun (member, _) => tag.intersects member).map Prod.snd)

def isSeparator (char : Char) : Bool :=
  char == '|' || char == ',' || char == ';' || Text.isBlank char

/-- A word names a tag in any letter case; an unknown word names none. -/
def ofWord (word : List Char) : Tag :=
  match String.ofList (word.map Char.toUpper) with
  | "SPIKE" => spike
  | "ALIGN" => align
  | "LOW_HARM" => lowHarmony
  | "LOWHARM" => lowHarmony
  | "ALL" => all
  | _ => none

/-- The union of the tags that the words between separators name. -/
def ofWords (chars : List Char) : Tag :=
  (Text.splitBy isSeparator chars).foldl (fun tag word => tag ||| ofWord word) none

def parse (text : String) : Tag :=
  ofWords text.toList

end Tag

end EpisodicReplay
