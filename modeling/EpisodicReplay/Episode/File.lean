import EpisodicReplay.Decimal.Fixed
import EpisodicReplay.Decimal.Reader
import EpisodicReplay.Episode
import EpisodicReplay.Failure
import EpisodicReplay.Text.Lines

/-!
The file of one episode: a comment with the tag, then a line per tick with its index and its channels to six
places. Lines that are neither are skipped.
-/

namespace EpisodicReplay.EpisodeFile

def namePrefix : String := "erb_episode_"
def nameSuffix : String := ".csv"

/-- The name of the file of an episode. The id has six digits or more. -/
def name (id : UInt32) : String :=
  namePrefix ++ String.ofList (Decimal.paddedDigits 6 id.toNat) ++ nameSuffix

/-- The id in the name of an episode file. -/
def idOfName? (name : String) : Option UInt32 := do
  let rest ← Text.dropLeading? namePrefix name.toList
  Decimal.readUInt32? (← Text.dropTrailing? nameSuffix rest)

def places : Nat := 6

def tagLine (tag : Tag) : List Char :=
  "#tag=".toList ++ Decimal.digits tag.bits.toNat

def tickLine (index : Nat) (tick : Tick) : List Char :=
  Decimal.digits index ++ tick.values.flatMap fun value => ',' :: Decimal.fixed places value

def write (episode : Episode) : String :=
  let tickLines := episode.ticks.toList.zipIdx.map fun (tick, index) => tickLine index tick
  .ofList ((tagLine episode.tag :: tickLines).flatMap (· ++ ['\n']))

/-- What a line tells a reader. -/
inductive Line where
  | tag (value : Tag)
  | tick (value : Tick)
  | other
deriving DecidableEq

/-- A tick line has nine fields between commas, the first a count and the others numbers. -/
def readTick? (chars : List Char) : Option Tick :=
  match (Text.splitBy (· == ',') chars).map Text.trim with
  | [] => none
  | index :: values => do
    let _ ← Decimal.readCount? index
    Tick.ofValues? (← values.mapM Decimal.readFloat32?)

def readTag? (comment : List Char) : Option Tag :=
  ((Text.dropLeading? "tag=" comment).bind (Decimal.readUInt32? <| Text.trim ·)).map Tag.mk

def Line.ofChars (chars : List Char) : Line :=
  match Text.trim chars with
  | '#' :: comment => (readTag? comment).elim .other .tag
  | trimmed => (readTick? trimmed).elim .other .tick

def Line.tick? : Line → Option Tick
  | .tick value => some value
  | _ => none

def Line.tag? : Line → Option Tag
  | .tag value => some value
  | _ => none

/-- The episode of the first ticks that fit and of the last tag. -/
def ofLines (lines : List Line) : Episode :=
  .ofTicks ((lines.filterMap Line.tick?).take Episode.maxLength) ((lines.filterMap Line.tag?).getLast?.getD .none)

/-- Reads the content of an episode file. One line that is not text makes it unreadable. -/
def read (content : ByteArray) : Except FileFault Episode :=
  match (Text.lines content).mapM Text.decode? with
  | none => .error .notText
  | some lines => .ok (ofLines (lines.map fun line => .ofChars line.toList))

end EpisodicReplay.EpisodeFile
