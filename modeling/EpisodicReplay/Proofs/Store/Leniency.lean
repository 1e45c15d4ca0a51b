import EpisodicReplay.Proofs.Episode.Reading
import EpisodicReplay.Proofs.Store.Index

/-!
Lines that cannot be read. A line of text that is no record, no tick and no tag is skipped, and the lines round it are
read as before. A line that is not text ends the index for its readers, and a whole episode file is unreadable with it.
-/

namespace EpisodicReplay

namespace EpisodeFile
variable {whole content front added back : ByteArray} {before after : List (List UInt8)} {line : List UInt8}
  {text : String}

theorem read_of_garbled (lines : Text.lines content = before ++ line :: after) (garbled : Text.decode? line = none) :
    read content = .error .notText := by
  have unread : (Text.lines content).mapM Text.decode? = none := by
    rw [lines, List.mapM_append, List.mapM_cons, garbled]
    cases before.mapM Text.decode? <;> rfl
  rw [read, unread]

theorem read_of_other (lines : Text.lines whole = before ++ line :: after) (kept : Text.lines content = before ++ after)
    (decoded : Text.decode? line = some text) (other : Line.ofChars text.toList = .other) : read whole = read content := by
  simp only [read, lines, kept, List.mapM_append, List.mapM_cons, decoded]
  cases before.mapM Text.decode? with
  | none => rfl
  | some first =>
      cases after.mapM Text.decode? with
      | none => rfl
      | some second =>
          have skipped : ofLines ((first ++ text :: second).map fun line => .ofChars line.toList) =
              ofLines ((first ++ second).map fun line => .ofChars line.toList) := by
            rw [List.map_append, List.map_cons, other, ofLines_other, ← List.map_append]
          exact congrArg Except.ok skipped

/-- A line that is put between whole lines, or behind all of them, is a line of its own. -/
theorem lines_insert (ended : Text.Ended front) (single : Text.lines added = [line])
    (closed : Text.Ended added ∨ back = .empty) :
    Text.lines (front ++ added ++ back) = Text.lines front ++ line :: Text.lines back := by
  have behind : Text.lines (added ++ back) = line :: Text.lines back := by
    rcases closed with whole | rfl
    · rw [Text.lines_append whole, single]
      rfl
    · rw [ByteArray.append_empty, single]
      rfl
  rw [ByteArray.append_assoc, Text.lines_append ended, behind]

end EpisodeFile

namespace Index
open EpisodeFile (Line)
variable {front : ByteArray}

/-- How the readers get past whole lines of a file. -/
structure Lenient (front : ByteArray) : Prop where
  records : ∀ back, readRecords (front ++ back) =
    readRecords front ++ if Text.isLegible front then readRecords back else []
  ids : ∀ back, readIds (front ++ back) = readIds front ++ if Text.isLegible front then readIds back else []
  /-- A line that is put into an episode file, with its own end or as the last one. -/
  skipped : ∀ added back line text, Text.lines added = [line] → (Text.Ended added ∨ back = .empty) →
    Text.decode? line = some text → Line.ofChars text.toList = .other →
    EpisodeFile.read (front ++ added ++ back) = EpisodeFile.read (front ++ back)
  garbled : ∀ added back line, Text.lines added = [line] → (Text.Ended added ∨ back = .empty) →
    Text.decode? line = none → EpisodeFile.read (front ++ added ++ back) = .error .notText

/-- Malformed lines are skipped one by one as long as they are text. -/
theorem lenient_of_ended (ended : Text.Ended front) : Lenient front where
  records := filterMap_textLines_append IndexRecord.ofLine? ended
  ids := filterMap_textLines_append idOfLine? ended
  skipped := by
    intro added back line text single closed decoded other
    have lines := EpisodeFile.lines_insert ended single closed
    exact EpisodeFile.read_of_other lines (Text.lines_append ended back) decoded other
  garbled := by
    intro added back line single closed garbled
    exact EpisodeFile.read_of_garbled (EpisodeFile.lines_insert ended single closed) garbled

/-- One line, of a byte that begins no character. -/
def garbledLine : ByteArray :=
  ⟨#[255, 10]⟩

def shortRecord : IndexRecord :=
  ⟨0, 1, "SPIKE", .spike, 0.5, 0.5⟩

/-- Behind a line with a tag, which is text but no record, a record is read, and an unknown line is skipped. -/
theorem lenient_tagLine :
    let tag := "#tag=4\n".toUTF8
    let record := (shortRecord.line ++ "\n").toUTF8
    let unknown := "nonsense\n".toUTF8
    let tick := "0,1,2,3,4,5,6,7,8\n".toUTF8
    Text.Ended tag ∧ readRecords (tag ++ record) = [shortRecord] ∧ readIds (tag ++ record) = [0] ∧
      EpisodeFile.read (tag ++ unknown ++ tick) = EpisodeFile.read (tag ++ tick) ∧
      EpisodeFile.read (tag ++ garbledLine ++ tick) = .error .notText := by
  intro tag record unknown tick
  have ended : Text.Ended tag := .inr ⟨"#tag=4".toUTF8.data.toList, by decide +kernel⟩
  have unknownEnded : Text.Ended unknown := .inr ⟨"nonsense".toUTF8.data.toList, by decide +kernel⟩
  have lenient := lenient_of_ended ended
  refine ⟨ended, ?_, ?_, ?_, ?_⟩
  · rw [lenient.records]
    decide +kernel
  · rw [lenient.ids]
    decide +kernel
  · exact lenient.skipped unknown tick "nonsense".toUTF8.data.toList "nonsense" (by decide +kernel) (.inl unknownEnded)
      (by decide +kernel) (by decide +kernel)
  · exact lenient.garbled garbledLine tick [255] (by decide +kernel) (.inl (.inr ⟨[255], rfl⟩)) (by decide +kernel)

/-- Behind a line that is not text a record is not read, by neither reader, nor is any tick of an episode file. -/
theorem not_lenient_garbledLine :
    let record := (shortRecord.line ++ "\n").toUTF8
    let tick := "0,1,2,3,4,5,6,7,8\n".toUTF8
    Text.Ended garbledLine ∧
    readRecords (garbledLine ++ record) = [] ∧ readRecords garbledLine ++ readRecords record = [shortRecord] ∧
    readIds (garbledLine ++ record) = [] ∧ readIds garbledLine ++ readIds record = [0] ∧
    EpisodeFile.read (garbledLine ++ tick) = .error .notText ∧
    EpisodeFile.read tick = .ok ⟨#[⟨1, 2, 3, 4, 5, 6, 7, 8⟩], .none⟩ := by
  refine ⟨.inr ⟨[255], rfl⟩, ?_⟩
  decide +kernel

end Index

end EpisodicReplay
