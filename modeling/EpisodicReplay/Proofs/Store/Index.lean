import EpisodicReplay.Proofs.Json.Fields
import EpisodicReplay.Proofs.Json.Torn
import EpisodicReplay.Store.Index

/-!
The index as it grows. A record line shows its own id, also behind a torn line that it completes: then the line is
either unreadable or just the record.
-/

namespace EpisodicReplay

namespace IndexRecord
open Json (Member Spells Value)

section members
variable {record : IndexRecord} {deltaMax alphaMean : Value}

/-- The members of a record, whatever its two numbers are read as. -/
def members (spelledDelta : Spells (Json.writeFloat32 record.deltaMax) deltaMax)
    (spelledAlpha : Spells (Json.writeFloat32 record.alphaMean) alphaMean) : List Member := [
  ⟨"idx", _, _, Json.spells_writeNat record.id.toNat⟩,
  ⟨"len", _, _, Json.spells_writeNat record.length⟩,
  ⟨"tag", _, _, Json.spells_writeString record.label⟩,
  ⟨"tag_mask", _, _, Json.spells_writeNat record.tag.bits.toNat⟩,
  ⟨"delta_max", _, deltaMax, spelledDelta⟩,
  ⟨"alpha_mean", _, alphaMean, spelledAlpha⟩]

theorem spells_members (spelledDelta : Spells (Json.writeFloat32 record.deltaMax) deltaMax)
    (spelledAlpha : Spells (Json.writeFloat32 record.alphaMean) alphaMean) :
    Spells record.toJson (.object ((members spelledDelta spelledAlpha).map Member.read)) := by
  have text : record.toJson = Json.writeObject ((members spelledDelta spelledAlpha).map Member.written) := rfl
  exact text ▸ Json.spells_writeObject (List.cons_ne_nil _ _)

end members

/-- A record is an object that shows its id. -/
theorem toJson_spells (record : IndexRecord) : ∃ value fields, Spells record.toJson value ∧
    value.fields? ["idx"] = some fields ∧ Json.required? fields "idx" Value.uint32? = some record.id := by
  obtain ⟨deltaMax, spelledDelta⟩ := Json.spells_writeFloat32 record.deltaMax
  obtain ⟨alphaMean, spelledAlpha⟩ := Json.spells_writeFloat32 record.alphaMean
  have shown : Value.fields? ["idx"] (.object ((members spelledDelta spelledAlpha).map Member.read)) =
      some [("idx", .number ⟨false, Decimal.digits record.id.toNat, [], none⟩)] := by
    rw [Json.fields?_object]
    simp [members, Member.field]
  exact ⟨_, _, spells_members spelledDelta spelledAlpha, shown, Json.uint32?_digits record.id⟩

/-- The beginning of every record line. -/
theorem toJson_eq (record : IndexRecord) : ∃ back, record.toJson = '\x7b' :: '"' :: 'i' :: back :=
  ⟨_, rfl⟩

theorem run?_letter (machine : Json.Machine) (back : List Char) : machine.run? ('i' :: back) = none :=
  Json.run?_unread (by decide) rfl

end IndexRecord

namespace Index
open IndexRecord (toJson_eq toJson_spells)

variable {record : IndexRecord} {id : UInt32}

theorem idOfLine?_line (record : IndexRecord) : idOfLine? record.line = some record.id := by
  obtain ⟨value, fields, spelled, shown, required⟩ := toJson_spells record
  rw [idOfLine?, IndexRecord.line, String.toList_ofList, spelled.parse?]
  change (value.fields? ["idx"]).bind _ = _
  rw [shown]
  exact required

/-- Behind any other text a record line shows no other id. -/
theorem idOfLine?_torn {front : List Char} (read : idOfLine? (String.ofList (front ++ record.toJson)) = some id) :
    id = record.id := by
  obtain ⟨value, fields, spelled, shown, required⟩ := toJson_spells record
  obtain ⟨back, text⟩ := toJson_eq record
  obtain ⟨found, parsed, read⟩ := Option.bind_eq_some_iff.mp read
  rw [String.toList_ofList, text] at parsed
  obtain rfl := Json.parse?_torn (text ▸ spelled) (IndexRecord.run?_letter · back) parsed
  obtain ⟨others, fieldsRead, read⟩ := Option.bind_eq_some_iff.mp read
  obtain rfl := Option.some.inj (shown.symm.trans fieldsRead)
  exact Option.some.inj (read.symm.trans required)

/-- The text of lines up to the first that is not text. -/
def decoded (lines : List (List UInt8)) : List String :=
  ((lines.map Text.decode?).takeWhile Option.isSome).filterMap fun text => text

theorem textLines_eq (content : ByteArray) : textLines content = decoded (Text.lines content) := rfl

theorem decoded_cons (line : List UInt8) (lines : List (List UInt8)) :
    decoded (line :: lines) = (Text.decode? line).elim [] (· :: decoded lines) := by
  unfold decoded
  cases read : Text.decode? line <;> simp [read]

/-- The lines that follow count as long as all lines before them are text. -/
theorem decoded_append (lines more : List (List UInt8)) : decoded (lines ++ more) =
    decoded lines ++ if lines.all fun line => (Text.decode? line).isSome then decoded more else [] := by
  induction lines with
  | nil => rfl
  | cons line rest inductionHypothesis =>
      rw [List.cons_append, decoded_cons, decoded_cons, inductionHypothesis, List.all_cons]
      cases Text.decode? line <;> simp

/-- Content behind whole lines is read as if it stood alone, or not at all if one of the lines is no text. -/
theorem textLines_append {front : ByteArray} (ended : Text.Ended front) (back : ByteArray) :
    textLines (front ++ back) = textLines front ++ if Text.isLegible front then textLines back else [] := by
  rw [textLines_eq, Text.lines_append ended, decoded_append]
  rfl

theorem filterMap_textLines_append {α : Type} (read? : String → Option α) {front : ByteArray}
    (ended : Text.Ended front) (back : ByteArray) : (textLines (front ++ back)).filterMap read? =
      (textLines front).filterMap read? ++ if Text.isLegible front then (textLines back).filterMap read? else [] := by
  rw [textLines_append ended, List.filterMap_append]
  split <;> rfl

/-- A last line shows nothing but its own text. -/
theorem mem_decoded_append {whole others : List (List UInt8)} {line : List UInt8} {text : String}
    (member : text ∈ decoded (whole ++ [line])) : text ∈ decoded (whole ++ others) ∨ Text.decode? line = some text := by
  induction whole with
  | nil =>
      rw [List.nil_append, decoded_cons] at member
      cases read : Text.decode? line with
      | none => simp [read] at member
      | some only =>
          rw [read] at member
          exact .inr (congrArg some (List.mem_singleton.mp member).symm)
  | cons first whole inductionHypothesis =>
      rw [List.cons_append, decoded_cons] at member ⊢
      cases read : Text.decode? first with
      | none => simp [read] at member
      | some text =>
          rw [read, Option.elim_some] at member
          rw [Option.elim_some]
          rcases List.mem_cons.mp member with rfl | later
          · exact .inl List.mem_cons_self
          · exact (inductionHypothesis later).imp (List.mem_cons_of_mem text) fun last => last

/-- An added record shows no new id but its own, whatever the index held before. -/
theorem mem_readIds_append {content : ByteArray} (member : id ∈ readIds (content ++ (record.line ++ "\n").toUTF8)) :
    id ∈ readIds content ∨ id = record.id := by
  obtain ⟨back, begins⟩ := toJson_eq record
  obtain ⟨_, _, spelled, -⟩ := toJson_spells record
  obtain ⟨whole, last, before, after⟩ := Text.lines_append_line content spelled.single (by rw [begins]; simp)
  obtain ⟨text, shown, read⟩ := List.mem_filterMap.mp member
  rw [textLines_eq] at shown
  change text ∈ decoded (Text.lines (content ++ (String.ofList record.toJson ++ "\n").toUTF8)) at shown
  rw [after] at shown
  rcases mem_decoded_append shown with earlier | torn
  · left
    refine List.mem_filterMap.mpr ⟨text, ?_, read⟩
    rw [textLines_eq, before]
    exact earlier
  · right
    rw [begins] at torn
    obtain ⟨front, rfl⟩ := Text.exists_of_decode?_append (by decide) torn
    rw [← begins] at read
    exact idOfLine?_torn read

end Index

end EpisodicReplay
