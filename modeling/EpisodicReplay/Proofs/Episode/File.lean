import EpisodicReplay.Episode.File
import EpisodicReplay.Proofs.Decimal.Reader
import EpisodicReplay.Proofs.Episode
import EpisodicReplay.Proofs.Text.Lines

/-!
Episode files are read back. A copy of an episode has its tag and its ticks up to the places of their channels, and
it is written to the same file.
-/

namespace EpisodicReplay.EpisodeFile
open Decimal (Kept digits fixed)

section field
variable {chars : List Char} {number : ℕ} {value : Float32}

/-- Text of the characters that numbers are written with. -/
def IsField (chars : List Char) : Prop :=
  ∀ char ∈ chars, char ∈ "0123456789-.".toList

/-- Text of fields and the commas between them. -/
def IsRow (chars : List Char) : Prop :=
  ∀ char ∈ chars, char ∈ "0123456789-.,".toList

theorem digit_isField : ∀ char ∈ "0123456789".toList, char ∈ "0123456789-.".toList :=
  List.all_iff_forall_prop.mp rfl

theorem field_isRow : ∀ char ∈ "0123456789-.".toList, char ∈ "0123456789-.,".toList :=
  List.all_iff_forall_prop.mp rfl

theorem field_ne_comma : ∀ char ∈ "0123456789-.".toList, (char == ',') = false :=
  List.all_iff_forall_prop.mp rfl

theorem row_solid : ∀ char ∈ "0123456789-.,".toList, Text.isBlank char = false :=
  List.all_iff_forall_prop.mp rfl

theorem row_unbroken : '\n' ∉ "0123456789-.,".toList ∧ '\r' ∉ "0123456789-.,".toList := by
  decide

theorem digits_isField : IsField (digits number) :=
  fun char member => digit_isField char (Decimal.mem_of_isDigit (Decimal.isDigit_of_mem_digits char member))

theorem fixed_isField (finite : value.isFinite = true) : IsField (fixed places value) := by
  obtain ⟨units, nearest⟩ := Decimal.exists_units value.toModel.unpack
  obtain ⟨whole, fraction, text, padded, -, -⟩ := @Decimal.fixedText_eq units 6 (by decide)
  have numeric {char : Char} (member : char ∈ whole ++ fraction) : char ∈ "0123456789-.".toList := by
    rw [padded] at member
    exact digit_isField char (Decimal.mem_of_isDigit (Decimal.isDigit_of_mem_paddedDigits char member))
  have signed (sign : Float.Model.UnpackedFloat.Sign) : IsField (Decimal.signText sign) := by
    cases sign with
    | positive => exact List.forall_mem_nil _
    | negative => exact List.all_iff_forall_prop.mp rfl
  rw [show fixed places value = fixed 6 value from rfl, Decimal.fixed_eq finite nearest, text]
  intro char member
  rcases List.mem_append.mp member with sign | text
  · exact signed _ char sign
  · rcases List.mem_append.mp text with front | back
    · exact numeric (List.mem_append_left fraction front)
    · rcases List.mem_cons.mp back with rfl | inside
      · decide
      · exact numeric (List.mem_append_right whole inside)

theorem IsField.isRow (field : IsField chars) : IsRow chars :=
  fun char member => field_isRow char (field char member)

theorem IsRow.trim (row : IsRow chars) : Text.trim chars = chars :=
  Text.trim_of_forall fun char member => row_solid char (row char member)

theorem IsRow.isLine (row : IsRow chars) : Text.IsLine chars :=
  ⟨fun member => row_unbroken.1 (row _ member), fun member => row_unbroken.2 (row _ member)⟩

end field

section line
variable {tick : Tick} {index : ℕ} {tag : Tag}

/-- What a file keeps of a tick. -/
def KeptTick (original copy : Tick) : Prop :=
  List.Forall₂ Kept original.values copy.values

/-- What a file keeps of an episode. -/
structure KeptEpisode (original copy : Episode) : Prop where
  tag : copy.tag = original.tag
  length : copy.length = original.length
  ticks : List.Forall₂ KeptTick original.ticks.toList copy.ticks.toList

theorem tickLine_eq : tickLine index tick =
    digits index ++ (tick.values.map (fixed places)).flatMap (',' :: ·) := by
  rw [tickLine, List.flatMap_map]

theorem values_isField (finite : tick.isFinite) : ∀ field ∈ tick.values.map (fixed places), IsField field := by
  intro field member
  obtain ⟨value, among, rfl⟩ := List.mem_map.mp member
  exact fixed_isField (List.all_eq_true.mp finite value among)

theorem tickLine_isRow (finite : tick.isFinite) : IsRow (tickLine index tick) := by
  rw [tickLine_eq]
  intro char member
  rcases List.mem_append.mp member with front | back
  · exact digits_isField.isRow char front
  · obtain ⟨field, among, inside⟩ := List.mem_flatMap.mp back
    rcases List.mem_cons.mp inside with rfl | inside
    · decide
    · exact (values_isField finite field among).isRow char inside

/-- The fields of a tick line are its index and its channels. -/
theorem tickLine_fields (finite : tick.isFinite) :
    (Text.splitBy (· == ',') (tickLine index tick)).map Text.trim = digits index :: tick.values.map (fixed places) := by
  rw [tickLine_eq, Text.splitBy_append_flatMap (fun char member => field_ne_comma char (digits_isField char member))
    (fun field among char member => field_ne_comma char (values_isField finite field among char member)) rfl,
    List.map_cons, digits_isField.isRow.trim]
  have kept : (tick.values.map (fixed places)).map Text.trim = (tick.values.map (fixed places)).map id :=
    List.map_congr_left fun field among => (values_isField finite field among).isRow.trim
  rw [kept, List.map_id]

/-- The channels of a finite tick are read back from their places. -/
theorem mapM_readFloat32?_fixed {values : List Float32} (finite : ∀ value ∈ values, value.isFinite = true) :
    ∃ copies, (values.map (fixed places)).mapM Decimal.readFloat32? = some copies ∧
      List.Forall₂ Kept values copies ∧ (∀ copy ∈ copies, copy.isFinite = true) ∧
      copies.map (fixed places) = values.map (fixed places) := by
  induction values with
  | nil => exact ⟨[], rfl, .nil, by simp, rfl⟩
  | cons value rest inductionHypothesis =>
      obtain ⟨copies, read, kept, copiesFinite, again⟩ :=
        inductionHypothesis fun other member => finite other (List.mem_cons_of_mem value member)
      obtain ⟨copy, readOne, copyFinite, keptOne, againOne⟩ :=
        Decimal.readFloat32?_fixed (finite value List.mem_cons_self)
      refine ⟨copy :: copies, ?_, .cons keptOne kept, ?_, ?_⟩
      · rw [List.map_cons, List.mapM_cons, show fixed places value = fixed 6 value from rfl, readOne, read]
        rfl
      · exact List.forall_mem_cons.mpr ⟨copyFinite, copiesFinite⟩
      · rw [List.map_cons, List.map_cons, again]
        exact congrArg (· :: _) againOne

theorem Tick.ofValues?_of_length {values : List Float32} (length : values.length = 8) :
    ∃ tick, Tick.ofValues? values = some tick ∧ tick.values = values := by
  match values, length with
  | [amp, tempo, consent, influence, harmony, dream, filterDelta, filterAlpha], _ => exact ⟨_, rfl, rfl⟩

/-- A tick line gives a tick back that has the same line. -/
theorem ofChars_tickLine (finite : tick.isFinite) (small : index < Episode.maxLength) :
    ∃ copy, Line.ofChars (tickLine index tick) = .tick copy ∧ KeptTick tick copy ∧ copy.isFinite = true ∧
      ∀ other, tickLine other copy = tickLine other tick := by
  obtain ⟨copies, read, kept, copiesFinite, again⟩ := mapM_readFloat32?_fixed (List.all_eq_true.mp finite)
  obtain ⟨copy, ofValues, values⟩ := @Tick.ofValues?_of_length copies kept.length_eq.symm
  subst values
  have count : Decimal.readCount? (digits index) = some index :=
    Decimal.readBelow?_digits (Nat.lt_trans small (by decide))
  have tickRead : readTick? (tickLine index tick) = some copy := by
    rw [readTick?, tickLine_fields finite]
    simp [count, read, ofValues]
  refine ⟨copy, ?_, kept, List.all_eq_true.mpr copiesFinite, fun other => ?_⟩
  · unfold Line.ofChars
    rw [(tickLine_isRow finite).trim]
    split
    case h_1 comment equal =>
      have hash := tickLine_isRow finite '#' (by rw [equal]; exact List.mem_cons_self)
      exact absurd hash (by decide)
    case h_2 => simp [tickRead]
  · rw [tickLine_eq, tickLine_eq, again]

/-- The tag line gives the tag back. -/
theorem ofChars_tagLine : Line.ofChars (tagLine tag) = .tag tag := by
  have solid : ∀ char ∈ tagLine tag, Text.isBlank char = false := by
    intro char member
    have key : ∀ char ∈ "#tag=".toList, Text.isBlank char = false := List.all_iff_forall_prop.mp rfl
    rcases List.mem_append.mp member with front | back
    · exact key char front
    · exact row_solid char (digits_isField.isRow char back)
  have read : readTag? ("tag=".toList ++ digits tag.bits.toNat) = some tag := by
    simp [readTag?, Text.dropLeading?_append, digits_isField.isRow.trim, Decimal.readUInt32?_digits, -String.reduceToList]
  rw [Line.ofChars, Text.trim_of_forall solid]
  change (readTag? ("tag=".toList ++ digits tag.bits.toNat)).elim .other .tag = Line.tag tag
  rw [read]
  rfl

end line

section episode
variable {episode : Episode} {ticks : List Tick} {index : ℕ}

/-- The lines of ticks from some index on. -/
def tickLines (ticks : List Tick) (index : ℕ) : List (List Char) :=
  (ticks.zipIdx index).map fun (tick, index) => tickLine index tick

theorem tickLines_cons (tick : Tick) :
    tickLines (tick :: ticks) index = tickLine index tick :: tickLines ticks (index + 1) := rfl

/-- The lines of finite ticks give ticks back that have the same lines. -/
theorem ofChars_tickLines (finite : ∀ tick ∈ ticks, tick.isFinite) (fits : index + ticks.length ≤ Episode.maxLength) :
    ∃ copies, (tickLines ticks index).map Line.ofChars = copies.map .tick ∧ List.Forall₂ KeptTick ticks copies ∧
      (∀ copy ∈ copies, copy.isFinite) ∧ tickLines copies index = tickLines ticks index := by
  induction ticks generalizing index with
  | nil => exact ⟨[], rfl, .nil, by simp, rfl⟩
  | cons tick rest inductionHypothesis =>
      rw [List.length_cons] at fits
      obtain ⟨copy, read, kept, copyFinite, again⟩ :=
        @ofChars_tickLine tick index (finite tick List.mem_cons_self) (by omega)
      obtain ⟨copies, readRest, keptRest, copiesFinite, againRest⟩ := @inductionHypothesis (index + 1)
        (fun other member => finite other (List.mem_cons_of_mem tick member)) (by omega)
      refine ⟨copy :: copies, ?_, .cons kept keptRest, ?_, ?_⟩
      · rw [tickLines_cons, List.map_cons, List.map_cons, read, readRest]
      · exact List.forall_mem_cons.mpr ⟨copyFinite, copiesFinite⟩
      · rw [tickLines_cons, tickLines_cons, again, againRest]

theorem tickLines_isLine (finite : ∀ tick ∈ ticks, tick.isFinite) :
    ∀ line ∈ tickLines ticks index, Text.IsLine line := by
  intro line member
  obtain ⟨⟨tick, index⟩, among, rfl⟩ := List.mem_map.mp member
  exact (tickLine_isRow (finite tick (List.fst_mem_of_mem_zipIdx among))).isLine

theorem tagLine_isLine (tag : Tag) : Text.IsLine (tagLine tag) := by
  have row := (@digits_isField tag.bits.toNat).isRow.isLine
  constructor
  · intro member
    rcases List.mem_append.mp member with front | back
    · exact absurd front (by decide)
    · exact row.1 back
  · intro member
    rcases List.mem_append.mp member with front | back
    · exact absurd front (by decide)
    · exact row.2 back

theorem write_eq (episode : Episode) :
    write episode = .ofList ((tagLine episode.tag :: tickLines episode.ticks.toList 0).flatMap (· ++ ['\n'])) := rfl

/-- A file is read as the lines that were written. -/
theorem read_write_eq (finite : ∀ tick ∈ episode.ticks.toList, tick.isFinite) : read (write episode).toUTF8 =
    .ok (ofLines (.tag episode.tag :: (tickLines episode.ticks.toList 0).map Line.ofChars)) := by
  have single : ∀ line ∈ tagLine episode.tag :: tickLines episode.ticks.toList 0, Text.IsLine line :=
    List.forall_mem_cons.mpr ⟨tagLine_isLine _, tickLines_isLine finite⟩
  rw [read, write_eq, Text.mapM_decode?_lines single]
  simp [ofChars_tagLine, Function.comp_def]

/-- Lines of a tag and of finite ticks that fit make up an episode. -/
theorem ofLines_ticks (finite : ∀ tick ∈ ticks, tick.isFinite) (fits : ticks.length ≤ Episode.maxLength) (tag : Tag) :
    ofLines (.tag tag :: ticks.map .tick) = ⟨ticks.toArray, tag⟩ := by
  have tickPart : (Line.tag tag :: ticks.map .tick).filterMap Line.tick? = ticks := by
    rw [List.filterMap_cons_none rfl, List.filterMap_map]
    exact List.filterMap_some
  have tagPart : (Line.tag tag :: ticks.map .tick).filterMap Line.tag? = [tag] := by
    have untagged : ticks.filterMap (Line.tag? ∘ Line.tick) = [] := List.filterMap_eq_nil_iff.mpr fun tick _ => rfl
    rw [List.filterMap_cons_some (show Line.tag? (.tag tag) = some tag from rfl), List.filterMap_map, untagged]
  rw [ofLines, tickPart, tagPart, List.take_of_length_le fits]
  exact Episode.ofTicks_of_isFinite fits finite tag

/-- The file of an episode is read back as an episode that keeps its tag, its ticks and its file. -/
theorem read_write (built : Episode.Built episode) :
    ∃ copy, read (write episode).toUTF8 = .ok copy ∧ KeptEpisode episode copy ∧ write copy = write episode := by
  have sound := built.sound
  obtain ⟨copies, readTicks, kept, finite, again⟩ := @ofChars_tickLines episode.ticks.toList 0 sound.finite
    (by rw [Nat.zero_add]; exact sound.fits)
  have length : copies.length = episode.length := kept.length_eq.symm
  refine ⟨⟨copies.toArray, episode.tag⟩, ?_, ⟨rfl, length, kept⟩, ?_⟩
  · rw [read_write_eq sound.finite, readTicks, ofLines_ticks finite (length ▸ sound.fits)]
  · rw [write_eq, write_eq, again]

theorem read_write_single : ∃ copy,
    read (write ((Episode.empty .spike).push ⟨0.1, -0.0, 15.9999995, 16.5, 0.0000004, -0.25, 1, 0⟩).2).toUTF8 =
        .ok copy ∧
      KeptEpisode ((Episode.empty .spike).push ⟨0.1, -0.0, 15.9999995, 16.5, 0.0000004, -0.25, 1, 0⟩).2 copy ∧
      write copy = write ((Episode.empty .spike).push ⟨0.1, -0.0, 15.9999995, 16.5, 0.0000004, -0.25, 1, 0⟩).2 :=
  read_write (.push (.empty .spike) _)

end episode

end EpisodicReplay.EpisodeFile
