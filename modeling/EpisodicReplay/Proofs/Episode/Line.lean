import EpisodicReplay.Proofs.Episode.File

/-! What the lines of an episode file tell a reader, by their characters. -/

namespace EpisodicReplay.EpisodeFile
open Decimal (readCount? readFloat32? readUInt32?)
open Text (isBlank splitBy trim)

variable {chars : List Char} {tick : Tick} {tag : Tag}

section cells
variable {left right : List Char}

/-- The fields of a line without the blanks round them. -/
def cells (chars : List Char) : List (List Char) :=
  (splitBy (· == ',') chars).map trim

theorem comma_not_mem_of_blank (blank : ∀ char ∈ chars, isBlank char = true) : ',' ∉ chars :=
  fun member => absurd (blank ',' member) (by decide)

theorem cells_blank_append (blank : ∀ char ∈ left, isBlank char = true) : cells (left ++ chars) = cells chars := by
  obtain ⟨field, others, split⟩ := @Text.exists_splitBy_eq_cons Char (· == ',') chars
  rw [cells, Text.splitBy_append_of_forall (Text.forall_of_not_mem (comma_not_mem_of_blank blank)) split, List.map_cons,
    Text.trim_blank_append blank, cells, split, List.map_cons]

theorem cells_append_blank (blank : ∀ char ∈ right, isBlank char = true) : cells (chars ++ right) = cells chars := by
  obtain ⟨fields, last, split, extended⟩ := @Text.splitBy_append Char (· == ',') chars
  have single := Text.splitBy_of_forall (Text.forall_of_not_mem (comma_not_mem_of_blank blank))
  rw [cells, extended right right [] single, cells, split, List.map_append, List.map_append, List.map_singleton,
    List.map_singleton, Text.trim_append_blank blank]

/-- Blanks round a line are blanks round its first and its last field. -/
theorem cells_trim (chars : List Char) : cells (trim chars) = cells chars := by
  obtain ⟨left, right, whole, leftBlank, rightBlank⟩ := Text.exists_trim chars
  have padded := @cells_append_blank (left ++ trim chars) right rightBlank
  rw [cells_blank_append leftBlank, ← whole] at padded
  exact padded.symm

theorem cells_intercalate {fields : List (List Char)} (some : fields ≠ []) (unbroken : ∀ field ∈ fields, ',' ∉ field) :
    cells ([','].intercalate fields) = fields.map trim := by
  rw [cells, Text.splitBy_intercalate some unbroken]

theorem cells_append_comma {index : List Char} (unbroken : ',' ∉ index) (rest : List Char) :
    cells (index ++ ',' :: rest) = trim index :: cells rest := by
  rw [cells, Text.splitBy_append_separator (Text.forall_of_not_mem unbroken) rfl, List.map_cons, cells]

theorem readTick?_congr {first second : List Char} (same : cells first = cells second) :
    readTick? first = readTick? second := by
  unfold cells at same
  rw [readTick?, same, readTick?]

/-- No line that is marked as a comment is a tick line. -/
theorem readTick?_marked (rest : List Char) : readTick? ('#' :: rest) = none := by
  obtain ⟨field, others, split⟩ := @Text.exists_splitBy_eq_cons Char (· == ',') rest
  obtain ⟨kept, index⟩ := @Text.exists_trim_cons '#' (by decide) field
  rw [readTick?, Text.splitBy_cons_of_ne (by decide) split, List.map_cons, index]
  rfl

end cells

section tick

theorem ofChars_eq_tick_iff : Line.ofChars chars = .tick tick ↔ readTick? chars = some tick := by
  rw [← readTick?_congr (cells_trim chars)]
  unfold Line.ofChars
  split
  case h_1 comment marked =>
    rw [marked, readTick?_marked]
    cases readTag? comment <;> simp
  case h_2 => cases readTick? (trim chars) <;> simp

/-- A line with nine fields between commas, of which the first is a count and the others are numbers. -/
structure IsTickLine (chars index : List Char) (numbers : List (List Char)) : Prop where
  unmarked : (trim chars).head? ≠ some '#'
  fields : trim chars = [','].intercalate (index :: numbers)
  unbroken : ∀ field ∈ index :: numbers, ',' ∉ field
  nine : (index :: numbers).length = 9
  count : (readCount? (trim index)).isSome
  numeric : ∀ number ∈ numbers, (readFloat32? (trim number)).isSome

/-- Items are read if each of them is. -/
theorem mapM_eq_some_iff {α β : Type} {read? : α → Option β} {items : List α} {values : List β} :
    items.mapM read? = some values ↔ items.map read? = values.map some := by
  induction items generalizing values with
  | nil => cases values <;> simp
  | cons item rest inductionHypothesis =>
      rw [List.mapM_cons, List.map_cons]
      cases values with
      | nil => cases read? item <;> cases rest.mapM read? <;> simp
      | cons value values =>
          rw [List.map_cons, List.cons_eq_cons, ← inductionHypothesis]
          cases read? item <;> cases rest.mapM read? <;> simp

theorem ofValues?_eq_some_iff {values : List Float32} : Tick.ofValues? values = some tick ↔ values = tick.values := by
  constructor
  · intro found
    unfold Tick.ofValues? at found
    split at found
    case h_1 => rw [← Option.some.inj found]; rfl
    case h_2 => cases found
  · rintro rfl
    rfl

theorem readTick?_eq_some_iff : readTick? chars = some tick ↔ ∃ index numbers, cells chars = index :: numbers ∧
    (readCount? index).isSome ∧ numbers.map readFloat32? = tick.values.map some := by
  obtain ⟨index, numbers, split⟩ : ∃ index numbers, cells chars = index :: numbers := by
    obtain ⟨field, others, split⟩ := @Text.exists_splitBy_eq_cons Char (· == ',') chars
    exact ⟨trim field, others.map trim, by rw [cells, split, List.map_cons]⟩
  have read : readTick? chars = (readCount? index).bind fun _ => (numbers.mapM readFloat32?).bind Tick.ofValues? := by
    unfold readTick?
    rw [← cells, split]
    rfl
  have numeric : ((numbers.mapM readFloat32?).bind Tick.ofValues? = some tick) ↔
      numbers.map readFloat32? = tick.values.map some := by
    rw [← mapM_eq_some_iff, Option.bind_eq_some_iff]
    simp only [ofValues?_eq_some_iff, exists_eq_right]
  rw [read, Option.bind_eq_some_iff]
  simp [split, numeric, Option.isSome_iff_exists]

theorem IsTickLine.cells_eq {index : List Char} {numbers : List (List Char)} (line : IsTickLine chars index numbers) :
    cells chars = trim index :: numbers.map trim := by
  rw [← cells_trim, line.fields, cells_intercalate (List.cons_ne_nil index numbers) line.unbroken, List.map_cons]

/-- The numbers of a tick line are the channels of its tick. -/
theorem ofChars_eq_tick_iff_isTickLine : Line.ofChars chars = .tick tick ↔
    ∃ index numbers, IsTickLine chars index numbers ∧
      numbers.map (readFloat32? <| trim ·) = tick.values.map some := by
  rw [ofChars_eq_tick_iff]
  constructor
  · intro read
    rw [← readTick?_congr (cells_trim chars)] at read
    obtain ⟨index, numbers, split⟩ := @Text.exists_splitBy_eq_cons Char (· == ',') (trim chars)
    obtain ⟨_, _, fields, count, numeric⟩ := readTick?_eq_some_iff.mp read
    obtain ⟨rfl, rfl⟩ := List.cons.inj (fields.symm.trans (by rw [cells, split, List.map_cons]))
    rw [List.map_map] at numeric
    have length := congrArg List.length numeric
    rw [List.length_map, List.length_map] at length
    refine ⟨index, numbers, ⟨fun marked => ?_, ?_, ?_, congrArg (· + 1) length, count, fun number member => ?_⟩,
      numeric⟩
    · obtain ⟨rest, comment⟩ := List.head?_eq_some_iff.mp marked
      rw [comment, readTick?_marked] at read
      cases read
    · rw [← split, Text.intercalate_splitBy]
    · rw [← split]
      exact Text.not_mem_of_mem_splitBy _
    · have inside : (readFloat32? ∘ trim) number ∈ numbers.map (readFloat32? ∘ trim) := List.mem_map_of_mem member
      rw [numeric] at inside
      obtain ⟨value, -, same⟩ := List.mem_map.mp inside
      exact Option.isSome_iff_exists.mpr ⟨value, same.symm⟩
  · rintro ⟨index, numbers, line, numeric⟩
    refine readTick?_eq_some_iff.mpr ⟨trim index, numbers.map trim, line.cells_eq, line.count, ?_⟩
    rw [List.map_map]
    exact numeric

/-- Every line of the right form is a tick line, whatever its numbers. -/
theorem exists_tick_iff :
    (∃ tick, Line.ofChars chars = .tick tick) ↔ ∃ index numbers, IsTickLine chars index numbers := by
  constructor
  · rintro ⟨tick, read⟩
    obtain ⟨index, numbers, line, -⟩ := ofChars_eq_tick_iff_isTickLine.mp read
    exact ⟨index, numbers, line⟩
  · rintro ⟨index, numbers, line⟩
    let values := numbers.map fun number => (readFloat32? (trim number)).getD 0
    have numeric : numbers.map (readFloat32? <| trim ·) = values.map some := by
      rw [List.map_map]
      refine List.map_congr_left fun number member => ?_
      obtain ⟨value, read⟩ := Option.isSome_iff_exists.mp (line.numeric number member)
      simp [read]
    have length : values.length = 8 := (List.length_map _).trans (Nat.succ.inj line.nine)
    obtain ⟨tick, -, same⟩ := Tick.ofValues?_of_length length
    exact ⟨tick, ofChars_eq_tick_iff_isTickLine.mpr ⟨index, numbers, line, by rw [numeric, same]⟩⟩

end tick

section tag

theorem readTag?_eq_some_iff : readTag? chars = some tag ↔
    ∃ mask, chars = "tag=".toList ++ mask ∧ readUInt32? (trim mask) = some tag.bits := by
  rw [readTag?, Option.map_eq_some_iff]
  constructor
  · rintro ⟨bits, read, rfl⟩
    obtain ⟨mask, begins, number⟩ := Option.bind_eq_some_iff.mp read
    exact ⟨mask, Text.dropLeading?_eq_some_iff.mp begins, number⟩
  · rintro ⟨mask, begins, number⟩
    exact ⟨tag.bits, Option.bind_eq_some_iff.mpr ⟨mask, Text.dropLeading?_eq_some_iff.mpr begins, number⟩, rfl⟩

/-- A tag line is a comment with the bits of its tag. -/
theorem ofChars_eq_tag_iff : Line.ofChars chars = .tag tag ↔
    ∃ mask, trim chars = "#tag=".toList ++ mask ∧ readUInt32? (trim mask) = some tag.bits := by
  have key (mask : List Char) : "#tag=".toList ++ mask = '#' :: ("tag=".toList ++ mask) := rfl
  unfold Line.ofChars
  split
  case h_1 comment marked =>
    simp only [marked, key, List.cons.injEq, true_and, ← readTag?_eq_some_iff]
    cases readTag? comment <;> simp
  case h_2 unmarked =>
    constructor
    · intro read
      cases found : readTick? (trim chars) <;> simp [found] at read
    · rintro ⟨mask, begins, -⟩
      exact absurd begins (unmarked _)

end tag

section number

/-- The names of numbers that are not finite. -/
def specialNames : List (List Char) :=
  ["inf".toList, "infinity".toList, "nan".toList]

/-- A name in any letter case and with any sign is read as a number that is not finite. -/
theorem readFloat32?_named {sign name : List Char} (signed : sign ∈ [[], ['+'], ['-']])
    (named : name.map Char.toLower ∈ specialNames) :
    ∃ value, readFloat32? (sign ++ name) = some value ∧ value.isFinite = false := by
  have unsigned (mark : Char) (isSign : mark = '-' ∨ mark = '+') (rest : List Char) : name ≠ mark :: rest := by
    rintro rfl
    have other : ∀ word ∈ specialNames, word.head? ≠ some '-' ∧ word.head? ≠ some '+' := by decide
    rcases isSign with rfl | rfl
    · exact (other _ named).1 rfl
    · exact (other _ named).2 rfl
  obtain ⟨value, read, infinite⟩ : ∃ value : Float32, (if name.map Char.toLower = "inf".toList ∨
      name.map Char.toLower = "infinity".toList then some Binary32.infinity
      else if name.map Char.toLower = "nan".toList then some (0 / 0)
      else Decimal.readMagnitude? name) = some value ∧ value.isFinite = false ∧ (-value).isFinite = false := by
    simp only [specialNames, List.mem_cons, List.not_mem_nil, or_false] at named
    rcases named with short | long | nan
    · exact ⟨Binary32.infinity, if_pos (.inl short), by decide +kernel⟩
    · exact ⟨Binary32.infinity, if_pos (.inr long), by decide +kernel⟩
    · exact ⟨0 / 0, (if_neg (by rw [nan]; decide)).trans (if_pos nan), by decide +kernel⟩
  simp only [List.mem_cons, List.not_mem_nil, or_false] at signed
  rcases signed with rfl | rfl | rfl
  · refine ⟨value, ?_, infinite.1⟩
    rw [List.nil_append]
    unfold readFloat32?
    split
    case h_1 negative magnitude equal =>
      split at equal
      case h_1 => exact absurd rfl (unsigned '-' (.inl rfl) _)
      case h_2 => exact absurd rfl (unsigned '+' (.inr rfl) _)
      case h_3 =>
        obtain ⟨rfl, rfl⟩ := Prod.mk.inj equal
        exact congrArg (Option.map _) read
  · exact ⟨value, congrArg (Option.map _) read, infinite.1⟩
  · exact ⟨-value, congrArg (Option.map _) read, infinite.2⟩

end number

end EpisodicReplay.EpisodeFile
