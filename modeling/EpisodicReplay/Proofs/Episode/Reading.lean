import EpisodicReplay.Proofs.Episode.Line
import EpisodicReplay.Proofs.History.Settled
import EpisodicReplay.Proofs.Text.Rows
import Mathlib.Logic.Relation

/-!
What is read from an episode file depends on its tick lines, in their order and without their indices, and on its last
tag line. Text is always read; how its rows are spaced and ended and what else stands among them does not matter.
-/

namespace EpisodicReplay.EpisodeFile
open Relation (EqvGen)

section rows
variable {before after : List (List Char)} {row other : List Char} {tick : Tick} {tag : Tag}

/-- The ticks of all rows, also of those that do not fit into an episode. -/
def ticksOf (rows : List (List Char)) : List Tick :=
  (rows.map Line.ofChars).filterMap Line.tick?

def tagsOf (rows : List (List Char)) : List Tag :=
  (rows.map Line.ofChars).filterMap Line.tag?

theorem ticksOf_append (before after : List (List Char)) :
    ticksOf (before ++ after) = ticksOf before ++ ticksOf after := by
  rw [ticksOf, List.map_append, List.filterMap_append, ticksOf, ticksOf]

theorem tagsOf_append (before after : List (List Char)) : tagsOf (before ++ after) = tagsOf before ++ tagsOf after := by
  rw [tagsOf, List.map_append, List.filterMap_append, tagsOf, tagsOf]

theorem ticksOf_tagsOf_of_tick (line : Line.ofChars row = .tick tick) (after : List (List Char)) :
    ticksOf (row :: after) = tick :: ticksOf after ∧ tagsOf (row :: after) = tagsOf after := by
  constructor
  · exact List.filterMap_cons_some (congrArg Line.tick? line)
  · exact List.filterMap_cons_none (congrArg Line.tag? line)

theorem ticksOf_tagsOf_of_tag (line : Line.ofChars row = .tag tag) (after : List (List Char)) :
    ticksOf (row :: after) = ticksOf after ∧ tagsOf (row :: after) = tag :: tagsOf after := by
  constructor
  · exact List.filterMap_cons_none (congrArg Line.tick? line)
  · exact List.filterMap_cons_some (congrArg Line.tag? line)

/-- The episode that a reader makes of some rows. -/
def episodeOf (rows : List (List Char)) : Episode :=
  ofLines (rows.map Line.ofChars)

theorem episodeOf_eq (rows : List (List Char)) : episodeOf rows =
    .ofTicks ((ticksOf rows).take Episode.maxLength) ((tagsOf rows).getLast?.getD .none) := rfl

theorem ofChars_congr (same : Text.trim row = Text.trim other) : Line.ofChars row = Line.ofChars other := by
  rw [Line.ofChars, same, Line.ofChars]

/-- A line without tick or tag adds nothing to an episode. -/
theorem ofLines_other (before after : List Line) : ofLines (before ++ .other :: after) = ofLines (before ++ after) := by
  have noTick : Line.other.tick? = none := rfl
  have noTag : Line.other.tag? = none := rfl
  simp [ofLines, noTick, noTag]

theorem episodeOf_other (before after : List (List Char)) (nothing : Line.ofChars row = .other) :
    episodeOf (before ++ row :: after) = episodeOf (before ++ after) := by
  rw [episodeOf, List.map_append, List.map_cons, nothing, ofLines_other, ← List.map_append, episodeOf]

/-- Text is read row by row. -/
theorem read_toUTF8 (text : String) : read text.toUTF8 = .ok (episodeOf (Text.rows text)) := by
  obtain ⟨front, last, split, -⟩ := @Text.splitBy_append Char (· == '\n') text.toList
  have lines := Text.lines_toUTF8_eq split
  have decoded := Text.mapM_decode?_encode (front.map Text.withoutReturn ++ [last].filter (!·.isEmpty))
  have returned : (front.map Text.withoutReturn).map Line.ofChars = front.map Line.ofChars := by
    rw [List.map_map]
    exact List.map_congr_left fun row _ => ofChars_congr (Text.trim_withoutReturn row)
  -- An empty last row is not among the lines, and tells nothing as a row.
  have final : ofLines (front.map Line.ofChars ++ ([last].filter (!·.isEmpty)).map Line.ofChars) =
      ofLines (front.map Line.ofChars ++ [Line.ofChars last]) := by
    cases last with
    | nil => exact (ofLines_other (front.map Line.ofChars) []).symm
    | cons char rest => rfl
  rw [read, lines, decoded]
  change Except.ok (ofLines _) = _
  rw [List.map_map]
  simp only [Function.comp_def, String.toList_ofList]
  rw [List.map_append, returned, final, Text.rows, split, episodeOf, List.map_append, List.map_singleton]

end rows

section edit
variable {first second : List (List Char)}

/-- Text with blanks round it. -/
def Padded (chars wide : List Char) : Prop :=
  ∃ left right, wide = left ++ chars ++ right ∧
    (∀ char ∈ left, Text.isBlank char = true) ∧ ∀ char ∈ right, Text.isBlank char = true

theorem Padded.trim {chars wide : List Char} (padded : Padded chars wide) : Text.trim wide = Text.trim chars := by
  obtain ⟨left, right, rfl, leftBlank, rightBlank⟩ := padded
  rw [Text.trim_append_blank rightBlank, Text.trim_blank_append leftBlank]

/-- Changes of the rows of a file that its readers do not see. -/
inductive Edit : List (List Char) → List (List Char) → Prop where
  /-- Any other count is put where the index of a tick line is. -/
  | index {before after : List (List Char)} {index other rest : List Char} {tick : Tick}
    (line : Line.ofChars (index ++ ',' :: rest) = .tick tick) (unbroken : ',' ∉ index) (otherUnbroken : ',' ∉ other)
    (count : (Decimal.readCount? (Text.trim other)).isSome) :
    Edit (before ++ (index ++ ',' :: rest) :: after) (before ++ (other ++ ',' :: rest) :: after)
  /-- A tag line and a tick line change places. -/
  | tag {before after : List (List Char)} {tagRow tickRow : List Char} {tag : Tag} {tick : Tick}
    (tagLine : Line.ofChars tagRow = .tag tag) (tickLine : Line.ofChars tickRow = .tick tick) :
    Edit (before ++ tagRow :: tickRow :: after) (before ++ tickRow :: tagRow :: after)
  | blanks {before after : List (List Char)} {row wide : List Char} (padded : Padded row wide) :
    Edit (before ++ row :: after) (before ++ wide :: after)
  | fieldBlanks {before after fields wide : List (List Char)} {tick : Tick}
    (line : Line.ofChars ([','].intercalate fields) = .tick tick) (unbroken : ∀ field ∈ fields, ',' ∉ field)
    (padded : List.Forall₂ Padded fields wide) :
    Edit (before ++ [','].intercalate fields :: after) (before ++ [','].intercalate wide :: after)
  | carriageReturn {before after : List (List Char)} {row : List Char} :
    Edit (before ++ row :: after) (before ++ (row ++ ['\r']) :: after)
  /-- Text whose last row is empty ends with a newline. -/
  | finalNewline {rows : List (List Char)} : Edit (rows ++ [[]]) rows
  /-- A tick line is added behind as many as an episode has room for. -/
  | lateTick {before after : List (List Char)} {row : List Char} {tick : Tick}
    (full : Episode.maxLength ≤ (ticksOf before).length) (line : Line.ofChars row = .tick tick) :
    Edit (before ++ after) (before ++ row :: after)
  | otherLine {before after : List (List Char)} {row : List Char} (line : Line.ofChars row = .other) :
    Edit (before ++ after) (before ++ row :: after)

/-- Blanks hold no comma. -/
theorem Padded.not_mem_comma {chars wide : List Char} (padded : Padded chars wide) (unbroken : ',' ∉ chars) :
    ',' ∉ wide := by
  obtain ⟨left, right, rfl, leftBlank, rightBlank⟩ := padded
  intro member
  rcases List.mem_append.mp member with front | inside
  · exact (List.mem_append.mp front).elim (comma_not_mem_of_blank leftBlank) unbroken
  · exact comma_not_mem_of_blank rightBlank inside

theorem cells_intercalate_of_padded {fields wide : List (List Char)} (unbroken : ∀ field ∈ fields, ',' ∉ field)
    (padded : List.Forall₂ Padded fields wide) :
    cells ([','].intercalate wide) = cells ([','].intercalate fields) := by
  have kept : wide.map Text.trim = fields.map Text.trim ∧ ∀ field ∈ wide, ',' ∉ field := by
    induction padded with
    | nil => exact ⟨rfl, List.forall_mem_nil _⟩
    | cons first others inductionHypothesis =>
        obtain ⟨plain, remaining⟩ := List.forall_mem_cons.mp unbroken
        obtain ⟨trimmed, wideUnbroken⟩ := inductionHypothesis remaining
        rw [List.map_cons, List.map_cons, first.trim, trimmed]
        exact ⟨rfl, List.forall_mem_cons.mpr ⟨first.not_mem_comma plain, wideUnbroken⟩⟩
  cases padded with
  | nil => rfl
  | cons first others =>
      rw [cells_intercalate (List.cons_ne_nil _ _) kept.2, kept.1, cells_intercalate (List.cons_ne_nil _ _) unbroken]

/-- A reader does not see an edit. -/
theorem Edit.episodeOf_eq (edit : Edit first second) : episodeOf first = episodeOf second := by
  -- Four kinds of edit put a row in the place of another one that tells the same.
  have replaced {before after : List (List Char)} {row other : List Char}
      (same : Line.ofChars row = Line.ofChars other) :
      episodeOf (before ++ row :: after) = episodeOf (before ++ other :: after) := by
    rw [episodeOf, List.map_append, List.map_cons, same, ← List.map_cons, ← List.map_append, episodeOf]
  cases edit with
  | index line unbroken otherUnbroken count =>
      obtain ⟨_, numbers, cells, -, numeric⟩ := readTick?_eq_some_iff.mp (ofChars_eq_tick_iff.mp line)
      rw [cells_append_comma unbroken] at cells
      obtain ⟨rfl, rfl⟩ := List.cons.inj cells
      refine replaced (line.trans (Eq.symm ?_))
      exact ofChars_eq_tick_iff.mpr
        (readTick?_eq_some_iff.mpr ⟨_, _, cells_append_comma otherUnbroken _, count, numeric⟩)
  | tag tagLine tickLine =>
      rw [EpisodeFile.episodeOf_eq, EpisodeFile.episodeOf_eq]
      simp only [ticksOf_append, tagsOf_append, ticksOf_tagsOf_of_tag tagLine, ticksOf_tagsOf_of_tick tickLine]
  | blanks padded => exact replaced (ofChars_congr padded.trim.symm)
  | fieldBlanks line unbroken padded =>
      refine replaced (line.trans (Eq.symm (ofChars_eq_tick_iff.mpr ?_)))
      rw [readTick?_congr (cells_intercalate_of_padded unbroken padded)]
      exact ofChars_eq_tick_iff.mp line
  | carriageReturn =>
      exact replaced (ofChars_congr (Text.trim_append_blank (List.forall_mem_singleton.mpr rfl)).symm)
  | finalNewline =>
      rw [episodeOf_other second [] rfl, List.append_nil]
  | lateTick full line =>
      rw [EpisodeFile.episodeOf_eq, EpisodeFile.episodeOf_eq]
      simp only [ticksOf_append, tagsOf_append, ticksOf_tagsOf_of_tick line, List.take_append_of_le_length full]
  | otherLine line => exact (episodeOf_other _ _ line).symm

/-- A reader does not see any number of edits, made or undone. -/
theorem episodeOf_eq_of_edits (edits : EqvGen Edit first second) : episodeOf first = episodeOf second := by
  induction edits with
  | rel first second edit => exact edit.episodeOf_eq
  | refl rows => rfl
  | symm first second _ inductionHypothesis => exact inductionHypothesis.symm
  | trans first second third _ _ front back => exact front.trans back

end edit

section reading

/-- What is read from some text. -/
structure IsRead (text : String) (episode : Episode) : Prop where
  read : EpisodeFile.read text.toUTF8 = .ok episode
  /-- The ticks are the first that fit, and a number that is not finite gives way to the last one before it that is. -/
  ticks : let kept := (ticksOf (Text.rows text)).take Episode.maxLength
    episode.ticks.toList = Tick.settledUpTo kept kept.length
  tag : episode.tag = (tagsOf (Text.rows text)).getLast?.getD .none
  /-- Nothing but the ticks that fit and the last tag counts. -/
  determined : ∀ other : String, (ticksOf (Text.rows other)).take Episode.maxLength =
      (ticksOf (Text.rows text)).take Episode.maxLength →
    (tagsOf (Text.rows other)).getLast? = (tagsOf (Text.rows text)).getLast? →
    EpisodeFile.read other.toUTF8 = .ok episode
  edited : ∀ other : String, EqvGen Edit (Text.rows text) (Text.rows other) →
    EpisodeFile.read other.toUTF8 = .ok episode

/-- What makes a line of some characters a tick line or a tag line. -/
structure Recognized (chars : List Char) : Prop where
  isTick : (∃ tick, Line.ofChars chars = .tick tick) ↔ ∃ index numbers, IsTickLine chars index numbers
  tick : ∀ tick, Line.ofChars chars = .tick tick ↔ ∃ index numbers, IsTickLine chars index numbers ∧
    numbers.map (Decimal.readFloat32? <| Text.trim ·) = tick.values.map some
  tag : ∀ tag, Line.ofChars chars = .tag tag ↔
    ∃ mask, Text.trim chars = "#tag=".toList ++ mask ∧ Decimal.readUInt32? (Text.trim mask) = some tag.bits

theorem isRead_episodeOf (text : String) : IsRead text (episodeOf (Text.rows text)) where
  read := read_toUTF8 text
  ticks := by
    intro kept
    have fits : kept.length ≤ Episode.maxLength := List.length_take_le ..
    rw [episodeOf_eq, Episode.ofTicks_settled, Nat.min_eq_right fits]
  tag := Episode.ofTicks_tag ..
  determined := by
    intro other ticks tag
    rw [read_toUTF8, episodeOf_eq, ticks, tag, ← episodeOf_eq]
  edited := by
    intro other edits
    rw [read_toUTF8, episodeOf_eq_of_edits edits]

/-- All text is read, from its tick lines in their order and its last tag line. A line is recognized by its characters,
also where its numbers are not finite. -/
theorem exists_isRead (text : String) : (∃ episode, IsRead text episode) ∧ (∀ chars, Recognized chars) ∧
    ∀ sign name, sign ∈ [[], ['+'], ['-']] → name.map Char.toLower ∈ specialNames →
      ∃ value, Decimal.readFloat32? (sign ++ name) = some value ∧ value.isFinite = false :=
  ⟨⟨_, isRead_episodeOf text⟩,
    fun _ => ⟨exists_tick_iff, fun _ => ofChars_eq_tick_iff_isTickLine, fun _ => ofChars_eq_tag_iff⟩,
    fun _ _ => readFloat32?_named⟩

/-- A file before and after edits of each kind that needs no full episode. -/
theorem exists_isRead_edited :
    let original := "#tag=2\n7,0.5,nan,0,0,0,0,0,-INF\n8,nan,1,0,0,0,0,0,3\n"
    let edited := "\t+42,0.5, nan ,0,0,0,0,0,-INF\r\n# noise\n#tag=2\n8,nan,1,0,0,0,0,0,3"
    EqvGen Edit (Text.rows original) (Text.rows edited) ∧ read edited.toUTF8 = read original.toUTF8 ∧
      read original.toUTF8 = .ok ⟨#[⟨0.5, 0, 0, 0, 0, 0, 0, 0⟩, ⟨0.5, 1, 0, 0, 0, 0, 0, 3⟩], .align⟩ := by
  intro original edited
  let tagRow := "#tag=2".toList
  let tickRow := "7,0.5,nan,0,0,0,0,0,-INF".toList
  let noteRow := "# noise".toList
  let lastRow := "8,nan,1,0,0,0,0,0,3".toList
  let fields := ["+42", "0.5", "nan", "0", "0", "0", "0", "0", "-INF"].map String.toList
  let wide := ["+42", "0.5", " nan ", "0", "0", "0", "0", "0", "-INF"].map String.toList
  let wideRow := [','].intercalate wide
  let rest := [tagRow, lastRow, []]
  let noisy : Tick := ⟨0.5, 0 / 0, 0, 0, 0, 0, 0, -Binary32.infinity⟩
  have blank : ∀ char ∈ [' '], Text.isBlank char = true := List.forall_mem_singleton.mpr rfl
  have tab : ∀ char ∈ ['\t'], Text.isBlank char = true := List.forall_mem_singleton.mpr rfl
  have same (chars : List Char) : Padded chars chars :=
    ⟨[], [], by simp, List.forall_mem_nil _, List.forall_mem_nil _⟩
  have padded : List.Forall₂ Padded fields wide :=
    .cons (same _) (.cons (same _) (.cons ⟨[' '], [' '], rfl, blank, blank⟩
      (List.forall₂_same.mpr fun field _ => same field)))
  have moved : Edit [tagRow, tickRow, lastRow, []] (tickRow :: rest) :=
    @Edit.tag [] [lastRow, []] tagRow tickRow .align noisy (by decide +kernel) (by decide +kernel)
  have indexed : Edit (tickRow :: rest) ([','].intercalate fields :: rest) :=
    @Edit.index [] rest ['7'] "+42".toList "0.5,nan,0,0,0,0,0,-INF".toList noisy (by decide +kernel) (by decide)
      (by decide) (by decide +kernel)
  have spaced : Edit ([','].intercalate fields :: rest) (wideRow :: rest) :=
    @Edit.fieldBlanks [] rest fields wide noisy (by decide +kernel) (by decide) padded
  have indented : Edit (wideRow :: rest) (('\t' :: wideRow) :: rest) :=
    @Edit.blanks [] rest _ _ ⟨['\t'], [], by simp, tab, List.forall_mem_nil _⟩
  have returned : Edit (('\t' :: wideRow) :: rest) (('\t' :: wideRow ++ ['\r']) :: rest) :=
    @Edit.carriageReturn [] rest _
  have noted : Edit (('\t' :: wideRow ++ ['\r']) :: rest) (('\t' :: wideRow ++ ['\r']) :: noteRow :: rest) :=
    @Edit.otherLine ['\t' :: wideRow ++ ['\r']] rest noteRow (by decide +kernel)
  have unended : Edit (('\t' :: wideRow ++ ['\r']) :: noteRow :: rest)
      [('\t' :: wideRow ++ ['\r']), noteRow, tagRow, lastRow] :=
    @Edit.finalNewline [_, _, _, _]
  have edits : EqvGen Edit (Text.rows original) (Text.rows edited) := by
    have before : Text.rows original = [tagRow, tickRow, lastRow, []] := by decide +kernel
    have after : Text.rows edited = [('\t' :: wideRow ++ ['\r']), noteRow, tagRow, lastRow] := by decide +kernel
    rw [before, after]
    exact EqvGen.reflTransGen_le_eqvGen _ _ _ <| .head moved <| .head indexed <| .head spaced <| .head indented <|
      .head returned <| .head noted <| .single unended
  obtain ⟨⟨episode, isRead⟩, -⟩ := exists_isRead original
  refine ⟨edits, (isRead.edited edited edits).trans isRead.read.symm, ?_⟩
  decide +kernel

end reading

end EpisodicReplay.EpisodeFile
