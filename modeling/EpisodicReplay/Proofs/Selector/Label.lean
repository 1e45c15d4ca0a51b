import EpisodicReplay.Proofs.Json.Writer
import EpisodicReplay.Proofs.Tag.Words
import EpisodicReplay.Selector

/-! The label of a selector is read back, in text and in JSON, as long as the selector could be read at all. -/

namespace EpisodicReplay

theorem Decimal.digits_solid {number : Nat} : ∀ char ∈ digits number, Text.isBlank char = false := by
  have solid : ∀ char ∈ "0123456789".toList, Text.isBlank char = false := List.all_iff_forall_prop.mp rfl
  exact fun char member => solid char (mem_of_isDigit (isDigit_of_mem_digits char member))

theorem Text.intercalate_solid {words : List String}
    (solid : ∀ word ∈ words, ∀ char ∈ word.toList, isBlank char = false) :
    ∀ char ∈ ("|".intercalate words).toList, isBlank char = false := by
  induction words with
  | nil => exact List.forall_mem_nil _
  | cons word others inductionHypothesis =>
      obtain ⟨wordSolid, othersSolid⟩ := List.forall_mem_cons.mp solid
      cases others with
      | nil => exact wordSolid
      | cons second more =>
          have bar : ∀ char ∈ "|".toList, isBlank char = false := List.all_iff_forall_prop.mp rfl
          rw [String.intercalate_cons_cons, String.toList_append, String.toList_append, List.forall_mem_append,
            List.forall_mem_append]
          exact ⟨⟨wordSolid, bar⟩, inductionHypothesis othersSolid⟩

/-- Labels of tags are single words. -/
theorem Tag.label_solid (tag : Tag) : ∀ char ∈ tag.label.toList, Text.isBlank char = false := by
  have none : ∀ char ∈ "NONE".toList, Text.isBlank char = false := List.all_iff_forall_prop.mp rfl
  have names : ∀ entry ∈ named, entry.2.toList.all (!Text.isBlank ·) = true := List.all_eq_true.mp rfl
  unfold label
  split
  · exact none
  · apply Text.intercalate_solid
    intro word member
    obtain ⟨entry, among, rfl⟩ := List.mem_map.mp member
    simpa using names entry (List.mem_of_mem_filter among)

namespace Selector
variable {selector : Selector} {chars : List Char} {text : String}

/-- A selector that text can stand for: by tag it asks for something, and only for what has a name. -/
def IsNamed : Selector → Prop
  | .tag mask => mask.isEmpty = false ∧ mask.restricted = mask
  | _ => True

theorem isNamed_of_ofTrimmed? (read : ofTrimmed? chars = some selector) : selector.IsNamed := by
  unfold ofTrimmed? at read
  split_ifs at read
  · cases read
    trivial
  · cases read
    trivial
  · split at read
    · obtain ⟨value, -, rfl⟩ := Option.map_eq_some_iff.mp read
      trivial
    · split at read
      · rename_i words _
        simp only [Option.ite_none_left_eq_some, Option.some.injEq] at read
        obtain ⟨nonempty, rfl⟩ := read
        refine ⟨Bool.eq_false_iff.mpr nonempty, ?_⟩
        have restricted := Tag.restricted_parse (String.ofList words)
        rwa [Tag.parse, String.toList_ofList] at restricted
      · cases read

theorem label_solid (selector : Selector) : ∀ char ∈ selector.label.toList, Text.isBlank char = false := by
  have latest : ∀ char ∈ "latest".toList, Text.isBlank char = false := List.all_iff_forall_prop.mp rfl
  have all : ∀ char ∈ "ALL".toList, Text.isBlank char = false := List.all_iff_forall_prop.mp rfl
  have nothing : ∀ char ∈ "tag:0".toList, Text.isBlank char = false := List.all_iff_forall_prop.mp rfl
  have idKey : ∀ char ∈ "idx:".toList, Text.isBlank char = false := List.all_iff_forall_prop.mp rfl
  have tagKey : ∀ char ∈ "tag:".toList, Text.isBlank char = false := List.all_iff_forall_prop.mp rfl
  cases selector with
  | latest => exact latest
  | id value =>
      rw [label, String.toList_append, List.forall_mem_append]
      exact ⟨idKey, String.toList_ofList ▸ Decimal.digits_solid⟩
  | tag mask =>
      rw [label]
      split
      · exact nothing
      · rw [String.toList_append, List.forall_mem_append]
        exact ⟨tagKey, mask.label_solid⟩
  | all => exact all

theorem ofTrimmed?_id (digits : List Char) :
    ofTrimmed? ("idx:".toList ++ digits) = (Decimal.readUInt32? (Text.trim digits)).map id := by
  rw [ofTrimmed?, if_neg, if_neg, Text.dropLeading?_append]
  · simp [Text.equalsIgnoringCase]
  · simp [Text.equalsIgnoringCase]

theorem ofTrimmed?_tag (words : List Char) : ofTrimmed? ("tag:".toList ++ words) =
    if (Tag.ofWords words).isEmpty then none else some (tag (Tag.ofWords words)) := by
  have other : Text.dropLeading? "idx:" ("tag:".toList ++ words) = none := rfl
  rw [ofTrimmed?, if_neg, if_neg, other, Text.dropLeading?_append]
  · simp [Text.equalsIgnoringCase]
  · simp [Text.equalsIgnoringCase]

/-- A selector that text can stand for is read from its label. -/
theorem ofTrimmed?_label (named : selector.IsNamed) : ofTrimmed? selector.label.toList = some selector := by
  cases selector with
  | latest => rfl
  | id value =>
      rw [label, String.toList_append, ofTrimmed?_id, String.toList_ofList, Text.trim_of_forall Decimal.digits_solid,
        Decimal.readUInt32?_digits, Option.map_some]
  | tag mask =>
      obtain ⟨nonempty, restricted⟩ := named
      have words : Tag.ofWords mask.label.toList = mask := (Tag.parse_label mask).trans restricted
      rw [label, if_neg (by simp [nonempty]), String.toList_append, ofTrimmed?_tag, words, if_neg (by simp [nonempty])]
  | all => rfl

theorem parse_eq_ok_iff : parse text = .ok selector ↔ ofTrimmed? (Text.trim text.toList) = some selector := by
  unfold parse
  dsimp only
  split
  · rename_i found
    rw [found, Except.ok.injEq, Option.some.injEq]
  · rename_i lost
    simp [lost]

theorem isNamed_of_parse (read : parse text = .ok selector) : selector.IsNamed :=
  isNamed_of_ofTrimmed? (parse_eq_ok_iff.mp read)

theorem parse_label (named : selector.IsNamed) : parse selector.label = .ok selector := by
  rw [parse_eq_ok_iff, Text.trim_of_forall selector.label_solid]
  exact ofTrimmed?_label named

/-- What is no selector is told trimmed. -/
theorem eq_of_parse_eq_error {failure : Failure} (read : parse text = .error failure) :
    failure = .unknownSelector (.ofList (Text.trim text.toList)) := by
  unfold parse at read
  dsimp only at read
  split at read
  · cases read
  · exact (Except.error.inj read).symm

theorem spells_toJson (selector : Selector) :
    Json.Spells selector.toJson (.string (selector.label.toList.map Json.piece)) :=
  Json.spells_writeString selector.label

theorem ofJson?_label (named : selector.IsNamed) :
    ofJson? (.string (selector.label.toList.map Json.piece)) = some selector := by
  rw [ofJson?, Json.Value.string?, Json.text?_map_piece, Option.bind_some, String.ofList_toList, parse?,
    parse_label named]
  rfl

theorem isNamed_of_ofJson? {json : Json.Value} (read : ofJson? json = some selector) : selector.IsNamed := by
  obtain ⟨text, -, read⟩ := Option.bind_eq_some_iff.mp read
  rw [parse?] at read
  cases parsed : parse (String.ofList text) with
  | ok found =>
      rw [parsed] at read
      obtain rfl : found = selector := Option.some.inj read
      exact isNamed_of_parse parsed
  | error failure =>
      rw [parsed] at read
      cases read

end Selector

end EpisodicReplay
