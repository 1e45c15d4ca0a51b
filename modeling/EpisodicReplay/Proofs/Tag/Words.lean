import EpisodicReplay.Proofs.Tag
import EpisodicReplay.Proofs.Text.Blank
import Mathlib

/-!
The texts of tags. The tag of a text is the union of the tags that the text mentions, and the label of a tag is read
back as what of the tag has a name.
-/

namespace EpisodicReplay

theorem Text.equalsIgnoringCase_iff {word : String} {chars : List Char} :
    Text.equalsIgnoringCase word chars = true ↔ chars.map Char.toUpper = word.toList.map Char.toUpper := by
  rw [Text.equalsIgnoringCase, beq_iff_eq]
  constructor
  · intro same
    have upper := congrArg (List.map Char.toUpper) same
    simpa only [List.map_map, Function.comp_def, Char.toUpper_toLower_eq_toUpper] using upper
  · intro same
    have lower := congrArg (List.map Char.toLower) same
    simpa only [List.map_map, Function.comp_def, Char.toLower_toUpper_eq_toLower] using lower

namespace Tag
variable {tag : Tag} {word : List Char} {text first second : String} {separator : Char} {bit : Nat}

/-- The names that texts know, with what they stand for. -/
def names : List (String × Tag) :=
  [("SPIKE", spike), ("ALIGN", align), ("LOW_HARM", lowHarmony), ("LOWHARM", lowHarmony), ("ALL", all)]

/-- One of the words of the text is the name, in any letter case. -/
def mentions (text name : String) : Bool :=
  (Text.splitBy isSeparator text.toList).any (Text.equalsIgnoringCase name)

/-- What of the tag has a name. -/
def restricted (tag : Tag) : Tag :=
  ⟨tag.bits &&& (union (named.map Prod.fst)).bits⟩

section parse

theorem parse_eq_union (text : String) :
    parse text = union ((Text.splitBy isSeparator text.toList).map ofWord) := by
  rw [parse, ofWords, union, List.foldl_map]

/-- A word has the bits of the names that it is. -/
theorem hasBit_ofWord_iff : (ofWord word).HasBit bit ↔
    ∃ entry ∈ names, Text.equalsIgnoringCase entry.1 word = true ∧ entry.2.HasBit bit := by
  have upper : ∀ entry ∈ names, entry.1.toList.map Char.toUpper = entry.1.toList :=
    List.all_iff_forall_prop.mp rfl
  have same (entry : String × Tag) (member : entry ∈ names) :
      Text.equalsIgnoringCase entry.1 word = true ↔ String.ofList (word.map Char.toUpper) = entry.1 := by
    rw [Text.equalsIgnoringCase_iff, upper entry member, ← String.toList_inj, String.toList_ofList]
  have known : (∃ entry ∈ names, Text.equalsIgnoringCase entry.1 word = true ∧ entry.2.HasBit bit) ↔
      ∃ entry ∈ names, String.ofList (word.map Char.toUpper) = entry.1 ∧ entry.2.HasBit bit :=
    exists_congr fun entry => and_congr_right fun member => and_congr_left' (same entry member)
  rw [known]
  unfold ofWord
  split
  case h_6 =>
    simp_all [names, not_hasBit_none]
  all_goals
    rename_i equal
    simp [names, equal]

/-- The tag of a text has the bits of the names that the text mentions. -/
theorem hasBit_parse_iff : (parse text).HasBit bit ↔
    ∃ entry ∈ names, mentions text entry.1 = true ∧ entry.2.HasBit bit := by
  rw [parse_eq_union, hasBit_union_iff]
  simp only [mentions, List.any_eq_true]
  constructor
  · rintro ⟨tag, among, set⟩
    obtain ⟨word, inside, rfl⟩ := List.mem_map.mp among
    obtain ⟨entry, known, same, set⟩ := hasBit_ofWord_iff.mp set
    exact ⟨entry, known, ⟨word, inside, same⟩, set⟩
  · rintro ⟨entry, known, ⟨word, inside, same⟩, set⟩
    exact ⟨ofWord word, List.mem_map_of_mem inside, hasBit_ofWord_iff.mpr ⟨entry, known, same, set⟩⟩

theorem parse_eq_union_names (text : String) :
    parse text = union ((names.filter fun entry => mentions text entry.1).map Prod.snd) := by
  apply eq_of_hasBit_iff
  intro bit
  rw [hasBit_parse_iff, hasBit_union_iff]
  simp only [List.mem_map, List.mem_filter]
  constructor
  · rintro ⟨entry, known, mentioned, set⟩
    exact ⟨entry.2, ⟨entry, ⟨known, mentioned⟩, rfl⟩, set⟩
  · rintro ⟨_, ⟨entry, ⟨known, mentioned⟩, rfl⟩, set⟩
    exact ⟨entry, known, mentioned, set⟩

theorem parse_append (front back : String) (ends : isSeparator separator = true) :
    parse (front ++ String.singleton separator ++ back) = parse front ||| parse back := by
  have chars : (front ++ String.singleton separator ++ back).toList = front.toList ++ separator :: back.toList := by
    rw [String.toList_append, String.toList_append, String.toList_singleton, List.append_assoc]
    rfl
  rw [parse_eq_union, parse_eq_union, parse_eq_union, chars, Text.splitBy_append_cons _ ends, List.map_append,
    union_append]

/-- No capital letter separates words, and neither does a small one. -/
theorem isSeparator_toLower (char : Char) : isSeparator char.toLower = isSeparator char := by
  have ascii : ∀ code < 128, isSeparator (Char.ofNat code).toLower = isSeparator (Char.ofNat code) := by
    decide
  rcases Nat.lt_or_ge char.toNat 128 with small | large
  · simpa using ascii char.toNat small
  · have kept : char.toLower = char := by
      unfold Char.toLower
      rw [dif_neg]
      rintro ⟨-, capital⟩
      have low : char.toNat ≤ 90 := capital
      omega
    rw [kept]

/-- Texts that differ only in the case of letters mention the same names. -/
theorem mentions_of_equalsIgnoringCase (same : Text.equalsIgnoringCase first second.toList = true) (name : String) :
    mentions first name = mentions second name := by
  have lower (text : String) : mentions text name =
      (Text.splitBy isSeparator (text.toList.map Char.toLower)).any (· == name.toList.map Char.toLower) := by
    have blind : isSeparator ∘ Char.toLower = isSeparator := funext isSeparator_toLower
    rw [Text.splitBy_map, blind, List.any_map]
    rfl
  rw [lower, lower, beq_iff_eq.mp same]

end parse

section label

theorem hasBit_restricted_iff :
    tag.restricted.HasBit bit ↔ tag.HasBit bit ∧ ∃ entry ∈ named, entry.1.HasBit bit := by
  have part : tag.restricted.HasBit bit ↔ tag.HasBit bit ∧ (union (named.map Prod.fst)).HasBit bit := by
    change (tag.bits &&& (union (named.map Prod.fst)).bits).toNat.testBit bit = true ↔ _
    rw [UInt32.toNat_and, Nat.testBit_and, Bool.and_eq_true]
    rfl
  rw [part, hasBit_union_iff]
  simp

/-- Words name no other bits than labels do. -/
theorem restricted_parse (text : String) : (parse text).restricted = parse text := by
  have known : ∀ entry ∈ names, entry.2.restricted = entry.2 := by
    decide
  apply eq_of_hasBit_iff
  intro bit
  rw [hasBit_restricted_iff, and_iff_left_iff_imp]
  intro set
  obtain ⟨entry, member, -, set⟩ := hasBit_parse_iff.mp set
  rw [← known entry member] at set
  exact (hasBit_restricted_iff.mp set).2

/-- A tag with a name has one bit. -/
theorem exists_bit_of_mem_named : ∀ entry ∈ named, ∃ place, ∀ bit, entry.1.HasBit bit ↔ place = bit := by
  have power (place bit : Nat) : (2 ^ place).testBit bit = true ↔ place = bit := by
    rw [Nat.testBit_two_pow, decide_eq_true_eq]
  intro entry member
  simp only [named, List.mem_cons, List.not_mem_nil, or_false] at member
  rcases member with rfl | rfl | rfl
  · exact ⟨0, power 0⟩
  · exact ⟨1, power 1⟩
  · exact ⟨2, power 2⟩

/-- What of a tag has a name is the union of the tags in its label. -/
theorem union_named (tag : Tag) :
    union ((named.filter fun entry => tag.intersects entry.1).map Prod.fst) = tag.restricted := by
  apply eq_of_hasBit_iff
  intro bit
  rw [hasBit_union_iff, hasBit_restricted_iff]
  simp only [List.mem_map, List.mem_filter, intersects_iff]
  constructor
  · rintro ⟨_, ⟨entry, ⟨member, shared, inTag, inEntry⟩, rfl⟩, set⟩
    obtain ⟨place, only⟩ := exists_bit_of_mem_named entry member
    obtain rfl := (only shared).mp inEntry
    obtain rfl := (only bit).mp set
    exact ⟨inTag, entry, member, set⟩
  · rintro ⟨inTag, entry, member, set⟩
    exact ⟨entry.1, ⟨entry, ⟨member, bit, inTag, set⟩, rfl⟩, set⟩

theorem parse_intercalate (words : List String) : parse ("|".intercalate words) = union (words.map parse) := by
  induction words with
  | nil => decide
  | cons word others inductionHypothesis =>
      cases others with
      | nil => exact (none_or (parse word)).symm
      | cons second more =>
          rw [String.intercalate_cons_cons, List.map_cons, union_cons, ← inductionHypothesis]
          exact @parse_append '|' word _ rfl

/-- The label of a tag is read back as what of the tag has a name. -/
theorem parse_label (tag : Tag) : parse tag.label = tag.restricted := by
  have spelled : ∀ entry ∈ named, parse entry.2 = entry.1 := by
    decide
  unfold label
  split
  case isTrue empty =>
    have nothing : tag = none := congrArg mk (beq_iff_eq.mp empty)
    rw [nothing]
    decide
  case isFalse =>
    rw [parse_intercalate, List.map_map, ← union_named]
    refine congrArg union (List.map_congr_left fun entry member => ?_)
    exact spelled entry (List.mem_of_mem_filter member)

end label

/-- A separator is read as a union, and no more of a text counts than which names it mentions. All that is read has a
name, and of a label all that has a name is read. -/
theorem parse_unites :
    (∀ (front back : String) (separator : Char), separator ∈ ['|', ',', ';'] ∨ Text.isBlank separator = true →
      parse (front ++ String.singleton separator ++ back) = parse front ||| parse back) ∧
    (∀ text, parse text = union ((names.filter fun entry => mentions text entry.1).map Prod.snd)) ∧
    (∀ first second, (∀ entry ∈ names, mentions first entry.1 = mentions second entry.1) →
      parse first = parse second) ∧
    (∀ first second : String, Text.equalsIgnoringCase first second.toList = true → parse first = parse second) ∧
    (∀ text, (parse text).restricted = parse text) ∧ ∀ tag, parse (label tag) = tag.restricted := by
  have determined (first second : String) (same : ∀ entry ∈ names, mentions first entry.1 = mentions second entry.1) :
      parse first = parse second := by
    rw [parse_eq_union_names, parse_eq_union_names]
    exact congrArg (fun known => union (known.map Prod.snd)) (List.filter_congr same)
  refine ⟨fun front back separator ends => ?_, parse_eq_union_names, determined, fun first second same => ?_,
    restricted_parse, parse_label⟩
  · apply parse_append
    rcases ends with named | blank
    · simp only [List.mem_cons, List.not_mem_nil, or_false] at named
      rcases named with rfl | rfl | rfl <;> rfl
    · simp [isSeparator, blank]
  · exact determined first second fun entry _ => mentions_of_equalsIgnoringCase same entry.1

/-- A tab, a repeated name, an unknown word and small letters. -/
theorem parse_unites_tab :
    (Text.isBlank '\t' = true ∧ parse "spike|bogus\tAll" = parse "spike|bogus" ||| parse "All") ∧
    ((∀ entry ∈ names, mentions "lowharm; Spike" entry.1 = mentions "SPIKE,,nil lowHarm spike" entry.1) ∧
      parse "lowharm; Spike" = parse "SPIKE,,nil lowHarm spike") ∧
    (Text.equalsIgnoringCase "Low_Harm" "LOW_HARM".toList = true ∧ parse "Low_Harm" = parse "LOW_HARM") ∧
    parse "lowharm; Spike" = ⟨5⟩ ∧ parse (label ⟨0xfd⟩) = ⟨5⟩ := by
  obtain ⟨separated, -, determined, folded, -, labelled⟩ := parse_unites
  refine ⟨⟨rfl, separated "spike|bogus" "All" '\t' (.inr rfl)⟩, ⟨by decide, determined _ _ (by decide)⟩,
    ⟨by decide, folded _ _ (by decide)⟩, by decide, ?_⟩
  rw [labelled]
  decide

end Tag

end EpisodicReplay
