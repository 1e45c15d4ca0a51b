import EpisodicReplay.Text.Blank
import Mathlib.Data.List.TakeWhile

/-! Splitting undoes joining, and trimming leaves text alone that has no blank end. -/

namespace EpisodicReplay.Text

section split
variable {α : Type} {isSeparator : α → Bool} {separator : α} {front back : List α}

theorem splitBy_cons_separator (isEnd : isSeparator separator = true) :
    splitBy isSeparator (separator :: back) = [] :: splitBy isSeparator back := by
  simp [splitBy, isEnd]

theorem splitBy_of_forall (plain : ∀ item ∈ front, isSeparator item = false) : splitBy isSeparator front = [front] := by
  induction front with
  | nil => rfl
  | cons item rest inductionHypothesis =>
      have tail := inductionHypothesis fun other member => plain other (List.mem_cons_of_mem item member)
      unfold splitBy at tail ⊢
      rw [List.foldr_cons, tail, plain item List.mem_cons_self]
      rfl

theorem splitBy_append_separator (plain : ∀ item ∈ front, isSeparator item = false)
    (isEnd : isSeparator separator = true) :
    splitBy isSeparator (front ++ separator :: back) = front :: splitBy isSeparator back := by
  induction front with
  | nil => exact splitBy_cons_separator isEnd
  | cons item rest inductionHypothesis =>
      have tail := inductionHypothesis fun other member => plain other (List.mem_cons_of_mem item member)
      unfold splitBy at tail ⊢
      rw [List.cons_append, List.foldr_cons, tail, plain item List.mem_cons_self]
      rfl

/-- Parts that each end with a separator, and an empty rest. -/
theorem splitBy_flatMap_append {parts : List (List α)} (plain : ∀ part ∈ parts, ∀ item ∈ part, isSeparator item = false)
    (isEnd : isSeparator separator = true) :
    splitBy isSeparator (parts.flatMap (· ++ [separator])) = parts ++ [[]] := by
  induction parts with
  | nil => rfl
  | cons part rest inductionHypothesis =>
      rw [List.flatMap_cons, List.append_assoc, List.singleton_append,
        splitBy_append_separator (plain part List.mem_cons_self) isEnd,
        inductionHypothesis fun other member => plain other (List.mem_cons_of_mem part member)]
      rfl

/-- A first part, and further parts that each begin with a separator. -/
theorem splitBy_append_flatMap {parts : List (List α)} (frontPlain : ∀ item ∈ front, isSeparator item = false)
    (plain : ∀ part ∈ parts, ∀ item ∈ part, isSeparator item = false) (isEnd : isSeparator separator = true) :
    splitBy isSeparator (front ++ parts.flatMap (separator :: ·)) = front :: parts := by
  induction parts generalizing front with
  | nil =>
      rw [List.flatMap_nil, List.append_nil]
      exact splitBy_of_forall frontPlain
  | cons part rest inductionHypothesis =>
      rw [List.flatMap_cons, List.cons_append, splitBy_append_separator frontPlain isEnd,
        inductionHypothesis (plain part List.mem_cons_self) fun other member =>
          plain other (List.mem_cons_of_mem part member)]

/-- What follows some text changes only the last of its parts. -/
theorem splitBy_append (front : List α) : ∃ parts last, splitBy isSeparator front = parts ++ [last] ∧
    ∀ back part others, splitBy isSeparator back = part :: others →
      splitBy isSeparator (front ++ back) = parts ++ (last ++ part) :: others := by
  induction front with
  | nil => exact ⟨[], [], rfl, fun back part others split => split⟩
  | cons item rest inductionHypothesis =>
      obtain ⟨parts, last, split, extended⟩ := inductionHypothesis
      cases isEnd : isSeparator item with
      | true =>
          refine ⟨[] :: parts, last, ?_, fun back part others split => ?_⟩
          · rw [splitBy_cons_separator isEnd, split]
            rfl
          · rw [List.cons_append, splitBy_cons_separator isEnd, extended back part others split]
            rfl
      | false =>
          have cons {items : List α} {first : List α} {others : List (List α)}
              (split : splitBy isSeparator items = first :: others) :
              splitBy isSeparator (item :: items) = (item :: first) :: others := by
            unfold splitBy at split ⊢
            rw [List.foldr_cons, split, isEnd]
            rfl
          cases parts with
          | nil =>
              exact ⟨[], item :: last, cons split, fun back part others split => cons (extended back part others split)⟩
          | cons first parts =>
              exact ⟨(item :: first) :: parts, last, cons split,
                fun back part others split => cons (extended back part others split)⟩

/-- A separator ends the parts before it. -/
theorem splitBy_append_cons (front : List α) (isEnd : isSeparator separator = true) :
    splitBy isSeparator (front ++ separator :: back) = splitBy isSeparator front ++ splitBy isSeparator back := by
  obtain ⟨parts, last, split, extended⟩ := @splitBy_append α isSeparator front
  rw [extended _ _ _ (splitBy_cons_separator isEnd), split, List.append_nil, List.append_assoc]
  rfl

theorem splitBy_map {β : Type} (replace : β → α) (items : List β) :
    splitBy isSeparator (items.map replace) = (splitBy (isSeparator ∘ replace) items).map (List.map replace) := by
  induction items with
  | nil => rfl
  | cons item rest inductionHypothesis =>
      unfold splitBy at inductionHypothesis ⊢
      rw [List.map_cons, List.foldr_cons, inductionHypothesis, List.foldr_cons]
      cases isEnd : isSeparator (replace item) with
      | true => simp [isEnd]
      | false => cases List.foldr _ _ rest <;> simp [isEnd]

theorem exists_splitBy_eq_cons (items : List α) : ∃ part others, splitBy isSeparator items = part :: others := by
  obtain ⟨parts, last, split, -⟩ := @splitBy_append α isSeparator items
  cases parts with
  | nil => exact ⟨last, [], split⟩
  | cons part parts => exact ⟨part, parts ++ [last], split⟩

/-- What stands before the first separator belongs to the first part. -/
theorem splitBy_append_of_forall (plain : ∀ item ∈ front, isSeparator item = false) {part : List α}
    {others : List (List α)} (split : splitBy isSeparator back = part :: others) :
    splitBy isSeparator (front ++ back) = (front ++ part) :: others := by
  obtain ⟨parts, last, whole, extended⟩ := @splitBy_append α isSeparator front
  have single := splitBy_of_forall plain
  rw [whole] at single
  obtain ⟨rfl, ⟨⟩⟩ := List.append_eq_singleton_iff.mp single |>.resolve_right fun both => by simp at both
  exact extended back part others split

end split

section join
variable {α : Type} [DecidableEq α] {separator : α} {items part : List α} {others : List (List α)}

theorem splitBy_self_cons (split : splitBy (· == separator) items = part :: others) :
    splitBy (· == separator) (separator :: items) = [] :: part :: others := by
  rw [← split]
  exact splitBy_cons_separator (beq_self_eq_true separator)

theorem splitBy_cons_of_ne {item : α} (inside : item ≠ separator)
    (split : splitBy (· == separator) items = part :: others) :
    splitBy (· == separator) (item :: items) = (item :: part) :: others :=
  @splitBy_append_of_forall α (· == separator) [item] items (by simpa using inside) part others split

/-- The parts of some items, joined by the separator, are the items. -/
theorem intercalate_splitBy (items : List α) : [separator].intercalate (splitBy (· == separator) items) = items := by
  induction items with
  | nil => rfl
  | cons item rest inductionHypothesis =>
      obtain ⟨part, others, split⟩ := @exists_splitBy_eq_cons α (· == separator) rest
      rw [split] at inductionHypothesis
      by_cases isEnd : item = separator
      case pos =>
        subst isEnd
        rw [splitBy_self_cons split, List.intercalate_cons_cons, inductionHypothesis]
        rfl
      case neg =>
        rw [splitBy_cons_of_ne isEnd split, ← inductionHypothesis]
        cases others with
        | nil => rw [List.intercalate_singleton, List.intercalate_singleton]
        | cons other others => rw [List.intercalate_cons_cons, List.intercalate_cons_cons]; rfl

/-- No part holds the separator. -/
theorem not_mem_of_mem_splitBy (items : List α) : ∀ part ∈ splitBy (· == separator) items, separator ∉ part := by
  induction items with
  | nil => simp [splitBy]
  | cons item rest inductionHypothesis =>
      obtain ⟨part, others, split⟩ := @exists_splitBy_eq_cons α (· == separator) rest
      rw [split] at inductionHypothesis
      by_cases isEnd : item = separator
      case pos =>
        subst isEnd
        rw [splitBy_self_cons split]
        exact List.forall_mem_cons.mpr ⟨List.not_mem_nil, inductionHypothesis⟩
      case neg =>
        obtain ⟨first, remaining⟩ := List.forall_mem_cons.mp inductionHypothesis
        rw [splitBy_cons_of_ne isEnd split]
        exact List.forall_mem_cons.mpr ⟨List.not_mem_cons_of_ne_of_not_mem (Ne.symm isEnd) first, remaining⟩

theorem forall_of_not_mem (absent : separator ∉ part) : ∀ item ∈ part, (item == separator) = false := by
  intro item member
  rw [beq_eq_false_iff_ne]
  rintro rfl
  exact absent member

/-- Parts without the separator are what their join is split into. -/
theorem splitBy_intercalate {parts : List (List α)} (some : parts ≠ []) (unbroken : ∀ part ∈ parts, separator ∉ part) :
    splitBy (· == separator) ([separator].intercalate parts) = parts := by
  induction parts with
  | nil => exact absurd rfl some
  | cons part others inductionHypothesis =>
      obtain ⟨first, remaining⟩ := List.forall_mem_cons.mp unbroken
      cases others with
      | nil => rw [List.intercalate_singleton, splitBy_of_forall (forall_of_not_mem first)]
      | cons other others =>
          rw [List.intercalate_cons_cons, List.append_assoc, List.singleton_append,
            splitBy_append_separator (forall_of_not_mem first) (beq_self_eq_true separator),
            inductionHypothesis (List.cons_ne_nil other others) remaining]

end join

section trim
variable {chars left right : List Char}

/-- Blank characters at the ends do not outlast trimming. -/
theorem trim_append_blank (blank : ∀ char ∈ right, isBlank char = true) : trim (chars ++ right) = trim chars := by
  have ended : (chars ++ right).dropWhile isBlank = chars.dropWhile isBlank ++ right ∨
      (chars ++ right).dropWhile isBlank = [] ∧ chars.dropWhile isBlank = [] := by
    rw [List.dropWhile_append]
    cases empty : (chars.dropWhile isBlank).isEmpty with
    | true => exact .inr ⟨List.dropWhile_eq_nil_iff.mpr blank, List.isEmpty_iff.mp empty⟩
    | false => exact .inl rfl
  unfold trim
  rcases ended with kept | ⟨whole, alone⟩
  · have reversed : ∀ char ∈ right.reverse, isBlank char = true := fun char member =>
      blank char (List.mem_reverse.mp member)
    rw [kept, List.reverse_append, List.dropWhile_append_of_pos reversed]
  · rw [whole, alone]

theorem trim_blank_append (blank : ∀ char ∈ left, isBlank char = true) : trim (left ++ chars) = trim chars := by
  unfold trim
  rw [List.dropWhile_append_of_pos blank]

/-- Text is blank but for what trimming leaves. -/
theorem exists_trim (chars : List Char) : ∃ left right, chars = left ++ trim chars ++ right ∧
    (∀ char ∈ left, isBlank char = true) ∧ ∀ char ∈ right, isBlank char = true := by
  let rest := chars.dropWhile isBlank
  refine ⟨chars.takeWhile isBlank, (rest.reverse.takeWhile isBlank).reverse, ?_, fun char member => ?_,
    fun char member => ?_⟩
  · have back : trim chars ++ (rest.reverse.takeWhile isBlank).reverse = rest := by
      rw [trim, ← List.reverse_append, List.takeWhile_append_dropWhile, List.reverse_reverse]
    rw [List.append_assoc, back, List.takeWhile_append_dropWhile]
  · exact List.mem_takeWhile_imp member
  · exact List.mem_takeWhile_imp (List.mem_reverse.mp member)

/-- A character that is not blank ends the trimming before it. -/
theorem exists_trim_cons {char : Char} (solid : isBlank char = false) (rest : List Char) :
    ∃ kept, trim (char :: rest) = char :: kept := by
  have front : (char :: rest).dropWhile isBlank = char :: rest := List.dropWhile_cons_of_neg (by simp [solid])
  have back : (rest.reverse ++ [char]).dropWhile isBlank = rest.reverse.dropWhile isBlank ++ [char] := by
    rw [List.dropWhile_append, List.dropWhile_cons_of_neg (by simp [solid])]
    split
    case isTrue empty => rw [List.isEmpty_iff.mp empty, List.nil_append]
    case isFalse => rfl
  exact ⟨_, by rw [trim, front, List.reverse_cons, back, List.reverse_append]; rfl⟩

end trim

/-- Text without blank characters has nothing to trim. -/
theorem trim_of_forall {chars : List Char} (solid : ∀ char ∈ chars, isBlank char = false) : trim chars = chars := by
  have kept {chars : List Char} (solid : ∀ char ∈ chars, isBlank char = false) : chars.dropWhile isBlank = chars := by
    cases chars with
    | nil => rfl
    | cons char rest => rw [List.dropWhile_cons_of_neg (by simp [solid char List.mem_cons_self])]
  rw [trim, kept solid, kept fun char member => solid char (List.mem_reverse.mp member), List.reverse_reverse]

/-- What follows a beginning is found, and so is what stands before an ending. -/
theorem dropLeading?_append (leading : String) (chars : List Char) :
    dropLeading? leading (leading.toList ++ chars) = some chars := by
  rw [dropLeading?, if_pos (List.isPrefixOf_iff_prefix.mpr (List.prefix_append ..)), ← String.length_toList,
    List.drop_left]

theorem dropLeading?_eq_some_iff {leading : String} {chars rest : List Char} :
    dropLeading? leading chars = some rest ↔ chars = leading.toList ++ rest := by
  constructor
  · intro found
    unfold dropLeading? at found
    split at found
    case isTrue begins =>
      obtain ⟨behind, rfl⟩ := List.isPrefixOf_iff_prefix.mp begins
      rw [← String.length_toList, List.drop_left] at found
      rw [Option.some.inj found]
    case isFalse => cases found
  · rintro rfl
    exact dropLeading?_append leading rest

theorem dropTrailing?_append (trailing : String) (chars : List Char) :
    dropTrailing? trailing (chars ++ trailing.toList) = some chars := by
  rw [dropTrailing?, if_pos (List.isSuffixOf_iff_suffix.mpr (List.suffix_append ..)), List.length_append,
    ← String.length_toList, Nat.add_sub_cancel, List.take_left]

theorem dropTrailing?_eq_some_iff {trailing : String} {chars front : List Char} :
    dropTrailing? trailing chars = some front ↔ chars = front ++ trailing.toList := by
  constructor
  · intro found
    unfold dropTrailing? at found
    split at found
    case isTrue ends =>
      obtain ⟨before, rfl⟩ := List.isSuffixOf_iff_suffix.mp ends
      rw [List.length_append, ← String.length_toList, Nat.add_sub_cancel, List.take_left] at found
      rw [Option.some.inj found]
    case isFalse => cases found
  · rintro rfl
    exact dropTrailing?_append trailing front

end EpisodicReplay.Text
