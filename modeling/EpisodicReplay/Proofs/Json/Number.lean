import EpisodicReplay.Json.Token
import EpisodicReplay.Proofs.Decimal.Digits

/-! A spelled number is read up to the first character that cannot belong to it. -/

namespace EpisodicReplay.Json
open Decimal (isDigit)

namespace Number

/-- One or more digits, where a zero at the front stands alone. -/
structure IsWhole (digits : List Char) : Prop where
  nonempty : digits ≠ []
  numeric : ∀ char ∈ digits, isDigit char = true
  canonical : digits.head? = some '0' → digits.length = 1

def fractionText (fraction : List Char) : List Char :=
  if fraction = [] then [] else '.' :: fraction

def exponentText : Option (Bool × List Char) → List Char
  | none => []
  | some (negative, digits) => 'e' :: (if negative then '-' else '+') :: digits

/-- The characters that spell a number. -/
def text (number : Number) : List Char :=
  (if number.negative then ['-'] else []) ++
    (number.whole ++ (fractionText number.fraction ++ exponentText number.exponent))

/-- A number that follows the grammar. -/
structure IsSpelled (number : Number) : Prop where
  whole : IsWhole number.whole
  fraction : ∀ char ∈ number.fraction, isDigit char = true
  exponent : ∀ negative digits, number.exponent = some (negative, digits) →
    digits ≠ [] ∧ ∀ char ∈ digits, isDigit char = true

end Number

open Number (IsSpelled IsWhole exponentText fractionText)

variable {digits fraction rest : List Char} {exponent : Option (Bool × List Char)}

/-- No number goes on into this text. -/
def EndsNumber (rest : List Char) : Prop :=
  ∀ char ∈ rest.head?, isDigit char = false ∧ char ≠ '.' ∧ char ≠ 'e' ∧ char ≠ 'E'

theorem endsNumber_nil : EndsNumber [] :=
  fun _ member => nomatch member

theorem endsNumber_cons {char : Char} (ends : isDigit char = false ∧ char ≠ '.' ∧ char ≠ 'e' ∧ char ≠ 'E') :
    EndsNumber (char :: rest) := by
  rintro _ ⟨⟩
  exact ends

theorem takeWhile_isDigit (numeric : ∀ char ∈ digits, isDigit char = true)
    (ends : ∀ char ∈ rest.head?, isDigit char = false) :
    (digits ++ rest).takeWhile isDigit = digits ∧ (digits ++ rest).dropWhile isDigit = rest := by
  rw [List.takeWhile_append_of_pos numeric, List.dropWhile_append_of_pos numeric]
  cases rest with
  | nil => simp
  | cons char others =>
      have stop := ends char rfl
      simp [stop]

theorem readWhole?_append (whole : IsWhole digits) (ends : ∀ char ∈ rest.head?, isDigit char = false) :
    readWhole? (digits ++ rest) = some (digits, rest) := by
  obtain ⟨taken, dropped⟩ := takeWhile_isDigit whole.numeric ends
  have canonical : ¬(digits.isEmpty || digits.head? = some '0' && digits.length ≠ 1) = true := by
    have nonempty := whole.nonempty
    have alone := whole.canonical
    simp only [Bool.or_eq_true, List.isEmpty_iff, Bool.and_eq_true, decide_eq_true_eq]
    rintro (empty | ⟨zero, long⟩)
    · exact nonempty empty
    · exact long (alone zero)
  simp only [readWhole?, taken, dropped]
  rw [if_neg canonical]

theorem readFraction?_append (numeric : ∀ char ∈ fraction, isDigit char = true)
    (ends : ∀ char ∈ rest.head?, isDigit char = false ∧ char ≠ '.') :
    readFraction? (fractionText fraction ++ rest) = some (fraction, rest) := by
  unfold fractionText
  split
  case isTrue empty =>
    subst empty
    unfold readFraction?
    split
    case h_1 others equal =>
      rw [List.nil_append] at equal
      exact absurd rfl (ends '.' (by rw [equal]; rfl)).2
    case h_2 => rfl
  case isFalse nonempty =>
    obtain ⟨taken, dropped⟩ := takeWhile_isDigit numeric fun char member => (ends char member).1
    simp [readFraction?, taken, dropped, nonempty]

theorem readExponent?_append
    (valid : ∀ negative digits, exponent = some (negative, digits) → digits ≠ [] ∧ ∀ char ∈ digits, isDigit char = true)
    (ends : EndsNumber rest) : readExponent? (exponentText exponent ++ rest) = some (exponent, rest) := by
  cases exponent with
  | none =>
      cases rest with
      | nil => rfl
      | cons char others =>
          obtain ⟨-, -, lower, upper⟩ := ends char rfl
          simp [exponentText, readExponent?, lower, upper]
  | some parts =>
      obtain ⟨negative, digits⟩ := parts
      obtain ⟨nonempty, numeric⟩ := valid negative digits rfl
      obtain ⟨taken, dropped⟩ := takeWhile_isDigit numeric fun char member => (ends char member).1
      cases negative <;>
        simp [exponentText, readExponent?, readExponentDigits?, taken, dropped, nonempty]

/-- What follows the whole part or the fraction begins with no digit. -/
theorem head?_exponentText_append (ends : EndsNumber rest) :
    ∀ char ∈ (exponentText exponent ++ rest).head?, isDigit char = false ∧ char ≠ '.' := by
  cases exponent with
  | none => exact fun char member => ⟨(ends char member).1, (ends char member).2.1⟩
  | some parts =>
      rintro _ ⟨⟩
      decide

theorem head?_fractionText_append (ends : EndsNumber rest) :
    ∀ char ∈ (fractionText fraction ++ (exponentText exponent ++ rest)).head?, isDigit char = false := by
  unfold fractionText
  split
  · exact fun char member => (head?_exponentText_append ends char member).1
  · rintro _ ⟨⟩
    decide

theorem readUnsigned?_append {negative : Bool} {whole : List Char}
    (spelled : IsSpelled ⟨negative, whole, fraction, exponent⟩) (ends : EndsNumber rest) :
    readUnsigned? negative (whole ++ (fractionText fraction ++ (exponentText exponent ++ rest))) =
      some (⟨negative, whole, fraction, exponent⟩, rest) := by
  have readsWhole := readWhole?_append spelled.whole (@head?_fractionText_append fraction rest exponent ends)
  have readsFraction := readFraction?_append spelled.fraction (@head?_exponentText_append rest exponent ends)
  have readsExponent := readExponent?_append spelled.exponent ends
  simp only [readUnsigned?, readsWhole, readsFraction, readsExponent, Option.bind_eq_bind, Option.bind_some]
  rfl

/-- The text of a number begins with a digit, after a sign if there is one. -/
theorem readNumber?_text {number : Number} (spelled : number.IsSpelled) (ends : EndsNumber rest) :
    readNumber? (number.text ++ rest) = some (number, rest) := by
  obtain ⟨negative, whole, fraction, exponent⟩ := number
  have read := readUnsigned?_append spelled ends
  cases negative with
  | true => simpa [Number.text, readNumber?] using read
  | false =>
      obtain ⟨first, others, rfl⟩ := List.exists_cons_of_ne_nil spelled.whole.nonempty
      have unsigned : first ≠ '-' := by
        rintro rfl
        exact absurd (spelled.whole.numeric '-' List.mem_cons_self) (by decide)
      simp only [Number.text, Bool.false_eq_true, if_false, List.nil_append, List.append_assoc]
      unfold readNumber?
      split
      case h_1 equal => exact absurd (List.cons.inj equal).1 unsigned
      case h_2 => exact read

end EpisodicReplay.Json
