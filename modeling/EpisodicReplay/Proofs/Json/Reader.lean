import EpisodicReplay.Json.Reader
import EpisodicReplay.Proofs.Json.Number
import EpisodicReplay.Proofs.Text.Lines
import Mathlib.Data.Bool.AllAny

/-! How the machine reads text: one equation per first character, and the text of values of each kind. -/

namespace EpisodicReplay.Json
open Decimal (isDigit)
open Number (exponentText fractionText)
variable {machine next : Machine} {token : Token} {value : Value} {char : Char} {rest after text : List Char}
  {frames : List Frame} {awaiting : Awaiting}

theorem run?_nil (machine : Machine) : machine.run? [] = some machine := by
  rw [Machine.run?]

theorem run?_space (space : isSpace char = true) : machine.run? (char :: rest) = machine.run? rest := by
  rw [Machine.run?, if_pos space]

theorem run?_token (solid : isSpace char = false) (read : readToken? (char :: rest) = some (token, after)) :
    machine.run? (char :: rest) = (machine.step? token).bind (·.run? after) := by
  rw [Machine.run?, if_neg (by simp [solid])]
  split
  case h_1 unread => simp [read] at unread
  case h_2 other others same =>
    obtain ⟨rfl, rfl⟩ : token = other ∧ after = others := by simpa [read] using same
    cases machine.step? token <;> rfl

theorem run?_unread (solid : isSpace char = false) (read : readToken? (char :: rest) = none) :
    machine.run? (char :: rest) = none := by
  rw [Machine.run?, if_neg (by simp [solid])]
  split
  case h_1 => rfl
  case h_2 same => simp [read] at same

/-- A value may begin now. -/
def Awaiting.IsValue (awaiting : Awaiting) : Prop :=
  awaiting = .value ∨ awaiting = .valueOrClose

theorem step?_beginValue (begins : awaiting.IsValue) (opens : token ≠ .closeArray) :
    Machine.step? ⟨awaiting, frames⟩ token = Machine.beginValue? frames token := by
  rcases begins with rfl | rfl
  · rfl
  · unfold Machine.step?
    split <;> simp_all

/-- Text on one line that is read as a value, whatever is open and whatever follows. -/
structure Spells (text : List Char) (value : Value) : Prop where
  single : Text.IsLine text
  read : ∀ (awaiting : Awaiting) (frames : List Frame) (rest : List Char), awaiting.IsValue → EndsNumber rest →
    Machine.run? ⟨awaiting, frames⟩ (text ++ rest) = (Machine.accept value frames).run? rest

/-- Text that is one scalar token. -/
theorem spells_scalar (single : Text.IsLine (char :: text)) (solid : isSpace char = false)
    (read : ∀ rest, EndsNumber rest → readToken? (char :: text ++ rest) = some (.scalar value, rest)) :
    Spells (char :: text) value where
  single := single
  read := by
    intro awaiting frames rest begins ends
    have read := read rest ends
    rw [List.cons_append] at read ⊢
    rw [run?_token solid read, step?_beginValue begins (by simp)]
    rfl

theorem spells_null : Spells "null".toList .null :=
  spells_scalar (by unfold Text.IsLine; decide) (by decide) fun _ _ => rfl

theorem readToken?_number (begins : char ∈ "-0123456789".toList) :
    readToken? (char :: rest) =
      (readNumber? (char :: rest)).map fun (number, rest) => (.scalar (.number number), rest) := by
  unfold readToken?
  split
  case h_1 equal => cases equal
  case h_12 => rfl
  all_goals
    rename_i equal
    obtain ⟨rfl, -⟩ := List.cons.inj equal
    exact absurd begins (by decide)

theorem number_solid : ∀ char ∈ "-0123456789".toList, isSpace char = false :=
  List.all_iff_forall_prop.mp rfl

theorem digit_begins_number : ∀ char ∈ "0123456789".toList, char ∈ "-0123456789".toList :=
  List.all_iff_forall_prop.mp rfl

theorem Number.IsSpelled.text_eq {number : Number} (spelled : number.IsSpelled) :
    ∃ first others, number.text = first :: others ∧ first ∈ "-0123456789".toList := by
  obtain ⟨first, others, whole⟩ := List.exists_cons_of_ne_nil spelled.whole.nonempty
  rw [Number.text, whole]
  split
  · exact ⟨_, _, rfl, by decide⟩
  · refine ⟨first, _, rfl, digit_begins_number first (Decimal.mem_of_isDigit (spelled.whole.numeric first ?_))⟩
    rw [whole]
    exact List.mem_cons_self

theorem Number.IsSpelled.isLine {number : Number} (spelled : number.IsSpelled) : Text.IsLine number.text := by
  have absent {char : Char} (other : isDigit char = false) (outside : char ∉ ['-', '+', '.', 'e']) :
      char ∉ number.text := by
    have run {digits : List Char} (numeric : ∀ char ∈ digits, isDigit char = true) : char ∉ digits := by
      intro member
      rw [numeric char member] at other
      cases other
    simp only [List.mem_cons, List.not_mem_nil, or_false, not_or] at outside
    obtain ⟨minus, plus, point, mark⟩ := outside
    have sign : char ∉ (if number.negative then ['-'] else []) := by
      split <;> simp [minus]
    have fraction : char ∉ fractionText number.fraction := by
      have := run spelled.fraction
      unfold fractionText
      split <;> simp_all
    have exponent : char ∉ exponentText number.exponent := by
      cases parts : number.exponent with
      | none => simp [exponentText]
      | some pair =>
          obtain ⟨negative, digits⟩ := pair
          have := run (spelled.exponent negative digits parts).2
          cases negative <;> simp_all [exponentText]
    simp only [Number.text, List.mem_append, not_or]
    exact ⟨sign, run spelled.whole.numeric, fraction, exponent⟩
  exact ⟨absent (by decide) (by decide), absent (by decide) (by decide)⟩

theorem Number.IsSpelled.spells {number : Number} (spelled : number.IsSpelled) :
    Spells number.text (.number number) := by
  obtain ⟨first, others, text, begins⟩ := spelled.text_eq
  have single := spelled.isLine
  rw [text] at single ⊢
  refine spells_scalar single (number_solid first begins) fun rest ends => ?_
  have read := readNumber?_text spelled ends
  rw [text, List.cons_append] at read
  rw [List.cons_append, readToken?_number begins, read]
  rfl

end EpisodicReplay.Json
