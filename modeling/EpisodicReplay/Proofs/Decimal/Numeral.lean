import EpisodicReplay.Proofs.Decimal.Digits
import Mathlib.Data.Nat.Digits.Defs
import Mathlib.Data.List.Induction

/-! Which texts are read as numbers: digits, and a plus sign in front of them at most. -/

namespace EpisodicReplay.Decimal
variable {number bound : Nat} {chars : List Char}

/-- The number that digits count to, most significant first. -/
def countOf (chars : List Char) : Nat :=
  Nat.ofDigits 10 (chars.reverse.map fun char => char.toNat - '0'.toNat)

theorem countOf_concat (chars : List Char) (char : Char) :
    countOf (chars ++ [char]) = 10 * countOf chars + (char.toNat - '0'.toNat) := by
  rw [countOf, List.reverse_concat, List.map_cons, Nat.ofDigits_cons, countOf, Nat.add_comm]

theorem digit?_eq_some_iff {char : Char} {digit : Nat} :
    digit? char = some digit ↔ ('0' ≤ char ∧ char ≤ '9') ∧ char.toNat - '0'.toNat = digit := by
  rw [digit?, Option.ite_none_right_eq_some, Option.some.injEq]

theorem digitsValue?_eq_some_iff :
    digitsValue? chars = some number ↔ (∀ char ∈ chars, '0' ≤ char ∧ char ≤ '9') ∧ countOf chars = number := by
  induction chars using List.reverseRecOn generalizing number with
  | nil =>
      rw [and_iff_right (List.forall_mem_nil _)]
      exact Option.some_inj
  | append_singleton chars char inductionHypothesis =>
      rw [digitsValue?_append_singleton, countOf_concat, List.forall_mem_append, List.forall_mem_singleton]
      simp only [Option.bind_eq_some_iff, Option.map_eq_some_iff, inductionHypothesis, digit?_eq_some_iff]
      constructor
      · rintro ⟨front, ⟨numeric, rfl⟩, last, ⟨digit, rfl⟩, rfl⟩
        exact ⟨⟨numeric, digit⟩, rfl⟩
      · rintro ⟨⟨numeric, digit⟩, rfl⟩
        exact ⟨_, ⟨numeric, rfl⟩, _, ⟨digit, rfl⟩, rfl⟩

/-- One or more digits, behind a plus sign or none, that count to a number. Zeros may lead. -/
def Numeral (chars : List Char) (number : Nat) : Prop :=
  ∃ sign digits, chars = sign ++ digits ∧ (sign = [] ∨ sign = ['+']) ∧ digits ≠ [] ∧
    (∀ digit ∈ digits, '0' ≤ digit ∧ digit ≤ '9') ∧ countOf digits = number

theorem readBelow?_eq_some_iff : readBelow? bound chars = some number ↔ Numeral chars number ∧ number < bound := by
  have unsigned (digits : List Char) : (if digits.isEmpty then none else (digitsValue? digits).filter (· < bound)) =
      some number ↔ (digits ≠ [] ∧ (∀ digit ∈ digits, '0' ≤ digit ∧ digit ≤ '9') ∧ countOf digits = number) ∧
        number < bound := by
    rw [Option.ite_none_left_eq_some, List.isEmpty_iff, Option.filter_eq_some_iff, digitsValue?_eq_some_iff,
      decide_eq_true_iff]
    simp only [and_assoc, ne_eq]
  unfold readBelow?
  dsimp only
  rw [unsigned]
  refine and_congr_left' ?_
  split
  case h_1 digits =>
    constructor
    · intro spelled
      exact ⟨['+'], digits, rfl, .inr rfl, spelled⟩
    · rintro ⟨sign, others, split, rfl | rfl, nonempty, numeric, count⟩
      · rw [List.nil_append] at split
        have plus := numeric '+' (split ▸ List.mem_cons_self)
        exact absurd plus (by decide)
      · obtain rfl := (List.cons.inj split).2
        exact ⟨nonempty, numeric, count⟩
  case h_2 noPlus =>
    constructor
    · intro spelled
      exact ⟨[], chars, rfl, .inl rfl, spelled⟩
    · rintro ⟨sign, others, split, rfl | rfl, spelled⟩
      · rw [split]
        exact spelled
      · exact absurd split (noPlus others)

theorem readUInt32?_eq_some_iff {number : UInt32} : readUInt32? chars = some number ↔ Numeral chars number.toNat := by
  rw [readUInt32?, Option.map_eq_some_iff]
  simp only [readBelow?_eq_some_iff]
  constructor
  · rintro ⟨count, ⟨numeral, below⟩, rfl⟩
    rwa [UInt32.toNat_ofNat_of_lt' below]
  · intro numeral
    exact ⟨_, ⟨numeral, number.toNat_lt⟩, UInt32.ofNat_toNat⟩

end EpisodicReplay.Decimal
