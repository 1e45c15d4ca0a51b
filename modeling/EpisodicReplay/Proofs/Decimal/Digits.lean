import EpisodicReplay.Decimal.Digits
import Mathlib.Algebra.Group.Nat.Defs

/-! Digits read back as the number that they were written for. -/

namespace EpisodicReplay.Decimal
variable {number bound width : Nat} {chars : List Char}

theorem digit?_digitChar : ∀ digit < 10, digit? digit.digitChar = some digit := by
  decide

theorem isDigit_digitChar : ∀ digit < 10, isDigit digit.digitChar = true := by
  decide

theorem mem_of_isDigit {char : Char} (numeric : isDigit char = true) : char ∈ "0123456789".toList := by
  have named : ∀ code < 58, 48 ≤ code → Char.ofNat code ∈ "0123456789".toList := by
    decide
  unfold isDigit digit? at numeric
  split at numeric
  case isTrue inside =>
    have upper : char.toNat ≤ 57 := inside.2
    rw [← Char.ofNat_toNat char]
    exact named char.toNat (Nat.lt_succ_of_le upper) inside.1
  case isFalse => cases numeric

theorem isDigit_of_mem_digits : ∀ char ∈ digits number, isDigit char = true := by
  induction number using digits.induct with
  | case1 number small =>
      rw [digits, if_pos small]
      intro char member
      rw [List.mem_singleton.mp member]
      exact isDigit_digitChar number small
  | case2 number large inductionHypothesis =>
      rw [digits, if_neg large]
      intro char member
      rcases List.mem_append.mp member with front | last
      · exact inductionHypothesis char front
      · rw [List.mem_singleton.mp last]
        exact isDigit_digitChar _ (Nat.mod_lt _ (by decide))

theorem digits_ne_nil : digits number ≠ [] := by
  rw [digits]
  split <;> simp

/-- A number below a power of ten has no more digits than its exponent. -/
theorem length_digits_le {places : Nat} (positive : 0 < places) (below : number < 10 ^ places) :
    (digits number).length ≤ places := by
  induction number using digits.induct generalizing places with
  | case1 number small =>
      rw [digits, if_pos small]
      exact positive
  | case2 number large inductionHypothesis =>
      obtain ⟨fewer, rfl⟩ := Nat.exists_eq_succ_of_ne_zero (Nat.ne_of_gt positive)
      rw [Nat.pow_succ] at below
      have several : 0 < fewer := by
        rw [Nat.pos_iff_ne_zero]
        rintro rfl
        omega
      have shorter := inductionHypothesis several (Nat.div_lt_of_lt_mul (by omega))
      rw [digits, if_neg large, List.length_append, List.length_singleton]
      omega

theorem digits_zero : digits 0 = ['0'] := by
  rw [digits]
  rfl

theorem head?_digits_append (rest : List Char) : (digits number ++ rest).head? = (digits number).head? := by
  obtain ⟨char, others, front⟩ := List.exists_cons_of_ne_nil (@digits_ne_nil number)
  rw [front]
  rfl

/-- Only zero begins with a zero. -/
theorem head?_digits (zero : (digits number).head? = some '0') : number = 0 := by
  have first : ∀ digit < 10, digit.digitChar = '0' → digit = 0 := by
    decide
  induction number using digits.induct with
  | case1 number small =>
      rw [digits, if_pos small] at zero
      exact first number small (Option.some.inj zero)
  | case2 number large inductionHypothesis =>
      rw [digits, if_neg large, head?_digits_append] at zero
      have := inductionHypothesis zero
      omega

theorem digitsValue?_append_singleton (chars : List Char) (char : Char) :
    digitsValue? (chars ++ [char]) =
      (digitsValue? chars).bind fun value => (digit? char).map (10 * value + ·) := by
  rw [digitsValue?, List.foldlM_append]
  refine congrArg (Option.bind (digitsValue? chars)) (funext fun value => ?_)
  simp

theorem digitsValue?_digits : digitsValue? (digits number) = some number := by
  induction number using digits.induct with
  | case1 number small =>
      rw [digits, if_pos small, ← List.nil_append [number.digitChar], digitsValue?_append_singleton,
        digit?_digitChar number small]
      exact congrArg some (Nat.zero_add number)
  | case2 number large inductionHypothesis =>
      rw [digits, if_neg large, digitsValue?_append_singleton, inductionHypothesis,
        digit?_digitChar _ (Nat.mod_lt _ (by decide))]
      exact congrArg some (Nat.div_add_mod number 10)

theorem digitsValue?_zero_cons (chars : List Char) : digitsValue? ('0' :: chars) = digitsValue? chars := rfl

theorem digitsValue?_paddedDigits : digitsValue? (paddedDigits width number) = some number := by
  have zeros (count : Nat) : digitsValue? (List.replicate count '0' ++ digits number) = some number := by
    induction count with
    | zero => exact digitsValue?_digits
    | succ count inductionHypothesis =>
        rw [List.replicate_succ, List.cons_append, digitsValue?_zero_cons, inductionHypothesis]
  exact zeros _

theorem isDigit_of_mem_paddedDigits : ∀ char ∈ paddedDigits width number, isDigit char = true := by
  intro char member
  rcases List.mem_append.mp member with zero | digit
  · rw [List.eq_of_mem_replicate zero]
    decide
  · exact isDigit_of_mem_digits char digit

theorem length_paddedDigits : (paddedDigits width number).length = max width (digits number).length :=
  List.length_leftpad ..

theorem width_le_length_paddedDigits : width ≤ (paddedDigits width number).length := by
  rw [length_paddedDigits]
  exact Nat.le_max_left ..

/-- Digits that fill the width need no zeros. -/
theorem paddedDigits_of_le (full : width ≤ (digits number).length) : paddedDigits width number = digits number := by
  rw [paddedDigits, List.leftpad, Nat.sub_eq_zero_of_le full]
  rfl

/-- A run of digits is read whatever zeros it begins with. -/
theorem readBelow?_of_digitsValue? (nonempty : chars ≠ []) (numeric : ∀ char ∈ chars, isDigit char = true)
    (value : digitsValue? chars = some number) (below : number < bound) : readBelow? bound chars = some number := by
  cases chars with
  | nil => exact absurd rfl nonempty
  | cons char rest =>
      have unsigned : char ≠ '+' := by
        rintro rfl
        exact absurd (numeric '+' List.mem_cons_self) (by decide)
      unfold readBelow?
      split
      case h_1 equal => exact absurd (List.cons.inj equal).1 unsigned
      case h_2 => simp [value, below]

theorem readBelow?_digits (below : number < bound) : readBelow? bound (digits number) = some number :=
  readBelow?_of_digitsValue? digits_ne_nil isDigit_of_mem_digits digitsValue?_digits below

theorem readUInt32?_digits (number : UInt32) : readUInt32? (digits number.toNat) = some number := by
  rw [readUInt32?, readBelow?_digits number.toNat_lt]
  exact congrArg some UInt32.ofNat_toNat

theorem lt_of_readBelow? (read : readBelow? bound chars = some number) : number < bound := by
  simp only [readBelow?, Option.ite_none_left_eq_some, Option.filter_eq_some_iff, decide_eq_true_eq] at read
  exact read.2.2

end EpisodicReplay.Decimal
