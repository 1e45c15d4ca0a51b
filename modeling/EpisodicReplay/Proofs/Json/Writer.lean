import EpisodicReplay.Json.Writer
import EpisodicReplay.Proofs.Binary32
import EpisodicReplay.Proofs.Decimal.Reach
import EpisodicReplay.Proofs.Json.Range
import EpisodicReplay.Proofs.Json.Reader

/-! Written JSON is read back: strings, numbers, and objects of what is read back itself. -/

namespace EpisodicReplay.Json

section string
variable {before : List Piece} {chars rest : List Char} {char : Char}

/-- The piece that a written character is read as. -/
def piece (char : Char) : Piece :=
  if char ∈ ['\n', '\r', '\t', '\x08', '\x0c'] then .char char
  else if char < ' ' then .unit char.toNat
  else .char char

theorem hexValue?_digitChar : ∀ code < 32,
    hexValue? ['0', '0', (code / 16).digitChar, (code % 16).digitChar] = some code := by
  decide

theorem readString?_plain (visible : ¬char < ' ') (quote : char ≠ '"') (slash : char ≠ '\\') :
    readString? before (char :: rest) = readString? (.char char :: before) rest := by
  rw [readString?.eq_def]
  split
  case h_1 equal => cases equal
  case h_2 equal => exact absurd (List.cons.inj equal).1 quote
  case h_3 equal => exact absurd (List.cons.inj equal).1 slash
  case h_4 equal => exact absurd (List.cons.inj equal).1 slash
  case h_5 equal =>
    obtain ⟨rfl, rfl⟩ := List.cons.inj equal
    rw [if_neg (by simp [visible, slash])]

/-- An escaped character is read as its piece. -/
theorem readString?_escape (char : Char) :
    readString? before (escape char ++ rest) = readString? (piece char :: before) rest := by
  unfold escape
  split
  case h_8 quote slash newline carriage tab backspace feed =>
    have named : char ∉ ['\n', '\r', '\t', '\x08', '\x0c'] := by
      simp only [List.mem_cons, List.not_mem_nil, or_false, not_or]
      exact ⟨newline, carriage, tab, backspace, feed⟩
    rw [piece, if_neg named]
    split
    case isTrue control =>
      have code := hexValue?_digitChar char.toNat control
      simp [readString?, code]
    case isFalse visible => exact readString?_plain visible quote slash
  all_goals rfl

theorem readString?_flatMap_escape (chars : List Char) :
    readString? before (chars.flatMap escape ++ '"' :: rest) = some (before.reverse ++ chars.map piece, rest) := by
  induction chars generalizing before with
  | nil => simp [readString?]
  | cons char others inductionHypothesis =>
      rw [List.flatMap_cons, List.append_assoc, readString?_escape, inductionHypothesis]
      simp

/-- The pieces of some text spell it. -/
theorem text?_map_piece (chars : List Char) : text? (chars.map piece) = some chars := by
  induction chars with
  | nil => rfl
  | cons char others inductionHypothesis =>
      rw [List.map_cons, piece]
      split
      · simp [text?, inductionHypothesis]
      · split
        case isTrue control =>
          have small : char.toNat < 32 := control
          rw [text?.eq_def]
          dsimp only
          rw [if_neg (by omega), if_neg (by omega), inductionHypothesis]
          simp
        case isFalse => simp [text?, inductionHypothesis]

theorem writeString_append (name : String) (rest : List Char) :
    writeString name ++ rest = '"' :: (name.toList.flatMap escape ++ '"' :: rest) := by
  simp [writeString]

theorem readToken?_writeString (name : String) (rest : List Char) :
    readToken? ('"' :: (name.toList.flatMap escape ++ '"' :: rest)) = some (.string (name.toList.map piece), rest) := by
  simp [readToken?, readString?_flatMap_escape]

theorem digitChar_ne_break : ∀ digit < 16, digit.digitChar ≠ '\n' ∧ digit.digitChar ≠ '\r' := by
  decide

/-- Escapes leave no line break. -/
theorem escape_isLine (char : Char) : Text.IsLine (escape char) := by
  unfold escape
  split
  case h_8 _ _ newline carriage _ _ _ =>
    split
    case isTrue control =>
      have small : char.toNat < 32 := control
      refine .cons (by decide) (.cons (by decide) (.cons (by decide) (.cons (by decide) (.cons ?_ (.cons ?_ ?_)))))
      · exact digitChar_ne_break _ (by omega)
      · exact digitChar_ne_break _ (by omega)
      · exact Text.isLine_nil
    case isFalse => exact .cons ⟨newline, carriage⟩ Text.isLine_nil
  all_goals
    unfold Text.IsLine
    decide

theorem writeString_isLine (name : String) : Text.IsLine (writeString name) := by
  have inside (chars : List Char) : Text.IsLine (chars.flatMap escape) := by
    induction chars with
    | nil => exact Text.isLine_nil
    | cons char others inductionHypothesis => exact (escape_isLine char).append inductionHypothesis
  exact .append (.cons (by decide) (inside name.toList)) (.cons (by decide) Text.isLine_nil)

theorem spells_writeString (name : String) : Spells (writeString name) (.string (name.toList.map piece)) where
  single := writeString_isLine name
  read := by
    intro awaiting frames rest begins _
    rw [writeString_append, run?_token (by decide) (readToken?_writeString name rest),
      step?_beginValue begins (by simp)]
    rfl

end string

section number
variable {number reach : Nat} {whole fraction : List Char} {negative : Bool} {scaled : Decimal.Scaled} {value : Float32}
open Decimal (Scaled digits isDigit)
open Number (IsSpelled IsWhole exponentText fractionText upward)

theorem isWhole_digits : IsWhole (digits number) where
  nonempty := Decimal.digits_ne_nil
  numeric := Decimal.isDigit_of_mem_digits
  canonical zero := by
    rw [Decimal.head?_digits zero, Decimal.digits_zero]
    rfl

theorem isWhole_singleton {digit : Char} (numeric : isDigit digit = true) : IsWhole [digit] where
  nonempty := by simp
  numeric char member := List.mem_singleton.mp member ▸ numeric
  canonical _ := rfl

theorem isSpelled_plain (wholeValid : IsWhole whole) (numeric : ∀ char ∈ fraction, isDigit char = true) :
    IsSpelled ⟨negative, whole, fraction, none⟩ :=
  ⟨wholeValid, numeric, fun _ _ equal => nomatch equal⟩

theorem spells_writeNat (number : Nat) : Spells (writeNat number) (.number ⟨false, digits number, [], none⟩) := by
  have spelled : IsSpelled ⟨false, digits number, [], none⟩ :=
    isSpelled_plain isWhole_digits fun _ member => nomatch member
  have text : Number.text ⟨false, digits number, [], none⟩ = writeNat number := by
    simp [Number.text, fractionText, exponentText, writeNat]
  exact text ▸ spelled.spells

/-- Text of a number without its sign, and how far the number reaches in front of the point at most. -/
def IsMagnitude (reach : Nat) (text : List Char) : Prop :=
  ∃ whole fraction exponent, (∀ negative, IsSpelled ⟨negative, whole, fraction, exponent⟩) ∧
    whole.length + upward exponent ≤ reach ∧ text = whole ++ (fractionText fraction ++ exponentText exponent)

theorem isMagnitude_point (wholeValid : IsWhole whole) (numeric : ∀ char ∈ fraction, isDigit char = true)
    (nonempty : fraction ≠ []) (fits : whole.length ≤ reach) : IsMagnitude reach (whole ++ '.' :: fraction) :=
  ⟨whole, fraction, none, fun _ => isSpelled_plain wholeValid numeric, fits,
    by simp [fractionText, exponentText, nonempty]⟩

theorem scientific_isMagnitude (scaled : Scaled) : IsMagnitude scaled.reach scaled.scientific := by
  obtain ⟨first, others, spelling⟩ := List.exists_cons_of_ne_nil (@Decimal.digits_ne_nil scaled.significand)
  have numeric : ∀ char ∈ first :: others, isDigit char = true := spelling ▸ Decimal.isDigit_of_mem_digits
  let exponent := scaled.exponent + (first :: others).length - 1
  refine ⟨[first], others, some (decide (exponent < 0), digits exponent.natAbs), fun negative =>
    ⟨isWhole_singleton (numeric first List.mem_cons_self), fun char member => ?_, fun _ _ equal => ?_⟩, ?_, ?_⟩
  · exact numeric char (List.mem_cons_of_mem first member)
  · obtain ⟨rfl, rfl⟩ := Prod.mk.inj (Option.some.inj equal)
    exact ⟨Decimal.digits_ne_nil, Decimal.isDigit_of_mem_digits⟩
  · rw [Scaled.reach, spelling]
    change 1 + upward _ ≤ exponent.toNat + 1
    by_cases down : exponent < 0
    · rw [decide_eq_true down]
      exact Nat.le_add_left 1 _
    · rw [decide_eq_false down, upward, Decimal.digitsValue?_digits, Option.getD_some]
      omega
  · rw [Scaled.scientific, spelling]
    cases others <;> simp [fractionText, exponentText, exponent]

theorem positional_isMagnitude (fractional : scaled.exponent < 0) : IsMagnitude scaled.reach scaled.positional := by
  obtain ⟨significand, exponent⟩ := scaled
  cases exponent with
  | ofNat zeros => exact absurd fractional (Int.not_lt.mpr (Int.natCast_nonneg zeros))
  | negSucc dropped =>
      let padded := Decimal.paddedDigits (dropped + 2) significand
      have length : padded.length = max (dropped + 2) (digits significand).length := Decimal.length_paddedDigits
      have numeric : ∀ char ∈ padded, isDigit char = true := Decimal.isDigit_of_mem_paddedDigits
      change IsMagnitude _ (padded.take (padded.length - (dropped + 1)) ++
        '.' :: padded.drop (padded.length - (dropped + 1)))
      apply isMagnitude_point
      · refine ⟨?_, fun char member => numeric char (List.mem_of_mem_take member), fun zero => ?_⟩
        · rw [ne_eq, ← List.length_eq_zero_iff, List.length_take]
          omega
        · rw [List.length_take]
          rw [List.head?_take, if_neg (by omega)] at zero
          by_cases filled : (digits significand).length ≤ dropped + 2
          · omega
          · -- Without zeros in front only the digits of zero begin with a zero, and they are fewer.
            have plain : padded = digits significand := Decimal.paddedDigits_of_le (by omega)
            rw [plain] at zero
            rw [Decimal.head?_digits zero, Decimal.digits_zero, List.length_singleton] at filled
            omega
      · exact fun char member => numeric char (List.mem_of_mem_drop member)
      · rw [ne_eq, ← List.length_eq_zero_iff, List.length_drop]
        omega
      · rw [List.length_take, Scaled.reach]
        dsimp only
        omega

theorem positional_append_isMagnitude (whole : 0 ≤ scaled.exponent)
    (positive : 0 < scaled.significand ∨ scaled = ⟨0, 0⟩) :
    IsMagnitude scaled.reach (scaled.positional ++ ".0".toList) := by
  obtain ⟨significand, exponent⟩ := scaled
  obtain ⟨zeros, rfl⟩ := Int.eq_ofNat_of_zero_le whole
  have padded : IsWhole (digits significand ++ List.replicate zeros '0') := by
    refine ⟨fun empty => Decimal.digits_ne_nil (List.append_eq_nil_iff.mp empty).1, fun char member => ?_,
      fun zero => ?_⟩
    · rcases List.mem_append.mp member with digit | filling
      · exact Decimal.isDigit_of_mem_digits char digit
      · rw [List.eq_of_mem_replicate filling]
        decide
    · rw [Decimal.head?_digits_append] at zero
      obtain rfl := Decimal.head?_digits zero
      rcases positive with absurdity | plain
      · cases absurdity
      · obtain rfl : zeros = 0 := by simpa using plain
        rw [Decimal.digits_zero]
        rfl
  refine isMagnitude_point padded (List.all_eq_true.mp rfl) (by decide) ?_
  have some_digit := List.length_pos_of_ne_nil (@Decimal.digits_ne_nil significand)
  change (digits significand ++ List.replicate zeros '0').length ≤ _
  rw [List.length_append, List.length_replicate, Scaled.reach]
  dsimp only
  omega

theorem writeMagnitude_isMagnitude (positive : 0 < scaled.significand ∨ scaled = ⟨0, 0⟩) :
    IsMagnitude scaled.reach (writeMagnitude scaled) := by
  unfold writeMagnitude
  dsimp only
  split
  · exact scientific_isMagnitude scaled
  · split
    case isTrue fractional => exact positional_isMagnitude fractional
    case isFalse whole => exact positional_append_isMagnitude (Int.not_lt.mp whole) positive

theorem IsMagnitude.spells {text : List Char} (magnitude : IsMagnitude reach text) (near : reach ≤ 40)
    (sign : Float.Model.UnpackedFloat.Sign) :
    ∃ number, Spells (Decimal.signText sign ++ text) (.number number) ∧ number.value?.isSome := by
  obtain ⟨whole, fraction, exponent, spelled, fits, rfl⟩ := magnitude
  have valued (negative : Bool) : Number.value? ⟨negative, whole, fraction, exponent⟩ |>.isSome :=
    Number.value?_isSome (Nat.le_trans fits near)
  cases sign with
  | negative => exact ⟨_, (spelled true).spells, valued true⟩
  | positive => exact ⟨_, (spelled false).spells, valued false⟩

/-- A finite number is written as a number that has a value. -/
theorem spells_writeFloat32_of_isFinite (finite : value.isFinite = true) :
    ∃ number, Spells (writeFloat32 value) (.number number) ∧ number.value?.isSome := by
  have small := Binary32.magnitude_lt_limit value
  change value.toModel.unpack.isFinite = true at finite
  unfold writeFloat32
  split
  case h_1 unpacked | h_2 unpacked => simp [unpacked, Float.Model.UnpackedFloat.isFinite] at finite
  case h_3 sign _ =>
    have zero : IsMagnitude 1 "0.0".toList :=
      isMagnitude_point (isWhole_singleton rfl) (List.all_eq_true.mp rfl) (by decide) (Nat.le_refl 1)
    exact zero.spells (by decide) sign
  case h_4 sign mantissa exponent positive unpacked =>
    rw [unpacked] at small
    have shape := Decimal.shortest_pos .even positive exponent
    have reach := Decimal.Scaled.reach_le (by decide) (Decimal.shortest_value_lt small) shape
    exact (writeMagnitude_isMagnitude shape).spells reach sign

/-- What is not finite is written as null. -/
theorem spells_writeFloat32_of_not_isFinite (infinite : value.isFinite = false) :
    Spells (writeFloat32 value) .null := by
  change value.toModel.unpack.isFinite = false at infinite
  unfold writeFloat32
  split
  case h_1 | h_2 => exact spells_null
  case h_3 unpacked | h_4 unpacked => simp [unpacked, Float.Model.UnpackedFloat.isFinite] at infinite

/-- Every number is written as a value. -/
theorem spells_writeFloat32 (value : Float32) : ∃ spelled, Spells (writeFloat32 value) spelled := by
  cases finite : value.isFinite with
  | true =>
      obtain ⟨number, spelled, -⟩ := spells_writeFloat32_of_isFinite finite
      exact ⟨_, spelled⟩
  | false => exact ⟨_, spells_writeFloat32_of_not_isFinite finite⟩

end number

section object

/-- A member of a written object. -/
structure Member where
  name : String
  text : List Char
  value : Value
  spelled : Spells text value

variable {frames : List Frame} {rest : List Char} {members : List Member}

def Member.written (member : Member) : String × List Char :=
  (member.name, member.text)

/-- The characters of a member between the commas. -/
def Member.spelling (member : Member) : List Char :=
  writeString member.name ++ ':' :: member.text

def Member.read (member : Member) : List Piece × Value :=
  (member.name.toList.map piece, member.value)

theorem writeObject_eq (members : List Member) : writeObject (members.map Member.written) =
    '\x7b' :: ([','].intercalate (members.map Member.spelling) ++ ['\x7d']) := by
  rw [writeObject, List.map_map]
  rfl

/-- A key is awaited, the first one or a later one. -/
def Awaiting.IsKey (awaiting : Awaiting) (before : List (List Piece × Value)) : Prop :=
  awaiting = .key before ∨ awaiting = .keyOrClose ∧ before = []

variable {before : List (List Piece × Value)} {awaiting : Awaiting}

theorem run?_member (awaits : awaiting.IsKey before) (member : Member) (ends : EndsNumber rest) :
    Machine.run? ⟨awaiting, frames⟩ (member.spelling ++ rest) =
      Machine.run? ⟨.commaOrClose member.value, .object before member.read.1 :: frames⟩ rest := by
  have key : Machine.step? ⟨awaiting, frames⟩ (.string member.read.1) = some ⟨.colon before member.read.1, frames⟩ := by
    rcases awaits with rfl | ⟨rfl, rfl⟩ <;> rfl
  have colon (text : List Char) : readToken? (':' :: text) = some (.colon, text) := rfl
  rw [Member.spelling, List.append_assoc, List.cons_append, writeString_append,
    run?_token (by decide) (readToken?_writeString ..)]
  change (Machine.step? ⟨awaiting, frames⟩ (.string member.read.1)).bind _ = _
  rw [key, Option.bind_some, run?_token (by decide) (colon _)]
  exact member.spelled.read .value _ rest (.inl rfl) ends

/-- Members and the closing brace complete an object. -/
theorem run?_members (awaits : awaiting.IsKey before) (nonempty : members ≠ []) :
    Machine.run? ⟨awaiting, frames⟩ ([','].intercalate (members.map Member.spelling) ++ '\x7d' :: rest) =
      (Machine.accept (.object (before.reverse ++ members.map Member.read)) frames).run? rest := by
  have close (text : List Char) : readToken? ('\x7d' :: text) = some (.closeObject, text) := rfl
  have comma (text : List Char) : readToken? (',' :: text) = some (.comma, text) := rfl
  induction members generalizing before awaiting with
  | nil => exact absurd rfl nonempty
  | cons member others inductionHypothesis =>
      cases others with
      | nil =>
          rw [List.map_singleton, List.intercalate_singleton, run?_member awaits member (endsNumber_cons (by decide)),
            run?_token (by decide) (close _)]
          simp [Machine.step?, Member.read]
      | cons second more =>
          have tail := @inductionHypothesis (member.read :: before) (.key (member.read :: before)) (.inl rfl) (by simp)
          rw [List.map_cons] at tail
          rw [List.map_cons, List.map_cons, List.intercalate_cons_cons, List.append_assoc, List.append_assoc,
            List.singleton_append, run?_member awaits member (endsNumber_cons (by decide)),
            run?_token (by decide) (comma _)]
          change Machine.run? ⟨.key (member.read :: before), frames⟩ _ = _
          rw [tail]
          simp

theorem intercalate_isLine (members : List Member) : Text.IsLine ([','].intercalate (members.map Member.spelling)) := by
  have part (member : Member) : Text.IsLine member.spelling :=
    (writeString_isLine member.name).append (.cons (by decide) member.spelled.single)
  induction members with
  | nil => exact Text.isLine_nil
  | cons member others inductionHypothesis =>
      cases others with
      | nil => exact List.intercalate_singleton ▸ part member
      | cons second more =>
          rw [List.map_cons, List.map_cons, List.intercalate_cons_cons]
          exact ((part member).append (.cons (by decide) Text.isLine_nil)).append inductionHypothesis

/-- An object with at least one member is read back. -/
theorem spells_writeObject (nonempty : members ≠ []) :
    Spells (writeObject (members.map Member.written)) (.object (members.map Member.read)) where
  single := by
    rw [writeObject_eq]
    exact .cons (by decide) ((intercalate_isLine members).append (.cons (by decide) Text.isLine_nil))
  read := by
    intro awaiting frames rest begins _
    have opening (text : List Char) : readToken? ('\x7b' :: text) = some (.openObject, text) := rfl
    rw [writeObject_eq, List.cons_append, List.append_assoc, run?_token (by decide) (opening _),
      step?_beginValue begins (by simp)]
    exact run?_members (.inr ⟨rfl, rfl⟩) nonempty

end object

/-- Text that spells a value is that value. -/
theorem Spells.parse? {text : List Char} {value : Value} (spelled : Spells text value) : parse? text = some value := by
  have read := spelled.read .value [] [] (.inl rfl) endsNumber_nil
  rw [List.append_nil] at read
  rw [Json.parse?, read, Machine.accept, run?_nil]

/-- A line break behind the text does not matter. -/
theorem Spells.parse?_line {text : List Char} {value : Value} (spelled : Spells text value) :
    Json.parse? (text ++ ['\n']) = some value := by
  have read := spelled.read .value [] ['\n'] (.inl rfl) (endsNumber_cons (by decide))
  rw [Json.parse?, read, Machine.accept, run?_space rfl, run?_nil]

end EpisodicReplay.Json
