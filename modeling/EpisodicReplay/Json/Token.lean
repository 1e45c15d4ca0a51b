import EpisodicReplay.Json.Syntax

/-! The tokens of JSON text. Each takes at least one character, so a text holds finitely many. -/

namespace EpisodicReplay.Json

inductive Token where
  | openArray
  | closeArray
  | openObject
  | closeObject
  | colon
  | comma
  | string (pieces : List Piece)
  | scalar (value : Value)

def isSpace (char : Char) : Bool :=
  char == ' ' || char == '\n' || char == '\t' || char == '\r'

def hexDigit? (char : Char) : Option Nat :=
  if '0' ≤ char ∧ char ≤ '9' then some (char.toNat - '0'.toNat)
  else if 'a' ≤ char ∧ char ≤ 'f' then some (char.toNat - 'a'.toNat + 10)
  else if 'A' ≤ char ∧ char ≤ 'F' then some (char.toNat - 'A'.toNat + 10)
  else none

def hexValue? (chars : List Char) : Option Nat :=
  chars.foldlM (fun value char => (hexDigit? char).map (16 * value + ·)) 0

/-- The character that a one-letter escape stands for. -/
def escaped? : Char → Option Char
  | '"' => some '"'
  | '\\' => some '\\'
  | '/' => some '/'
  | 'b' => some '\x08'
  | 'f' => some '\x0c'
  | 'n' => some '\n'
  | 'r' => some '\r'
  | 't' => some '\t'
  | _ => none

/-- Reads the inside of a string up to its closing quote. The pieces before are kept in reverse. -/
def readString? (before : List Piece) : List Char → Option (List Piece × List Char)
  | [] => none
  | '"' :: rest => some (before.reverse, rest)
  | '\\' :: 'u' :: first :: second :: third :: fourth :: rest =>
    match hexValue? [first, second, third, fourth] with
    | some code => readString? (.unit code :: before) rest
    | none => none
  | '\\' :: letter :: rest =>
    match escaped? letter with
    | some char => readString? (.char char :: before) rest
    | none => none
  | char :: rest => if char < ' ' ∨ char = '\\' then none else readString? (.char char :: before) rest

/-- Digits of a whole part: a zero stands alone. -/
def readWhole? (chars : List Char) : Option (List Char × List Char) :=
  let digits := chars.takeWhile Decimal.isDigit
  if digits.isEmpty || digits.head? = some '0' && digits.length ≠ 1 then none
  else some (digits, chars.dropWhile Decimal.isDigit)

def readFraction? : List Char → Option (List Char × List Char)
  | '.' :: rest =>
    let digits := rest.takeWhile Decimal.isDigit
    if digits.isEmpty then none else some (digits, rest.dropWhile Decimal.isDigit)
  | chars => some ([], chars)

def readExponentDigits? (negative : Bool) (chars : List Char) : Option (Option (Bool × List Char) × List Char) :=
  let digits := chars.takeWhile Decimal.isDigit
  if digits.isEmpty then none else some (some (negative, digits), chars.dropWhile Decimal.isDigit)

def readExponent? : List Char → Option (Option (Bool × List Char) × List Char)
  | [] => some (none, [])
  | mark :: rest =>
    if mark = 'e' ∨ mark = 'E' then
      match rest with
      | '-' :: digits => readExponentDigits? true digits
      | '+' :: digits => readExponentDigits? false digits
      | digits => readExponentDigits? false digits
    else some (none, mark :: rest)

def readUnsigned? (negative : Bool) (chars : List Char) : Option (Number × List Char) := do
  let (whole, rest) ← readWhole? chars
  let (fraction, rest) ← readFraction? rest
  let (exponent, rest) ← readExponent? rest
  return (⟨negative, whole, fraction, exponent⟩, rest)

def readNumber? : List Char → Option (Number × List Char)
  | '-' :: rest => readUnsigned? true rest
  | chars => readUnsigned? false chars

/-- What follows a word that spells a value. -/
def readWord? (word : String) (value : Value) (chars : List Char) : Option (Token × List Char) :=
  if word.toList.isPrefixOf chars then some (.scalar value, chars.drop word.length) else none

/-- The first token of some text that begins with no space. -/
def readToken? (chars : List Char) : Option (Token × List Char) :=
  match chars with
  | [] => none
  | '[' :: rest => some (.openArray, rest)
  | ']' :: rest => some (.closeArray, rest)
  | '\x7b' :: rest => some (.openObject, rest)
  | '\x7d' :: rest => some (.closeObject, rest)
  | ':' :: rest => some (.colon, rest)
  | ',' :: rest => some (.comma, rest)
  | '"' :: rest => (readString? [] rest).map fun (pieces, rest) => (.string pieces, rest)
  | 'n' :: _ => readWord? "null" .null chars
  | 't' :: _ => readWord? "true" (.boolean true) chars
  | 'f' :: _ => readWord? "false" (.boolean false) chars
  | _ => (readNumber? chars).map fun (number, rest) => (.scalar (.number number), rest)

theorem readString?_length {before pieces : List Piece} {chars rest : List Char}
    (read : readString? before chars = some (pieces, rest)) : rest.length < chars.length := by
  fun_induction readString? before chars <;> simp_all <;> omega

theorem length_dropWhile_le (isPart : Char → Bool) (chars : List Char) :
    (chars.dropWhile isPart).length ≤ chars.length :=
  (List.dropWhile_suffix isPart).length_le

theorem readWhole?_length {chars digits rest : List Char} (read : readWhole? chars = some (digits, rest)) :
    rest.length < chars.length := by
  have split := congrArg List.length (List.takeWhile_append_dropWhile (p := Decimal.isDigit) (l := chars))
  simp only [readWhole?, Option.ite_none_left_eq_some, Option.some.injEq, Prod.mk.injEq] at read
  obtain ⟨some_digit, rfl, rfl⟩ := read
  cases digits : chars.takeWhile Decimal.isDigit with
  | nil => simp_all
  | cons first others =>
    simp_all
    omega

theorem readFraction?_length {chars digits rest : List Char} (read : readFraction? chars = some (digits, rest)) :
    rest.length ≤ chars.length := by
  unfold readFraction? at read
  split at read
  · rename_i after
    have := length_dropWhile_le Decimal.isDigit after
    dsimp only at read
    split at read <;> simp_all
    omega
  · simp_all

theorem readExponentDigits?_length {negative : Bool} {chars rest : List Char} {exponent : Option (Bool × List Char)}
    (read : readExponentDigits? negative chars = some (exponent, rest)) : rest.length ≤ chars.length := by
  have := length_dropWhile_le Decimal.isDigit chars
  simp only [readExponentDigits?] at read
  split at read <;> simp_all

theorem readExponent?_length {chars rest : List Char} {exponent : Option (Bool × List Char)}
    (read : readExponent? chars = some (exponent, rest)) : rest.length ≤ chars.length := by
  unfold readExponent? at read
  split at read
  · simp_all
  · split at read
    · split at read
      all_goals
        have := readExponentDigits?_length read
        grind
    · simp_all

theorem readUnsigned?_length {negative : Bool} {chars rest : List Char} {number : Number}
    (read : readUnsigned? negative chars = some (number, rest)) : rest.length < chars.length := by
  simp only [readUnsigned?, Option.bind_eq_bind, Option.bind_eq_some_iff, Prod.exists] at read
  obtain ⟨whole, afterWhole, readsWhole, fraction, afterFraction, readsFraction, exponent, afterExponent,
    readsExponent, same⟩ := read
  have := readWhole?_length readsWhole
  have := readFraction?_length readsFraction
  have := readExponent?_length readsExponent
  grind

theorem readNumber?_length {chars rest : List Char} {number : Number}
    (read : readNumber? chars = some (number, rest)) : rest.length < chars.length := by
  unfold readNumber? at read
  split at read
  all_goals
    have := readUnsigned?_length read
    grind

theorem readWord?_length {word : String} {value : Value} {chars rest : List Char} {token : Token}
    (letters : 0 < word.length) (read : readWord? word value (chars) = some (token, rest)) :
    rest.length < chars.length := by
  simp only [readWord?] at read
  split at read
  · rename_i begins
    have := (List.isPrefixOf_iff_prefix.1 begins).length_le
    rw [String.length_toList] at this
    grind
  · simp_all

/-- A token takes at least one character. -/
theorem readToken?_length {chars rest : List Char} {token : Token} (read : readToken? chars = some (token, rest)) :
    rest.length < chars.length := by
  unfold readToken? at read
  split at read
  case h_8 =>
    obtain ⟨result, reads, same⟩ := Option.map_eq_some_iff.1 read
    have := readString?_length reads
    grind
  case h_12 =>
    obtain ⟨result, reads, same⟩ := Option.map_eq_some_iff.1 read
    have := readNumber?_length reads
    grind
  case h_9 | h_10 | h_11 => exact readWord?_length (by decide) read
  all_goals simp_all

end EpisodicReplay.Json
