import EpisodicReplay.Proofs.Json.Reader

/-!
A record behind a torn line. Whatever the line held, its text and that of the record together spell a value only if
the line was blank: a token that begins in the line ends before the record or at its first quote.
-/

namespace EpisodicReplay.Json
open Decimal (isDigit)

section suffix
variable {stop char : Char} {back chars rest : List Char}

theorem suffix_of_cons (begins : stop :: back <:+ char :: chars) (other : stop ≠ char) : stop :: back <:+ chars :=
  (List.suffix_cons_iff.mp begins).resolve_left fun equal => other (List.cons.inj equal).1

theorem suffix_dropWhile {isPart : Char → Bool} (outside : isPart stop = false) (behind : stop :: back <:+ chars) :
    stop :: back <:+ chars.dropWhile isPart := by
  obtain ⟨front, rfl⟩ := behind
  induction front with
  | nil =>
      have kept : (stop :: back).dropWhile isPart = stop :: back := List.dropWhile_cons_of_neg (by simp [outside])
      exact ⟨[], kept.symm⟩
  | cons char others inductionHypothesis =>
      rw [List.cons_append, List.dropWhile_cons]
      split
      · exact inductionHypothesis
      · exact ⟨char :: others, rfl⟩

end suffix

section token
variable {back chars rest : List Char} {number : Number} {token : Token}

theorem readWhole?_suffix {digits : List Char} (behind : '\x7b' :: back <:+ chars)
    (read : readWhole? chars = some (digits, rest)) : '\x7b' :: back <:+ rest := by
  simp only [readWhole?, Option.ite_none_left_eq_some, Option.some.injEq, Prod.mk.injEq] at read
  obtain ⟨-, -, rfl⟩ := read
  exact suffix_dropWhile (by decide) behind

theorem readFraction?_suffix {digits : List Char} (behind : '\x7b' :: back <:+ chars)
    (read : readFraction? chars = some (digits, rest)) : '\x7b' :: back <:+ rest := by
  unfold readFraction? at read
  split at read
  case h_1 others =>
    simp only [Option.ite_none_left_eq_some, Option.some.injEq, Prod.mk.injEq] at read
    obtain ⟨-, -, rfl⟩ := read
    exact suffix_dropWhile (by decide) (suffix_of_cons behind (by decide))
  case h_2 =>
    cases read
    exact behind

theorem readExponentDigits?_suffix {negative : Bool} {exponent : Option (Bool × List Char)}
    (behind : '\x7b' :: back <:+ chars) (read : readExponentDigits? negative chars = some (exponent, rest)) :
    '\x7b' :: back <:+ rest := by
  simp only [readExponentDigits?, Option.ite_none_left_eq_some, Option.some.injEq, Prod.mk.injEq] at read
  obtain ⟨-, -, rfl⟩ := read
  exact suffix_dropWhile (by decide) behind

theorem readExponent?_suffix {exponent : Option (Bool × List Char)} (behind : '\x7b' :: back <:+ chars)
    (read : readExponent? chars = some (exponent, rest)) : '\x7b' :: back <:+ rest := by
  unfold readExponent? at read
  split at read
  case h_1 =>
    cases read
    exact behind
  case h_2 mark others =>
    split at read
    case isTrue letter =>
      have inside : '\x7b' :: back <:+ others := suffix_of_cons behind (by
        rintro rfl
        exact absurd letter (by decide))
      split at read
      · exact readExponentDigits?_suffix (suffix_of_cons inside (by decide)) read
      · exact readExponentDigits?_suffix (suffix_of_cons inside (by decide)) read
      · exact readExponentDigits?_suffix inside read
    case isFalse =>
      cases read
      exact behind

theorem readUnsigned?_suffix {negative : Bool} (behind : '\x7b' :: back <:+ chars)
    (read : readUnsigned? negative chars = some (number, rest)) : '\x7b' :: back <:+ rest := by
  simp only [readUnsigned?, Option.bind_eq_bind, Option.bind_eq_some_iff, Prod.exists] at read
  obtain ⟨whole, afterWhole, readsWhole, fraction, afterFraction, readsFraction, exponent, afterExponent,
    readsExponent, same⟩ := read
  cases same
  exact readExponent?_suffix (readFraction?_suffix (readWhole?_suffix behind readsWhole) readsFraction) readsExponent

theorem readNumber?_suffix (behind : '\x7b' :: back <:+ chars) (read : readNumber? chars = some (number, rest)) :
    '\x7b' :: back <:+ rest := by
  unfold readNumber? at read
  split at read
  · exact readUnsigned?_suffix (suffix_of_cons behind (by decide)) read
  · exact readUnsigned?_suffix behind read

/-- A word has no brace, so it ends before one. -/
theorem readWord?_suffix {word : String} {value : Value} (plain : '\x7b' ∉ word.toList)
    (behind : '\x7b' :: back <:+ chars) (read : readWord? word value chars = some (token, rest)) :
    '\x7b' :: back <:+ rest := by
  simp only [readWord?, Option.ite_none_right_eq_some, Option.some.injEq, Prod.mk.injEq] at read
  obtain ⟨leads, -, rfl⟩ := read
  obtain ⟨others, rfl⟩ := List.isPrefixOf_iff_prefix.mp leads
  rw [← String.length_toList, List.drop_left]
  generalize word.toList = letters at plain behind
  induction letters with
  | nil => exact behind
  | cons letter letters inductionHypothesis =>
      rw [List.mem_cons, not_or] at plain
      exact inductionHypothesis plain.2 (suffix_of_cons behind plain.1)

/-- A code has no brace either. -/
theorem hexValue?_brace {codes : List Char} (member : '\x7b' ∈ codes) : hexValue? codes = none := by
  unfold hexValue?
  generalize 0 = value
  induction codes generalizing value with
  | nil => cases member
  | cons code others inductionHypothesis =>
      rw [List.foldlM_cons]
      rcases List.mem_cons.mp member with rfl | later
      · rfl
      · cases hexDigit? code with
        | none => rfl
        | some digit => exact inductionHypothesis later _

/-- A string that is open before a record ends at the first quote of the record. -/
theorem readString?_suffix {before pieces : List Piece} (behind : '\x7b' :: '"' :: back <:+ chars)
    (read : readString? before chars = some (pieces, rest)) : '\x7b' :: '"' :: back <:+ rest ∨ rest = back := by
  fun_induction readString? before chars
  case case1 => cases read
  case case2 rest =>
    cases read
    exact .inl (suffix_of_cons behind (by decide))
  case case3 before first second third fourth rest code hex inductionHypothesis =>
    have plain : '\x7b' ∉ [first, second, third, fourth] := by
      intro member
      rw [hexValue?_brace member] at hex
      cases hex
    simp only [List.mem_cons, List.not_mem_nil, or_false, not_or] at plain
    have inside := suffix_of_cons (suffix_of_cons behind (by decide)) (by decide)
    exact inductionHypothesis (suffix_of_cons (suffix_of_cons (suffix_of_cons (suffix_of_cons inside plain.1)
      plain.2.1) plain.2.2.1) plain.2.2.2) read
  case case4 => cases read
  case case5 before letter rest _ char known inductionHypothesis =>
    have plain : '\x7b' ≠ letter := by
      rintro rfl
      cases known
    exact inductionHypothesis (suffix_of_cons (suffix_of_cons behind (by decide)) plain) read
  case case6 => cases read
  case case7 => cases read
  case case8 before char rest _ _ _ _ inductionHypothesis =>
    rcases List.suffix_cons_iff.mp behind with record | inside
    · obtain ⟨rfl, rfl⟩ := List.cons.inj record
      rw [readString?] at read
      cases read
      exact .inr rfl
    · exact inductionHypothesis inside read

/-- A token that begins before a record ends before it, or at its first quote. -/
theorem readToken?_suffix {char : Char} (behind : '\x7b' :: '"' :: back <:+ chars)
    (read : readToken? (char :: chars) = some (token, rest)) : '\x7b' :: '"' :: back <:+ rest ∨ rest = back := by
  have whole : '\x7b' :: '"' :: back <:+ char :: chars := behind.trans (List.suffix_cons char chars)
  unfold readToken? at read
  split at read
  case h_1 equal => cases equal
  case h_8 others equal =>
    obtain ⟨⟨pieces, after⟩, inside, same⟩ := Option.map_eq_some_iff.mp read
    cases same
    cases equal
    exact readString?_suffix behind inside
  case h_9 => exact .inl (readWord?_suffix (by decide) whole read)
  case h_10 => exact .inl (readWord?_suffix (by decide) whole read)
  case h_11 => exact .inl (readWord?_suffix (by decide) whole read)
  case h_12 =>
    obtain ⟨⟨number, after⟩, inside, same⟩ := Option.map_eq_some_iff.mp read
    cases same
    exact .inl (readNumber?_suffix whole inside)
  all_goals
    rename_i others equal
    cases equal
    cases read
    exact .inl behind

end token

section machine
variable {machine next final : Machine} {token : Token} {value : Value} {front back : List Char}

/-- The machine has read a token: where a value may begin, something is open. -/
def Machine.Begun (machine : Machine) : Prop :=
  machine.awaiting.IsValue → machine.frames ≠ []

theorem accept_begun (value : Value) (frames : List Frame) : (Machine.accept value frames).Begun := by
  rintro (equal | equal) <;> cases frames <;> cases equal

theorem beginValue?_begun {frames : List Frame} (stepped : Machine.beginValue? frames token = some next) :
    next.Begun := by
  unfold Machine.beginValue? at stepped
  split at stepped <;> cases stepped
  · exact fun _ => List.cons_ne_nil _ _
  · rintro (equal | equal) <;> cases equal
  · exact accept_begun _ _
  · exact accept_begun _ _

theorem step?_begun (stepped : machine.step? token = some next) : next.Begun := by
  unfold Machine.step? at stepped
  split at stepped
  case h_1 => exact beginValue?_begun stepped
  case h_3 => exact beginValue?_begun stepped
  all_goals
    cases stepped <;> first
      | exact accept_begun _ _
      | exact fun _ => List.cons_ne_nil _ _
      | rintro (equal | equal) <;> cases equal

/-- An object begins only where a value may. -/
theorem step?_openObject (other : ¬machine.awaiting.IsValue) : machine.step? .openObject = none := by
  unfold Machine.step?
  split <;> simp_all [Awaiting.IsValue]

/-- A record in an open container, or where none may stand, completes nothing. -/
theorem run?_torn (spelled : Spells ('\x7b' :: '"' :: back) value)
    (unread : ∀ machine : Machine, machine.run? back = none)
    (begun : machine.Begun) (read : machine.run? (front ++ '\x7b' :: '"' :: back) = some final) (result : Value) :
    final.awaiting ≠ .nothing result := by
  induction size : front.length using Nat.strongRecOn generalizing front machine with
  | _ length inductionHypothesis =>
    cases front with
    | nil =>
        by_cases awaited : machine.awaiting.IsValue
        · have complete := spelled.read machine.awaiting machine.frames [] awaited endsNumber_nil
          rw [List.append_nil, run?_nil] at complete
          obtain rfl := Option.some.inj (complete.symm.trans read)
          obtain ⟨frame, frames, opened⟩ := List.exists_cons_of_ne_nil (begun awaited)
          rw [opened]
          exact fun equal => nomatch equal
        · have brace : readToken? ('\x7b' :: '"' :: back) = some (.openObject, '"' :: back) := rfl
          rw [List.nil_append, run?_token (by decide) brace, step?_openObject awaited] at read
          cases read
    | cons char others =>
        rw [List.length_cons] at size
        rw [List.cons_append] at read
        cases space : isSpace char with
        | true =>
            rw [run?_space space] at read
            exact inductionHypothesis others.length (by omega) begun read rfl
        | false =>
            cases taken : readToken? (char :: (others ++ '\x7b' :: '"' :: back)) with
            | none =>
                rw [run?_unread space taken] at read
                cases read
            | some pair =>
                obtain ⟨token, rest⟩ := pair
                rw [run?_token space taken] at read
                obtain ⟨next, stepped, read⟩ := Option.bind_eq_some_iff.mp read
                rcases readToken?_suffix ⟨others, rfl⟩ taken with ⟨behind, rfl⟩ | rfl
                · have shorter := readToken?_length taken
                  simp only [List.length_cons, List.length_append] at shorter
                  exact inductionHypothesis behind.length (by omega) (step?_begun stepped) read rfl
                · rw [unread] at read
                  cases read

theorem run?_of_parse? {chars : List Char} (read : parse? chars = some value) :
    ∃ frames, Machine.run? ⟨.value, []⟩ chars = some ⟨.nothing value, frames⟩ := by
  unfold parse? at read
  split at read
  case h_1 result frames run =>
    cases read
    exact ⟨frames, run⟩
  case h_2 => cases read

/-- A line that ends with a record is unreadable, unless only blanks come before the record. -/
theorem parse?_torn {found : Value} (spelled : Spells ('\x7b' :: '"' :: back) value)
    (unread : ∀ machine : Machine, machine.run? back = none)
    (read : parse? (front ++ '\x7b' :: '"' :: back) = some found) : found = value := by
  replace ⟨frames, read⟩ := run?_of_parse? read
  induction front with
  | nil =>
      have complete := spelled.read .value [] [] (.inl rfl) endsNumber_nil
      rw [List.append_nil, Machine.accept, run?_nil] at complete
      cases complete.symm.trans read
      rfl
  | cons char others inductionHypothesis =>
      rw [List.cons_append] at read
      cases space : isSpace char with
      | true =>
          rw [run?_space space] at read
          exact inductionHypothesis read
      | false =>
          cases taken : readToken? (char :: (others ++ '\x7b' :: '"' :: back)) with
          | none =>
              rw [run?_unread space taken] at read
              cases read
          | some pair =>
              obtain ⟨token, rest⟩ := pair
              rw [run?_token space taken] at read
              replace ⟨next, stepped, read⟩ := Option.bind_eq_some_iff.mp read
              rcases readToken?_suffix ⟨others, rfl⟩ taken with ⟨behind, rfl⟩ | rfl
              · exact absurd rfl (run?_torn spelled unread (step?_begun stepped) read found)
              · rw [unread] at read
                cases read

end machine

end EpisodicReplay.Json
