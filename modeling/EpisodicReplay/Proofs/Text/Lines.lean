import EpisodicReplay.Proofs.Text.Blank
import EpisodicReplay.Text.Lines
import Mathlib.Tactic.SplitIfs

/-! Lines that are written as text are read back as the same lines. -/

namespace EpisodicReplay.Text

/-- The bytes of some text. -/
def encode (chars : List Char) : List UInt8 :=
  chars.flatMap String.utf8EncodeChar

theorem toList_toUTF8_ofList (chars : List Char) : (String.ofList chars).toUTF8.data.toList = encode chars := by
  rw [String.toUTF8_eq_toByteArray, String.toByteArray_ofList, List.utf8Encode, List.toList_data_toByteArray]
  rfl

theorem encode_append (first second : List Char) : encode (first ++ second) = encode first ++ encode second :=
  List.flatMap_append ..

theorem encode_ne_nil {chars : List Char} (nonempty : chars ≠ []) : encode chars ≠ [] := by
  cases chars with
  | nil => exact absurd rfl nonempty
  | cons char others => exact List.append_ne_nil_of_left_ne_nil String.utf8EncodeChar_ne_nil _

/-- The bytes of text are read back as that text. -/
theorem decode?_encode (chars : List Char) : decode? (encode chars) = some (String.ofList chars) := by
  have bytes : (⟨(encode chars).toArray⟩ : ByteArray) = (String.ofList chars).toByteArray := by
    rw [← toList_toUTF8_ofList]
    rfl
  have valid := (String.ofList chars).isValidUTF8
  rw [decode?, bytes, String.fromUTF8?, dif_pos valid]
  rfl

/-- A byte below 128 stands for itself only. -/
theorem eq_of_mem_utf8EncodeChar {char : Char} {byte : UInt8} (small : byte.toNat < 128)
    (member : byte ∈ String.utf8EncodeChar char) : char.toNat = byte.toNat := by
  have large (high : Nat) (above : 128 ≤ high) (below : high < 256) : byte ≠ UInt8.ofNat high := by
    rintro rfl
    rw [UInt8.toNat_ofNat_of_lt' below] at small
    omega
  unfold String.utf8EncodeChar at member
  change byte ∈ ite (char.toNat ≤ 127) _ (ite (char.toNat ≤ 2047) _ (ite (char.toNat ≤ 65535) _ _)) at member
  split_ifs at member with one two three <;> simp only [List.mem_cons, List.not_mem_nil, or_false] at member
  · rw [member, UInt8.toNat_ofNat_of_lt' (show char.val.toNat < 2 ^ 8 by change char.toNat < 256; omega)]
    rfl
  · rcases member with equal | equal <;> exact absurd equal (large _ (by omega) (by omega))
  · rcases member with equal | equal | equal <;> exact absurd equal (large _ (by omega) (by omega))
  · rcases member with equal | equal | equal | equal <;> exact absurd equal (large _ (by omega) (by omega))

theorem mem_of_mem_encode {chars : List Char} {byte : UInt8} (small : byte.toNat < 128) (member : byte ∈ encode chars) :
    ∃ char ∈ chars, char.toNat = byte.toNat := by
  obtain ⟨char, among, inside⟩ := List.mem_flatMap.mp member
  exact ⟨char, among, eq_of_mem_utf8EncodeChar small inside⟩

theorem encode_injective {first second : List Char} (same : encode first = encode second) : first = second := by
  have decoded := decode?_encode first
  rw [same, decode?_encode second] at decoded
  exact (String.ofList_injective (Option.some.inj decoded)).symm

theorem utf8EncodeChar_of_small {char : Char} (small : char.toNat < 128) :
    String.utf8EncodeChar char = [UInt8.ofNat char.toNat] := by
  unfold String.utf8EncodeChar
  change ite (char.toNat ≤ 127) _ _ = _
  rw [if_pos (by omega)]
  rfl

theorem eq_of_ascii_mem {first char : Char} (small : char.toNat < 128)
    (member : UInt8.ofNat char.toNat ∈ String.utf8EncodeChar first) : first = char := by
  have code : (UInt8.ofNat char.toNat).toNat = char.toNat :=
    UInt8.toNat_ofNat_of_lt' (Nat.lt_trans small (by decide))
  have same := eq_of_mem_utf8EncodeChar (by rwa [code]) member
  exact Char.toNat_inj.mp (same.trans code)

/-- An ASCII character is never inside the bytes of another one. -/
theorem eq_append_of_encode {chars rest : List Char} {char : Char} {bytes : List UInt8} (small : char.toNat < 128)
    (same : encode chars = bytes ++ encode (char :: rest)) :
    ∃ front, bytes = encode front ∧ chars = front ++ char :: rest := by
  have ascii := utf8EncodeChar_of_small small
  induction chars generalizing bytes with
  | nil => exact absurd (List.append_eq_nil_iff.mp same.symm).2 (encode_ne_nil (by simp))
  | cons first others inductionHypothesis =>
      rcases List.append_eq_append_iff.mp (show String.utf8EncodeChar first ++ encode others = _ from same) with
        ⟨later, rfl, tail⟩ | ⟨piece, inside, tail⟩
      · obtain ⟨front, rfl, rfl⟩ := inductionHypothesis tail
        exact ⟨first :: front, rfl, rfl⟩
      · cases piece with
        | nil =>
            obtain ⟨front, empty, rfl⟩ := @inductionHypothesis [] tail.symm
            refine ⟨first :: front, ?_, rfl⟩
            rw [List.append_nil] at inside
            change bytes = String.utf8EncodeChar first ++ encode front
            rw [← empty, ← inside, List.append_nil]
        | cons byte piece =>
            change String.utf8EncodeChar char ++ encode rest = _ at tail
            rw [ascii] at tail
            obtain ⟨rfl, remainder⟩ := List.cons.inj tail
            obtain rfl := eq_of_ascii_mem small (inside ▸ List.mem_append_right bytes List.mem_cons_self)
            rw [ascii] at inside
            obtain ⟨rfl, rfl⟩ : bytes = [] ∧ piece = [] := by
              cases bytes with
              | nil => exact ⟨rfl, (List.cons.inj inside).2.symm⟩
              | cons byte bytes => exact absurd (List.cons.inj inside).2.symm (by simp)
            exact ⟨[], rfl, congrArg (first :: ·) (encode_injective remainder.symm)⟩

/-- ASCII text has as many bytes as characters. -/
theorem utf8ByteSize_ofList {chars : List Char} (small : ∀ char ∈ chars, char.toNat < 128) :
    (String.ofList chars).utf8ByteSize = chars.length := by
  have bytes : (encode chars).length = chars.length := by
    induction chars with
    | nil => rfl
    | cons char others inductionHypothesis =>
        change (String.utf8EncodeChar char ++ encode others).length = _
        rw [utf8EncodeChar_of_small (small char List.mem_cons_self), List.length_append,
          inductionHypothesis fun other member => small other (List.mem_cons_of_mem char member), List.length_singleton,
          List.length_cons, Nat.add_comm]
  rw [← bytes, ← toList_toUTF8_ofList]
  rfl

/-- Text that ends with some ASCII text begins with text. -/
theorem exists_of_decode?_append {chars : List Char} {char : Char} {bytes : List UInt8} {text : String}
    (small : char.toNat < 128) (decoded : decode? (bytes ++ encode (char :: chars)) = some text) :
    ∃ front, text = String.ofList (front ++ char :: chars) := by
  have whole : encode text.toList = bytes ++ encode (char :: chars) := by
    unfold decode? String.fromUTF8? at decoded
    split at decoded
    case isTrue =>
      rw [← toList_toUTF8_ofList, String.ofList_toList, ← Option.some.inj decoded]
      rfl
    case isFalse => cases decoded
  obtain ⟨front, -, same⟩ := eq_append_of_encode small whole
  exact ⟨front, by rw [← same, String.ofList_toList]⟩

/-- A line of text that breaks nowhere, also not at a carriage return. -/
def IsLine (chars : List Char) : Prop :=
  '\n' ∉ chars ∧ '\r' ∉ chars

theorem IsLine.append {first second : List Char} (firstLine : IsLine first) (secondLine : IsLine second) :
    IsLine (first ++ second) :=
  ⟨fun member => (List.mem_append.mp member).elim firstLine.1 secondLine.1,
    fun member => (List.mem_append.mp member).elim firstLine.2 secondLine.2⟩

theorem IsLine.cons {char : Char} {chars : List Char} (inside : char ≠ '\n' ∧ char ≠ '\r') (line : IsLine chars) :
    IsLine (char :: chars) :=
  ⟨List.not_mem_cons_of_ne_of_not_mem inside.1.symm line.1, List.not_mem_cons_of_ne_of_not_mem inside.2.symm line.2⟩

theorem isLine_nil : IsLine [] :=
  ⟨List.not_mem_nil, List.not_mem_nil⟩

theorem not_mem_encode {chars : List Char} {char : Char} (absent : char ∉ chars) {byte : UInt8}
    (small : byte.toNat < 128) (same : char.toNat = byte.toNat) : byte ∉ encode chars := by
  intro member
  obtain ⟨other, among, equal⟩ := mem_of_mem_encode small member
  obtain rfl : other = char := Char.toNat_inj.mp (equal.trans same.symm)
  exact absent among

theorem dropReturn_of_not_mem {line : List UInt8} (absent : carriageReturn ∉ line) : dropReturn line = line := by
  rw [dropReturn, if_neg fun last => absent (List.mem_of_getLast? last)]

theorem data_line (line : String) : (line ++ "\n").toUTF8.data.toList = encode line.toList ++ [newline] := by
  have ended : line ++ "\n" = String.ofList (line.toList ++ ['\n']) := by
    rw [String.ofList_append, String.ofList_toList]
  rw [ended, toList_toUTF8_ofList, encode_append]
  rfl

/-- A line that is added ends the last line of what was there. -/
theorem lines_append_line (content : ByteArray) {line : List Char} (single : IsLine line) (nonempty : line ≠ []) :
    ∃ whole last, lines content = whole ++ [last].filter (!·.isEmpty) ∧
      lines (content ++ (String.ofList line ++ "\n").toUTF8) = whole ++ [last ++ encode line] := by
  obtain ⟨parts, last, split, extended⟩ := @splitBy_append UInt8 (· == newline) content.data.toList
  have bytes : (content ++ (String.ofList line ++ "\n").toUTF8).data.toList =
      content.data.toList ++ (encode line ++ [newline]) := by
    rw [ByteArray.data_append, Array.toList_append, data_line, String.toList_ofList]
  have added : splitBy (· == newline) (encode line ++ [newline]) = [encode line, []] :=
    splitBy_append_separator (forall_of_not_mem (not_mem_encode single.1 (by decide) rfl)) rfl
  have kept : dropReturn (last ++ encode line) = last ++ encode line := by
    have final := List.getLast?_eq_some_getLast (encode_ne_nil nonempty)
    rw [dropReturn, if_neg]
    rw [List.getLast?_append, final, Option.some_or]
    exact fun ends => not_mem_encode single.2 (by decide) rfl (Option.some.inj ends ▸ List.getLast_mem _)
  refine ⟨parts.map dropReturn, last, ?_, ?_⟩
  · simp only [lines, split, List.dropLast_concat, List.getLast?_concat]
    rfl
  · have whole : splitBy (· == newline) (content.data.toList ++ (encode line ++ [newline])) =
        (parts ++ [last ++ encode line]) ++ [[]] := by
      rw [extended _ _ _ added, List.append_assoc]
      rfl
    simp only [lines, bytes, whole, List.dropLast_concat, List.getLast?_concat, List.map_append, List.map_singleton,
      kept]
    exact List.append_nil _

/-- Content that breaks off inside no line. -/
def Ended (content : ByteArray) : Prop :=
  content.data.toList = [] ∨ ∃ front, content.data.toList = front ++ [newline]

/-- Whether all lines of some content are text. -/
def isLegible (content : ByteArray) : Bool :=
  (lines content).all fun line => (decode? line).isSome

/-- Content that breaks off inside no line is split apart from what follows it. -/
theorem Ended.exists_splitBy {content : ByteArray} (ended : Ended content) :
    ∃ parts, splitBy (· == newline) content.data.toList = parts ++ [[]] ∧ ∀ more : ByteArray,
      splitBy (· == newline) (content ++ more).data.toList = parts ++ splitBy (· == newline) more.data.toList := by
  rcases ended with empty | ⟨front, final⟩
  · refine ⟨[], by rw [empty]; rfl, fun more => ?_⟩
    rw [ByteArray.data_append, Array.toList_append, empty]
    rfl
  · refine ⟨splitBy (· == newline) front, ?_, fun more => ?_⟩
    · rw [final]
      exact @splitBy_append_cons UInt8 (· == newline) newline [] front rfl
    · rw [ByteArray.data_append, Array.toList_append, final, List.append_assoc]
      exact @splitBy_append_cons UInt8 (· == newline) newline more.data.toList front rfl

theorem exists_splitBy (content : ByteArray) :
    ∃ parts last, splitBy (· == newline) content.data.toList = parts ++ [last] := by
  obtain ⟨parts, last, split, -⟩ := @splitBy_append UInt8 (· == newline) content.data.toList
  exact ⟨parts, last, split⟩

/-- What follows whole lines does not change them, and they do not change it. -/
theorem lines_append {content : ByteArray} (ended : Ended content) (more : ByteArray) :
    lines (content ++ more) = lines content ++ lines more := by
  obtain ⟨before, split, apart⟩ := ended.exists_splitBy
  obtain ⟨parts, last, after⟩ := exists_splitBy more
  simp only [lines, apart, split, after, ← List.append_assoc, List.dropLast_concat, List.getLast?_concat]
  simp

/-- The parts of some content that newlines end. -/
def endedLines (content : ByteArray) : List (List UInt8) :=
  (splitBy (· == newline) content.data.toList).dropLast

theorem endedLines_append {content : ByteArray} (ended : Ended content) (more : ByteArray) :
    endedLines (content ++ more) = endedLines content ++ endedLines more := by
  obtain ⟨before, split, apart⟩ := ended.exists_splitBy
  obtain ⟨parts, last, after⟩ := exists_splitBy more
  simp only [endedLines, apart, split, after, ← List.append_assoc, List.dropLast_concat]

theorem ended_line (line : String) : Ended (line ++ "\n").toUTF8 :=
  .inr ⟨_, data_line line⟩

theorem endedLines_line {line : String} (single : '\n' ∉ line.toList) :
    endedLines (line ++ "\n").toUTF8 = [encode line.toList] := by
  have plain : ∀ byte ∈ encode line.toList, (byte == newline) = false :=
    forall_of_not_mem (not_mem_encode single (by decide) rfl)
  rw [endedLines, data_line, splitBy_append_separator plain rfl]
  rfl

theorem Ended.append {content more : ByteArray} (ended : Ended content) (moreEnded : Ended more) :
    Ended (content ++ more) := by
  rcases moreEnded with empty | ⟨front, final⟩
  · rcases ended with first | ⟨other, first⟩
    · exact .inl (by rw [ByteArray.data_append, Array.toList_append, first, empty, List.append_nil])
    · exact .inr ⟨other, by rw [ByteArray.data_append, Array.toList_append, first, empty, List.append_nil]⟩
  · exact .inr ⟨content.data.toList ++ front, by
      rw [ByteArray.data_append, Array.toList_append, final, List.append_assoc]⟩

/-- Written lines are read back. -/
theorem lines_toUTF8 {written : List (List Char)} (single : ∀ line ∈ written, IsLine line) :
    lines (String.ofList (written.flatMap (· ++ ['\n']))).toUTF8 = written.map encode := by
  have bytes : (String.ofList (written.flatMap (· ++ ['\n']))).toUTF8.data.toList =
      (written.map encode).flatMap (· ++ [newline]) := by
    rw [toList_toUTF8_ofList, encode, List.flatMap_assoc, List.flatMap_map]
    exact congrArg (List.flatMap · written) (funext fun line => encode_append line ['\n'])
  have parts : splitBy (· == newline) ((written.map encode).flatMap (· ++ [newline])) = written.map encode ++ [[]] := by
    apply splitBy_flatMap_append
    · intro part member
      obtain ⟨line, among, rfl⟩ := List.mem_map.mp member
      exact forall_of_not_mem (not_mem_encode (single line among).1 (by decide) rfl)
    · rfl
  have kept : (written.map encode).map dropReturn = written.map encode := by
    rw [List.map_map]
    exact List.map_congr_left fun line among =>
      dropReturn_of_not_mem (not_mem_encode (single line among).2 (by decide) rfl)
  simp only [lines, bytes, parts, List.dropLast_concat, List.getLast?_concat, kept]
  simp

theorem mapM_decode?_encode (rows : List (List Char)) : (rows.map encode).mapM decode? = some (rows.map .ofList) := by
  induction rows with
  | nil => rfl
  | cons row rest inductionHypothesis =>
      rw [List.map_cons, List.mapM_cons, decode?_encode, inductionHypothesis]
      rfl

/-- Written lines are read back as text. -/
theorem mapM_decode?_lines {written : List (List Char)} (single : ∀ line ∈ written, IsLine line) :
    (lines (String.ofList (written.flatMap (· ++ ['\n']))).toUTF8).mapM decode? =
      some (written.map String.ofList) := by
  rw [lines_toUTF8 single, mapM_decode?_encode]

end EpisodicReplay.Text
