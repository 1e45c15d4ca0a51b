import EpisodicReplay.Proofs.Text.Lines

/-! The rows of some text, and the lines that readers make of them. -/

namespace EpisodicReplay.Text

/-- What stands between the newlines of some text. Text that ends with one has an empty last row. -/
def rows (text : String) : List (List Char) :=
  splitBy (· == '\n') text.toList

/-- A row as it is read when a newline ends it. -/
def withoutReturn (row : List Char) : List Char :=
  if row.getLast? = some '\r' then row.dropLast else row

variable {chars : List Char} {text : String}

/-- Text breaks where its bytes do. -/
theorem splitBy_encode (chars : List Char) :
    splitBy (· == newline) (encode chars) = (splitBy (· == '\n') chars).map encode := by
  induction chars with
  | nil => rfl
  | cons char rest inductionHypothesis =>
      obtain ⟨row, others, split⟩ := @exists_splitBy_eq_cons Char (· == '\n') rest
      rw [split] at inductionHypothesis
      by_cases ends : char = '\n'
      case pos =>
        subst ends
        rw [splitBy_self_cons split, List.map_cons, ← inductionHypothesis]
        exact @splitBy_cons_separator UInt8 (· == newline) newline (encode rest) rfl
      case neg =>
        -- No byte of another character is a newline.
        have inside : newline ∉ encode [char] := not_mem_encode (by simpa using Ne.symm ends) (by decide) rfl
        rw [splitBy_cons_of_ne ends split, ← List.singleton_append, encode_append,
          splitBy_append_of_forall (forall_of_not_mem inside) inductionHypothesis, List.map_cons, ← encode_append]
        rfl

theorem dropReturn_encode (row : List Char) : dropReturn (encode row) = encode (withoutReturn row) := by
  by_cases returned : row.getLast? = some '\r'
  case pos =>
    obtain ⟨front, rfl⟩ := List.getLast?_eq_some_iff.mp returned
    rw [withoutReturn, if_pos returned, List.dropLast_concat, encode_append]
    exact (if_pos (List.getLast?_concat ..)).trans (List.dropLast_concat ..)
  case neg =>
    rw [withoutReturn, if_neg returned, dropReturn, if_neg]
    intro last
    obtain ⟨bytes, same⟩ := List.getLast?_eq_some_iff.mp last
    obtain ⟨front, -, rfl⟩ := @eq_append_of_encode row [] '\r' bytes (by decide) same
    exact returned (List.getLast?_concat ..)

theorem trim_withoutReturn (row : List Char) : trim (withoutReturn row) = trim row := by
  by_cases returned : row.getLast? = some '\r'
  case pos =>
    obtain ⟨front, rfl⟩ := List.getLast?_eq_some_iff.mp returned
    rw [withoutReturn, if_pos returned, List.dropLast_concat, trim_append_blank (List.forall_mem_singleton.mpr rfl)]
  case neg => rw [withoutReturn, if_neg returned]

/-- Every row that a newline ends is a line, and so is the last one unless it is empty. -/
theorem lines_toUTF8_eq {front : List (List Char)} {last : List Char} (split : rows text = front ++ [last]) :
    lines text.toUTF8 = (front.map withoutReturn ++ [last].filter (!·.isEmpty)).map encode := by
  have bytes : text.toUTF8.data.toList = encode text.toList := by
    rw [← toList_toUTF8_ofList, String.ofList_toList]
  have parts : splitBy (· == newline) (encode text.toList) = front.map encode ++ [encode last] := by
    rw [splitBy_encode, ← rows, split, List.map_append, List.map_singleton]
  have ended : (front.map encode).map dropReturn = (front.map withoutReturn).map encode := by
    rw [List.map_map, List.map_map]
    exact List.map_congr_left fun row _ => dropReturn_encode row
  have final : [encode last].filter (!·.isEmpty) = ([last].filter (!·.isEmpty)).map encode := by
    cases last with
    | nil => rfl
    | cons char rest => simp [encode_ne_nil]
  simp only [lines, bytes, parts, List.dropLast_concat, List.getLast?_concat, ended, List.map_append, ← final]
  rfl

end EpisodicReplay.Text
