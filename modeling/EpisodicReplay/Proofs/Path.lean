import EpisodicReplay.Path
import EpisodicReplay.Proofs.Text.Blank

/-! A name joined to the path of a directory is the last name of the path. -/

namespace EpisodicReplay.Path
open Text (splitBy)

/-- A name that an entry of a directory can have. -/
structure IsName (name : String) : Prop where
  nonempty : name ≠ ""
  single : '/' ∉ name.toList
  solid : '\x00' ∉ name.toList
  dot : name ≠ "."
  dots : name ≠ ".."
  short : name.utf8ByteSize ≤ longestName

variable {directory name : String} {chars : List Char}

theorem startsWith_slash (path : String) : path.startsWith "/" = true ↔ ∃ rest, path.toList = '/' :: rest := by
  rw [String.startsWith_string_iff]
  exact ⟨fun ⟨rest, equal⟩ => ⟨rest, equal.symm⟩, fun ⟨rest, equal⟩ => ⟨rest, equal.symm⟩⟩

theorem endsWith_slash (path : String) : path.endsWith "/" = true ↔ ∃ front, path.toList = front ++ ['/'] := by
  change path.toSlice.endsWith "/" = true ↔ _
  rw [String.Slice.endsWith_string_iff, String.copy_toSlice]
  exact ⟨fun ⟨front, equal⟩ => ⟨front, equal.symm⟩, fun ⟨front, equal⟩ => ⟨front, equal.symm⟩⟩

theorem IsName.startsWith (isName : IsName name) : name.startsWith "/" = false := by
  rw [Bool.eq_false_iff, ne_eq, startsWith_slash]
  rintro ⟨rest, equal⟩
  exact isName.single (by rw [equal]; exact List.mem_cons_self)

/-- The directory comes before a slash, which it may end with itself. -/
theorem toList_join (isName : IsName name) (nonempty : directory ≠ "") :
    ∃ front, (join directory name).toList = front ++ '/' :: name.toList ∧
      (directory.toList = front ∨ directory.toList = front ++ ['/']) := by
  have inhabited : directory.isEmpty = false := by simpa using nonempty
  rw [join, isName.startsWith, inhabited, if_neg (by simp)]
  split
  case isTrue slash =>
    obtain ⟨front, equal⟩ := (endsWith_slash directory).mp slash
    exact ⟨front, by simp [equal], .inr equal⟩
  case isFalse => exact ⟨directory.toList, by simp, .inl rfl⟩

/-- The path of the directory comes first. -/
theorem exists_join (isName : IsName name) (nonempty : directory ≠ "") :
    ∃ rest, join directory name = directory ++ rest := by
  have inhabited : directory.isEmpty = false := by simpa using nonempty
  rw [join, isName.startsWith, inhabited, if_neg (by simp)]
  split
  case isTrue => exact ⟨name, rfl⟩
  case isFalse => exact ⟨"/" ++ name, String.append_assoc⟩

theorem join_ne_empty (isName : IsName name) (directory : String) : join directory name ≠ "" := by
  by_cases empty : directory = ""
  · subst empty
    rw [join, if_pos (by simp)]
    exact isName.nonempty
  · intro equal
    obtain ⟨front, text, -⟩ := toList_join isName empty
    rw [equal] at text
    simp at text

/-- The names between the slashes of some text. -/
def namesOf (chars : List Char) : List String :=
  ((splitBy (· == '/') chars).map String.ofList).filter (· ≠ "")

theorem names_eq (path : String) : names path = namesOf path.toList := rfl

theorem namesOf_append (front : List Char) : namesOf (front ++ '/' :: chars) = namesOf front ++ namesOf chars := by
  rw [namesOf, Text.splitBy_append_cons front rfl, List.map_append, List.filter_append]
  rfl

theorem IsName.namesOf (isName : IsName name) : namesOf name.toList = [name] := by
  have plain : ∀ char ∈ name.toList, (char == '/') = false := Text.forall_of_not_mem isName.single
  have nonempty := isName.nonempty
  rw [Path.namesOf, Text.splitBy_of_forall plain]
  simp [nonempty]

theorem names_join (isName : IsName name) (nonempty : directory ≠ "") :
    names (join directory name) = names directory ++ [name] := by
  obtain ⟨front, path, slash⟩ := toList_join isName nonempty
  rw [names_eq, names_eq, path, namesOf_append, isName.namesOf]
  rcases slash with equal | equal
  · rw [equal]
  · rw [equal, namesOf_append]
    exact congrArg (· ++ [name]) (List.append_nil _).symm

/-- A path inside a directory begins where the directory does. -/
theorem startsWith_join (isName : IsName name) (nonempty : directory ≠ "") :
    (join directory name).startsWith "/" = directory.startsWith "/" := by
  obtain ⟨front, path, slash⟩ := toList_join isName nonempty
  rw [Bool.eq_iff_iff, startsWith_slash, startsWith_slash, path]
  cases front with
  | nil =>
      rcases slash with equal | equal
      · exact absurd (String.toList_eq_nil_iff.mp equal) nonempty
      · rw [equal]
        exact ⟨fun _ => ⟨_, rfl⟩, fun _ => ⟨_, rfl⟩⟩
  | cons first others => rcases slash with equal | equal <;> simp [equal]

theorem endsWith_join (isName : IsName name) (nonempty : directory ≠ "") :
    (join directory name).endsWith "/" = false := by
  obtain ⟨front, path, -⟩ := toList_join isName nonempty
  rw [Bool.eq_false_iff, ne_eq, endsWith_slash, path]
  rintro ⟨others, equal⟩
  rcases List.eq_nil_or_concat name.toList with empty | ⟨start, last, whole⟩
  · exact isName.nonempty (String.toList_eq_nil_iff.mp empty)
  · rw [List.concat_eq_append] at whole
    rw [whole, ← List.cons_append, ← List.append_assoc] at equal
    obtain rfl : last = '/' := List.singleton_inj.mp (List.append_inj_right' equal rfl)
    exact isName.single (by rw [whole]; exact List.mem_append_right start List.mem_cons_self)

/-- A path inside a directory is longer by the name and at most a slash. -/
theorem utf8ByteSize_join_le (directory name : String) :
    (join directory name).utf8ByteSize ≤ directory.utf8ByteSize + 1 + name.utf8ByteSize := by
  have slash : "/".utf8ByteSize = 1 := rfl
  unfold join
  split
  · omega
  · split
    · rw [String.utf8ByteSize_append]
      omega
    · have size : (directory ++ "/" ++ name).utf8ByteSize = directory.utf8ByteSize + 1 + name.utf8ByteSize := by
        rw [String.utf8ByteSize_append, String.utf8ByteSize_append, slash]
      exact Nat.le_of_eq size

end EpisodicReplay.Path
