import EpisodicReplay.Episode.File
import EpisodicReplay.Proofs.Decimal.Numeral
import EpisodicReplay.Proofs.Path
import EpisodicReplay.Proofs.Text.Lines
import Mathlib.Data.Bool.AllAny

/-! The name of an episode file shows the id of the episode, and no other text does. -/

namespace EpisodicReplay.EpisodeFile
open Decimal (paddedDigits)

theorem toList_name (id : UInt32) :
    (name id).toList = namePrefix.toList ++ (paddedDigits 6 id.toNat ++ nameSuffix.toList) := by
  rw [name, String.toList_append, String.toList_append, String.toList_ofList, List.append_assoc]

/-- The id is read back from the name. -/
theorem idOfName?_name (id : UInt32) : idOfName? (name id) = some id := by
  have nonempty : paddedDigits 6 id.toNat ≠ [] := by
    rw [ne_eq, ← List.length_eq_zero_iff, Decimal.length_paddedDigits]
    omega
  have read : Decimal.readUInt32? (paddedDigits 6 id.toNat) = some id := by
    rw [Decimal.readUInt32?, Decimal.readBelow?_of_digitsValue? nonempty Decimal.isDigit_of_mem_paddedDigits
      Decimal.digitsValue?_paddedDigits id.toNat_lt]
    exact congrArg some UInt32.ofNat_toNat
  rw [idOfName?, toList_name, Text.dropLeading?_append, Option.bind_eq_bind, Option.bind_some,
    Text.dropTrailing?_append, Option.bind_some, read]

theorem name_injective {first second : UInt32} (same : name first = name second) : first = second := by
  have read := idOfName?_name first
  rw [same, idOfName?_name second] at read
  exact (Option.some.inj read).symm

theorem idOfName?_eq_some_iff {text : String} {id : UInt32} : idOfName? text = some id ↔
    ∃ numeral, text.toList = namePrefix.toList ++ (numeral ++ nameSuffix.toList) ∧
      Decimal.Numeral numeral id.toNat := by
  simp only [idOfName?, Option.bind_eq_bind, Option.bind_eq_some_iff, Text.dropLeading?_eq_some_iff,
    Text.dropTrailing?_eq_some_iff, Decimal.readUInt32?_eq_some_iff]
  constructor
  · rintro ⟨_, whole, numeral, rfl, counts⟩
    exact ⟨numeral, whole, counts⟩
  · rintro ⟨numeral, whole, counts⟩
    exact ⟨_, whole, numeral, rfl, counts⟩

/-- Every id has a name of its own and is read back from it. A text names an id just if it is the fixed parts with
digits between them that count to the id, behind a plus sign or none. -/
theorem names_identify : (∀ id, idOfName? (name id) = some id) ∧ Function.Injective name ∧
    ∀ (text : String) (id : UInt32), idOfName? text = some id ↔
      ∃ sign digits, text.toList = namePrefix.toList ++ sign ++ digits ++ nameSuffix.toList ∧
        (sign = [] ∨ sign = ['+']) ∧ digits ≠ [] ∧ (∀ digit ∈ digits, '0' ≤ digit ∧ digit ≤ '9') ∧
        Decimal.countOf digits = id.toNat := by
  refine ⟨idOfName?_name, fun first second => name_injective, fun text id => ?_⟩
  rw [idOfName?_eq_some_iff]
  constructor
  · rintro ⟨_, whole, sign, digits, rfl, spelled⟩
    exact ⟨sign, digits, by rw [whole]; simp only [List.append_assoc], spelled⟩
  · rintro ⟨sign, digits, whole, spelled⟩
    exact ⟨sign ++ digits, by rw [whole]; simp only [List.append_assoc], sign, digits, rfl, spelled⟩

theorem mem_name (id : UInt32) : ∀ char ∈ (name id).toList, char ∈ "erb_episode_.csv0123456789".toList := by
  intro char member
  rw [toList_name, List.mem_append, List.mem_append] at member
  rcases member with front | digit | back
  · exact List.all_iff_forall_prop.mp (by decide) char front
  · have numeric := Decimal.mem_of_isDigit (Decimal.isDigit_of_mem_paddedDigits char digit)
    exact List.all_iff_forall_prop.mp (by decide) char numeric
  · exact List.all_iff_forall_prop.mp (by decide) char back

/-- The most bytes in the name of an episode file: ten digits between the fixed parts. -/
def longestName : Nat := 26

theorem utf8ByteSize_name_le (id : UInt32) : (name id).utf8ByteSize ≤ longestName := by
  have ascii : ∀ char ∈ "erb_episode_.csv0123456789".toList, char.toNat < 128 := List.all_iff_forall_prop.mp rfl
  have small : ∀ char ∈ (name id).toList, char.toNat < 128 := fun char member => ascii char (mem_name id char member)
  have size := Text.utf8ByteSize_ofList small
  have digits := Decimal.length_digits_le (show 0 < 10 by decide)
    (Nat.lt_trans id.toNat_lt (show _ < 10 ^ 10 by decide))
  have front : namePrefix.toList.length = 12 := by decide
  have back : nameSuffix.toList.length = 4 := by decide
  rw [String.ofList_toList, toList_name, List.length_append, List.length_append, Decimal.length_paddedDigits, front,
    back] at size
  rw [size, longestName]
  omega

theorem name_isName (id : UInt32) : Path.IsName (name id) := by
  have letter : 'e' ∈ (name id).toList := by
    rw [toList_name]
    exact List.mem_append_left _ (by decide)
  have other {text : String} (without : 'e' ∉ text.toList) : name id ≠ text :=
    fun equal => without (equal ▸ letter)
  exact {
    nonempty := other (by decide)
    single := fun member => absurd (mem_name id '/' member) (by decide)
    solid := fun member => absurd (mem_name id '\x00' member) (by decide)
    dot := other (by decide)
    dots := other (by decide)
    short := Nat.le_trans (utf8ByteSize_name_le id) (by decide) }

end EpisodicReplay.EpisodeFile
