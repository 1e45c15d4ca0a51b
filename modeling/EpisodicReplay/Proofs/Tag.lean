import EpisodicReplay.Tag
import Mathlib.Data.List.Basic
import Mathlib.Data.List.Induction
import Mathlib.Data.Nat.Bitwise

/-! Tags as sets of bits, and their unions. -/

namespace EpisodicReplay.Tag
variable {tag first second : Tag} {tags : List Tag} {bit : Nat}

/-- The bit is set in the tag. -/
def HasBit (tag : Tag) (bit : Nat) : Prop :=
  tag.bits.toNat.testBit bit = true

theorem eq_of_hasBit_iff (same : ∀ bit, first.HasBit bit ↔ second.HasBit bit) : first = second := by
  have numbers : first.bits.toNat = second.bits.toNat :=
    Nat.eq_of_testBit_eq fun bit => Bool.eq_iff_iff.mpr (same bit)
  cases first
  cases second
  exact congrArg mk (UInt32.toNat_inj.mp numbers)

theorem not_hasBit_none : ¬none.HasBit bit := by
  simp [HasBit, none]

theorem hasBit_or_iff : (first ||| second).HasBit bit ↔ first.HasBit bit ∨ second.HasBit bit := by
  change (first.bits ||| second.bits).toNat.testBit bit = true ↔ _
  rw [UInt32.toNat_or, Nat.testBit_or, Bool.or_eq_true]
  rfl

/-- Tags intersect if they share a bit. -/
theorem intersects_iff : first.intersects second = true ↔ ∃ bit, first.HasBit bit ∧ second.HasBit bit := by
  have shared (bit : Nat) : (first.bits &&& second.bits).toNat.testBit bit = true ↔
      first.HasBit bit ∧ second.HasBit bit := by
    rw [UInt32.toNat_and, Nat.testBit_and, Bool.and_eq_true]
    rfl
  have nonzero : first.intersects second = true ↔ (first.bits &&& second.bits).toNat ≠ 0 := by
    rw [intersects, bne_iff_ne, ne_eq, ← UInt32.toNat_inj]
    rfl
  rw [nonzero]
  constructor
  · intro positive
    obtain ⟨bit, set⟩ := Nat.exists_testBit_of_ne_zero positive
    exact ⟨bit, (shared bit).mp set⟩
  · rintro ⟨bit, both⟩ zero
    have set := (shared bit).mpr both
    simp [zero] at set

/-- The union of all tags of a list. -/
def union (tags : List Tag) : Tag :=
  tags.foldl (· ||| ·) none

theorem none_or (tag : Tag) : none ||| tag = tag := by
  cases tag
  change Tag.mk (0 ||| _) = _
  rw [UInt32.zero_or]

theorem union_concat (tags : List Tag) (tag : Tag) : union (tags ++ [tag]) = union tags ||| tag := by
  rw [union, List.foldl_concat, union]

theorem hasBit_union_iff : (union tags).HasBit bit ↔ ∃ tag ∈ tags, tag.HasBit bit := by
  induction tags using List.reverseRecOn with
  | nil => simp [union, not_hasBit_none]
  | append_singleton tags tag inductionHypothesis =>
      rw [union_concat, hasBit_or_iff, inductionHypothesis]
      simp [or_and_right, exists_or]

theorem union_append (front back : List Tag) : union (front ++ back) = union front ||| union back := by
  apply eq_of_hasBit_iff
  intro bit
  rw [hasBit_or_iff, hasBit_union_iff, hasBit_union_iff, hasBit_union_iff]
  simp [or_and_right, exists_or]

theorem union_cons (tag : Tag) (tags : List Tag) : union (tag :: tags) = tag ||| union tags := by
  rw [← List.singleton_append, union_append]
  exact congrArg (· ||| union tags) (none_or tag)

end EpisodicReplay.Tag
