import Mathlib

/-! The integer nearest to a number, with ties to even. -/

namespace EpisodicReplay.Rounding

/-- A count is nearest to a number; of two such counts it is the even one. -/
structure Nearest (count : ℕ) (number : ℚ) : Prop where
  close : |number - count| ≤ 1 / 2
  even : |number - count| = 1 / 2 → count % 2 = 0

theorem nearest_natCast (count : ℕ) : Nearest count (count : ℚ) where
  close := by norm_num
  even := by norm_num

theorem nearest_of_close {count : ℕ} {number : ℚ} (close : |number - count| < 1 / 2) : Nearest count number where
  close := close.le
  even equal := absurd equal close.ne

namespace Nearest
variable {count other : ℕ} {number greater : ℚ}

theorem lower (nearest : Nearest count number) : number - 1 / 2 ≤ count := by
  have := (abs_le.mp nearest.close).2
  linarith

theorem upper (nearest : Nearest count number) : (count : ℚ) ≤ number + 1 / 2 := by
  have := (abs_le.mp nearest.close).1
  linarith

/-- Rounding keeps the order. -/
theorem mono (first : Nearest count number) (second : Nearest other greater) (ordered : number ≤ greater) :
    count ≤ other := by
  by_contra exceeds
  have step : (other : ℚ) + 1 ≤ count := by exact_mod_cast Nat.lt_of_not_le exceeds
  have low := second.lower
  have high := first.upper
  -- Only two ties at the same number are left, and both of them are even.
  have same : count = other + 1 := by
    have : (count : ℚ) ≤ other + 1 := by linarith
    exact le_antisymm (by exact_mod_cast this) (Nat.lt_of_not_le exceeds)
  have middle : number = count - 1 / 2 := by linarith
  have countEven := first.even (by rw [middle, abs_of_nonpos (by linarith)]; ring)
  have otherEven := second.even (by
    have : greater = other + 1 / 2 := by
      rw [same] at middle
      push_cast at middle
      linarith
    rw [this, abs_of_nonneg (by linarith)]
    ring)
  omega

theorem unique (first : Nearest count number) (second : Nearest other number) : count = other :=
  le_antisymm (first.mono second le_rfl) (second.mono first le_rfl)

theorem le_of_le (nearest : Nearest count number) (bound : number ≤ other) : count ≤ other :=
  nearest.mono (nearest_natCast other) bound

theorem le_of_ge (nearest : Nearest count number) (bound : (other : ℚ) ≤ number) : other ≤ count :=
  (nearest_natCast other).mono nearest bound

end Nearest

end EpisodicReplay.Rounding
