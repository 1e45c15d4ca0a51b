import EpisodicReplay.Proofs.Generator
import Mathlib.Logic.Function.Iterate

/-!
What a generator runs through: its states never vanish, stand still or meet, and its draws are fractions with one fixed
denominator that no operation rounds.
-/

namespace EpisodicReplay.Binary32
variable {number : Float32} {rational : ℚ}

/-- A binary32 number that is a rational, not only the nearest one to it. -/
structure IsExactly (number : Float32) (rational : ℚ) : Prop where
  finite : number.isFinite = true
  value : value number = rational

/-- A rational with few binary digits is not rounded. -/
theorem isExactly_of_isNearest {count : ℕ} (exponent : ℤ) (nearest : IsNearest number rational)
    (written : |rational| = count * 2 ^ exponent) (least : -149 ≤ exponent) (fits : count < 2 ^ 24) :
    IsExactly number rational :=
  ⟨nearest.isFinite, Rounding.RoundsTo.value_eq_of_count nearest written least fits⟩

end EpisodicReplay.Binary32

namespace EpisodicReplay.Generator
open Binary32

section state
variable {word : UInt64} {generator : Generator}

section stage
variable {shift : UInt64 → UInt64}
  (additive : ∀ first second, shift (first ^^^ second) = shift first ^^^ shift second)
include additive

/-- Adding its image to a word takes sums to sums. -/
theorem xor_shift_xor (first second : UInt64) : (first ^^^ second) ^^^ shift (first ^^^ second) =
    (first ^^^ shift first) ^^^ (second ^^^ shift second) := by
  rw [additive]
  ac_rfl

/-- A word can be told from its sum with its image under a shift, if the shift moves every word but zero. -/
theorem injective_xor_shift (moves : ∀ word, shift word = word → word = 0) :
    Function.Injective fun word => word ^^^ shift word := by
  intro first second same
  have fixed : (first ^^^ second) ^^^ shift (first ^^^ second) = 0 := by
    rw [xor_shift_xor additive]
    exact UInt64.xor_eq_zero_iff.mpr same
  exact UInt64.xor_eq_zero_iff.mp (moves _ (UInt64.xor_eq_zero_iff.mp fixed).symm)

end stage

/-- A shift to the right makes every word smaller but zero. -/
theorem eq_zero_of_shiftRight {places : UInt64} (some : 0 < places.toNat % 64) (fixed : word >>> places = word) :
    word = 0 := by
  have smaller := congrArg UInt64.toNat fixed
  rw [UInt64.toNat_shiftRight, Nat.shiftRight_eq_div_pow] at smaller
  by_contra nonzero
  have positive : 0 < word.toNat := Nat.pos_of_ne_zero fun zero => nonzero (UInt64.toNat_inj.mp zero)
  have less := Nat.div_lt_self positive (Nat.one_lt_two_pow some.ne')
  omega

/-- A shift to the left multiplies by a power of two, which has no common divisor with its predecessor. -/
theorem eq_zero_of_shiftLeft {places : UInt64} (some : 0 < places.toNat % 64) (fixed : word <<< places = word) :
    word = 0 := by
  let scale := 2 ^ (places.toNat % 64)
  have product : word.toNat * scale % 2 ^ 64 = word.toNat := by
    rw [← Nat.shiftLeft_eq, ← UInt64.toNat_shiftLeft, fixed]
  have coprime : Nat.Coprime (2 ^ 64) (scale - 1) := by
    have neighbours : Nat.Coprime scale (scale - 1) :=
      (Nat.coprime_self_sub_right Nat.one_le_two_pow).mpr (Nat.coprime_one_right _)
    exact (neighbours.coprime_dvd_left (dvd_pow_self 2 some.ne')).pow_left 64
  have divides : 2 ^ 64 ∣ word.toNat * (scale - 1) := by
    rw [Nat.mul_sub, Nat.mul_one]
    nth_rewrite 2 [← product]
    exact Nat.dvd_sub_mod _
  exact UInt64.toNat_inj.mp (Nat.eq_zero_of_dvd_of_lt (coprime.dvd_of_dvd_mul_right divides) word.toNat_lt)

theorem advance_injective : Function.Injective advance := by
  have first : Function.Injective fun word : UInt64 => word ^^^ (word >>> 12) :=
    injective_xor_shift (fun _ _ => UInt64.shiftRight_xor) fun _ => eq_zero_of_shiftRight (by decide)
  have second : Function.Injective fun word : UInt64 => word ^^^ (word <<< 25) :=
    injective_xor_shift (fun _ _ => UInt64.shiftLeft_xor) fun _ => eq_zero_of_shiftLeft (by decide)
  have third : Function.Injective fun word : UInt64 => word ^^^ (word >>> 27) :=
    injective_xor_shift (fun _ _ => UInt64.shiftRight_xor) fun _ => eq_zero_of_shiftRight (by decide)
  exact third.comp (second.comp first)

theorem advance_ne_zero {state : UInt64} (nonzero : state ≠ 0) : advance state ≠ 0 :=
  fun zero => nonzero (advance_injective zero)

theorem advance_xor (first second : UInt64) : advance (first ^^^ second) = advance first ^^^ advance second := by
  have right (places first second : UInt64) : (first ^^^ second) ^^^ ((first ^^^ second) >>> places) =
      (first ^^^ (first >>> places)) ^^^ (second ^^^ (second >>> places)) :=
    @xor_shift_xor (· >>> places) (fun _ _ => UInt64.shiftRight_xor) first second
  have left (first second : UInt64) : (first ^^^ second) ^^^ ((first ^^^ second) <<< 25) =
      (first ^^^ (first <<< 25)) ^^^ (second ^^^ (second <<< 25)) :=
    @xor_shift_xor (· <<< 25) (fun _ _ => UInt64.shiftLeft_xor) first second
  rw [advance, right 12, left, right 27]
  rfl

/-- Without its highest bit a number has fewer places. -/
theorem xor_two_pow_lt {number place : ℕ} (low : 2 ^ place ≤ number) (high : number < 2 ^ (place + 1)) :
    number ^^^ 2 ^ place < 2 ^ place := by
  apply Nat.lt_pow_two_of_testBit
  intro index above
  rw [Nat.testBit_xor, Nat.testBit_two_pow]
  rcases above.eq_or_lt with rfl | beyond
  · rw [Nat.testBit_of_two_pow_le_and_two_pow_add_one_gt low high, decide_eq_true rfl, Bool.xor_self]
  · rw [Nat.testBit_lt_two_pow (high.trans_le (Nat.pow_le_pow_right Nat.two_pos beyond)),
      decide_eq_false beyond.ne, Bool.xor_self]

/-- What takes sums of words to sums, and every power of two to zero, takes every word to zero. -/
theorem eq_zero_of_additive {image : UInt64 → UInt64}
    (additive : ∀ first second, image (first ^^^ second) = image first ^^^ image second)
    (powers : ∀ place < 64, image (.ofNat (2 ^ place)) = 0) (word : UInt64) : image word = 0 := by
  have upTo (places : ℕ) (inside : places ≤ 64) (word : UInt64) (short : word.toNat < 2 ^ places) :
      image word = 0 := by
    induction places generalizing word with
    | zero =>
        have zero : word = 0 ^^^ 0 := UInt64.toNat_inj.mp (Nat.lt_one_iff.mp short)
        rw [zero, additive, UInt64.xor_self]
    | succ place inductionHypothesis =>
        rcases Nat.lt_or_ge word.toNat (2 ^ place) with shorter | long
        · exact inductionHypothesis (Nat.le_of_succ_le inside) word shorter
        · have power : (UInt64.ofNat (2 ^ place)).toNat = 2 ^ place :=
            UInt64.toNat_ofNat_of_lt' (Nat.pow_lt_pow_right Nat.one_lt_two inside)
          have rest : image (word ^^^ .ofNat (2 ^ place)) = 0 := by
            apply inductionHypothesis (Nat.le_of_succ_le inside)
            rw [UInt64.toNat_xor, power]
            exact xor_two_pow_lt long short
          rwa [additive, powers place inside, UInt64.xor_zero] at rest
  exact upTo 64 le_rfl word word.toNat_lt

/-- The sum of the states that a word goes through, as far as a polynomial has their powers. -/
def combined : List Bool → UInt64 → UInt64
  | [], _ => 0
  | taken :: rest, word => (if taken then word else 0) ^^^ combined rest (advance word)

theorem combined_xor (taken : List Bool) (first second : UInt64) :
    combined taken (first ^^^ second) = combined taken first ^^^ combined taken second := by
  induction taken generalizing first second with
  | nil => exact UInt64.xor_self.symm
  | cons head rest inductionHypothesis =>
      rw [combined, combined, combined, advance_xor, inductionHypothesis]
      cases head with
      | false => simp only [Bool.false_eq_true, reduceIte, UInt64.zero_xor]
      | true =>
          simp only [reduceIte]
          ac_rfl

/-- Of a state that does not move, the sum is the state itself or nothing. -/
theorem combined_of_fixed {word : UInt64} (fixed : advance word = word) (taken : List Bool) :
    combined taken word = if taken.foldr Bool.xor false then word else 0 := by
  induction taken with
  | nil => rfl
  | cons head rest inductionHypothesis =>
      rw [combined, fixed, inductionHypothesis, List.foldr_cons]
      cases head <;> cases rest.foldr Bool.xor false <;> simp

/-- The characteristic polynomial of a step, as a linear map on 64 bits. -/
def characteristic : List Bool :=
  (List.range 65).map (Nat.testBit 0x10018b73aa7cc9b71)

/-- The step is a root of its characteristic polynomial. -/
theorem combined_characteristic (word : UInt64) : combined characteristic word = 0 :=
  eq_zero_of_additive (combined_xor characteristic) (by decide +kernel) word

/-- The polynomial has an odd number of powers, so one is no root: no state but zero stays where it is. -/
theorem advance_eq_iff {state : UInt64} : advance state = state ↔ state = 0 := by
  constructor
  · intro fixed
    have odd : characteristic.foldr Bool.xor false = true := by decide +kernel
    have sum := combined_of_fixed fixed characteristic
    rw [odd, if_pos rfl, combined_characteristic] at sum
    exact sum.symm
  · rintro rfl
    decide

theorem ofSeed_ne_zero (seed : UInt64) : (ofSeed seed).state ≠ 0 := by
  unfold ofSeed
  split
  case isTrue => decide
  case isFalse nonzero => exact nonzero

/-- The ways to draw from a generator. -/
inductive Draw where
  | word
  | unit
  | signed
  | range (low high : Float32)

/-- The generator that a draw leaves behind. -/
def drawn (generator : Generator) : Draw → Generator
  | .word => generator.next.2
  | .unit => generator.unit.2
  | .signed => generator.signed.2
  | .range low high => (generator.range low high).2

def after (generator : Generator) (draws : List Draw) : Generator :=
  draws.foldl drawn generator

/-- Whatever is drawn, the state goes one step on. -/
theorem state_drawn (generator : Generator) (draw : Draw) : (generator.drawn draw).state = advance generator.state := by
  cases draw <;> rfl

theorem state_after (generator : Generator) (draws : List Draw) :
    (generator.after draws).state = advance^[draws.length] generator.state := by
  induction draws generalizing generator with
  | nil => rfl
  | cons draw draws inductionHypothesis =>
      rw [List.length_cons, Function.iterate_succ_apply, ← state_drawn generator draw]
      exact inductionHypothesis (generator.drawn draw)

/-- Generators that are equal after equally many draws were equal before. -/
theorem after_eq_iff {first second : Generator} {draws others : List Draw} (same : draws.length = others.length) :
    first.after draws = second.after others ↔ first = second := by
  have states : (first.after draws).state = (second.after others).state ↔ first.state = second.state := by
    rw [state_after, state_after, same]
    exact (advance_injective.iterate others.length).eq_iff
  exact ⟨fun equal => congrArg Generator.mk (states.mp (congrArg state equal)),
    fun equal => congrArg Generator.mk (states.mpr (congrArg state equal))⟩

theorem state_after_ne_zero (nonzero : generator.state ≠ 0) (draws : List Draw) :
    (generator.after draws).state ≠ 0 := by
  induction draws generalizing generator with
  | nil => exact nonzero
  | cons draw draws inductionHypothesis =>
      change ((generator.drawn draw).after draws).state ≠ 0
      apply inductionHypothesis
      rw [state_drawn]
      exact advance_ne_zero nonzero

/-- Every draw moves the state. -/
theorem state_after_concat_ne (nonzero : generator.state ≠ 0) (draws : List Draw) (draw : Draw) :
    (generator.after (draws ++ [draw])).state ≠ (generator.after draws).state := by
  rw [after, List.foldl_concat, ← after, state_drawn]
  exact fun fixed => state_after_ne_zero nonzero draws (advance_eq_iff.mp fixed)

end state

section exact
/-- How many parts of `2 ^ -24` a draw has: the upper bits of the word. -/
def parts (generator : Generator) : ℕ :=
  generator.next.1.toNat / 2 ^ 40

theorem toNat_upper (word : UInt64) : (word >>> 40).toUInt32.toNat = word.toNat / 2 ^ 40 := by
  have bits : (word >>> 40).toUInt32.toNat = (word >>> 40).toNat % 2 ^ 32 := UInt64.toNat_toUInt32 _
  have shifted : (word >>> 40).toNat = word.toNat / 2 ^ 40 := by
    rw [UInt64.toNat_shiftRight, Nat.shiftRight_eq_div_pow]
    rfl
  have small : word.toNat < 2 ^ 40 * 2 ^ 32 := word.toNat_lt.trans (by norm_num)
  rw [bits, shifted, Nat.mod_eq_of_lt (Nat.div_lt_of_lt_mul small)]

theorem parts_lt (generator : Generator) : generator.parts < 2 ^ 24 := by
  rw [parts, ← toNat_upper]
  exact toNat_upper_lt generator.next.1

variable (generator : Generator)

theorem upper_isExactly : IsExactly (generator.next.1 >>> 40).toUInt32.toFloat32 generator.parts := by
  have nearest := toFloat32_isNearest (generator.next.1 >>> 40).toUInt32
  rw [toNat_upper] at nearest
  exact isExactly_of_isNearest 0 nearest (by rw [Nat.abs_cast, zpow_zero, mul_one]) (by decide) generator.parts_lt

theorem unit_isExactly : IsExactly generator.unit.1 (generator.parts / 2 ^ 24) := by
  have whole := generator.upper_isExactly
  have fits := generator.parts_lt
  have below : (generator.parts : ℚ) ≤ 2 ^ 24 := by exact_mod_cast fits.le
  have nearest := div_isNearest whole.finite (show (16777216 : Float32).isFinite = true from rfl)
    (by rw [value_grain]; norm_num) (by
      rw [value_grain, whole.value, abs_of_nonneg (by positivity), div_le_iff₀ (by positivity)]
      exact below.trans (by norm_num))
  rw [value_grain, whole.value] at nearest
  refine isExactly_of_isNearest (-24) nearest ?_ (by decide) fits
  rw [abs_of_nonneg (by positivity), zpow_neg, div_eq_mul_inv]
  rfl

theorem doubled_isExactly : IsExactly (generator.unit.1 * 2) (2 * generator.parts / 2 ^ 24) := by
  have unit := generator.unit_isExactly
  have fits := generator.parts_lt
  have below : (generator.parts : ℚ) ≤ 2 ^ 24 := by exact_mod_cast fits.le
  have product : value generator.unit.1 * value 2 = 2 * generator.parts / 2 ^ 24 := by
    rw [unit.value, value_two]
    ring
  have nearest := mul_isNearest unit.finite (show (2 : Float32).isFinite = true from rfl) (by
    rw [product, abs_of_nonneg (by positivity), div_le_iff₀ (by positivity)]
    linarith)
  rw [product] at nearest
  refine isExactly_of_isNearest (-23) nearest ?_ (by decide) fits
  rw [abs_of_nonneg (by positivity)]
  norm_num
  ring

theorem signed_isExactly : IsExactly generator.signed.1 (2 * generator.parts / 2 ^ 24 - 1) := by
  have doubled := generator.doubled_isExactly
  have fits := generator.parts_lt
  let offset : ℤ := generator.parts - 2 ^ 23
  have centred : (2 * generator.parts / 2 ^ 24 - 1 : ℚ) = offset * 2 ^ (-23 : ℤ) := by
    push_cast [offset]
    norm_num
    ring
  have written : |(2 * generator.parts / 2 ^ 24 - 1 : ℚ)| = offset.natAbs * 2 ^ (-23 : ℤ) := by
    rw [centred, abs_mul, Nat.cast_natAbs, Int.cast_abs, abs_of_pos (show (0 : ℚ) < 2 ^ (-23 : ℤ) by positivity)]
  have few : offset.natAbs < 2 ^ 24 := by omega
  have nearest := sub_isNearest doubled.finite isFinite_one (by
    have below : (offset.natAbs : ℚ) ≤ 2 ^ 24 := by exact_mod_cast few.le
    rw [doubled.value, value_one, written]
    norm_num at below ⊢
    linarith)
  rw [doubled.value, value_one] at nearest
  exact isExactly_of_isNearest (-23) nearest written (by decide) few

theorem signed_between : -1 ≤ generator.signed.1 ∧ generator.signed.1 < 1 := by
  have signed := generator.signed_isExactly
  have nonneg : (0 : ℚ) ≤ 2 * generator.parts / 2 ^ 24 := by positivity
  have below : (2 * generator.parts / 2 ^ 24 : ℚ) < 2 := by
    rw [div_lt_iff₀ (by positivity)]
    exact_mod_cast Nat.mul_lt_mul_of_pos_left generator.parts_lt (by decide : 0 < 2)
  constructor
  · rw [le_iff (isFinite_neg isFinite_one) signed.finite, value_neg, value_one, signed.value]
    linarith
  · rw [lt_iff signed.finite isFinite_one, value_one, signed.value]
    linarith

end exact

/-- Whatever its seed and however it was drawn from, the state of a generator is not zero, the next draw changes it, and
generators that differ still do after equally many draws. A draw from the unit interval is a whole number of parts of
`2 ^ -24`, given by the upper bits of a word, and a signed draw is twice that less one; no operation on the way
rounds. -/
theorem never_degenerates :
    (∀ seed draws, ((ofSeed seed).after draws).state ≠ 0) ∧
    (∀ seed draws draw, ((ofSeed seed).after (draws ++ [draw])).state ≠ ((ofSeed seed).after draws).state) ∧
    (∀ state, advance state = state ↔ state = 0) ∧ Function.Injective advance ∧
    (∀ (first second : Generator) (draws : List (Draw × Draw)),
      first.after (draws.map Prod.fst) = second.after (draws.map Prod.snd) ↔ first = second) ∧
    ∀ generator : Generator,
      let parts : ℕ := generator.next.1.toNat / 2 ^ 40
      parts < 2 ^ 24 ∧ IsExactly (generator.next.1 >>> 40).toUInt32.toFloat32 parts ∧
      IsExactly generator.unit.1 (parts / 2 ^ 24) ∧ IsExactly (generator.unit.1 * 2) (2 * parts / 2 ^ 24) ∧
      IsExactly generator.signed.1 (2 * parts / 2 ^ 24 - 1) ∧ -1 ≤ generator.signed.1 ∧ generator.signed.1 < 1 := by
  refine ⟨fun seed => state_after_ne_zero (ofSeed_ne_zero seed),
    fun seed => state_after_concat_ne (ofSeed_ne_zero seed), fun _ => advance_eq_iff, advance_injective,
    fun first second draws => ?_,
    fun generator => ⟨generator.parts_lt, generator.upper_isExactly, generator.unit_isExactly,
      generator.doubled_isExactly, generator.signed_isExactly, generator.signed_between⟩⟩
  exact after_eq_iff (by rw [List.length_map, List.length_map])

end EpisodicReplay.Generator
