import EpisodicReplay.Proofs.Generator
import EpisodicReplay.Proofs.Tuning.Space
import EpisodicReplay.Proofs.Tuning.Transcript

/-!
The search with operations that refuse what they are not made for: a clamp with bounds out of order, a difference
below zero, a conversion out of range. From any space whatsoever none of them refuses.
-/

namespace EpisodicReplay.Guarded
open Tuning (Space Parameters Transcript)

/-- A difference of counts that stays a count. -/
def difference (left right : Nat) : Option Nat :=
  if right ≤ left then some (left - right) else none

/-- An integer as an unsigned number of 32 bits. -/
def word (number : Int) : Option Nat :=
  if 0 ≤ number ∧ number < 2 ^ 32 then some number.toNat else none

/-- An integer as a signed number of 64 bits. -/
def long (number : Int) : Option Int :=
  if -2 ^ 63 ≤ number ∧ number < 2 ^ 63 then some number else none

/-- Moves an integer between bounds, which have to be in order. -/
def clampInteger (number low high : Int) : Option Int :=
  if low ≤ high then some (min (max low number) high) else none

/-- Moves a number between bounds, which have to be in order and so no NaN. -/
def clamp (number low high : Float32) : Option Float32 :=
  if low ≤ high then some (Binary32.clamp number low high) else none

def clampOrLow (number low high : Float32) : Option Float32 :=
  if number.isFinite then clamp number low high else some low

def clampUnit (number : Float32) : Option Float32 :=
  clampOrLow number 0 1

/-- The integer nearest to a number, which has to be finite. -/
def nearestInteger (number : Float32) : Option Int :=
  if number.isFinite then some (Binary32.nearestInteger number.toModel.unpack) else none

def normalized (space : Space) : Option Space := do
  let alphaLow ← clampUnit space.alphaLow
  let alphaHigh ← clampUnit space.alphaHigh
  let alignLow ← clampUnit space.alignLow
  let alignHigh ← clampUnit space.alignHigh
  let warmupLow := min space.warmupLow ExponentialFilter.maxWarmup
  let warmupHigh := min space.warmupHigh ExponentialFilter.maxWarmup
  return {
    alphaLow := Binary32.minimum alphaLow alphaHigh
    alphaHigh := Binary32.maximum alphaLow alphaHigh
    warmupLow := min warmupLow warmupHigh
    warmupHigh := max warmupLow warmupHigh
    alignLow := Binary32.minimum alignLow alignHigh
    alignHigh := Binary32.maximum alignLow alignHigh }

def sample (space : Space) (generator : Generator) : Option (Parameters × Generator) := do
  let (alphaUnit, generator) := generator.unit
  let (alignUnit, generator) := generator.unit
  let (warmupUnit, generator) := generator.unit
  let alpha := space.alphaLow + (space.alphaHigh - space.alphaLow) * alphaUnit
  let align := space.alignLow + (space.alignHigh - space.alignLow) * alignUnit
  let span ← difference space.warmupHigh space.warmupLow
  let cycles ← word (← nearestInteger (warmupUnit * Binary32.ofNat span))
  let warmup ← word (space.warmupLow + cycles)
  let alpha ← clampOrLow alpha space.alphaLow space.alphaHigh
  let warmup ← clampInteger warmup space.warmupLow space.warmupHigh
  let allowAlign ← clampOrLow align space.alignLow space.alignHigh
  return ({ alpha, warmup := warmup.toNat, allowAlign }, generator)

def perturb (space : Space) (base : Parameters) (generator : Generator) : Option (Parameters × Generator) := do
  let (alphaShift, generator) := generator.signed
  let (alignShift, generator) := generator.signed
  let (warmupShift, generator) := generator.signed
  let alpha := base.alpha + alphaShift * Space.stepOf (space.alphaHigh - space.alphaLow)
  let align := base.allowAlign + alignShift * Space.stepOf (space.alignHigh - space.alignLow)
  let span ← difference space.warmupHigh space.warmupLow
  let shift ← long (← nearestInteger (warmupShift * Binary32.ofNat (max (span / 10) 1)))
  let warmup ← long (base.warmup + shift)
  let warmup ← word (← clampInteger warmup space.warmupLow space.warmupHigh)
  let alpha ← clampOrLow alpha space.alphaLow space.alphaHigh
  let allowAlign ← clampOrLow align space.alignLow space.alignHigh
  return ({ alpha, warmup, allowAlign }, generator)

section
variable (φ : Type) [SmoothingFilter φ] (episodes : List Episode)

/-- Scores what a draw gives, if it gives something. -/
def draw (transcript : Transcript) (draw : Generator → Option (Parameters × Generator)) : Option Transcript := do
  let (parameters, generator) ← draw transcript.progress.generator
  return transcript.draw φ episodes fun _ => (parameters, generator)

def search (space : Space) (trials refinements : Nat) (seed : UInt64) : Option Transcript :=
  if episodes.isEmpty then some (.ofSeed seed)
  else do
    let space ← normalized space
    let sampled ← (List.replicate (Tuning.trialCount trials) (sample space)).foldlM (draw φ episodes) (.ofSeed seed)
    ((sampled.bases refinements).map (perturb space)).foldlM (draw φ episodes) sampled

/-- Scoring draws that all give something. -/
theorem foldlM_draw (transcript : Transcript) (draws : List (Generator → Parameters × Generator)) :
    (draws.map (some ∘ ·)).foldlM (draw φ episodes) transcript =
      some (draws.foldl (Transcript.draw φ episodes) transcript) := by
  induction draws generalizing transcript with
  | nil => rfl
  | cons draw draws inductionHypothesis => exact inductionHypothesis (transcript.draw φ episodes draw)

end

theorem clampUnit_eq (number : Float32) : clampUnit number = some (Binary32.clampUnit number) := by
  have ordered : (0 : Float32) ≤ 1 := by decide
  unfold clampUnit clampOrLow clamp Binary32.clampUnit Binary32.clampOrLow
  rw [if_pos ordered]
  split <;> rfl

theorem normalized_eq (space : Space) : normalized space = some space.normalized := by
  simp only [normalized, clampUnit_eq]
  rfl

theorem clampOrLow_eq {low high : Float32} (range : Binary32.UnitRange low high) (number : Float32) :
    clampOrLow number low high = some (Binary32.clampOrLow number low high) := by
  unfold clampOrLow clamp Binary32.clampOrLow
  rw [if_pos range.ordered]
  split <;> rfl

/-- A share of a few warmup cycles is a whole number of them, up to their number. -/
theorem nearestInteger_eq {share : Float32} {count : Nat} (few : count ≤ ExponentialFilter.maxWarmup)
    (finite : share.isFinite = true) (bounded : |Binary32.value share| ≤ 1) :
    let number := share * Binary32.ofNat count
    nearestInteger number = some (Binary32.nearestInteger number.toModel.unpack) ∧
      (Binary32.nearestInteger number.toModel.unpack).natAbs ≤ count ∧
      (0 ≤ Binary32.value share → 0 ≤ Binary32.nearestInteger number.toModel.unpack) := by
  intro number
  have small : count < 2 ^ 23 := few.trans_lt (by decide)
  obtain ⟨nearest, within⟩ := Binary32.mul_ofNat_isNearest small finite bounded
  apply And.intro (if_pos nearest.isFinite)
  apply And.intro (Binary32.natAbs_nearestInteger_le within)
  intro nonneg
  apply Binary32.nearestInteger_nonneg
  have above := nearest.le_value Binary32.isFinite_zero (by
    rw [Binary32.value_zero]
    exact mul_nonneg nonneg (Nat.cast_nonneg _))
  rwa [Binary32.value_zero] at above

theorem word_eq {number : Int} (nonneg : 0 ≤ number) (small : number < 2 ^ 32) : word number = some number.toNat :=
  if_pos ⟨nonneg, small⟩

theorem long_eq {number : Int} (low : -2 ^ 63 ≤ number) (high : number < 2 ^ 63) : long number = some number :=
  if_pos ⟨low, high⟩

section
variable {space : Space} (normal : space.Normal)
include normal

theorem difference_eq : difference space.warmupHigh space.warmupLow = some (space.warmupHigh - space.warmupLow) :=
  if_pos normal.ordered

theorem clampInteger_eq (number : Int) : clampInteger number space.warmupLow space.warmupHigh =
    some ((min (max space.warmupLow number.toNat) space.warmupHigh : Nat) : Int) := by
  have ordered := normal.ordered
  rw [clampInteger, if_pos (by exact_mod_cast ordered)]
  exact congrArg some (by omega)

theorem sample_eq : sample space = some ∘ space.sample := by
  funext generator
  have ordered := normal.ordered
  have short : space.warmupHigh ≤ 10 := normal.short
  have few : space.warmupHigh - space.warmupLow ≤ ExponentialFilter.maxWarmup := (Nat.sub_le ..).trans short
  rcases alphaDraw : generator.unit with ⟨alphaUnit, first⟩
  rcases alignDraw : first.unit with ⟨alignUnit, second⟩
  rcases warmupDraw : second.unit with ⟨warmupUnit, last⟩
  have unit := Generator.unit_inUnit second
  rw [warmupDraw] at unit
  obtain ⟨whole, within, nonneg⟩ :=
    nearestInteger_eq few unit.finite unit.abs_value_le
  replace nonneg := nonneg unit.lower
  simp only [sample, Space.sample, Function.comp_apply, alphaDraw, alignDraw, warmupDraw, difference_eq normal, whole,
    clampOrLow_eq normal.alpha, clampOrLow_eq normal.align, clampInteger_eq normal, Option.bind_eq_bind,
    Option.bind_some, Option.pure_def]
  generalize Binary32.nearestInteger (warmupUnit * Binary32.ofNat (space.warmupHigh - space.warmupLow)).toModel.unpack
    = cycles at within nonneg ⊢
  have raised : word (space.warmupLow + cycles.toNat) = some (space.warmupLow + cycles.toNat) := by
    rw [word_eq (by omega) (by omega)]
    exact congrArg some (by omega)
  rw [word_eq nonneg (by omega), Option.bind_some, raised, Option.bind_some]
  rfl

theorem perturb_eq {base : Parameters} (inside : space.Inside base) :
    perturb space base = some ∘ space.perturb base := by
  funext generator
  have ordered := normal.ordered
  have short : space.warmupHigh ≤ 10 := normal.short
  have based := inside.warmupHigh
  have few : max ((space.warmupHigh - space.warmupLow) / 10) 1 ≤ ExponentialFilter.maxWarmup :=
    show _ ≤ 10 by omega
  rcases alphaDraw : generator.signed with ⟨alphaShift, first⟩
  rcases alignDraw : first.signed with ⟨alignShift, second⟩
  rcases warmupDraw : second.signed with ⟨warmupShift, last⟩
  have bounds := Generator.signed_bounds second
  rw [warmupDraw] at bounds
  obtain ⟨whole, within, -⟩ := nearestInteger_eq few bounds.1 bounds.2
  simp only [perturb, Space.perturb, Function.comp_apply, alphaDraw, alignDraw, warmupDraw, difference_eq normal, whole,
    clampOrLow_eq normal.alpha, clampOrLow_eq normal.align, Option.bind_eq_bind, Option.bind_some, Option.pure_def]
  generalize Binary32.nearestInteger (warmupShift *
    Binary32.ofNat (max ((space.warmupHigh - space.warmupLow) / 10) 1)).toModel.unpack = shift at within ⊢
  rw [long_eq (by omega) (by omega), Option.bind_some, long_eq (by omega) (by omega), Option.bind_some,
    clampInteger_eq normal, Option.bind_some, word_eq (by omega) (by omega), Option.bind_some]
  rfl

end

section
variable (φ : Type) [SmoothingFilter φ] (episodes : List Episode) (space : Space) (trials refinements : Nat)
  (seed : UInt64)

/-- A search never does what its operations refuse. -/
theorem search_eq : search φ episodes space trials refinements seed =
    some (Tuning.transcript φ episodes space trials refinements seed) := by
  have normal := space.normalized_normal
  have sampled : List.replicate (Tuning.trialCount trials) (sample space.normalized) =
      (List.replicate (Tuning.trialCount trials) space.normalized.sample).map (some ∘ ·) := by
    rw [sample_eq normal, List.map_replicate]
  have refined : ((Tuning.sampledTranscript φ episodes space trials seed).bases refinements).map
      (perturb space.normalized) = (((Tuning.sampledTranscript φ episodes space trials seed).bases refinements).map
        space.normalized.perturb).map (some ∘ ·) := by
    rw [List.map_map]
    exact List.map_congr_left fun base member =>
      perturb_eq normal (Tuning.bases_inside φ episodes space trials refinements seed member)
  unfold search Tuning.transcript
  split
  case isTrue => rfl
  case isFalse =>
    rw [normalized_eq, Option.bind_eq_bind, Option.bind_some, sampled, foldlM_draw, Option.bind_eq_bind,
      Option.bind_some]
    change (((Tuning.sampledTranscript φ episodes space trials seed).bases refinements).map
      (perturb space.normalized)).foldlM (draw φ episodes) _ = _
    rw [refined, foldlM_draw]
    rfl

/-- From any space a search meets no refusal, and all that it scores, ranks or returns as evaluated lies inside the
normalized bounds, which normalizing again does not move. -/
theorem search_contained (tuner : Tuning.Tuner) :
    let bounds := space.normalized
    let (best, searched) := tuner.search φ episodes space trials refinements seed
    bounds.Normal ∧ bounds.normalized.agree bounds = true ∧ normalized space = some bounds ∧
      (∀ number, clampUnit number = some (Binary32.clampUnit number)) ∧
      ∃ transcript, search φ episodes space trials refinements seed = some transcript ∧
        best = transcript.progress.best ∧ searched.ranking = transcript.progress.ranking ∧
        (∀ parameters ∈ transcript.scored, bounds.Inside parameters ∧ bounds.Pins parameters) ∧
        (∀ outcome ∈ searched.ranking.items, outcome.parameters ∈ transcript.scored) ∧
        (best.isEvaluated → best.parameters ∈ transcript.scored) := by
  intro bounds
  have normal := space.normalized_normal
  have sound := Tuning.transcript_sound φ episodes space trials refinements seed
  rw [Tuning.Tuner.search, Tuning.search_eq_transcript]
  refine ⟨normal, normal.normalized_agrees, normalized_eq space, clampUnit_eq, _, search_eq .., rfl, rfl, ?_, ?_, ?_⟩
  · intro parameters scored
    have inside := Tuning.transcript_inside φ episodes space trials refinements seed parameters scored
    exact ⟨inside, normal.pins inside⟩
  · exact fun outcome member => sound.ranked_scored member
  · intro evaluated
    apply sound.best_scored.resolve_left
    intro unevaluated
    rw [unevaluated] at evaluated
    exact Tuning.not_isEvaluated_unevaluated _ evaluated

end

end EpisodicReplay.Guarded
