import EpisodicReplay.Proofs.Binary32.Unit
import EpisodicReplay.Tuning.Evaluation

/-! Parameters have a finite loss as soon as the episodes hold a tick. -/

namespace EpisodicReplay.Tuning
open Binary32

theorem not_isEvaluated_unevaluated (parameters : Parameters) : ¬(Outcome.unevaluated parameters).isEvaluated :=
  Bool.eq_false_iff.mp isFinite_infinity

theorem mean_inUnit (total : Float) (count : Nat) (fallback : Float32) : InUnit (mean total count fallback) :=
  clampUnit_inUnit _

/-- The weighted sum of numbers in `[0, 1]` grows with each of its terms, and that of the greatest terms is one. -/
theorem lossOf_inUnit {deltaMean harmonyMean misalignRate : Float32} (deltaUnit : InUnit deltaMean)
    (harmonyUnit : InUnit harmonyMean) (misalignUnit : InUnit misalignRate) :
    InUnit (lossOf deltaMean harmonyMean misalignRate) := by
  have deltaWeight : InUnit 0.7 := inUnit_of_le rfl (by decide) (by decide)
  have harmonyWeight : InUnit 0.2 := inUnit_of_le rfl (by decide) (by decide)
  have misalignWeight : InUnit 0.1 := inUnit_of_le rfl (by decide) (by decide)
  have most : InUnit (0.7 * 1 + 0.2 * (1 - 0)) :=
    inUnit_of_le (by decide +kernel) (by decide +kernel) (by decide +kernel)
  have whole : InUnit (0.7 * 1 + 0.2 * (1 - 0) + 0.1 * 1) := by
    rw [show (0.7 * 1 + 0.2 * (1 - 0) + 0.1 * 1 : Float32) = 1 by decide +kernel]
    exact inUnit_one
  have upper {number : Float32} (unit : InUnit number) : value number ≤ value 1 := by
    rw [value_one]
    exact unit.upper
  have lower : value 0 ≤ value harmonyMean := by
    rw [value_zero]
    exact harmonyUnit.lower
  obtain ⟨front, frontLe⟩ := (deltaWeight.mul deltaUnit).add_le (harmonyWeight.mul harmonyUnit.one_sub)
    (deltaWeight.mul inUnit_one) (harmonyWeight.mul inUnit_zero.one_sub)
    (deltaWeight.mul_le deltaUnit inUnit_one (upper deltaUnit))
    (harmonyWeight.mul_le harmonyUnit.one_sub inUnit_zero.one_sub (harmonyUnit.one_sub_le inUnit_zero lower)) most
  exact (front.add_le (misalignWeight.mul misalignUnit) most (misalignWeight.mul inUnit_one) frontLe
    (misalignWeight.mul_le misalignUnit inUnit_one (upper misalignUnit)) whole).1

theorem Totals.loss_outcome_inUnit {totals : Totals} (ticked : totals.ticks ≠ 0) (parameters : Parameters) :
    InUnit (totals.outcome parameters).loss := by
  rw [Totals.outcome, if_neg ticked]
  exact lossOf_inUnit (mean_inUnit ..) (mean_inUnit ..) (mean_inUnit ..)

section
variable {φ : Type} [SmoothingFilter φ]

theorem replayTicks_ticks (allowAlign : Float32) (filter : φ) (totals : Totals) (ticks : List Tick) :
    (replayTicks allowAlign filter totals ticks).2.ticks = totals.ticks + ticks.length := by
  induction ticks generalizing filter totals with
  | nil => rfl
  | cons tick rest inductionHypothesis =>
      refine (inductionHypothesis ..).trans ?_
      simp only [Totals.add, List.length_cons]
      omega

/-- Replays one episode through a fresh filter. -/
def addEpisode (φ : Type) [SmoothingFilter φ] (parameters : Parameters) (totals : Totals) (episode : Episode) :
    Totals :=
  if episode.isEmpty then totals
  else (replayTicks parameters.allowAlign (SmoothingFilter.fresh (Binary32.clampUnit parameters.alpha)
    (min parameters.warmup ExponentialFilter.maxWarmup) : φ) totals episode.ticks.toList).2

theorem addEpisode_ticks (parameters : Parameters) (totals : Totals) (episode : Episode) :
    (addEpisode φ parameters totals episode).ticks = totals.ticks + episode.length := by
  unfold addEpisode
  split
  case isTrue empty =>
    rw [Episode.isEmpty, Array.isEmpty_iff] at empty
    rw [Episode.length, empty, Array.size_empty, Nat.add_zero]
  case isFalse => exact replayTicks_ticks ..

/-- Every tick of every episode is counted once. -/
theorem totalsOf_ticks (episodes : List Episode) (parameters : Parameters) :
    (totalsOf φ episodes parameters).ticks = (episodes.map Episode.length).sum := by
  have counted (totals : Totals) : (episodes.foldl (addEpisode φ parameters) totals).ticks =
      totals.ticks + (episodes.map Episode.length).sum := by
    induction episodes generalizing totals with
    | nil => rfl
    | cons episode rest inductionHypothesis =>
        rw [List.foldl_cons, inductionHypothesis, addEpisode_ticks, List.map_cons, List.sum_cons, Nat.add_assoc]
  exact (counted .zero).trans (Nat.zero_add _)

variable (φ) {episodes : List Episode} (parameters : Parameters)

theorem evaluate_parameters (episodes : List Episode) : (evaluate φ episodes parameters).parameters = parameters := by
  unfold evaluate Totals.outcome
  split <;> rfl

theorem evaluate_isEvaluated (ticked : ∃ episode ∈ episodes, episode.isEmpty = false) :
    (evaluate φ episodes parameters).isEvaluated := by
  have counted : (totalsOf φ episodes parameters).ticks ≠ 0 := by
    obtain ⟨episode, member, nonempty⟩ := ticked
    rw [totalsOf_ticks, ne_eq, List.sum_eq_zero_iff]
    intro zero
    have := zero _ (List.mem_map_of_mem member)
    rw [Episode.isEmpty, Array.isEmpty_eq_false_iff] at nonempty
    exact nonempty (Array.eq_empty_of_size_eq_zero this)
  exact (Totals.loss_outcome_inUnit counted parameters).finite

theorem evaluate_eq_unevaluated (unticked : ∀ episode ∈ episodes, episode.isEmpty = true) :
    evaluate φ episodes parameters = .unevaluated parameters := by
  have counted : (totalsOf φ episodes parameters).ticks = 0 := by
    rw [totalsOf_ticks, List.sum_eq_zero_iff]
    intro length member
    obtain ⟨episode, among, rfl⟩ := List.mem_map.mp member
    have := unticked episode among
    rw [Episode.isEmpty, Array.isEmpty_iff] at this
    rw [Episode.length, this, Array.size_empty]
  unfold evaluate Totals.outcome
  rw [if_pos counted]

end

end EpisodicReplay.Tuning
