import EpisodicReplay.Proofs.Tuning.Evaluation

/-! Scores are numbers of the unit interval, whatever the filter does, and so is all that the filter is given. -/

namespace EpisodicReplay.Tuning
open Binary32

/-- The means, the rate and the loss of an outcome lie in `[0, 1]`, so none of them is a NaN. -/
structure Outcome.Scored (outcome : Outcome) : Prop where
  deltaMean : InUnit outcome.deltaMean
  harmonyMean : InUnit outcome.harmonyMean
  consentMean : InUnit outcome.consentMean
  misalignRate : InUnit outcome.misalignRate
  loss : InUnit outcome.loss

/-- Two filters that may differ only beyond the unit interval. -/
structure AgreeInside {φ : Type} (first second : SmoothingFilter φ) : Prop where
  fresh (alpha : Float32) (warmup : Nat) : InUnit alpha → warmup ≤ ExponentialFilter.maxWarmup →
    first.fresh alpha warmup = second.fresh alpha warmup
  step (filter : φ) (influence harmony consent : Float32) : InUnit influence → InUnit harmony → InUnit consent →
    first.step filter influence harmony consent = second.step filter influence harmony consent

theorem inputs_inUnit (tick : Tick) :
    InUnit (inputs tick).1 ∧ InUnit (inputs tick).2.1 ∧ InUnit (inputs tick).2.2 :=
  ⟨clampUnit_inUnit _, clampUnit_inUnit _, clampUnit_inUnit _⟩

theorem scored_of_isEvaluated {totals : Totals} {parameters : Parameters}
    (evaluated : (totals.outcome parameters).isEvaluated) : (totals.outcome parameters).Scored := by
  unfold Totals.outcome at evaluated ⊢
  split at evaluated
  case isTrue => exact absurd evaluated (not_isEvaluated_unevaluated parameters)
  case isFalse ticked =>
    rw [if_neg ticked]
    exact ⟨mean_inUnit .., mean_inUnit .., mean_inUnit .., mean_inUnit ..,
      lossOf_inUnit (mean_inUnit ..) (mean_inUnit ..) (mean_inUnit ..)⟩

section
variable {φ : Type} {first second : SmoothingFilter φ} (agree : AgreeInside first second)
include agree

theorem replayTicks_congr (allowAlign : Float32) (filter : φ) (totals : Totals) (ticks : List Tick) :
    @replayTicks φ first allowAlign filter totals ticks = @replayTicks φ second allowAlign filter totals ticks := by
  apply List.foldl_ext
  intro progress tick _
  obtain ⟨influence, harmony, consent⟩ := inputs_inUnit tick
  simp only [agree.step _ _ _ _ influence harmony consent]

/-- What a filter does beyond the unit interval does not matter. -/
theorem evaluate_congr (episodes : List Episode) (parameters : Parameters) :
    @evaluate φ first episodes parameters = @evaluate φ second episodes parameters := by
  have alpha := clampUnit_inUnit parameters.alpha
  have warmup := Nat.min_le_right parameters.warmup ExponentialFilter.maxWarmup
  apply congrArg fun totals : Totals => totals.outcome parameters
  apply List.foldl_ext
  intro totals episode _
  simp only [agree.fresh _ _ alpha warmup, replayTicks_congr agree]

end

theorem evaluated_iff (φ : Type) [SmoothingFilter φ] {episodes : List Episode} (parameters : Parameters) :
    (evaluate φ episodes parameters).isEvaluated ↔ ∃ episode ∈ episodes, episode.isEmpty = false := by
  constructor
  · intro evaluated
    by_contra none
    have unticked : ∀ episode ∈ episodes, episode.isEmpty = true := by simpa using none
    rw [evaluate_eq_unevaluated φ parameters unticked] at evaluated
    exact absurd evaluated (not_isEvaluated_unevaluated parameters)
  · exact evaluate_isEvaluated φ parameters

/-- Parameters are scored just if there is a tick to score them on, and then with numbers of the unit interval. The
filter that they are scored with is never asked about others. -/
theorem evaluate_defined (φ : Type) [filter : SmoothingFilter φ] (episodes : List Episode) (parameters : Parameters) :
    let outcome := evaluate φ episodes parameters
    (outcome.isEvaluated ↔ ∃ episode ∈ episodes, ∃ tick, tick ∈ episode.ticks) ∧
      (outcome.isEvaluated → outcome.parameters = parameters ∧ outcome.Scored) ∧
      (¬outcome.isEvaluated → outcome = .unevaluated parameters) ∧
      (∀ tick, InUnit (inputs tick).1 ∧ InUnit (inputs tick).2.1 ∧ InUnit (inputs tick).2.2) ∧
      ∀ other : SmoothingFilter φ, AgreeInside filter other → @evaluate φ other episodes parameters = outcome := by
  intro outcome
  have ticked : (∃ episode ∈ episodes, ∃ tick, tick ∈ episode.ticks) ↔
      ∃ episode ∈ episodes, episode.isEmpty = false := by
    simp only [Episode.isEmpty, Array.isEmpty_eq_false_iff_exists_mem]
  have scored := @evaluated_iff φ _ episodes parameters
  refine ⟨scored.trans ticked.symm, fun evaluated => ⟨evaluate_parameters φ parameters episodes,
    scored_of_isEvaluated evaluated⟩, ?_, inputs_inUnit, fun other agree => (evaluate_congr agree episodes parameters).symm⟩
  intro unscored
  apply evaluate_eq_unevaluated
  intro episode member
  by_contra nonempty
  exact unscored (scored.mpr ⟨episode, member, Bool.eq_false_iff.mpr nonempty⟩)

end EpisodicReplay.Tuning
