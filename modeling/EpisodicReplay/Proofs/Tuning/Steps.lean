import EpisodicReplay.Proofs.Replay.Observed

/-! A score as the sum over all steps that its filters take, episode after episode. -/

namespace EpisodicReplay.Tuning
open Replay (Call callsOf)
variable (φ : Type) [SmoothingFilter φ]

/-- The steps that a fresh filter takes in an episode. -/
def callsIn (parameters : Parameters) (episode : Episode) : List Call :=
  callsOf (SmoothingFilter.fresh (Binary32.clampUnit parameters.alpha)
    (min parameters.warmup ExponentialFilter.maxWarmup) : φ) episode.ticks.toList

theorem callsIn_of_isEmpty (parameters : Parameters) {episode : Episode} (empty : episode.isEmpty = true) :
    callsIn φ parameters episode = [] := by
  rw [Episode.isEmpty, Array.isEmpty_iff] at empty
  rw [callsIn, empty]
  rfl

/-- A score is made of all steps in all its episodes. -/
theorem totalsOf_eq_totals (episodes : List Episode) (parameters : Parameters) :
    totalsOf φ episodes parameters = Replay.totals parameters.allowAlign (episodes.flatMap (callsIn φ parameters)) := by
  have counted (before : List Call) :
      episodes.foldl (addEpisode φ parameters) (Replay.totals parameters.allowAlign before) =
        Replay.totals parameters.allowAlign (before ++ episodes.flatMap (callsIn φ parameters)) := by
    induction episodes generalizing before with
    | nil => simp
    | cons episode rest inductionHypothesis =>
        have added : addEpisode φ parameters (Replay.totals parameters.allowAlign before) episode =
            Replay.totals parameters.allowAlign (before ++ callsIn φ parameters episode) := by
          unfold addEpisode
          split
          case isTrue empty => rw [callsIn_of_isEmpty φ parameters empty, List.append_nil]
          case isFalse => exact Replay.replayTicks_totals_append ..
        rw [List.foldl_cons, added, inductionHypothesis, List.append_assoc, List.flatMap_cons]
  exact counted []

theorem evaluate_eq_outcome (episodes : List Episode) (parameters : Parameters) : evaluate φ episodes parameters =
    (Replay.totals parameters.allowAlign (episodes.flatMap (callsIn φ parameters))).outcome parameters := by
  rw [evaluate, totalsOf_eq_totals]

end EpisodicReplay.Tuning
