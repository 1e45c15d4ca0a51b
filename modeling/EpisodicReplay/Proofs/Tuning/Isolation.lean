import EpisodicReplay.Proofs.Tuning.Profile
import EpisodicReplay.Proofs.Tuning.Steps

/-! Episodes are scored each on its own: their order, empty ones among them and copies of them all do not matter. -/

namespace EpisodicReplay.Tuning
open Replay (Call)

/-- A list of episodes and the same one with empty episodes put in anywhere. -/
inductive Padded : List Episode → List Episode → Prop
  | nil : Padded [] []
  | keep {episodes padded : List Episode} (episode : Episode) :
    Padded episodes padded → Padded (episode :: episodes) (episode :: padded)
  | insert {episodes padded : List Episode} {empty : Episode} :
    empty.isEmpty = true → Padded episodes padded → Padded episodes (empty :: padded)

/-- What the counts of an outcome decide, and nothing else does. -/
theorem Totals.outcome_counts (totals : Totals) (parameters : Parameters) :
    (totals.outcome parameters).isEvaluated = !decide (totals.ticks = 0) ∧
      (totals.outcome parameters).misalignRate =
        if totals.ticks = 0 then 0 else mean totals.misaligned.toUInt64.toFloat totals.ticks 1 := by
  by_cases ticked : totals.ticks = 0
  · rw [Totals.outcome, if_pos ticked, if_pos ticked, decide_eq_true ticked]
    exact ⟨Bool.eq_false_iff.mpr (not_isEvaluated_unevaluated parameters), rfl⟩
  · rw [if_neg ticked, decide_eq_false ticked]
    exact ⟨(loss_outcome_inUnit ticked parameters).finite, by rw [Totals.outcome, if_neg ticked]⟩

section
variable (φ : Type) [SmoothingFilter φ] (parameters : Parameters)

theorem totalsOf_ticks_eq_sum (episodes : List Episode) : (totalsOf φ episodes parameters).ticks =
    (episodes.map fun episode => (totalsOf φ [episode] parameters).ticks).sum := by
  simp only [totalsOf_eq_totals, List.flatMap_singleton]
  exact List.length_flatMap

theorem totalsOf_misaligned_eq_sum (episodes : List Episode) : (totalsOf φ episodes parameters).misaligned =
    (episodes.map fun episode => (totalsOf φ [episode] parameters).misaligned).sum := by
  simp only [totalsOf_eq_totals, List.flatMap_singleton]
  exact List.countP_flatMap

theorem totalsOf_misaligned_le (episodes : List Episode) :
    (totalsOf φ episodes parameters).misaligned ≤ (totalsOf φ episodes parameters).ticks := by
  rw [totalsOf_eq_totals]
  exact List.countP_le_length

/-- Empty episodes take no steps. -/
theorem Padded.totalsOf_eq {episodes padded : List Episode} (pads : Padded episodes padded) :
    totalsOf φ padded parameters = totalsOf φ episodes parameters := by
  have calls : padded.flatMap (callsIn φ parameters) = episodes.flatMap (callsIn φ parameters) := by
    induction pads with
    | nil => rfl
    | keep episode _ inductionHypothesis => rw [List.flatMap_cons, List.flatMap_cons, inductionHypothesis]
    | insert empty _ inductionHypothesis =>
        rw [List.flatMap_cons, callsIn_of_isEmpty φ parameters empty, List.nil_append, inductionHypothesis]
  rw [totalsOf_eq_totals, totalsOf_eq_totals, calls]

theorem totalsOf_counts_perm {episodes permuted : List Episode} (perm : episodes.Perm permuted) :
    (totalsOf φ permuted parameters).ticks = (totalsOf φ episodes parameters).ticks ∧
      (totalsOf φ permuted parameters).misaligned = (totalsOf φ episodes parameters).misaligned := by
  rw [totalsOf_ticks_eq_sum, totalsOf_ticks_eq_sum φ parameters episodes, totalsOf_misaligned_eq_sum,
    totalsOf_misaligned_eq_sum φ parameters episodes]
  exact ⟨(perm.map _).sum_eq.symm, (perm.map _).sum_eq.symm⟩

theorem totalsOf_counts_replicate (episodes : List Episode) (copies : Nat) :
    (totalsOf φ (List.replicate copies episodes).flatten parameters).ticks =
        copies * (totalsOf φ episodes parameters).ticks ∧
      (totalsOf φ (List.replicate copies episodes).flatten parameters).misaligned =
        copies * (totalsOf φ episodes parameters).misaligned := by
  have repeated (count : Episode → Nat) :
      ((List.replicate copies episodes).flatten.map count).sum = copies * (episodes.map count).sum := by
    rw [List.map_flatten, List.map_replicate, List.sum_flatten, List.map_replicate, List.sum_replicate, smul_eq_mul]
  constructor
  · rw [totalsOf_ticks_eq_sum, repeated, ← totalsOf_ticks_eq_sum]
  · rw [totalsOf_misaligned_eq_sum, repeated, ← totalsOf_misaligned_eq_sum]

/-- A score is made of the steps that a fresh filter takes in each episode, and its counts are the sums of theirs. Empty
episodes change nothing in it. Another order of the episodes may round its means differently, but leaves the rate of
misaligned steps as it is, and so do copies of all episodes. -/
theorem evaluate_isolated (episodes : List Episode) :
    let totals := totalsOf φ episodes parameters
    let outcome := evaluate φ episodes parameters
    (totals = Replay.totals parameters.allowAlign (episodes.flatMap (callsIn φ parameters)) ∧
      totals.ticks = (episodes.map fun episode => (totalsOf φ [episode] parameters).ticks).sum ∧
      totals.misaligned = (episodes.map fun episode => (totalsOf φ [episode] parameters).misaligned).sum) ∧
    (∀ padded, Padded episodes padded → evaluate φ padded parameters = outcome) ∧
    (∀ permuted padded, episodes.Perm permuted → Padded permuted padded →
      (evaluate φ padded parameters).isEvaluated = outcome.isEvaluated ∧
        (evaluate φ padded parameters).misalignRate = outcome.misalignRate) ∧
    ∀ copies, 1 ≤ copies → (totalsOf φ (List.replicate copies episodes).flatten parameters).ticks < 2 ^ 53 →
      (evaluate φ (List.replicate copies episodes).flatten parameters).misalignRate = outcome.misalignRate := by
  intro totals outcome
  refine ⟨⟨totalsOf_eq_totals .., totalsOf_ticks_eq_sum .., totalsOf_misaligned_eq_sum ..⟩, fun padded pads => ?_,
    fun permuted padded perm pads => ?_, fun copies some small => ?_⟩
  · exact congrArg (·.outcome parameters) (pads.totalsOf_eq φ parameters)
  · obtain ⟨ticks, misaligned⟩ := totalsOf_counts_perm φ parameters perm
    obtain ⟨permutedEvaluated, permutedRate⟩ := (totalsOf φ permuted parameters).outcome_counts parameters
    obtain ⟨evaluated, rate⟩ := totals.outcome_counts parameters
    rw [ticks] at permutedEvaluated
    rw [ticks, misaligned] at permutedRate
    rw [evaluate, pads.totalsOf_eq φ parameters]
    exact ⟨permutedEvaluated.trans evaluated.symm, permutedRate.trans rate.symm⟩
  · obtain ⟨ticks, misaligned⟩ := totalsOf_counts_replicate φ parameters episodes copies
    have repeatedRate := ((totalsOf φ (List.replicate copies episodes).flatten parameters).outcome_counts parameters).2
    have rate := (totals.outcome_counts parameters).2
    rw [ticks] at small
    rw [ticks, misaligned] at repeatedRate
    refine repeatedRate.trans (Eq.trans ?_ rate.symm)
    by_cases unticked : totals.ticks = 0
    · rw [if_pos unticked, if_pos (by rw [unticked, Nat.mul_zero])]
    · have positive := Nat.pos_of_ne_zero unticked
      rw [if_neg unticked, if_neg (Nat.mul_pos some positive).ne']
      exact mean_mul (totalsOf_misaligned_le φ parameters episodes) positive
        ((Nat.le_mul_of_pos_left _ some).trans_lt small) some small 1

end

/-- One of three steps is misaligned, in whatever order the episodes are scored. -/
theorem evaluate_isolated_pair :
    let calm : Episode := ⟨#[.zero, .zero], .none⟩
    let padded : List Episode := [.empty .none, singleTick, .empty .spike, calm]
    let parameters : Parameters := ⟨1, 0, 0.3⟩
    let outcome := evaluate ExponentialFilter [calm, singleTick] parameters
    [calm, singleTick].Perm [singleTick, calm] ∧ Padded [singleTick, calm] padded ∧ outcome.isEvaluated ∧
      outcome.misalignRate = 1 / 3 ∧ (evaluate ExponentialFilter padded parameters).isEvaluated ∧
      (evaluate ExponentialFilter padded parameters).misalignRate = 1 / 3 ∧
      (totalsOf ExponentialFilter (List.replicate 2 [calm, singleTick]).flatten parameters).ticks = 6 ∧
      (evaluate ExponentialFilter (List.replicate 2 [calm, singleTick]).flatten parameters).misalignRate = 1 / 3 := by
  intro calm padded parameters outcome
  obtain ⟨-, -, permuted, repeated⟩ := evaluate_isolated ExponentialFilter parameters [calm, singleTick]
  have perm : [calm, singleTick].Perm [singleTick, calm] := .swap ..
  have pads : Padded [singleTick, calm] padded := .insert rfl (.keep _ (.insert rfl (.keep _ .nil)))
  have evaluated : outcome.isEvaluated := by decide +kernel
  have rate : outcome.misalignRate = 1 / 3 := by decide +kernel
  have ticks : (totalsOf ExponentialFilter (List.replicate 2 [calm, singleTick]).flatten parameters).ticks = 6 := by
    decide +kernel
  obtain ⟨paddedEvaluated, paddedRate⟩ := permuted _ _ perm pads
  exact ⟨perm, pads, evaluated, rate, paddedEvaluated.trans evaluated, paddedRate.trans rate, ticks,
    (repeated 2 (by decide) (ticks.trans_lt (by decide))).trans rate⟩

end EpisodicReplay.Tuning
