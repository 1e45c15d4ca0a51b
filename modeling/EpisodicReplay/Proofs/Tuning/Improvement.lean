import EpisodicReplay.Proofs.Tuning.Profile
import EpisodicReplay.Tuning.Run

/-! A longer search goes on where a shorter one stops, and what a tuner did before does not reach into a search. -/

namespace EpisodicReplay.Tuning
open Binary32

/-- A loss is a number, or infinite if nothing was scored. -/
def IsLoss (loss : Float32) : Prop :=
  loss.isFinite = true ∨ loss = infinity

namespace IsLoss
variable {least less loss : Float32}

theorem le_infinity (isLoss : IsLoss loss) : loss ≤ infinity := by
  rcases isLoss with finite | rfl
  · exact le_of_lt (lt_infinity finite)
  · decide

theorem refl (isLoss : IsLoss loss) : loss ≤ loss := by
  rcases isLoss with finite | rfl
  · exact (le_iff finite finite).mpr le_rfl
  · decide

theorem finite_of_le (isLoss : IsLoss less) (lessLe : less ≤ loss) (finite : loss.isFinite = true) :
    less.isFinite = true := by
  rcases isLoss with lessFinite | rfl
  · exact lessFinite
  · exact absurd lessLe (not_infinity_le finite)

theorem trans (leastLoss : IsLoss least) (lessLoss : IsLoss less) (isLoss : IsLoss loss) (leastLe : least ≤ less)
    (lessLe : less ≤ loss) : least ≤ loss := by
  rcases isLoss with finite | rfl
  · have lessFinite := lessLoss.finite_of_le lessLe finite
    have leastFinite := leastLoss.finite_of_le leastLe lessFinite
    rw [le_iff leastFinite lessFinite] at leastLe
    rw [le_iff lessFinite finite] at lessLe
    exact (le_iff leastFinite finite).mpr (leastLe.trans lessLe)
  · exact leastLoss.le_infinity

end IsLoss

section
variable (φ : Type) [SmoothingFilter φ] (episodes : List Episode)

theorem evaluate_isLoss (parameters : Parameters) : IsLoss (evaluate φ episodes parameters).loss := by
  by_cases ticked : (totalsOf φ episodes parameters).ticks = 0
  · rw [evaluate, Totals.outcome, if_pos ticked]
    exact .inr rfl
  · exact .inl (Totals.loss_outcome_inUnit ticked parameters).finite

/-- The best of a search is scored or still the first one, and the best of an earlier stage is no better. -/
structure Progress.Improves (earlier later : Progress) : Prop where
  isLoss : IsLoss later.best.loss
  loss_le : later.best.loss ≤ earlier.best.loss

namespace Progress
variable {φ} {episodes} {progress : Progress}

/-- One more draw does not make the best worse. -/
theorem improves_draw (isLoss : IsLoss progress.best.loss) (draw : Generator → Parameters × Generator) :
    progress.Improves (progress.draw φ episodes draw) := by
  have kept : (progress.draw φ episodes draw).best =
      if (evaluate φ episodes (draw progress.generator).1).loss < progress.best.loss then
        evaluate φ episodes (draw progress.generator).1
      else progress.best := rfl
  constructor
  · rw [kept]
    split
    · exact evaluate_isLoss ..
    · exact isLoss
  · rw [kept]
    split
    case isTrue less => exact le_of_lt less
    case isFalse => exact isLoss.refl

/-- However many more draws do not make the best worse. -/
theorem improves_foldl_draw (isLoss : IsLoss progress.best.loss) (draws : List (Generator → Parameters × Generator)) :
    progress.Improves (draws.foldl (Progress.draw φ episodes) progress) := by
  induction draws generalizing progress with
  | nil => exact ⟨isLoss, isLoss.refl⟩
  | cons draw draws inductionHypothesis =>
      have first : progress.Improves (progress.draw φ episodes draw) := improves_draw isLoss draw
      have others := inductionHypothesis first.isLoss
      exact ⟨others.isLoss, others.isLoss.trans first.isLoss isLoss others.loss_le first.loss_le⟩

/-- Draws do not change how much a ranking may hold. -/
theorem capacity_foldl_draw (progress : Progress) (draws : List (Generator → Parameters × Generator)) :
    (draws.foldl (Progress.draw φ episodes) progress).ranking.capacity = progress.ranking.capacity := by
  have inserted (ranking : Ranking) (candidate : Outcome) :
      (ranking.insert candidate).2.capacity = ranking.capacity := by
    unfold Ranking.insert
    grind
  induction draws generalizing progress with
  | nil => rfl
  | cons draw draws inductionHypothesis =>
      rw [List.foldl_cons, inductionHypothesis]
      exact inserted ..

end Progress

end

section
variable (φ : Type) [SmoothingFilter φ] (episodes : List Episode) (space : Space) (trials refinements : Nat)
  (seed : UInt64)

/-- A search after its samples, from any start. -/
def Progress.sampled (start : Progress) : Progress :=
  (List.replicate (trialCount trials) space.normalized.sample).foldl (Progress.draw φ episodes) start

/-- A whole search from any start. -/
def Progress.searched (start : Progress) : Progress :=
  if episodes.isEmpty then start
  else
    let sampled := start.sampled φ episodes space trials
    let bases := (sampled.ranking.items.take refinedBases).map Outcome.parameters
    ((refinementBases bases refinements).map space.normalized.perturb).foldl (Progress.draw φ episodes) sampled

/-- The start of a search that puts its outcomes into a ranking. -/
def Progress.startFrom (ranking : Ranking) : Progress :=
  ⟨.ofSeed seed, ranking, .unevaluated .standard⟩

theorem search_eq_searched : search φ episodes space trials refinements seed =
    let searched := (Progress.startFrom seed .empty).searched φ episodes space trials refinements
    (searched.best, searched.ranking) := by
  unfold search Progress.searched Progress.sampled
  split
  case isTrue => rfl
  case isFalse =>
    simp only [foldl_refine, repeat_trial]
    rfl

end

section
variable {φ : Type} [SmoothingFilter φ] {episodes : List Episode} {space : Space} {trials more : Nat}
  {start : Progress}

theorem Progress.searched_of_isEmpty (noEpisodes : episodes.isEmpty) (refinements : Nat) :
    start.searched φ episodes space trials refinements = start :=
  if_pos noEpisodes

theorem Progress.searched_without_refinements (someEpisodes : ¬episodes.isEmpty) :
    start.searched φ episodes space trials 0 = start.sampled φ episodes space trials := by
  have unrefined (bases : List Parameters) : refinementBases bases 0 = [] := by
    unfold refinementBases
    split
    case isTrue => rfl
    case isFalse => exact List.take_zero
  rw [Progress.searched, if_neg someEpisodes]
  simp only [unrefined, List.map_nil, List.foldl_nil]

theorem Progress.sampled_isLoss (isLoss : IsLoss start.best.loss) :
    IsLoss (start.sampled φ episodes space trials).best.loss :=
  (improves_foldl_draw isLoss _).isLoss

/-- The samples of a longer search begin with those of a shorter one. -/
theorem Progress.sampled_improves (isLoss : IsLoss start.best.loss) (positive : 1 ≤ trials) (ordered : trials ≤ more) :
    (start.sampled φ episodes space trials).Improves (start.sampled φ episodes space more) := by
  have longer : start.sampled φ episodes space more =
      (List.replicate (more - trials) space.normalized.sample).foldl (Progress.draw φ episodes)
        (start.sampled φ episodes space trials) := by
    have count : trialCount more = trialCount trials + (more - trials) := by
      rw [trialCount, trialCount, if_neg (by omega), if_neg (by omega)]
      omega
    rw [Progress.sampled, Progress.sampled, count, List.replicate_add, List.foldl_append]
  rw [longer]
  exact improves_foldl_draw (sampled_isLoss isLoss) _

/-- More samples do not make a search worse. -/
theorem Progress.searched_improves_of_le (isLoss : IsLoss start.best.loss) (positive : 1 ≤ trials)
    (ordered : trials ≤ more) :
    (start.searched φ episodes space trials 0).Improves (start.searched φ episodes space more 0) := by
  by_cases noEpisodes : episodes.isEmpty
  · rw [searched_of_isEmpty noEpisodes, searched_of_isEmpty noEpisodes]
    exact ⟨isLoss, isLoss.refl⟩
  · rw [searched_without_refinements noEpisodes, searched_without_refinements noEpisodes]
    exact sampled_improves isLoss positive ordered

/-- Neither do refinements of the best samples. -/
theorem Progress.searched_improves_of_refinements (isLoss : IsLoss start.best.loss) (refinements : Nat) :
    (start.searched φ episodes space trials 0).Improves (start.searched φ episodes space trials refinements) := by
  by_cases noEpisodes : episodes.isEmpty
  · rw [searched_of_isEmpty noEpisodes, searched_of_isEmpty noEpisodes]
    exact ⟨isLoss, isLoss.refl⟩
  · rw [searched_without_refinements noEpisodes, Progress.searched, if_neg noEpisodes]
    exact improves_foldl_draw (sampled_isLoss isLoss) _

theorem Progress.capacity_searched (refinements : Nat) :
    (start.searched φ episodes space trials refinements).ranking.capacity = start.ranking.capacity := by
  unfold Progress.searched Progress.sampled
  split
  case isTrue => rfl
  case isFalse => rw [capacity_foldl_draw, capacity_foldl_draw]

end

namespace Tuner

/-- What a tuner is used for: searches over episodes, over a store or by settings, and outcomes handed to filters. -/
inductive Use : Type 1
  | search (episodes : List Episode) (space : Space) (trials refinements : Nat) (seed : UInt64)
  | searchStore {capacity : Nat} (store : Store capacity) (count : Nat) (space : Space) (trials refinements : Nat)
    (seed : UInt64)
  | run {capacity : Nat} (store : Store capacity) (files : Files) (settings : Settings)
  | apply {ψ : Type} (kind : SmoothingFilter ψ) (outcome : Outcome) (filter : ψ)

def Use.isSearch : Use → Bool
  | .apply .. => false
  | _ => true

variable (φ : Type) [SmoothingFilter φ]

/-- The tuner after a use, also after one that failed. -/
def use (tuner : Tuner) : Use → Tuner
  | .search episodes space trials refinements seed => (tuner.search φ episodes space trials refinements seed).2
  | .searchStore store count space trials refinements seed =>
    (tuner.searchStore φ store count space trials refinements seed).2
  | .run store files settings => ((Tuner.run φ store files settings).run.run tuner).2
  | .apply _ outcome filter => ((Tuner.apply outcome).run.run (filter, tuner)).2.2

/-- A new tuner after a history of uses. -/
def after (history : List Use) : Tuner :=
  history.foldl (use φ) .standard

/-- A search replaces the ranking, if it runs at all. With what, and whether it runs, does not depend on the tuner. -/
theorem use_of_isSearch {use : Use} (isSearch : use.isSearch = true) :
    ∃ ranked : Option Ranking, (∀ ranking ∈ ranked, ranking.capacity = Ranking.standardCapacity) ∧
      ∀ tuner : Tuner, tuner.use φ use = { tuner with ranking := ranked.getD tuner.ranking } := by
  have searched (episodes : List Episode) (space : Space) (trials refinements : Nat) (seed : UInt64) :
      ∀ ranking ∈ some (Tuning.search φ episodes space trials refinements seed).2,
        ranking.capacity = Ranking.standardCapacity := by
    rintro ranking ⟨⟩
    rw [search_eq_searched]
    exact Progress.capacity_searched refinements
  cases use with
  | apply => cases isSearch
  | search episodes space trials refinements seed => exact ⟨_, searched _ _ _ _ _, fun _ => rfl⟩
  | searchStore store count space trials refinements seed => exact ⟨_, searched _ _ _ _ _, fun _ => rfl⟩
  | run store files settings =>
      cases selected : store.selectForTuning files settings.source settings.selectCount with
      | nil =>
          refine ⟨none, by simp, fun tuner => ?_⟩
          simp only [Tuner.use, Tuner.run, selected]
          rfl
      | cons record records =>
          refine ⟨_, searched ((record :: records).map EpisodeRecord.episode) settings.space settings.budget.1
            settings.budget.2 settings.seed, fun tuner => ?_⟩
          simp only [Tuner.use, Tuner.run, selected]
          rfl

/-- An outcome that is handed to a filter replaces the tolerance, if the filter takes it. -/
theorem use_of_not_isSearch {use : Use} (isApply : use.isSearch = false) :
    ∃ tolerated : Option Float32,
      ∀ tuner : Tuner, tuner.use φ use = { tuner with allowAlign := tolerated.getD tuner.allowAlign } := by
  cases use with
  | search | searchStore | run => cases isApply
  | apply kind outcome filter =>
      rcases configured : (kind.reconfigure outcome.parameters.alpha outcome.parameters.warmup).run.run filter with
        ⟨_ | _, next⟩
      · refine ⟨none, fun tuner => ?_⟩
        rw [Tuner.use, Tuner.run_apply, configured]
        rfl
      · refine ⟨some (clampUnit outcome.parameters.allowAlign), fun tuner => ?_⟩
        rw [Tuner.use, Tuner.run_apply, configured]
        rfl

/-- The ranking of a used tuner has room for as many outcomes as that of a new one. -/
theorem capacity_after (history : List Use) : (after φ history).ranking.capacity = Ranking.standardCapacity := by
  have kept {tuner : Tuner} (room : tuner.ranking.capacity = Ranking.standardCapacity) :
      (history.foldl (use φ) tuner).ranking.capacity = Ranking.standardCapacity := by
    induction history generalizing tuner with
    | nil => exact room
    | cons first rest inductionHypothesis =>
        apply inductionHypothesis
        cases isSearch : first.isSearch with
        | false =>
            obtain ⟨tolerated, used⟩ := use_of_not_isSearch φ isSearch
            rwa [used]
        | true =>
            obtain ⟨ranked, standard, used⟩ := use_of_isSearch φ isSearch
            rw [used]
            cases ranked with
            | none => exact room
            | some ranking => exact standard ranking rfl
  exact kept rfl

/-- What uses leave alone, and others change without a look at anything else, depends on those others only. -/
theorem observe_after {α : Type} (observe : Tuner → α) (counts : Use → Bool)
    (shared : ∀ use, counts use = true → ∀ left right : Tuner, observe left = observe right →
      observe (left.use φ use) = observe (right.use φ use))
    (kept : ∀ use, counts use = false → ∀ tuner : Tuner, observe (tuner.use φ use) = observe tuner)
    (history : List Use) : observe (after φ history) = observe (after φ (history.filter counts)) := by
  have agree {left right : Tuner} (same : observe left = observe right) :
      observe (history.foldl (use φ) left) = observe ((history.filter counts).foldl (use φ) right) := by
    induction history generalizing left right with
    | nil => exact same
    | cons first rest inductionHypothesis =>
        cases counted : counts first with
        | true =>
            rw [List.filter_cons_of_pos counted]
            exact inductionHypothesis (shared first counted left right same)
        | false =>
            rw [List.filter_cons_of_neg (by simp [counted])]
            exact inductionHypothesis ((kept first counted left).trans same)
  exact agree rfl

/-- Only searches change the ranking. -/
theorem ranking_after (history : List Use) :
    (after φ history).ranking = (after φ (history.filter Use.isSearch)).ranking := by
  refine observe_after φ Tuner.ranking Use.isSearch (fun use isSearch left right same => ?_)
    (fun use isApply tuner => ?_) history
  · obtain ⟨ranked, -, used⟩ := use_of_isSearch φ isSearch
    rw [used, used, same]
  · obtain ⟨tolerated, used⟩ := use_of_not_isSearch φ isApply
    rw [used]

/-- Only outcomes that are handed to a filter change the tolerance. -/
theorem allowAlign_after (history : List Use) :
    (after φ history).allowAlign = (after φ (history.filter fun use => !use.isSearch)).allowAlign := by
  refine observe_after φ Tuner.allowAlign (fun use => !use.isSearch) (fun use isApply left right same => ?_)
    (fun use isSearch tuner => ?_) history
  · obtain ⟨tolerated, used⟩ := use_of_not_isSearch φ (by simpa using isApply)
    rw [used, used, same]
  · obtain ⟨ranked, -, used⟩ := use_of_isSearch φ (by simpa using isSearch)
    rw [used]

/-- Neither more samples nor refinements make the outcome of a search worse. Whatever a tuner was used for before, it
finds and ranks what a new one does, also if it puts the outcomes into the ranking that it has, once that is cleared. A
search leaves the tolerance as it is, as an outcome that is handed to a filter does the ranking. -/
theorem search_improves (history : List Use) (episodes : List Episode) (space : Space) (trials refinements : Nat)
    (seed : UInt64) :
    let tuner := after φ history
    let search (trials refinements : Nat) := tuner.search φ episodes space trials refinements seed
    let fresh := Tuner.standard.search φ episodes space trials refinements seed
    let inPlace := (Progress.startFrom seed tuner.ranking.clear).searched φ episodes space trials refinements
    (1 ≤ trials → ∀ more, trials ≤ more → (search more 0).1.loss ≤ (search trials 0).1.loss) ∧
    (1 ≤ trials → (search trials refinements).1.loss ≤ (search trials 0).1.loss) ∧
    (search trials refinements).1 = fresh.1 ∧ (search trials refinements).2.ranking = fresh.2.ranking ∧
    inPlace.best = fresh.1 ∧ inPlace.ranking = fresh.2.ranking ∧
    (search trials refinements).2.allowAlign = tuner.allowAlign ∧
    tuner.ranking = (after φ (history.filter Use.isSearch)).ranking ∧
    tuner.allowAlign = (after φ (history.filter fun use => !use.isSearch)).allowAlign := by
  intro tuner search fresh inPlace
  have start : IsLoss (Progress.startFrom seed .empty).best.loss := .inr rfl
  have found (trials refinements : Nat) : (search trials refinements).1 =
      ((Progress.startFrom seed .empty).searched φ episodes space trials refinements).best := by
    simp only [search, Tuner.search, search_eq_searched]
  have cleared : tuner.ranking.clear = .empty := by
    rw [Ranking.clear, capacity_after]
    rfl
  have filled : (inPlace.best, inPlace.ranking) = Tuning.search φ episodes space trials refinements seed := by
    rw [search_eq_searched, ← cleared]
  refine ⟨fun positive more ordered => ?_, fun _ => ?_, rfl, rfl, congrArg Prod.fst filled, congrArg Prod.snd filled,
    rfl, ranking_after φ history, allowAlign_after φ history⟩
  · rw [found, found]
    exact (Progress.searched_improves_of_le start positive ordered).loss_le
  · rw [found, found]
    exact (Progress.searched_improves_of_refinements start refinements).loss_le

/-- A tuner that has ranked outcomes and applied one searches on, and both more samples and refinements pay. -/
theorem search_improves_used :
    let episode : Episode := ⟨#[.zero, { Tick.zero with influence := 1, consent := 0.5 }], .spike⟩
    let tuner := after ExponentialFilter
      [.search [] .standard 4 4 1, .search [singleTick] .standard 2 1 3,
        .apply inferInstance (.unevaluated .standard) ExponentialFilter.standard]
    let search (trials refinements : Nat) :=
      (tuner.search ExponentialFilter [episode] .standard trials refinements 7).1
    tuner.ranking.items.length = 3 ∧ tuner.allowAlign = 0.5 ∧ 1 ≤ 1 ∧ 1 ≤ 3 ∧ (search 1 0).isEvaluated ∧
      (search 3 0).loss ≤ (search 1 0).loss ∧ (search 3 0).loss ≠ (search 1 0).loss ∧
      (search 1 2).loss ≤ (search 1 0).loss ∧ (search 1 2).loss ≠ (search 1 0).loss ∧
      search 1 2 = (Tuner.standard.search ExponentialFilter [episode] .standard 1 2 7).1 := by
  intro episode tuner search
  obtain ⟨longer, refined, same, -⟩ := search_improves ExponentialFilter
    [.search [] .standard 4 4 1, .search [singleTick] .standard 2 1 3,
      .apply inferInstance (.unevaluated .standard) ExponentialFilter.standard] [episode] .standard 1 2 7
  exact ⟨by decide +kernel, by decide +kernel, le_rfl, by decide, by decide +kernel, longer le_rfl 3 (by decide),
    by decide +kernel, refined le_rfl, by decide +kernel, same⟩

end Tuner

end EpisodicReplay.Tuning
