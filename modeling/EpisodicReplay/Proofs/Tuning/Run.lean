import EpisodicReplay.Proofs.Store.Ticked
import EpisodicReplay.Proofs.Tuning.Transcript
import EpisodicReplay.Tuning.Run

/-! A run on stored episodes ends in an evaluated outcome within its budget, or finds no episode. -/

namespace EpisodicReplay.Tuning

theorem Settings.one_le_budget (settings : Settings) : 1 ≤ settings.budget.1 := by
  simp only [budget]
  omega

theorem Settings.budget_le (settings : Settings) :
    settings.budget.1 + settings.budget.2 ≤ max 1 settings.maxRuns := by
  simp only [budget]
  omega

/-- A search takes the trials of a budget as they are. -/
theorem Settings.trialCount_budget (settings : Settings) : trialCount settings.budget.1 = settings.budget.1 :=
  if_neg (Nat.one_le_iff_ne_zero.mp settings.one_le_budget)

section
variable (φ : Type) [SmoothingFilter φ]

/-- The transcript of the search that settings ask for. -/
def Settings.transcript (settings : Settings) (episodes : List Episode) : Transcript :=
  Tuning.transcript φ episodes settings.space settings.budget.1 settings.budget.2 settings.seed

/-- What a search within the budget of its settings has found, and what it has scored on the way. -/
structure Settings.Spent (settings : Settings) (episodes : List Episode) (best : Outcome) (ranking : Ranking) :
    Prop where
  evaluated : best.isEvaluated
  first : ranking.items.head? = some best
  progress : (settings.transcript φ episodes).progress.best = best ∧
    (settings.transcript φ episodes).progress.ranking = ranking
  sound : (settings.transcript φ episodes).Sound φ episodes
  scored : (settings.transcript φ episodes).scored.length = settings.budget.1 + settings.budget.2
  atLeast : 1 ≤ settings.budget.1
  atMost : settings.budget.1 + settings.budget.2 ≤ max 1 settings.maxRuns
  ranked : ranking.items.length = min 16 (settings.budget.1 + settings.budget.2)

/-- A search that sees a tick returns the first of its ranking. -/
theorem exists_search {episodes : List Episode} (ticked : ∃ episode ∈ episodes, episode.isEmpty = false)
    (space : Space) (trials refinements : Nat) (seed : UInt64) :
    ∃ best ranking, search φ episodes space trials refinements seed = (best, ranking) ∧ best.isEvaluated ∧
      ranking.items.head? = some best ∧ ranking.items.length = min 16 (trialCount trials + refinements) := by
  obtain ⟨best, rest, sorted, scored⟩ := exists_scored φ space trials refinements seed ticked
  let outcomes := (candidates φ episodes space trials refinements seed).map (evaluate φ episodes)
  refine ⟨best, ⟨(sortedByLoss outcomes).take 16, 16⟩, ?_, ?_, ?_, ?_⟩
  · rw [search_eq_foldl φ space trials refinements seed ticked, scored]
    rfl
  · have member : best ∈ sortedByLoss outcomes := by
      rw [sorted]
      exact List.mem_cons_self
    obtain ⟨parameters, -, rfl⟩ := List.mem_map.mp (List.mem_mergeSort.mp member)
    exact evaluate_isEvaluated φ parameters ticked
  · rw [sorted]
    rfl
  · rw [List.length_take, length_sorted]

theorem Settings.exists_spent (settings : Settings) {episodes : List Episode}
    (ticked : ∃ episode ∈ episodes, episode.isEmpty = false) : ∃ best ranking,
      search φ episodes settings.space settings.budget.1 settings.budget.2 settings.seed = (best, ranking) ∧
        settings.Spent φ episodes best ranking := by
  obtain ⟨best, ranking, searched, evaluated, first, ranked⟩ :=
    exists_search φ ticked settings.space settings.budget.1 settings.budget.2 settings.seed
  have followed := search_eq_transcript φ episodes settings.space settings.budget.1 settings.budget.2 settings.seed
  rw [searched] at followed
  have scored := length_scored φ settings.space settings.budget.1 settings.budget.2 settings.seed ticked
  rw [settings.trialCount_budget] at ranked scored
  exact ⟨best, ranking, searched, {
    evaluated, first, scored, ranked
    progress := ⟨(congrArg Prod.fst followed).symm, (congrArg Prod.snd followed).symm⟩
    sound := transcript_sound ..
    atLeast := settings.one_le_budget
    atMost := settings.budget_le }⟩

namespace Tuner
variable {capacity : Nat}

/-- How a run on a tuner ends, with the tuner that it leaves. It fails only if no picked episode can be
loaded, and leaves the tuner alone then; otherwise the tuner has the ranking of a search that spent the budget. -/
structure Settles (store : Store capacity) (files : Files) (settings : Settings) (tuner : Tuner)
    (result : Except Failure Outcome) (next : Tuner) : Prop where
  refused : result = .error .noEpisodes ↔
    ∀ id ∈ settings.source.selectForTuning (store.records files) settings.selectCount, store.episode? files id = none
  kept : result = .error .noEpisodes → next = tuner
  found : result ≠ .error .noEpisodes → ∃ best, result = .ok best ∧ next.allowAlign = tuner.allowAlign ∧
    settings.Spent φ ((store.selectForTuning files settings.source settings.selectCount).map EpisodeRecord.episode)
      best next.ranking

variable {store : Store capacity} {files : Files} {settings : Settings} {tuner : Tuner}

theorem run_of_eq_nil (nothing : store.selectForTuning files settings.source settings.selectCount = []) :
    (run φ store files settings).run.run tuner = (.error .noEpisodes, tuner) := by
  rw [run, nothing]
  rfl

theorem run_of_ne_nil (something : store.selectForTuning files settings.source settings.selectCount ≠ []) :
    (run φ store files settings).run.run tuner =
      let episodes :=
        (store.selectForTuning files settings.source settings.selectCount).map EpisodeRecord.episode
      let searched :=
        tuner.search φ episodes settings.space settings.budget.1 settings.budget.2 settings.seed
      (.ok searched.1, searched.2) := by
  rw [run]
  split
  case h_1 nothing => exact absurd nothing something
  case h_2 => rfl

theorem exists_run (stocked : store.Stocked)
    (something : store.selectForTuning files settings.source settings.selectCount ≠ []) :
    ∃ best ranking, (run φ store files settings).run.run tuner = (.ok best, { tuner with ranking }) ∧
      settings.Spent φ ((store.selectForTuning files settings.source settings.selectCount).map EpisodeRecord.episode)
        best ranking := by
  have filled := stocked.selectForTuning files settings.source settings.selectCount
  rw [run_of_ne_nil φ something]
  generalize store.selectForTuning files settings.source settings.selectCount = records at filled something
  obtain ⟨record, rest, rfl⟩ := List.exists_cons_of_ne_nil something
  have ticked : ∃ episode ∈ (record :: rest).map EpisodeRecord.episode, episode.isEmpty = false :=
    ⟨record.episode, List.mem_map_of_mem List.mem_cons_self, filled record List.mem_cons_self⟩
  obtain ⟨best, ranking, searched, spent⟩ := settings.exists_spent φ ticked
  refine ⟨best, ranking, ?_, spent⟩
  dsimp only
  rw [search, searched]

theorem isEvaluated_of_run (stocked : store.Stocked) {best : Outcome}
    (ran : ((run φ store files settings).run.run tuner).1 = .ok best) : best.isEvaluated := by
  by_cases nothing : store.selectForTuning files settings.source settings.selectCount = []
  · rw [run_of_eq_nil φ nothing] at ran
    cases ran
  · obtain ⟨best, ranking, run, spent⟩ := exists_run φ stocked nothing
    rw [run] at ran
    cases ran
    exact spent.evaluated

theorem settles (stocked : store.Stocked) (files : Files) (settings : Settings) (tuner : Tuner) :
    Settles φ store files settings tuner ((run φ store files settings).run.run tuner).1
      ((run φ store files settings).run.run tuner).2 := by
  by_cases nothing : store.selectForTuning files settings.source settings.selectCount = []
  · rw [run_of_eq_nil φ nothing]
    exact ⟨iff_of_true rfl ((Store.selectForTuning_eq_nil ..).mp nothing), fun _ => rfl, fun found => absurd rfl found⟩
  · obtain ⟨best, ranking, run, spent⟩ := exists_run φ stocked nothing
    rw [run]
    exact ⟨iff_of_false nofun fun none => nothing ((Store.selectForTuning_eq_nil ..).mpr none), nofun,
      fun _ => ⟨best, rfl, rfl, spent⟩⟩

end Tuner

end

end EpisodicReplay.Tuning
