import EpisodicReplay.Store.Selection
import EpisodicReplay.Tuning.Search
import EpisodicReplay.Tuning.Settings

/-! Searches over the episodes of a store. -/

namespace EpisodicReplay.Tuning.Tuner
variable {capacity : Nat}

/-- Searches over the newest cached episodes up to a count, where zero means all. -/
def searchStore (φ : Type) [SmoothingFilter φ] (tuner : Tuner) (store : Store capacity) (count : Nat)
    (space : Space) (trials refinements : Nat) (seed : UInt64) : Outcome × Tuner :=
  tuner.search φ (store.recentEpisodes count) space trials refinements seed

/-- Searches over the episodes that the settings select, within their budget. -/
def run (φ : Type) [SmoothingFilter φ] (store : Store capacity) (files : Files) (settings : Settings) :
    InPlace Tuner Outcome := do
  match store.selectForTuning files settings.source settings.selectCount with
  | [] => throw .noEpisodes
  | records =>
    let (trials, refinements) := settings.budget
    modifyGet fun tuner =>
      tuner.search φ (records.map EpisodeRecord.episode) settings.space trials refinements settings.seed

end EpisodicReplay.Tuning.Tuner
