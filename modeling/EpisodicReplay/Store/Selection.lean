import EpisodicReplay.Selector
import EpisodicReplay.Store

/-! The episodes of a store that a selector picks. -/

namespace EpisodicReplay.Store
variable {capacity : Nat}

/-- The picked episodes for tuning. One that cannot be loaded is left out. -/
def selectForTuning (store : Store capacity) (files : Files) (selector : Selector) (count : Nat) :
    List EpisodeRecord :=
  (selector.selectForTuning (store.records files) count).filterMap fun id =>
    (store.episode? files id).map (EpisodeRecord.mk id)

end EpisodicReplay.Store
