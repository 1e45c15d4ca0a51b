import EpisodicReplay.Proofs.Ring
import EpisodicReplay.Proofs.Store.Directory
import EpisodicReplay.Store.Selection

/-! Stores that episodes without ticks do not get into give none out, whatever the files hold. -/

namespace EpisodicReplay.Store
variable {capacity : Nat} {store : Store capacity} {files : Files} {id : UInt32} {episode : Episode}

/-- Stores that were opened somewhere or nowhere and then took episodes with ticks. Nothing is asked of the files,
neither at the opening nor later. -/
inductive Obtained : Store capacity → Prop
  | inMemory (capacity_pos : 0 < capacity) : Obtained (.inMemory capacity_pos)
  | openAt (capacity_pos : 0 < capacity) (directory : String) (files : Files) :
      Obtained ((Store.openAt capacity_pos directory).run files).1
  | withIndexLimit {store : Store capacity} (obtained : Obtained store) (limit : Nat) :
      Obtained (store.withIndexLimit limit)
  | finalize {store : Store capacity} (obtained : Obtained store) (files : Files) {episode : Episode}
      (ticked : episode.isEmpty = false) : Obtained ((store.finalize episode).run files).1.2

/-- Every cached episode has a tick. -/
def Stocked (store : Store capacity) : Prop :=
  ∀ record ∈ store.cache.toList, record.episode.isEmpty = false

theorem inMemory_stocked (capacity_pos : 0 < capacity) : (inMemory capacity_pos).Stocked :=
  fun _ member => absurd member List.not_mem_nil

theorem Stocked.push (stocked : store.Stocked) (ticked : episode.isEmpty = false) :
    Stocked { store with cache := (store.cache.push ⟨id, episode⟩).2 } := by
  intro record member
  rw [Ring.push_toList] at member
  rcases List.mem_append.mp (List.mem_of_mem_drop member) with cached | new
  · exact stocked record cached
  · rw [List.mem_singleton.mp new]
    exact ticked

/-- A file without ticks is refused. -/
theorem loadEpisode_ticked (loaded : store.loadEpisode files id = .ok episode) : episode.isEmpty = false := by
  unfold loadEpisode readEpisode at loaded
  split at loaded
  case h_1 => cases loaded
  case h_2 =>
    split at loaded
    case h_1 => cases loaded
    case h_2 =>
      split at loaded
      case isTrue => cases loaded
      case isFalse nonempty =>
        cases loaded
        exact Bool.eq_false_iff.mpr nonempty

theorem Stocked.reload (stocked : store.Stocked) (ids : List UInt32) : (store.reload files ids).Stocked := by
  unfold Store.reload
  induction ids generalizing store with
  | nil => exact stocked
  | cons id ids inductionHypothesis =>
      rw [List.foldl_cons]
      apply inductionHypothesis
      split
      case h_1 loaded => exact stocked.push (loadEpisode_ticked loaded)
      case h_2 => exact stocked

/-- The files have no say in what a store becomes. -/
theorem finalize_fst (store : Store capacity) (episode : Episode) (files : Files) :
    ((store.finalize episode).run files).1 = store.enroll episode := by
  rw [run_finalize]
  rcases store.enroll episode with ⟨_ | id, next⟩
  · rfl
  · cases store.directory <;> rfl

theorem Stocked.enroll (stocked : store.Stocked) (ticked : episode.isEmpty = false) :
    (store.enroll episode).2.Stocked := by
  unfold Store.enroll
  split
  case h_1 => exact stocked
  case h_2 => exact stocked.push ticked

theorem Obtained.stocked (obtained : store.Obtained) : store.Stocked := by
  induction obtained with
  | inMemory capacity_pos => exact inMemory_stocked capacity_pos
  | openAt capacity_pos directory files =>
      rcases created : files.createDirectories directory with ⟨_ | _, later⟩
      case error fault =>
        have opened : (Store.openAt capacity_pos directory).run files = (Store.inMemory capacity_pos, later) := by
          unfold Store.openAt
          simp only [StateT.run_bind, StateT.run_get, StateT.run_set, pure_bind, created]
          rfl
        rw [opened]
        exact inMemory_stocked capacity_pos
      case ok =>
        have unloaded : (unloaded capacity_pos later directory).Stocked := inMemory_stocked capacity_pos
        rw [run_openAt created]
        exact unloaded.reload _
  | withIndexLimit obtained limit inductionHypothesis => exact inductionHypothesis
  | finalize obtained files ticked inductionHypothesis =>
      rw [finalize_fst]
      exact inductionHypothesis.enroll ticked

theorem Stocked.episode? (stocked : store.Stocked) (found : store.episode? files id = some episode) :
    episode.isEmpty = false := by
  unfold Store.episode? at found
  split at found
  case h_1 record cached =>
    cases found
    exact stocked record (List.mem_of_find?_eq_some cached)
  case h_2 =>
    cases loaded : store.loadEpisode files id with
    | error failure =>
        rw [loaded] at found
        cases found
    | ok other =>
        rw [loaded] at found
        cases found
        exact loadEpisode_ticked loaded

theorem Stocked.selectForTuning (stocked : store.Stocked) (files : Files) (selector : Selector) (count : Nat) :
    ∀ record ∈ store.selectForTuning files selector count, record.episode.isEmpty = false := by
  intro record member
  obtain ⟨id, -, found⟩ := List.mem_filterMap.mp member
  obtain ⟨episode, loaded, rfl⟩ := Option.map_eq_some_iff.mp found
  exact stocked.episode? loaded

/-- Nothing is left to tune on just if no picked episode can be loaded. -/
theorem selectForTuning_eq_nil (selector : Selector) (count : Nat) :
    store.selectForTuning files selector count = [] ↔
      ∀ id ∈ selector.selectForTuning (store.records files) count, store.episode? files id = none := by
  rw [selectForTuning, List.filterMap_eq_nil_iff]
  simp only [Option.map_eq_none_iff]

end EpisodicReplay.Store
