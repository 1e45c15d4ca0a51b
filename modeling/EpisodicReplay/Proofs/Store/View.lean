import EpisodicReplay.Proofs.Store.Directory
import EpisodicReplay.Store.Selection

/-!
What a store sees of its directory: the index and the files that are named like an episode. Where these are the same,
the store that is opened is the same, and it finds the same episodes.
-/

namespace EpisodicReplay

/-- The maximum of ids depends on nothing but which ids there are. -/
theorem max?_congr {left right : List UInt32} (same : ∀ id, id ∈ left ↔ id ∈ right) : left.max? = right.max? := by
  cases greatest : right.max? with
  | none =>
      rw [List.max?_eq_none_iff] at greatest ⊢
      exact List.eq_nil_iff_forall_not_mem.mpr fun id member => by simpa [greatest] using (same id).mp member
  | some id =>
      obtain ⟨member, bound⟩ := List.max?_eq_some_iff.mp greatest
      exact List.max?_eq_some_iff.mpr ⟨(same id).mpr member, fun other known => bound other ((same other).mp known)⟩

namespace Store
variable {capacity : Nat} {files later : Files} {directory : String} {place : Location} {store : Store capacity}
  {id : UInt32}

/-- The names of the files that a store looks at: the index and whatever is named like an episode. -/
def Reads (name : String) : Prop :=
  name = indexName ∨ (EpisodeFile.idOfName? name).isSome

instance (name : String) : Decidable (Reads name) :=
  inferInstanceAs (Decidable (_ ∨ _))

/-- Two states of the files in which the directory of a store looks the same to it. -/
structure LooksSame (directory : String) (place : Location) (files later : Files) : Prop where
  home : HomeAt files directory place
  laterHome : HomeAt later directory place
  entry : ∀ name, Reads name → later.entry? (place ++ [name]) = files.entry? (place ++ [name])

namespace LooksSame

theorem readIndexFile (same : LooksSame directory place files later) :
    later.read (Path.join directory indexName) = files.read (Path.join directory indexName) :=
  same.home.indexAt.read_congr same.laterHome.indexAt (same.entry _ (.inl rfl))

theorem readEpisodeFile (same : LooksSame directory place files later) (id : UInt32) :
    later.read (Path.join directory (EpisodeFile.name id)) = files.read (Path.join directory (EpisodeFile.name id)) :=
  (same.home.episodeAt id).read_congr (same.laterHome.episodeAt id)
    (same.entry _ (.inr (by rw [EpisodeFile.idOfName?_name]; rfl)))

theorem indexIds (same : LooksSame directory place files later) :
    Store.indexIds later directory = Store.indexIds files directory := by
  rw [Store.indexIds, Store.indexIds, same.readIndexFile]

theorem recoveredId? (same : LooksSame directory place files later) :
    Store.recoveredId? later directory = Store.recoveredId? files directory := by
  have inNames (id : UInt32) : id ∈ fileIds later directory ↔ id ∈ fileIds files directory := by
    rw [same.home.mem_fileIds, same.laterHome.mem_fileIds]
    refine exists_congr fun name => and_congr_left fun named => ?_
    rw [same.entry name (.inr (by rw [named]; rfl))]
  have shown (id : UInt32) : id ∈ shownIds later directory ↔ id ∈ shownIds files directory := by
    rw [shownIds, shownIds, same.indexIds, List.mem_append, List.mem_append, inNames]
  have greatest : (shownIds later directory).max? = (shownIds files directory).max? := max?_congr shown
  rw [shownIds, shownIds] at greatest
  rw [Store.recoveredId?, Store.recoveredId?, greatest]

theorem loadEpisode (same : LooksSame directory place files later) (based : store.directory = some directory)
    (id : UInt32) : store.loadEpisode later id = store.loadEpisode files id := by
  simp only [Store.loadEpisode, based, readEpisode, same.readEpisodeFile]

theorem reload (same : LooksSame directory place files later) (based : store.directory = some directory)
    (ids : List UInt32) : store.reload later ids = store.reload files ids := by
  unfold Store.reload
  induction ids generalizing store with
  | nil => rfl
  | cons id ids inductionHypothesis =>
      rw [List.foldl_cons, List.foldl_cons, same.loadEpisode based]
      split
      · exact inductionHypothesis based
      · exact inductionHypothesis based

/-- The same store is opened in a directory that looks the same. -/
theorem openAt (same : LooksSame directory place files later) (capacity_pos : 0 < capacity) :
    ((Store.openAt capacity_pos directory).run later).1 = ((Store.openAt capacity_pos directory).run files).1 := by
  have unloaded : unloaded capacity_pos later directory = unloaded capacity_pos files directory := by
    rw [Store.unloaded, Store.unloaded, same.recoveredId?]
  rw [run_openAt same.home.directoryAt.createDirectories_eq,
    run_openAt same.laterHome.directoryAt.createDirectories_eq, same.indexIds, unloaded]
  exact same.reload rfl _

theorem episode? (same : LooksSame directory place files later) (based : store.directory = some directory)
    (id : UInt32) : store.episode? later id = store.episode? files id := by
  rw [Store.episode?, Store.episode?, same.loadEpisode based]

theorem records (same : LooksSame directory place files later) (based : store.directory = some directory) :
    store.records later = store.records files := by
  simp only [Store.records, readIndex, based, Option.map_some, same.readIndexFile]

theorem selectForTuning (same : LooksSame directory place files later) (based : store.directory = some directory)
    (selector : Selector) (count : Nat) :
    store.selectForTuning later selector count = store.selectForTuning files selector count := by
  simp only [Store.selectForTuning, same.records based, same.episode? based]

end LooksSame

end Store

end EpisodicReplay
