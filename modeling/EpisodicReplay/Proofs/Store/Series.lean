import EpisodicReplay.Proofs.Store.Enrollment
import EpisodicReplay.Proofs.Store.Visibility

/-!
Episodes that are finished one after another. The store gives them their ids and caches them, the directory gets a
file for each, and the index lists those since it was last emptied.
-/

namespace EpisodicReplay

namespace Session
open Store (indexName)
variable {capacity : Nat} {capacity_pos : 0 < capacity} {indexLimit : Nat} {session : Session} {files : Files}
  {directory : String} {place : Location} {ledger : Ledger} {id : UInt32} {episodes : List Episode} {episode : Episode}
  {first : Nat}

/-- Finishes episodes in their order. -/
def finish (session : Session) (directory : String) (episodes : List Episode) : List UInt32 × Session :=
  session.run directory (episodes.map .finalize)

theorem run_cons (session : Session) (directory : String) (act : Act) (acts : List Act) :
    session.run directory (act :: acts) =
      ((session.step directory act).1.toList ++ ((session.step directory act).2.run directory acts).1,
        ((session.step directory act).2.run directory acts).2) := rfl

theorem run_concat (session : Session) (directory : String) (acts : List Act) (act : Act) :
    session.run directory (acts ++ [act]) =
      ((session.run directory acts).1 ++ ((session.run directory acts).2.step directory act).1.toList,
        ((session.run directory acts).2.step directory act).2) := by
  induction acts generalizing session with
  | nil => simp [run]
  | cons first rest inductionHypothesis =>
      rw [List.cons_append, run_cons, inductionHypothesis, run_cons, List.append_assoc]

/-- An episode gets the next id, whatever becomes of the files. -/
theorem step_finalize_fst (session : Session) (directory : String) (episode : Episode) :
    (session.step directory (.finalize episode)).1 = session.store.nextId := by
  have given := congrArg Prod.fst (Store.finalizeBy_fst Store.persist session.store episode session.files)
  exact given.trans (session.store.enroll_fst episode)

theorem finish_concat (session : Session) (directory : String) (episodes : List Episode) (episode : Episode) :
    session.finish directory (episodes ++ [episode]) =
      ((session.finish directory episodes).1 ++ (session.finish directory episodes).2.store.nextId.toList,
        ((session.finish directory episodes).2.step directory (.finalize episode)).2) := by
  rw [finish, List.map_append, List.map_singleton, run_concat, step_finalize_fst]
  rfl

section store

/-- What a store makes of episodes does not depend on its files. -/
theorem exists_finish (store : Store capacity) (files : Files) (directory : String) (episodes : List Episode) :
    ∃ ids now later, (⟨capacity, store, files⟩ : Session).finish directory episodes = (ids, ⟨capacity, now, later⟩) ∧
      store.Enrolled now ids episodes ∧ now.directory = store.directory := by
  induction episodes using List.reverseRecOn with
  | nil => exact ⟨[], store, files, rfl, .refl store, rfl⟩
  | append_singleton earlier episode inductionHypothesis =>
      obtain ⟨ids, now, later, finished, enrolled, based⟩ := inductionHypothesis
      have written := Store.finalizeBy_fst Store.persist now episode later
      refine ⟨ids ++ (now.enroll episode).1.toList, (now.enroll episode).2, ((now.finalize episode).run later).2, ?_,
        enrolled.take (some episode), ?_⟩
      · rw [finish_concat, finished, Store.enroll_fst, ← written]
        rfl
      · rw [← based, Store.enroll]
        cases now.nextId <;> rfl

theorem length_finish_le (session : Session) (directory : String) (episodes : List Episode) :
    (session.finish directory episodes).1.length ≤ episodes.length := by
  obtain ⟨ids, now, later, finished, enrolled, -⟩ := exists_finish session.store session.files directory episodes
  rw [show session.finish directory episodes = _ from finished]
  exact enrolled.length_le

theorem length_finish (available : (session.finish directory episodes).2.store.nextId = some id) :
    (session.finish directory episodes).1.length = episodes.length := by
  obtain ⟨ids, now, later, finished, enrolled, -⟩ := exists_finish session.store session.files directory episodes
  rw [show session.finish directory episodes = _ from finished] at available ⊢
  exact enrolled.length_eq available

theorem length_finish_concat (available : (session.finish directory episodes).2.store.nextId = some id) :
    (session.finish directory (episodes ++ [episode])).1.length = episodes.length + 1 := by
  rw [finish_concat, available, List.length_append, length_finish available]
  rfl

/-- Records that show the ids they are made of show all ids that were given out. -/
theorem map_zipWith_finish {α : Type} {record : UInt32 → Episode → α} {shown : α → UInt32}
    (shows : ∀ id episode, shown (record id episode) = id) (session : Session) (directory : String)
    (episodes : List Episode) :
    (List.zipWith record (session.finish directory episodes).1 episodes).map shown =
      (session.finish directory episodes).1 := by
  have same : (fun id episode => shown (record id episode)) = fun id episode => (Prod.mk id episode).1 :=
    funext₂ shows
  rw [List.map_zipWith, same, ← List.map_zipWith]
  exact List.map_fst_zip (length_finish_le session directory episodes)

/-- One more episode makes one more record of any kind, as long as there are ids. -/
theorem zipWith_finish_concat {α : Type} (record : UInt32 → Episode → α) (session : Session) (directory : String)
    (episodes : List Episode) (episode : Episode) :
    List.zipWith record (session.finish directory (episodes ++ [episode])).1 (episodes ++ [episode]) =
      List.zipWith record (session.finish directory episodes).1 episodes ++
        ((session.finish directory episodes).2.store.nextId.map (record · episode)).toList := by
  rw [finish_concat]
  cases available : (session.finish directory episodes).2.store.nextId with
  | none =>
      rw [Option.toList_none, List.append_nil, Store.zipWith_append_of_length_le _ (length_finish_le ..)]
      exact (List.append_nil _).symm
  | some id =>
      rw [Option.toList_some, List.zipWith_append (length_finish available)]
      rfl

end store

section files

/-- The ledger has every episode under the id that it got. -/
theorem Keeps.finish (keeps : session.Keeps directory place ledger) (episodes : List Episode)
    (writes : ∀ episode ∈ episodes, episode.Built ∧ episode.isEmpty = false) : ∃ last,
    (session.finish directory episodes).2.Keeps directory place last ∧
      ∀ record ∈ List.zipWith EpisodeRecord.mk (session.finish directory episodes).1 episodes,
        last.episode? record.id = some record.episode := by
  induction episodes using List.reverseRecOn with
  | nil => exact ⟨ledger, keeps, nofun⟩
  | append_singleton earlier episode inductionHypothesis =>
      obtain ⟨now, nowKeeps, noted⟩ := inductionHypothesis fun other member =>
        writes other (List.mem_append_left _ member)
      obtain ⟨built, nonempty⟩ := writes episode (List.mem_append_right _ List.mem_cons_self)
      rw [zipWith_finish_concat, finish_concat]
      cases available : (session.finish directory earlier).2.store.nextId with
      | none =>
          simp only [Consistent.finalize_none available, Option.map_none, Option.toList_none, List.append_nil]
          exact ⟨now, nowKeeps, noted⟩
      | some id =>
          refine ⟨now.note id episode, (nowKeeps.finalize available built.sound nonempty).2, fun record member => ?_⟩
          rcases List.mem_append.mp member with old | new
          · have different : record.id ≠ id := by
              intro same
              have known := noted record old
              rw [same, nowKeeps.unknown available] at known
              cases known
            rw [Ledger.note_episode?_of_ne different]
            exact noted record old
          · rw [List.mem_singleton.mp new]
            exact now.note_episode?_self id episode

end files

section index

/-- A store that opens an empty directory begins like one in memory. -/
theorem opened_of_empty (usable : Usable files directory)
    (empty : (files.createDirectories directory).2.list directory = .ok []) :
    opened directory capacity_pos indexLimit files =
      ⟨capacity, { Store.inMemory capacity_pos with directory := some directory, indexLimit },
        (files.createDirectories directory).2⟩ := by
  obtain ⟨place, directoryAt⟩ := Files.directoryAt_of_createDirectories usable.named usable.created
  have created : files.createDirectories directory = (.ok (), (files.createDirectories directory).2) :=
    Prod.ext usable.created rfl
  rw [opened, @Store.run_openAt_empty _ _ _ _ _ capacity_pos created ⟨directoryAt, usable.room⟩ empty]
  rfl

/-- At the place of the index an empty directory has nothing. -/
theorem Consistent.indexed_of_empty (consistent : session.Consistent directory place)
    (empty : session.files.list directory = .ok []) :
    session.Indexed directory place ∧ session.files.contentAt (place ++ [indexName]) = .empty := by
  have absent := consistent.home.entry?_of_empty empty indexName
  have content : session.files.contentAt (place ++ [indexName]) = .empty := by rw [Files.contentAt, absent]
  refine ⟨⟨consistent, by rw [absent]; simp, ?_⟩, content⟩
  rw [content]
  exact Index.whole_empty

/-- The index has grown beyond its limit, and the next line that is added empties it. -/
def Truncates (session : Session) (directory : String) : Prop :=
  ((Log.trim (Path.join directory indexName) session.store.indexLimit).run.run session.files).1 = .ok true

instance : Decidable (session.Truncates directory) :=
  inferInstanceAs (Decidable (_ = _))

namespace Indexed

theorem finish (indexed : session.Indexed directory place) (episodes : List Episode) :
    (session.finish directory episodes).2.Indexed directory place :=
  indexed.run _

theorem truncates_iff (indexed : session.Indexed directory place) : session.Truncates directory ↔
    session.store.indexLimit < (session.files.contentAt (place ++ [indexName])).size := by
  obtain ⟨trimmed, run, -⟩ := @Log.trim_file _ session.store.indexLimit _ _ indexed.consistent.home.indexAt indexed.free
  rw [Truncates, run, Except.ok.injEq, decide_eq_true_iff]

/-- A finished episode adds its line to the others, or takes their place. -/
theorem textLines_finalize (indexed : session.Indexed directory place) (available : session.store.nextId = some id)
    (episode : Episode) :
    Index.textLines ((session.step directory (.finalize episode)).2.files.contentAt (place ++ [indexName])) =
      (if session.Truncates directory then [] else
        Index.textLines (session.files.contentAt (place ++ [indexName]))) ++
          [(IndexRecord.ofEpisode id episode).line] := by
  rw [(indexed.finalize available episode).2, (indexed.whole.kept _).textLines_append, Index.textLines_line, Log.kept]
  by_cases grown : session.Truncates directory
  · rw [if_pos grown, if_pos (indexed.truncates_iff.mp grown)]
    rfl
  · rw [if_neg grown, if_neg (mt indexed.truncates_iff.mpr grown)]

end Indexed

/-- The index is emptied at the first of the episodes that it lists, unless that is the very first one, and at no
later one. -/
structure ListedFrom (session : Session) (directory : String) (episodes : List Episode) (first : Nat) : Prop where
  inside : first = 0 ∨ first < (session.finish directory episodes).1.length
  emptied : first = 0 ∨ (session.finish directory (episodes.take first)).2.Truncates directory
  kept : ∀ count, first < count → count < (session.finish directory episodes).1.length →
    ¬(session.finish directory (episodes.take count)).2.Truncates directory

namespace ListedFrom

theorem le_of_listedFrom {other : Nat} (listed : session.ListedFrom directory episodes first)
    (again : session.ListedFrom directory episodes other) : other ≤ first := by
  by_contra later
  have positive : ¬other = 0 := by omega
  exact listed.kept other (by omega) (again.inside.resolve_left positive) (again.emptied.resolve_left positive)

/-- An index that never has to be emptied lists all episodes. -/
theorem eq_zero (listed : session.ListedFrom directory episodes first)
    (room : ∀ count < episodes.length, ¬(session.finish directory (episodes.take count)).2.Truncates directory) :
    first = 0 := by
  by_contra positive
  have short := length_finish_le session directory episodes
  have inside := listed.inside.resolve_left positive
  exact room first (by omega) (listed.emptied.resolve_left positive)

theorem nil (session : Session) (directory : String) : session.ListedFrom directory [] 0 :=
  ⟨.inl rfl, .inl rfl, fun count _ within => absurd within (Nat.not_lt_zero count)⟩

/-- An episode without an id is not listed. -/
theorem drop (listed : session.ListedFrom directory episodes first)
    (exhausted : (session.finish directory episodes).2.store.nextId = none) :
    session.ListedFrom directory (episodes ++ [episode]) first := by
  have same : (session.finish directory (episodes ++ [episode])).1 = (session.finish directory episodes).1 := by
    rw [finish_concat, exhausted, Option.toList_none, List.append_nil]
  have short := length_finish_le session directory episodes
  have inside := listed.inside
  constructor
  · rwa [same]
  · rw [List.take_append_of_le_length (by omega)]
    exact listed.emptied
  · intro count behind within
    rw [same] at within
    rw [List.take_append_of_le_length (by omega)]
    exact listed.kept count behind within

/-- If the index need not be emptied, a new episode is added to those that it lists. -/
theorem enroll (listed : session.ListedFrom directory episodes first)
    (available : (session.finish directory episodes).2.store.nextId = some id)
    (room : ¬(session.finish directory episodes).2.Truncates directory) :
    session.ListedFrom directory (episodes ++ [episode]) first := by
  have before := length_finish available
  have after : (session.finish directory (episodes ++ [episode])).1.length = _ := length_finish_concat available
  have inside := listed.inside
  constructor
  · omega
  · rw [List.take_append_of_le_length (by omega)]
    exact listed.emptied
  · intro count behind within
    rw [List.take_append_of_le_length (by omega)]
    by_cases newest : count = episodes.length
    · rwa [newest, List.take_length]
    · exact listed.kept count behind (by omega)

/-- If the index has to be emptied, the new episode is all that it lists. -/
theorem restart (available : (session.finish directory episodes).2.store.nextId = some id)
    (grown : (session.finish directory episodes).2.Truncates directory) :
    session.ListedFrom directory (episodes ++ [episode]) episodes.length := by
  have after : (session.finish directory (episodes ++ [episode])).1.length = _ := length_finish_concat available
  constructor
  · exact .inr (by omega)
  · rw [List.take_left]
    exact .inr grown
  · omega

end ListedFrom

/-- The index has a line for each of the episodes that it lists, and no other lines. -/
theorem Indexed.exists_listedFrom (indexed : session.Indexed directory place)
    (nothing : session.files.contentAt (place ++ [indexName]) = .empty) (episodes : List Episode) : ∃ first,
    session.ListedFrom directory episodes first ∧
      Index.textLines ((session.finish directory episodes).2.files.contentAt (place ++ [indexName])) =
        ((List.zipWith IndexRecord.ofEpisode (session.finish directory episodes).1 episodes).drop first).map
          IndexRecord.line := by
  -- What an episode does to the index depends on those before it, so the induction takes the newest one off.
  induction episodes using List.reverseRecOn with
  | nil =>
      refine ⟨0, .nil session directory, ?_⟩
      change Index.textLines (session.files.contentAt (place ++ [indexName])) = []
      rw [nothing]
      rfl
  | append_singleton earlier episode inductionHypothesis =>
      obtain ⟨first, listed, lines⟩ := inductionHypothesis
      rw [zipWith_finish_concat, finish_concat]
      cases available : (session.finish directory earlier).2.store.nextId with
      | none =>
          simp only [Consistent.finalize_none available, Option.map_none, Option.toList_none, List.append_nil]
          exact ⟨first, listed.drop available, lines⟩
      | some id =>
          have counted : (List.zipWith IndexRecord.ofEpisode (session.finish directory earlier).1 earlier).length =
              earlier.length := by
            rw [List.length_zipWith, length_finish available, Nat.min_self]
          rw [(indexed.finish earlier).textLines_finalize available]
          by_cases grown : (session.finish directory earlier).2.Truncates directory
          · refine ⟨earlier.length, .restart available grown, ?_⟩
            rw [if_pos grown, ← counted, List.drop_left]
            rfl
          · refine ⟨first, listed.enroll available grown, ?_⟩
            have inside := listed.inside
            have short := length_finish_le session directory earlier
            rw [if_neg grown, lines, List.drop_append_of_le_length (by omega), List.map_append]
            rfl

end index

end Session

end EpisodicReplay
