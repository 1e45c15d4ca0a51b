import EpisodicReplay.Proofs.Store.Directory

/-!
Ids are never given out twice. The next id of a store is the one that its directory shows, whatever was in the
directory before, and this stays so while episodes are finished and the store is opened again.
-/

namespace EpisodicReplay

/-- A store that works on a directory, and all files. -/
structure Session where
  capacity : Nat
  store : Store capacity
  files : Files

namespace Session
open Store (HomeAt Persisted recoveredId? shownIds successor?)

/-- What is done with the directory of a store. -/
inductive Act where
  | finalize (episode : Episode)
  | reopen (capacity : Nat) (capacity_pos : 0 < capacity) (indexLimit : Nat)

section run
variable (directory : String)

/-- A store that has just been opened on a directory. -/
def opened {capacity : Nat} (capacity_pos : 0 < capacity) (indexLimit : Nat) (files : Files) : Session :=
  let (store, later) := (Store.openAt capacity_pos directory).run files
  ⟨capacity, store.withIndexLimit indexLimit, later⟩

/-- The id that is given out, and the session after it. -/
def step (session : Session) : Act → Option UInt32 × Session
  | .finalize episode =>
    let ((id?, store), later) := (session.store.finalize episode).run session.files
    (id?, ⟨session.capacity, store, later⟩)
  | .reopen _ capacity_pos indexLimit => (none, opened directory capacity_pos indexLimit session.files)

/-- All ids that are given out, in their order, and the session at the end. -/
def run (session : Session) : List Act → List UInt32 × Session
  | [] => ([], session)
  | act :: acts =>
    let (id?, next) := session.step directory act
    let (ids, last) := run next acts
    (id?.toList ++ ids, last)

end run

variable {directory : String} {place : Location} {session next last : Session} {files : Files} {id : UInt32}
  {capacity : Nat} {capacity_pos : 0 < capacity} {indexLimit : Nat} {episode : Episode} {acts : List Act} {act : Act}

/-- The store goes on behind the ids that its directory shows. -/
structure Consistent (session : Session) (directory : String) (place : Location) : Prop where
  home : HomeAt session.files directory place
  based : session.store.directory = some directory
  nextId : session.store.nextId = recoveredId? session.files directory

theorem opened_consistent {later : Files} (created : files.createDirectories directory = (.ok (), later))
    (home : HomeAt later directory place) :
    (opened directory capacity_pos indexLimit files).Consistent directory place := by
  obtain ⟨nextId, based, same⟩ := @Store.openAt_nextId _ _ _ _ capacity_pos created
  constructor
  · change HomeAt ((Store.openAt capacity_pos directory).run files).2 directory place
    rw [same]
    exact home
  · exact based
  · change ((Store.openAt capacity_pos directory).run files).1.nextId =
      recoveredId? ((Store.openAt capacity_pos directory).run files).2 directory
    rw [nextId, same]

/-- Opening the directory again changes no file. -/
theorem Consistent.reopened (consistent : session.Consistent directory place) :
    (opened directory capacity_pos indexLimit session.files).Consistent directory place ∧
      (opened directory capacity_pos indexLimit session.files).files = session.files := by
  have created := consistent.home.directoryAt.createDirectories_eq
  exact ⟨opened_consistent created consistent.home, (@Store.openAt_nextId _ _ _ _ capacity_pos created).2.2⟩

theorem Consistent.finalize_none (exhausted : session.store.nextId = none) :
    session.step directory (.finalize episode) = (none, session) := by
  rw [step, Store.finalize_of_none exhausted]

/-- A finished episode takes the next id, and only its file and the index change. -/
theorem Consistent.finalize_some (consistent : session.Consistent directory place)
    (available : session.store.nextId = some id) :
    ∃ next, session.step directory (.finalize episode) = (some id, next) ∧ next.Consistent directory place ∧
      next.store.nextId = successor? id ∧ Persisted session.files next.files directory place id episode := by
  have recovered := consistent.nextId.symm.trans available
  have persisted := @Store.persist_persisted session.files directory place id episode consistent.home
    session.store.indexLimit (consistent.home.fresh recovered)
  have stepped : session.step directory (.finalize episode) =
      (some id, ⟨session.capacity,
        { session.store with nextId := successor? id, cache := (session.store.cache.push ⟨id, episode⟩).2 },
        ((Store.persist directory id episode session.store.indexLimit).run.run session.files).2⟩) := by
    rw [step, Store.finalize_of_some available consistent.based]
  exact ⟨_, stepped, ⟨persisted.home, consistent.based, (persisted.recoveredId? consistent.home recovered).symm⟩, rfl,
    persisted⟩

/-- The ids of a session lie between the next id before and the next id after. -/
structure Advances (session last : Session) (ids : List UInt32) : Prop where
  increasing : ids.Pairwise (· < ·)
  lower : ∀ id ∈ ids, ∃ next, session.store.nextId = some next ∧ next ≤ id
  upper : ∀ id ∈ ids, ∀ next, last.store.nextId = some next → id < next
  exhausted : session.store.nextId = none → last.store.nextId = none
  ascending : ∀ first next, session.store.nextId = some first → last.store.nextId = some next → first ≤ next

theorem Consistent.step (consistent : session.Consistent directory place) (act : Act) :
    (session.step directory act).2.Consistent directory place ∧
      session.Advances (session.step directory act).2 (session.step directory act).1.toList := by
  have still {next : Session} (same : next.store.nextId = session.store.nextId) : session.Advances next [] := by
    refine ⟨.nil, by simp, by simp, fun exhausted => same.trans exhausted, fun first later before after => ?_⟩
    rw [same, before] at after
    exact Std.le_of_eq (Option.some.inj after)
  cases act with
  | reopen capacity capacity_pos indexLimit =>
      obtain ⟨reopened, files⟩ := @Consistent.reopened _ _ _ _ capacity_pos indexLimit consistent
      refine ⟨reopened, still ?_⟩
      change (opened directory capacity_pos indexLimit session.files).store.nextId = _
      rw [reopened.nextId, files, consistent.nextId]
  | finalize episode =>
      cases available : session.store.nextId with
      | none =>
          rw [Consistent.finalize_none available]
          exact ⟨consistent, still rfl⟩
      | some id =>
          obtain ⟨next, stepped, nextConsistent, nextId, -⟩ :=
            @Consistent.finalize_some _ _ _ _ episode consistent available
          rw [stepped]
          refine ⟨nextConsistent, List.pairwise_singleton .., ?_, ?_, ?_, ?_⟩
          · intro only member
            rw [List.mem_singleton.mp member]
            exact ⟨id, available, Std.le_refl _⟩
          · intro only member following after
            rw [List.mem_singleton.mp member]
            exact Store.lt_of_successor? (nextId.symm.trans after)
          · intro exhausted
            rw [available] at exhausted
            cases exhausted
          · intro first following before after
            rw [← Option.some.inj (available.symm.trans before)]
            exact Std.le_of_lt (Store.lt_of_successor? (nextId.symm.trans after))

theorem Advances.append {ids more : List UInt32} (first : session.Advances next ids)
    (second : next.Advances last more) :
    session.Advances last (ids ++ more) where
  increasing := by
    refine List.pairwise_append.mpr ⟨first.increasing, second.increasing, fun id before other after => ?_⟩
    obtain ⟨following, available, bound⟩ := second.lower other after
    exact Std.lt_of_lt_of_le (first.upper id before following available) bound
  lower := by
    intro id member
    rcases List.mem_append.mp member with before | after
    · exact first.lower id before
    · obtain ⟨following, available, bound⟩ := second.lower id after
      cases start : session.store.nextId with
      | none =>
          rw [first.exhausted start] at available
          cases available
      | some least => exact ⟨least, rfl, Std.le_trans (first.ascending least following start available) bound⟩
  upper := by
    intro id member following available
    rcases List.mem_append.mp member with before | after
    · cases middle : next.store.nextId with
      | none =>
          rw [second.exhausted middle] at available
          cases available
      | some least =>
          exact Std.lt_of_lt_of_le (first.upper id before least middle)
            (second.ascending least following middle available)
    · exact second.upper id after following available
  exhausted none_ := second.exhausted (first.exhausted none_)
  ascending least greatest start available := by
    cases middle : next.store.nextId with
    | none =>
        rw [second.exhausted middle] at available
        cases available
    | some between => exact Std.le_trans (first.ascending _ _ start middle) (second.ascending _ _ middle available)

theorem Consistent.run (consistent : session.Consistent directory place) (acts : List Act) :
    (session.run directory acts).2.Consistent directory place ∧
      session.Advances (session.run directory acts).2 (session.run directory acts).1 := by
  induction acts generalizing session with
  | nil =>
      refine ⟨consistent, .nil, by simp [Session.run], by simp [Session.run], fun exhausted => exhausted, ?_⟩
      intro first next before after
      exact Std.le_of_eq (Option.some.inj (before.symm.trans after))
  | cons act acts inductionHypothesis =>
      obtain ⟨nextConsistent, first⟩ := consistent.step act
      obtain ⟨lastConsistent, second⟩ := inductionHypothesis nextConsistent
      exact ⟨lastConsistent, first.append second⟩

/-- A path at which files can be created: it names a directory, once that is made, and leaves room for their names. -/
structure Usable (files : Files) (directory : String) : Prop where
  named : directory ≠ ""
  created : (files.createDirectories directory).1 = .ok ()
  room : directory.utf8ByteSize + 1 + EpisodeFile.longestName ≤ Path.longestPath

theorem Usable.opened_consistent (usable : Usable files directory) :
    ∃ place, (opened directory capacity_pos indexLimit files).Consistent directory place := by
  obtain ⟨place, directoryAt⟩ := Files.directoryAt_of_createDirectories usable.named usable.created
  have created : files.createDirectories directory = (.ok (), (files.createDirectories directory).2) :=
    Prod.ext usable.created rfl
  exact ⟨place, Session.opened_consistent created ⟨directoryAt, usable.room⟩⟩

/-- No id is used twice by a store that starts with a session and does what the acts say. -/
structure KeepsIds (directory : String) (start : Session) (acts : List Act) : Prop where
  increasing : (start.run directory acts).1.Pairwise (· < ·)
  above : ∀ id ∈ (start.run directory acts).1, ∀ shown ∈ shownIds start.files directory, shown < id
  /-- Opening the directory once more goes on with the same id. -/
  reopened : ∀ (capacity : Nat) (capacity_pos : 0 < capacity) (indexLimit : Nat),
    (opened directory capacity_pos indexLimit (start.run directory acts).2.files).store.nextId =
      (start.run directory acts).2.store.nextId
  exhausted : 4294967295 ∈ (start.run directory acts).1 → (start.run directory acts).2.store.nextId = none
  /-- Without an id nothing changes any more. -/
  silent : (start.run directory acts).2.store.nextId = none → ∀ episode,
    (start.run directory acts).2.step directory (.finalize episode) = (none, (start.run directory acts).2)
  /-- The next episode takes the next id and a file that was not there. -/
  fresh : ∀ id episode, (start.run directory acts).2.store.nextId = some id →
    ((start.run directory acts).2.step directory (.finalize episode)).1 = some id ∧
      (start.run directory acts).2.files.find (Path.join directory (EpisodeFile.name id)) = .error .notFound ∧
      ((start.run directory acts).2.step directory (.finalize episode)).2.files.read
        (Path.join directory (EpisodeFile.name id)) = .ok (EpisodeFile.write episode).toUTF8
  /-- Whatever exists already stays as it is, the index apart. -/
  kept : ∀ episode place entry, Files.entry? (start.run directory acts).2.files place = some entry →
    (start.run directory acts).2.files.locate (Path.join directory Store.indexName) ≠ .ok place →
    Files.entry? ((start.run directory acts).2.step directory (.finalize episode)).2.files place = some entry

/-- Whatever a directory holds at first, its store never uses an id again. -/
theorem keepsIds (usable : Usable files directory) (capacity_pos : 0 < capacity) (indexLimit : Nat) (acts : List Act) :
    KeepsIds directory (opened directory capacity_pos indexLimit files) acts := by
  obtain ⟨place, opens⟩ := @Usable.opened_consistent _ _ _ capacity_pos indexLimit usable
  obtain ⟨consistent, advances⟩ := opens.run acts
  generalize opened directory capacity_pos indexLimit files = start at opens consistent advances
  have noHome (id : UInt32) (available : (start.run directory acts).2.store.nextId = some id) :=
    consistent.home.fresh (consistent.nextId.symm.trans available)
  refine ⟨advances.increasing, fun id member shown visible => ?_, fun capacity capacity_pos indexLimit => ?_,
    fun member => ?_, fun exhausted episode => Consistent.finalize_none exhausted, fun id episode available => ?_,
    fun episode other entry present notIndex => ?_⟩
  · obtain ⟨next, available, bound⟩ := advances.lower id member
    exact Std.lt_of_lt_of_le (Store.lt_recoveredId? (opens.nextId.symm.trans available) shown visible) bound
  · obtain ⟨reopened, files⟩ := @Consistent.reopened _ _ _ _ capacity_pos indexLimit consistent
    rw [reopened.nextId, files, consistent.nextId]
  · cases last : (start.run directory acts).2.store.nextId with
    | none => rfl
    | some next =>
        have less := advances.upper _ member next last
        have bound := next.toNat_lt
        rw [UInt32.lt_iff_toNat_lt] at less
        exact absurd less (Nat.not_lt.mpr (Nat.le_of_lt_succ bound))
  · obtain ⟨next, stepped, nextConsistent, -, persisted⟩ :=
      @Consistent.finalize_some _ _ _ _ episode consistent available
    rw [stepped]
    refine ⟨rfl, ?_, (nextConsistent.home.episodeAt id).read_file persisted.written⟩
    rw [(consistent.home.episodeAt id).find_eq, noHome id available]
  · cases available : (start.run directory acts).2.store.nextId with
    | none =>
        rw [Consistent.finalize_none available]
        exact present
    | some id =>
        obtain ⟨next, stepped, -, -, persisted⟩ := @Consistent.finalize_some _ _ _ _ episode consistent available
        rw [stepped]
        refine (persisted.kept other ?_ ?_).trans present
        · rintro rfl
          rw [noHome id available] at present
          cases present
        · rintro rfl
          exact notIndex consistent.home.indexAt.located

/-- Files in which an older program left an episode. -/
def leftOver : Files :=
  ⟨[(["logs"], .directory), (["logs", "erb_episode_41.csv"], .file .empty)], []⟩

theorem directoryAt_logs (found : files.entry? ["logs"] = some .directory) (current : files.current = []) :
    files.DirectoryAt "logs" ["logs"] := by
  have isName : Path.IsName "logs" :=
    ⟨by decide, by decide, by decide, by decide, by decide, by decide⟩
  refine ⟨Files.checkPath_eq_ok.mpr ⟨by decide, by decide, by decide⟩, ?_, found⟩
  rw [Files.origin, current, ite_self, Path.names_eq, isName.namesOf]
  exact Files.walk_name rfl isName

theorem leftOver_usable : Usable leftOver "logs" :=
  ⟨by decide, by rw [(directoryAt_logs rfl rfl).createDirectories_eq], by decide⟩

theorem keepsIds_leftOver : KeepsIds "logs" (opened "logs" (show 0 < 2 by decide) 100 leftOver)
    [.finalize (.empty .spike), .reopen 1 (by decide) 0, .finalize (.empty .align)] :=
  keepsIds leftOver_usable (by decide) 100 _

end Session

end EpisodicReplay
