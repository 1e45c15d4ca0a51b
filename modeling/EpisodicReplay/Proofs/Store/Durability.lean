import EpisodicReplay.Proofs.Episode.File
import EpisodicReplay.Proofs.Ring
import EpisodicReplay.Proofs.Store.Identifiers

/-!
Finished episodes last. Whatever else is finished, dropped from the cache or cut from the index, and however often the
store is opened again, the file of an id stays as it was written and its episode can be looked up.
-/

namespace EpisodicReplay

/-- The file of a sound episode is read as an episode of the same length and with the same tag. -/
theorem Episode.Sound.exists_copy {episode : Episode} (sound : episode.Sound) : ∃ copy,
    EpisodeFile.read (EpisodeFile.write episode).toUTF8 = .ok copy ∧ copy.tag = episode.tag ∧
      copy.length = episode.length := by
  obtain ⟨copies, read, kept, finite, -⟩ := @EpisodeFile.ofChars_tickLines episode.ticks.toList 0 sound.finite
    (by rw [Nat.zero_add]; exact sound.fits)
  have length : copies.length = episode.length := kept.length_eq.symm
  refine ⟨⟨copies.toArray, episode.tag⟩, ?_, rfl, length⟩
  rw [EpisodeFile.read_write_eq sound.finite, read, EpisodeFile.ofLines_ticks finite (length ▸ sound.fits)]

namespace Store
variable {capacity : Nat} {store : Store capacity} {files : Files} {record : EpisodeRecord} {ids : List UInt32}

/-- What a store has loaded are episodes that it can load. -/
theorem mem_reload (member : record ∈ (store.reload files ids).cache.toList) :
    record ∈ store.cache.toList ∨ store.loadEpisode files record.id = .ok record.episode := by
  unfold reload at member
  induction ids generalizing store with
  | nil => exact .inl member
  | cons id rest inductionHypothesis =>
      rw [List.foldl_cons] at member
      split at member
      case h_2 => exact inductionHypothesis member
      case h_1 episode loaded =>
        rcases inductionHypothesis member with cached | later
        · rw [Ring.push_toList] at cached
          rcases List.mem_append.mp (List.mem_of_mem_drop cached) with old | new
          · exact .inl old
          · rw [List.mem_singleton.mp new]
            exact .inr loaded
        · exact .inr later

/-- Whether the cache has a record of an id. -/
def caches (store : Store capacity) (id : UInt32) : Bool :=
  (store.cache.toList.find? (·.id == id)).isSome

end Store

namespace Session
open Store (HomeAt Persisted)

/-- Whether the store is opened again. -/
def Act.isReopen : Act → Bool
  | .finalize _ => false
  | .reopen .. => true

/-- Every episode that is finished can be written down and read again. -/
def Writes (acts : List Act) : Prop :=
  ∀ episode, .finalize episode ∈ acts → episode.Built ∧ episode.isEmpty = false

/-- The episodes that were finished, by id, and which of them by the store that is open now. -/
structure Ledger where
  episode? : UInt32 → Option Episode
  isOwn : UInt32 → Bool

namespace Ledger

def empty : Ledger :=
  ⟨fun _ => none, fun _ => false⟩

/-- Takes down the episode of an id. -/
def note (ledger : Ledger) (id : UInt32) (episode : Episode) : Ledger :=
  ⟨Function.update ledger.episode? id (some episode), Function.update ledger.isOwn id true⟩

@[simp] theorem note_episode?_self (ledger : Ledger) (id : UInt32) (episode : Episode) :
    (ledger.note id episode).episode? id = some episode :=
  Function.update_self ..

@[simp] theorem note_isOwn_self (ledger : Ledger) (id : UInt32) (episode : Episode) :
    (ledger.note id episode).isOwn id = true :=
  Function.update_self ..

theorem note_episode?_of_ne {id other : UInt32} (different : other ≠ id) (ledger : Ledger) (episode : Episode) :
    (ledger.note id episode).episode? other = ledger.episode? other :=
  Function.update_of_ne different ..

theorem note_isOwn_of_ne {id other : UInt32} (different : other ≠ id) (ledger : Ledger) (episode : Episode) :
    (ledger.note id episode).isOwn other = ledger.isOwn other :=
  Function.update_of_ne different ..

/-- Takes down that the store is opened again. -/
def reopen (ledger : Ledger) : Ledger :=
  { ledger with isOwn := fun _ => false }

/-- A ledger goes on from another one by acts that give out ids: all episodes stay, and new ones have these ids. -/
structure Continues (ledger later : Ledger) (acts : List Act) (ids : List UInt32) : Prop where
  kept : ∀ id episode, ledger.episode? id = some episode → later.episode? id = some episode ∧
    later.isOwn id = (ledger.isOwn id && !acts.any Act.isReopen)
  new : ∀ id, (later.episode? id).isSome → (ledger.episode? id).isSome ∨ id ∈ ids

theorem Continues.refl (ledger : Ledger) : ledger.Continues ledger [] [] :=
  ⟨fun id episode noted => ⟨noted, by simp⟩, fun id noted => .inl noted⟩

theorem Continues.trans {ledger next last : Ledger} {acts more : List Act} {ids others : List UInt32}
    (first : ledger.Continues next acts ids) (second : next.Continues last more others) :
    ledger.Continues last (acts ++ more) (ids ++ others) where
  kept := by
    intro id episode noted
    obtain ⟨still, own⟩ := first.kept id episode noted
    obtain ⟨last, ownLast⟩ := second.kept id episode still
    refine ⟨last, ?_⟩
    rw [ownLast, own, List.any_append, Bool.not_or, Bool.and_assoc]
  new := by
    intro id noted
    rcases second.new id noted with before | given
    · exact (first.new id before).imp_right (List.mem_append_left others)
    · exact .inr (List.mem_append_right ids given)

end Ledger

variable {directory : String} {place : Location} {session next : Session} {files : Files} {id : UInt32}
  {capacity : Nat} {capacity_pos : 0 < capacity} {indexLimit : Nat} {episode : Episode} {acts : List Act} {act : Act}
  {ledger : Ledger}

/-- The episode files at a place are those that a ledger has taken down. -/
structure Filed (files : Files) (place : Location) (ledger : Ledger) : Prop where
  entry : ∀ id, files.entry? (place ++ [EpisodeFile.name id]) =
    (ledger.episode? id).map fun episode => .file (EpisodeFile.write episode).toUTF8
  sound : ∀ id episode, ledger.episode? id = some episode → episode.Sound ∧ episode.isEmpty = false

namespace Filed
variable {store : Store capacity}

theorem read (filed : Filed files place ledger) (home : HomeAt files directory place)
    (noted : ledger.episode? id = some episode) :
    files.read (Path.join directory (EpisodeFile.name id)) = .ok (EpisodeFile.write episode).toUTF8 := by
  refine (home.episodeAt id).read_file ?_
  rw [filed.entry, noted]
  rfl

/-- An episode that was taken down can be loaded. -/
theorem loadEpisode_of_some (filed : Filed files place ledger) (home : HomeAt files directory place)
    (based : store.directory = some directory) (noted : ledger.episode? id = some episode) : ∃ copy,
    EpisodeFile.read (EpisodeFile.write episode).toUTF8 = .ok copy ∧ copy.tag = episode.tag ∧
      copy.length = episode.length ∧ store.loadEpisode files id = .ok copy := by
  obtain ⟨sound, nonempty⟩ := filed.sound id episode noted
  obtain ⟨copy, read, tag, length⟩ := sound.exists_copy
  have filled : copy.isEmpty = false := by
    rw [← nonempty]
    exact congrArg (fun count => decide (count = 0)) length
  have content : files.read (Path.join directory (EpisodeFile.name id)) >>= EpisodeFile.read = .ok copy := by
    rw [filed.read home noted]
    exact read
  refine ⟨copy, read, tag, length, ?_⟩
  rw [Store.loadEpisode, based]
  simp [Store.readEpisode, content, filled]

theorem loadEpisode_of_none (filed : Filed files place ledger) (home : HomeAt files directory place)
    (based : store.directory = some directory) (unknown : ledger.episode? id = none) :
    ∃ failure, store.loadEpisode files id = .error failure := by
  have absent : files.entry? (place ++ [EpisodeFile.name id]) = none := by
    rw [filed.entry, unknown]
    rfl
  refine ⟨.file (Path.join directory (EpisodeFile.name id)) .notFound, ?_⟩
  rw [Store.loadEpisode, based]
  simp [Store.readEpisode, Files.read, (home.episodeAt id).find_eq, absent, bind, Except.bind]

/-- Writing one more episode down takes it down in the ledger. -/
theorem note {later : Files} (filed : Filed files place ledger)
    (persisted : Persisted files later directory place id episode) (sound : episode.Sound)
    (nonempty : episode.isEmpty = false) : Filed later place (ledger.note id episode) where
  entry := by
    intro other
    by_cases same : other = id
    · subst same
      rw [persisted.written, Ledger.note_episode?_self]
      rfl
    · have elsewhere : place ++ [EpisodeFile.name other] ≠ place ++ [EpisodeFile.name id] := fun equal =>
        same (EpisodeFile.name_injective (List.singleton_inj.mp (List.append_cancel_left equal)))
      rw [persisted.kept _ elsewhere (Store.place_ne place other).symm, filed.entry,
        Ledger.note_episode?_of_ne same]
  sound := by
    intro other written noted
    by_cases same : other = id
    · subst same
      rw [Ledger.note_episode?_self] at noted
      rw [← Option.some.inj noted]
      exact ⟨sound, nonempty⟩
    · rw [Ledger.note_episode?_of_ne same] at noted
      exact filed.sound other written noted

end Filed

/-- A store remembers episodes of a ledger: its own as they were finished, the others as their files tell. -/
def Remembers (store : Store capacity) (ledger : Ledger) : Prop :=
  ∀ record ∈ store.cache.toList, ∃ episode, ledger.episode? record.id = some episode ∧
    if ledger.isOwn record.id then record.episode = episode
    else EpisodeFile.read (EpisodeFile.write episode).toUTF8 = .ok record.episode

/-- A session keeps all that a ledger has taken down. -/
structure Keeps (session : Session) (directory : String) (place : Location) (ledger : Ledger) : Prop where
  consistent : session.Consistent directory place
  filed : Filed session.files place ledger
  remembers : Remembers session.store ledger

/-- A store that opens its directory remembers what the files tell. -/
theorem opened_keeps {later : Files} (created : files.createDirectories directory = (.ok (), later))
    (home : HomeAt later directory place) (filed : Filed later place ledger) :
    (opened directory capacity_pos indexLimit files).Keeps directory place ledger.reopen := by
  have consistent := @opened_consistent _ _ _ _ capacity_pos indexLimit _ created home
  have run := @Store.run_openAt capacity _ _ _ capacity_pos created
  refine ⟨consistent, ?_, ?_⟩
  · rw [show (opened directory capacity_pos indexLimit files).files = later from congrArg Prod.snd run]
    exact ⟨filed.entry, filed.sound⟩
  · intro record member
    have reloaded : record ∈ ((Store.unloaded capacity_pos later directory).reload later
        ((Store.indexIds later directory).drop ((Store.indexIds later directory).length - capacity))).cache.toList := by
      rw [← congrArg (fun result => result.1.cache.toList) run]
      exact member
    rcases Store.mem_reload reloaded with cached | loaded
    · cases cached
    · cases noted : ledger.episode? record.id with
      | none =>
          obtain ⟨failure, failed⟩ := @Filed.loadEpisode_of_none _ _ _ _ _ _
            (Store.unloaded capacity_pos later directory) filed home rfl noted
          rw [failed] at loaded
          cases loaded
      | some episode =>
          obtain ⟨copy, read, -, -, copied⟩ := @Filed.loadEpisode_of_some _ _ _ _ _ _ _
            (Store.unloaded capacity_pos later directory) filed home rfl noted
          rw [copied] at loaded
          cases loaded
          exact ⟨episode, noted, read⟩

namespace Keeps

/-- The next id is not in the ledger. -/
theorem unknown (keeps : session.Keeps directory place ledger) (available : session.store.nextId = some id) :
    ledger.episode? id = none := by
  have fresh := keeps.consistent.home.fresh (keeps.consistent.nextId.symm.trans available)
  rwa [keeps.filed.entry, Option.map_eq_none_iff] at fresh

/-- An episode that was taken down is looked up: from the cache of the store that finished it as it was, and else as
its file tells. -/
theorem episode?_of_some (keeps : session.Keeps directory place ledger) (noted : ledger.episode? id = some episode) :
    ∃ copy, EpisodeFile.read (EpisodeFile.write episode).toUTF8 = .ok copy ∧ copy.tag = episode.tag ∧
      copy.length = episode.length ∧ session.store.episode? session.files id =
        some (if ledger.isOwn id && session.store.caches id then episode else copy) := by
  obtain ⟨copy, read, tag, length, loaded⟩ := @Filed.loadEpisode_of_some _ _ _ _ _ _ _ session.store keeps.filed
    keeps.consistent.home keeps.consistent.based noted
  refine ⟨copy, read, tag, length, ?_⟩
  rw [Store.episode?, Store.caches]
  cases found : session.store.cache.toList.find? (·.id == id) with
  | none => simp [loaded, Except.toOption]
  | some record =>
      obtain rfl : record.id = id := by simpa using List.find?_some found
      obtain ⟨original, notedToo, remembered⟩ := keeps.remembers record (List.mem_of_find?_eq_some found)
      obtain rfl := Option.some.inj (notedToo.symm.trans noted)
      simp only [Option.isSome_some, Bool.and_true]
      split at remembered
      case isTrue own => rw [if_pos own, remembered]
      case isFalse foreign =>
        rw [read] at remembered
        rw [if_neg foreign, Except.ok.inj remembered]

theorem episode?_of_none (keeps : session.Keeps directory place ledger) (unknown : ledger.episode? id = none) :
    session.store.episode? session.files id = none := by
  obtain ⟨failure, failed⟩ := @Filed.loadEpisode_of_none _ _ _ _ _ _ session.store keeps.filed
    keeps.consistent.home keeps.consistent.based unknown
  have uncached : session.store.cache.toList.find? (·.id == id) = none := by
    rw [List.find?_eq_none]
    intro record member same
    obtain ⟨episode, noted, -⟩ := keeps.remembers record member
    rw [beq_iff_eq.mp same, unknown] at noted
    cases noted
  rw [Store.episode?, uncached, failed]
  rfl

/-- Finishing an episode takes it down under the id that it gets. -/
theorem finalize (keeps : session.Keeps directory place ledger) (available : session.store.nextId = some id)
    (sound : episode.Sound) (nonempty : episode.isEmpty = false) :
    (session.step directory (.finalize episode)).1 = some id ∧
      (session.step directory (.finalize episode)).2.Keeps directory place (ledger.note id episode) := by
  obtain ⟨next, stepped, consistent, -, persisted⟩ :=
    @Consistent.finalize_some _ _ _ _ episode keeps.consistent available
  have cache : session.step directory (.finalize episode) = (some id, ⟨session.capacity,
      { session.store with
        nextId := Store.successor? id, cache := (session.store.cache.push ⟨id, episode⟩).2 }, next.files⟩) := by
    have files := congrArg (fun result => result.2.files) stepped
    rw [← files, Session.step, Store.finalize_of_some available keeps.consistent.based]
  rw [stepped]
  refine ⟨rfl, consistent, keeps.filed.note persisted sound nonempty, ?_⟩
  rw [(Prod.mk.inj (stepped.symm.trans cache)).2]
  intro record member
  rw [Ring.push_toList] at member
  rcases List.mem_append.mp (List.mem_of_mem_drop member) with old | new
  · obtain ⟨original, noted, remembered⟩ := keeps.remembers record old
    have different : record.id ≠ id := by
      intro same
      rw [same, keeps.unknown available] at noted
      cases noted
    refine ⟨original, ?_, ?_⟩
    · rw [Ledger.note_episode?_of_ne different, noted]
    · rwa [Ledger.note_isOwn_of_ne different]
  · rw [List.mem_singleton.mp new]
    exact ⟨episode, ledger.note_episode?_self id episode, by simp⟩

/-- Whatever is done, a session keeps what it has kept before. -/
theorem step (keeps : session.Keeps directory place ledger) (act : Act) (writes : Writes [act]) :
    ∃ later, (session.step directory act).2.Keeps directory place later ∧
      ledger.Continues later [act] (session.step directory act).1.toList := by
  cases act with
  | reopen capacity capacity_pos indexLimit =>
      have created := keeps.consistent.home.directoryAt.createDirectories_eq
      refine ⟨ledger.reopen, opened_keeps created keeps.consistent.home keeps.filed, ?_, fun id noted => .inl noted⟩
      exact fun id episode noted => ⟨noted, by simp [Ledger.reopen, Act.isReopen]⟩
  | finalize episode =>
      cases available : session.store.nextId with
      | none =>
          rw [Consistent.finalize_none available]
          refine ⟨ledger, keeps, fun id episode noted => ⟨noted, ?_⟩, fun id noted => .inl noted⟩
          simp [Act.isReopen]
      | some id =>
          obtain ⟨built, nonempty⟩ := writes episode List.mem_cons_self
          obtain ⟨given, next⟩ := keeps.finalize available built.sound nonempty
          rw [given]
          refine ⟨ledger.note id episode, next, fun other original noted => ?_, fun other noted => ?_⟩
          · have different : other ≠ id := by
              rintro rfl
              rw [keeps.unknown available] at noted
              cases noted
            rw [Ledger.note_episode?_of_ne different, Ledger.note_isOwn_of_ne different]
            exact ⟨noted, by simp [Act.isReopen]⟩
          · by_cases same : other = id
            · exact .inr (List.mem_singleton.mpr same)
            · rw [Ledger.note_episode?_of_ne same] at noted
              exact .inl noted

theorem run (keeps : session.Keeps directory place ledger) (acts : List Act) (writes : Writes acts) :
    ∃ later, (session.run directory acts).2.Keeps directory place later ∧
      ledger.Continues later acts (session.run directory acts).1 := by
  induction acts generalizing session ledger with
  | nil => exact ⟨ledger, keeps, .refl ledger⟩
  | cons act acts inductionHypothesis =>
      obtain ⟨next, nextKeeps, first⟩ := keeps.step act fun episode member =>
        writes episode (List.mem_cons.mpr (.inl (List.mem_singleton.mp member)))
      obtain ⟨last, lastKeeps, second⟩ := inductionHypothesis nextKeeps fun episode member =>
        writes episode (List.mem_cons_of_mem act member)
      exact ⟨last, lastKeeps, first.trans second⟩

end Keeps

theorem run_append (session : Session) (directory : String) (first second : List Act) :
    (session.run directory (first ++ second)).2 =
      ((session.run directory first).2.run directory second).2 := by
  induction first generalizing session with
  | nil => rfl
  | cons act rest inductionHypothesis => exact inductionHypothesis _

/-- Every id comes from an act that finished an episode. -/
theorem exists_finalize_of_mem (given : id ∈ (session.run directory acts).1) :
    ∃ before episode after, acts = before ++ .finalize episode :: after ∧
      ((session.run directory before).2.step directory (.finalize episode)).1 = some id := by
  induction acts generalizing session with
  | nil => cases given
  | cons act acts inductionHypothesis =>
      rcases List.mem_append.mp given with now | later
      · cases act with
        | finalize episode => exact ⟨[], episode, acts, rfl, Option.mem_toList.mp now⟩
        | reopen => cases now
      · obtain ⟨before, episode, after, rfl, finished⟩ := inductionHypothesis later
        exact ⟨act :: before, episode, after, rfl, finished⟩

/-- On an empty directory a store begins with an empty ledger. -/
theorem opened_keeps_empty (usable : Usable files directory)
    (empty : (files.createDirectories directory).2.list directory = .ok []) :
    ∃ place, (opened directory capacity_pos indexLimit files).Keeps directory place .empty := by
  obtain ⟨place, directoryAt⟩ := Files.directoryAt_of_createDirectories usable.named usable.created
  have created : files.createDirectories directory = (.ok (), (files.createDirectories directory).2) :=
    Prod.ext usable.created rfl
  have home : HomeAt (files.createDirectories directory).2 directory place := ⟨directoryAt, usable.room⟩
  have filed : Filed (files.createDirectories directory).2 place .empty :=
    ⟨fun id => home.entry?_of_empty empty (EpisodeFile.name id), nofun⟩
  exact ⟨place, opened_keeps created home filed⟩

/-- All episodes that a session has finished are still there, and there are no others. -/
structure Durable (directory : String) (start : Session) (acts : List Act) : Prop where
  /-- The file stays as it was written. The episode is found as it was while its own store has it in the cache, and
  afterwards as the file tells. -/
  kept : ∀ before episode after id, acts = before ++ .finalize episode :: after →
    ((start.run directory before).2.step directory (.finalize episode)).1 = some id →
    (start.run directory acts).2.files.read (Path.join directory (EpisodeFile.name id)) =
      .ok (EpisodeFile.write episode).toUTF8 ∧
    ∃ copy, EpisodeFile.read (EpisodeFile.write episode).toUTF8 = .ok copy ∧ copy.tag = episode.tag ∧
      copy.length = episode.length ∧
      (start.run directory acts).2.store.episode? (start.run directory acts).2.files id =
        some (if !after.any Act.isReopen && (start.run directory acts).2.store.caches id then episode else copy)
  given : ∀ id ∈ (start.run directory acts).1, ∃ before episode after, acts = before ++ .finalize episode :: after ∧
    ((start.run directory before).2.step directory (.finalize episode)).1 = some id
  unknown : ∀ id, id ∉ (start.run directory acts).1 →
    (start.run directory acts).2.store.episode? (start.run directory acts).2.files id = none

/-- Episodes that are finished on an empty directory last, whatever is done with it. -/
theorem durable (usable : Usable files directory)
    (empty : (files.createDirectories directory).2.list directory = .ok []) (capacity_pos : 0 < capacity)
    (indexLimit : Nat) (acts : List Act) (writes : Writes acts) :
    Durable directory (opened directory capacity_pos indexLimit files) acts := by
  obtain ⟨place, start⟩ := @opened_keeps_empty _ _ _ capacity_pos indexLimit usable empty
  generalize opened directory capacity_pos indexLimit files = session at start
  refine ⟨fun before episode after id split given => ?_, fun id given => exists_finalize_of_mem given,
    fun id absent => ?_⟩
  · subst split
    obtain ⟨built, nonempty⟩ := writes episode (List.mem_append_right before List.mem_cons_self)
    obtain ⟨first, firstKeeps, -⟩ := start.run before fun other member =>
      writes other (List.mem_append_left _ member)
    have available : (session.run directory before).2.store.nextId = some id := by
      cases next : (session.run directory before).2.store.nextId with
      | none =>
          rw [Consistent.finalize_none next] at given
          cases given
      | some own => rw [← (firstKeeps.finalize next built.sound nonempty).1, given]
    have finished := (firstKeeps.finalize available built.sound nonempty).2
    obtain ⟨last, lastKeeps, continues⟩ := finished.run after fun other member =>
      writes other (List.mem_append_right before (List.mem_cons_of_mem _ member))
    have ended : (session.run directory (before ++ .finalize episode :: after)).2 =
        (((session.run directory before).2.step directory (.finalize episode)).2.run directory after).2 :=
      run_append session directory before _
    obtain ⟨noted, own⟩ := continues.kept id episode (Ledger.note_episode?_self ..)
    rw [Ledger.note_isOwn_self, Bool.true_and] at own
    rw [ended, ← own]
    exact ⟨lastKeeps.filed.read lastKeeps.consistent.home noted, lastKeeps.episode?_of_some noted⟩
  · obtain ⟨last, lastKeeps, continues⟩ := start.run acts writes
    refine lastKeeps.episode?_of_none (Option.not_isSome_iff_eq_none.mp fun noted => ?_)
    rcases continues.new id noted with never | given
    · cases never
    · exact absent given

/-- An empty directory. -/
def emptyLogs : Files :=
  ⟨[(["logs"], .directory)], []⟩

theorem emptyLogs_list : emptyLogs.list "logs" = .ok [] := by
  obtain ⟨names, listed, member⟩ := (@directoryAt_logs emptyLogs rfl rfl).list_eq
  have nothing : names = [] := by
    rw [List.eq_nil_iff_forall_not_mem]
    intro name among
    have present := (member name).mp among
    simp [Files.entry?, emptyLogs, List.lookup] at present
  rw [listed, nothing]

theorem emptyLogs_created : emptyLogs.createDirectories "logs" = (.ok (), emptyLogs) :=
  (@directoryAt_logs emptyLogs rfl rfl).createDirectories_eq

theorem emptyLogs_usable : Usable emptyLogs "logs" :=
  ⟨by decide, by rw [emptyLogs_created], by decide⟩

/-- Two episodes on an empty directory, of which one is dropped from the cache and the other one reloaded. -/
theorem durable_emptyLogs :
    let dropped := ((Episode.empty .spike).push .zero).2
    let start := opened "logs" (show 0 < 1 by decide) 100 emptyLogs
    let acts : List Act := [.finalize dropped, .finalize ((Episode.empty .align).push .zero).2, .reopen 1 (by decide) 0]
    let last := (start.run "logs" acts).2
    Durable "logs" start acts ∧ (start.run "logs" acts).1 = [0, 1] ∧
      last.store.cache.toList.map EpisodeRecord.id = [1] ∧
      last.files.read "logs/erb_episode_000000.csv" =
        .ok ("#tag=1\n0" ++ String.join (List.replicate 8 ",0.000000") ++ "\n").toUTF8 ∧
      ∃ copy, last.store.episode? last.files 0 = some copy ∧ copy.tag = .spike ∧ copy.length = 1 := by
  intro dropped start acts last
  have durable : Durable "logs" start acts := by
    refine durable emptyLogs_usable ?_ (by decide) 100 acts ?_
    · rw [emptyLogs_created]
      exact emptyLogs_list
    · intro episode member
      simp only [acts, List.mem_cons, Act.finalize.injEq, reduceCtorEq, List.not_mem_nil, or_false] at member
      rcases member with rfl | rfl
      · exact ⟨.push (.empty .spike) .zero, rfl⟩
      · exact ⟨.push (.empty .align) .zero, rfl⟩
  have ended : (start.run "logs" acts).1 = [0, 1] ∧ last.store.cache.toList.map EpisodeRecord.id = [1] := by
    decide +kernel
  obtain ⟨file, copy, -, tag, length, found⟩ := durable.kept [] dropped _ 0 rfl (by decide +kernel)
  have text : EpisodeFile.write dropped = "#tag=1\n0" ++ String.join (List.replicate 8 ",0.000000") ++ "\n" := by
    decide +kernel
  have name : Path.join "logs" (EpisodeFile.name 0) = "logs/erb_episode_000000.csv" := by decide +kernel
  rw [text, name] at file
  exact ⟨durable, ended.1, ended.2, file, copy, found, tag, length⟩

end Session

end EpisodicReplay
