import EpisodicReplay.Proofs.Log

/-!
What work on files leaves alone. All that changes is at the places of given outputs, and new directories may come up
on the way of one path.
-/

namespace EpisodicReplay

theorem Path.prefix_of_mem_above {names upper : List String} (member : upper ∈ above names) : upper <+: names := by
  obtain ⟨taken, -⟩ := List.mem_filter.mp member
  obtain ⟨count, -, rfl⟩ := List.mem_map.mp taken
  have proper : (names.reverse.dropWhile (· = ".")).reverse <+: names.reverse.reverse :=
    List.reverse_prefix.mpr (List.dropWhile_suffix _)
  rw [List.reverse_reverse] at proper
  exact (List.take_prefix count _).trans proper

namespace Files
variable {files later last : Files} {path directory : String} {outputs : List String} {place start : Location}
  {names : List String} {content : ByteArray}

/-- The place that a path spells, whether its names lead there or not. -/
def placeOf (files : Files) (path : String) : Location :=
  (Path.names path).foldl descend (files.origin path)

/-- The place is passed on the way of a path, or is its end. -/
def OnWay (files : Files) (path : String) (place : Location) : Prop :=
  ∃ names, names <+: Path.names path ∧ names.foldl descend (files.origin path) = place

/-- Names that lead somewhere lead to the place that they spell. -/
theorem foldl_of_walk (walked : files.walk start names = .ok place) : names.foldl descend start = place := by
  induction names generalizing start with
  | nil => exact Except.ok.inj walked
  | cons name rest inductionHypothesis => exact inductionHypothesis (walk_cons_ok walked).2.2

theorem placeOf_of_locate (located : files.locate path = .ok place) : files.placeOf path = place :=
  foldl_of_walk (locate_eq_ok.mp located).2

theorem FileAt.placeOf (fileAt : FileAt files path place) : files.placeOf path = place :=
  placeOf_of_locate fileAt.located

theorem DirectoryAt.placeOf (directoryAt : DirectoryAt files path place) : files.placeOf path = place :=
  foldl_of_walk directoryAt.walked

theorem placeOf_join {name : String} (isName : Path.IsName name) (nonempty : directory ≠ "") (files : Files) :
    files.placeOf (Path.join directory name) = files.placeOf directory ++ [name] := by
  rw [Files.placeOf, Files.placeOf, Path.names_join isName nonempty, List.foldl_append, Files.origin,
    Path.startsWith_join isName nonempty]
  exact descend_name isName

/-- The place of a named file ends with its name, whatever directory it is in. -/
theorem getLast?_placeOf_join {name : String} (isName : Path.IsName name) (directory : String) (files : Files) :
    (files.placeOf (Path.join directory name)).getLast? = some name := by
  by_cases nonempty : directory = ""
  · have plain : Path.join directory name = name := by simp [Path.join, nonempty]
    rw [plain, Files.placeOf, Path.names_eq, isName.namesOf, List.foldl_cons, List.foldl_nil, descend_name isName,
      List.getLast?_concat]
  · rw [placeOf_join isName nonempty, List.getLast?_concat]

/-- A path is read as before if something else has changed that was no directory and has become none. -/
theorem SameBut.toOption_read (same : SameBut files later place) (before : files.entry? place ≠ some .directory)
    (after : later.entry? place ≠ some .directory) (elsewhere : files.placeOf path ≠ place) :
    (later.read path).toOption = (files.read path).toOption := by
  have back : SameBut later files place := ⟨same.current.symm, fun other apart => (same.entry other apart).symm⟩
  cases located : files.locate path with
  | ok other =>
      have apart : other ≠ place := fun equal => elsewhere ((placeOf_of_locate located).trans equal)
      have stillLocated := locate_of_keeps same.current (same.keeps before) located
      rw [read, read, find, find, located, stillLocated]
      simp only [bind, Except.bind, same.entry other apart]
  | error fault =>
      cases laterLocated : later.locate path with
      | ok other =>
          rw [locate_of_keeps back.current (back.keeps after) laterLocated] at located
          cases located
      | error other =>
          rw [read, read, find, find, located, laterLocated]
          rfl

/-- Nothing has changed but the file of a path, if even that. -/
inductive TouchesOnly (path : String) (files : Files) : Files → Prop
  | nothing : TouchesOnly path files files
  | file {later : Files} {place : Location} (fileAt : files.FileAt path place)
      (before : files.entry? place ≠ some .directory) (same : files.SameBut later place)
      (after : later.entry? place ≠ some .directory) : TouchesOnly path files later

namespace TouchesOnly

theorem trans (first : TouchesOnly path files later) (second : TouchesOnly path later last) :
    TouchesOnly path files last := by
  cases first with
  | nothing => exact second
  | file fileAt before same after =>
      cases second with
      | nothing => exact .file fileAt before same after
      | file laterAt _ sameLast afterLast =>
          obtain rfl := Except.ok.inj ((fileAt.of_sameBut same before).located.symm.trans laterAt.located)
          exact .file fileAt before (same.trans sameLast) afterLast

theorem sameBut (touches : TouchesOnly path files later) (fileAt : files.FileAt path place)
    (free : files.entry? place ≠ some .directory) :
    files.SameBut later place ∧ later.entry? place ≠ some .directory := by
  cases touches with
  | nothing => exact ⟨.refl files place, free⟩
  | file sameAt _ same after =>
      obtain rfl := Except.ok.inj (sameAt.located.symm.trans fileAt.located)
      exact ⟨same, after⟩

/-- What is elsewhere is read as before. -/
theorem toOption_read {other : String} (touches : TouchesOnly path files later)
    (elsewhere : files.placeOf other ≠ files.placeOf path) :
    (later.read other).toOption = (files.read other).toOption := by
  cases touches with
  | nothing => rfl
  | file fileAt before same after =>
      rw [fileAt.placeOf] at elsewhere
      exact same.toOption_read before after elsewhere

end TouchesOnly

/-- Names that lead somewhere lead there in two parts. -/
theorem walk_append_ok {rest : List String} (walked : files.walk start (names ++ rest) = .ok place) :
    ∃ middle, files.walk start names = .ok middle ∧ files.walk middle rest = .ok place := by
  induction names generalizing start with
  | nil => exact ⟨start, rfl, walked⟩
  | cons name names inductionHypothesis =>
      obtain ⟨found, short, walked⟩ := walk_cons_ok walked
      rw [walk_cons found short]
      exact inductionHypothesis walked

/-- Before directories were added, the names either led to the same place or to none. -/
theorem walk_before (before : ∀ place, later.entry? place = some .directory →
      files.entry? place = some .directory ∨ files.entry? place = none)
    (walked : later.walk start names = .ok place) :
    files.walk start names = .ok place ∨ files.walk start names = .error .notFound := by
  induction names generalizing start with
  | nil => exact .inl walked
  | cons name rest inductionHypothesis =>
      obtain ⟨found, short, walked⟩ := walk_cons_ok walked
      rcases before start found with known | missing
      · rw [walk_cons known short]
        exact inductionHypothesis walked
      · rw [walk, missing]
        exact .inr rfl

/-- Before directories were added, the path of a file either led to the same place or was not found. -/
theorem FileAt.locate_before (laterAt : FileAt later path place) (current : later.current = files.current)
    (before : ∀ place, later.entry? place = some .directory →
      files.entry? place = some .directory ∨ files.entry? place = none) :
    files.locate path = .ok place ∨ files.locate path = .error .notFound := by
  obtain ⟨checked, walked⟩ := locate_eq_ok.mp laterAt.located
  rw [origin, current] at walked
  rw [locate, checked]
  exact walk_before before walked

/-- The way to a directory consists of directories. -/
theorem DirectoryAt.directory_of_onWay (directoryAt : DirectoryAt files path place) {passed : Location}
    (onWay : files.OnWay path passed) : files.entry? passed = some .directory := by
  obtain ⟨front, ⟨rest, split⟩, rfl⟩ := onWay
  have walked := directoryAt.walked
  rw [← split] at walked
  obtain ⟨middle, walkedFront, walkedRest⟩ := walk_append_ok walked
  rw [foldl_of_walk walkedFront]
  cases rest with
  | nil =>
      cases walkedRest
      exact directoryAt.found
  | cons name rest => exact (walk_cons_ok walkedRest).1

/-- A directory that a name leads to lies in a directory. -/
theorem DirectoryAt.exists_parent {name : String} (directoryAt : DirectoryAt files (Path.join directory name) place)
    (isName : Path.IsName name) (nonempty : directory ≠ "") :
    ∃ parent, DirectoryAt files directory parent ∧ place = parent ++ [name] := by
  obtain ⟨solid, -, size⟩ := checkPath_eq_ok.mp directoryAt.checked
  obtain ⟨rest, path⟩ := Path.exists_join isName nonempty
  have checked : checkPath directory = .ok () := by
    rw [path, String.toList_append] at solid
    rw [path, String.utf8ByteSize_append] at size
    exact checkPath_eq_ok.mpr ⟨fun inside => solid (List.mem_append_left _ inside), nonempty, by omega⟩
  have walked := directoryAt.walked
  rw [Path.names_join isName nonempty, Files.origin, Path.startsWith_join isName nonempty] at walked
  obtain ⟨parent, walkedParent, walkedName⟩ := walk_append_ok walked
  obtain ⟨found, -, last⟩ := walk_cons_ok walkedName
  refine ⟨parent, ⟨checked, walkedParent, found⟩, ?_⟩
  rw [← descend_name isName]
  exact (Except.ok.inj last).symm

/-- What stands at a place stays, unless it is the place of an output. All that comes up elsewhere is a directory on
the way of the path. -/
structure Spares (directory : String) (outputs : List String) (files later : Files) : Prop where
  current : later.current = files.current
  entry : ∀ place, place ∉ outputs.map files.placeOf → later.entry? place = files.entry? place ∨
    files.entry? place = none ∧ later.entry? place = some .directory ∧ files.OnWay directory place

namespace Spares

theorem refl (files : Files) : Spares directory outputs files files :=
  ⟨rfl, fun _ _ => .inl rfl⟩

theorem origin (spares : Spares directory outputs files later) (path : String) :
    later.origin path = files.origin path := by
  rw [Files.origin, Files.origin, spares.current]

theorem placeOf (spares : Spares directory outputs files later) (path : String) :
    later.placeOf path = files.placeOf path := by
  rw [Files.placeOf, Files.placeOf, spares.origin]

theorem onWay (spares : Spares directory outputs files later) : later.OnWay path place ↔ files.OnWay path place := by
  rw [OnWay, OnWay, spares.origin]

theorem places (spares : Spares directory outputs files later) (paths : List String) :
    paths.map later.placeOf = paths.map files.placeOf :=
  List.map_congr_left fun path _ => spares.placeOf path

/-- What stands at a place that is no output stays. -/
theorem kept {entry : FileEntry} (spares : Spares directory outputs files later)
    (elsewhere : place ∉ outputs.map files.placeOf) (found : files.entry? place = some entry) :
    later.entry? place = some entry := by
  rcases spares.entry place elsewhere with same | ⟨none, -⟩
  · exact same.trans found
  · rw [found] at none
    cases none

theorem trans (first : Spares directory outputs files later) (second : Spares directory outputs later last) :
    Spares directory outputs files last where
  current := second.current.trans first.current
  entry := by
    intro place elsewhere
    have elsewhereLater : place ∉ outputs.map later.placeOf := by rwa [first.places]
    rcases first.entry place elsewhere with same | ⟨none, new, onWay⟩
    · rw [← same, ← first.onWay]
      exact second.entry place elsewhereLater
    · exact .inr ⟨none, second.kept elsewhereLater new, onWay⟩

end Spares

/-- What changes at the place of an output only spares the rest. -/
theorem SameBut.spares (same : SameBut files later place) (output : path ∈ outputs)
    (placed : files.placeOf path = place) : Spares directory outputs files later where
  current := same.current
  entry other elsewhere :=
    .inl (same.entry other fun equal => elsewhere (List.mem_map.mpr ⟨path, output, placed.trans equal.symm⟩))

theorem write_spares (output : path ∈ outputs) (written : files.write path content = .ok later) :
    Spares directory outputs files later := by
  unfold write at written
  cases located : files.locateFile path with
  | error fault =>
      rw [located] at written
      cases written
  | ok place =>
      rw [located] at written
      cases written
      obtain ⟨fileAt, -⟩ := fileAt_of_locateFile located
      exact (put_sameBut files fileAt.inside _).spares output fileAt.placeOf

theorem append_spares (output : path ∈ outputs) (written : files.append path content = .ok later) :
    Spares directory outputs files later := by
  cases located : files.locateFile path with
  | error fault =>
      rw [append, located] at written
      cases written
  | ok place =>
      obtain ⟨fileAt, noDirectory⟩ := fileAt_of_locateFile located
      rw [fileAt.append_eq noDirectory] at written
      cases written
      exact (put_sameBut files fileAt.inside _).spares output fileAt.placeOf

section create
variable (ahead : names <+: Path.names directory)
include ahead

theorem makeDirectory_spares (origin : start = files.origin directory)
    (created : files.makeDirectory start names = .ok later) : Spares directory outputs files later := by
  unfold makeDirectory at created
  cases walked : files.walk start names with
  | error fault =>
      rw [walked] at created
      cases created
  | ok place =>
      simp only [walked, bind, Except.bind] at created
      cases found : files.entry? place with
      | some entry =>
          rw [found] at created
          cases created
      | none =>
          rw [found] at created
          cases created
          have inside : place ≠ [] := by
            rintro rfl
            cases found
          refine ⟨(put_sameBut files inside _).current, fun other _ => ?_⟩
          rw [entry?_put inside]
          split
          case isTrue same =>
            subst same
            exact .inr ⟨found, rfl, names, ahead, origin ▸ foldl_of_walk walked⟩
          case isFalse => exact .inl rfl

theorem ensureDirectory_spares (origin : start = files.origin directory)
    (ensured : files.ensureDirectory start names = .ok later) : Spares directory outputs files later := by
  unfold ensureDirectory at ensured
  split at ensured
  case h_1 created =>
    cases ensured
    exact makeDirectory_spares ahead origin created
  case h_2 =>
    split at ensured
    case isTrue =>
      cases ensured
      exact .refl files
    case isFalse => cases ensured

end create

theorem ensureUpward_spares {places : List (List String)}
    (ahead : ∀ names ∈ places, names <+: Path.names directory) (origin : start = files.origin directory) :
    Spares directory outputs files (files.ensureUpward start places).2 := by
  induction places with
  | nil => exact .refl files
  | cons names upper inductionHypothesis =>
      obtain ⟨nearest, above⟩ := List.forall_mem_cons.mp ahead
      unfold ensureUpward
      split
      case h_1 ensured => exact ensureDirectory_spares nearest origin ensured
      case h_2 =>
        specialize inductionHypothesis above
        split
        case h_1 ready made =>
          rw [made] at inductionHypothesis
          split
          case h_1 ensured =>
            have readyOrigin := origin.trans (inductionHypothesis.origin directory).symm
            exact inductionHypothesis.trans (ensureDirectory_spares nearest readyOrigin ensured)
          case h_2 => exact inductionHypothesis
        case h_2 => exact inductionHypothesis
      case h_3 => exact .refl files

/-- Creating a directory makes directories on its way only. -/
theorem createDirectories_spares (files : Files) (directory : String) (outputs : List String) :
    Spares directory outputs files (files.createDirectories directory).2 := by
  unfold createDirectories
  split
  · exact .refl files
  · split
    · refine ensureUpward_spares (fun names member => ?_) rfl
      rcases List.mem_cons.mp member with rfl | above
      · exact List.prefix_rfl
      · exact Path.prefix_of_mem_above above
    · exact .refl files

/-- What it leaves in a place is what was there, or a directory. -/
theorem entry?_createDirectories (free : Files.entry? (files.createDirectories directory).2 place ≠ some .directory) :
    Files.entry? (files.createDirectories directory).2 place = files.entry? place :=
  ((createDirectories_spares files directory []).entry place List.not_mem_nil).resolve_right fun new => free new.2.1

end Files

/-- Whatever the action does, it spares the files in view. -/
def Sparing {σ α : Type} (view : σ → Files) (directory : String) (outputs : List String) (action : StateM σ α) :
    Prop :=
  ∀ state, Files.Spares directory outputs (view state) (view (action.run state).2)

namespace Sparing
variable {σ α β : Type} {view : σ → Files} {directory : String} {outputs : List String}

theorem pure (value : α) : Sparing view directory outputs (return value) :=
  fun _ => .refl _

theorem get : Sparing view directory outputs (MonadState.get : StateM σ σ) :=
  fun _ => .refl _

theorem bind {first : StateM σ α} {next : α → StateM σ β} (firstSpares : Sparing view directory outputs first)
    (rest : ∀ value, Sparing view directory outputs (next value)) :
    Sparing view directory outputs (first >>= next) :=
  fun state => (firstSpares state).trans (rest _ _)

/-- The work after a failure is left out. -/
theorem runBind {first : ExceptT Failure (StateM σ) α} {next : α → ExceptT Failure (StateM σ) β}
    (firstSpares : Sparing view directory outputs first.run)
    (rest : ∀ value, Sparing view directory outputs (next value).run) :
    Sparing view directory outputs (first >>= next).run := by
  intro state
  rw [EpisodicReplay.run_bind]
  have before := firstSpares state
  rcases ran : first.run.run state with ⟨failure | value, later⟩
  case error =>
    rw [ran] at before
    exact before
  case ok =>
    rw [ran] at before
    exact before.trans (rest value later)

theorem forM {items : List α} {body : α → ExceptT Failure (StateM σ) PUnit}
    (each : ∀ item, Sparing view directory outputs (body item).run) :
    Sparing view directory outputs (items.forM body).run := by
  induction items with
  | nil => exact .pure _
  | cons item items inductionHypothesis => exact (each item).runBind fun _ => inductionHypothesis

theorem forIn {items : List α} {body : α → PUnit → ExceptT Failure (StateM σ) (ForInStep PUnit)}
    (each : ∀ item, Sparing view directory outputs (body item ⟨⟩).run) :
    Sparing view directory outputs (forIn items ⟨⟩ body).run := by
  induction items with
  | nil => exact .pure _
  | cons item items inductionHypothesis =>
      rw [List.forIn_cons]
      refine (each item).runBind ?_
      rintro (_ | _)
      · exact .pure _
      · exact inductionHypothesis

end Sparing

namespace FileAction
variable {path directory : String} {outputs : List String}

theorem sparing_modify {change : Files → Except FileFault Files}
    (spares : ∀ files later, change files = .ok later → Files.Spares directory outputs files later) :
    Sparing id directory outputs (modify path change).run := by
  intro files
  rw [run_modify]
  split
  case h_1 later changed => exact spares files later changed
  case h_2 => exact .refl files

theorem sparing_write (output : path ∈ outputs) (content : ByteArray) :
    Sparing id directory outputs (write path content).run :=
  sparing_modify fun _ _ => Files.write_spares output

theorem sparing_createDirectories (directory : String) (outputs : List String) :
    Sparing id directory outputs (createDirectories directory).run := by
  intro files
  rw [run_createDirectories]
  exact files.createDirectories_spares directory outputs

end FileAction

namespace Log
variable {path directory : String} {outputs : List String}

theorem sparing_trim (output : path ∈ outputs) (limit : Nat) :
    Sparing id directory outputs (trim path limit).run := by
  intro files
  rw [run_trim]
  split
  case h_1 =>
    split
    case isTrue => exact ((FileAction.sparing_write output .empty).runBind fun _ => .pure _) files
    case isFalse => exact .refl files
  case h_2 => exact .refl files
  case h_3 => exact .refl files

/-- Adding bytes to a log touches no other file, whether it succeeds or not. -/
theorem appendBytes_touchesOnly (path : String) (bytes : ByteArray) (limit : Nat) (files : Files) :
    files.TouchesOnly path ((appendBytes path bytes limit).run.run files).2 := by
  cases located : files.locateFile path with
  | error fault =>
      obtain ⟨failure, run⟩ := appendBytes_refused located bytes limit
      rw [run]
      exact .nothing
  | ok place =>
      obtain ⟨fileAt, free⟩ := Files.fileAt_of_locateFile located
      obtain ⟨later, run, same, found⟩ := @appendBytes_file path limit files place bytes fileAt free
      rw [run]
      exact .file fileAt free same (by rw [found]; simp)

theorem sparing_append (output : path ∈ outputs) (line : String) (limit : Nat) :
    Sparing id directory outputs (append path line limit).run :=
  (sparing_trim output limit).runBind fun _ => FileAction.sparing_modify fun _ _ => Files.append_spares output

end Log

end EpisodicReplay
