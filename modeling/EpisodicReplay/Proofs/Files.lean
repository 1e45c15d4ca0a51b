import EpisodicReplay.Files
import EpisodicReplay.Proofs.Path

/-!
Files seen as what stands at each place. A directory keeps its place while files come and go, and what is done with
the path of a file in it is done at the place behind its own.
-/

namespace EpisodicReplay.Files
variable {files later last : Files} {place other : Location} {entry : FileEntry}

theorem lookup_cons (key other : Location) (value : FileEntry) (entries : List (Location × FileEntry)) :
    ((key, value) :: entries).lookup other = if other = key then some value else entries.lookup other := by
  by_cases same : other = key
  · rw [same, List.lookup_cons_self, if_pos rfl]
  · rw [List.lookup_cons, beq_eq_false_iff_ne.mpr same, if_neg same]

theorem lookup_map (entries : List (Location × FileEntry)) (place other : Location) (entry : FileEntry) :
    (entries.map fun old => if old.1 = place then (place, entry) else old).lookup other =
      if other = place then (entries.lookup place).map fun _ => entry else entries.lookup other := by
  induction entries with
  | nil => simp
  | cons old entries inductionHypothesis =>
      obtain ⟨key, value⟩ := old
      have mapped : (if key = place then (place, entry) else (key, value)) =
          (key, if key = place then entry else value) := by
        split <;> simp_all
      rw [List.map_cons, mapped, lookup_cons, lookup_cons, lookup_cons, inductionHypothesis]
      by_cases same : place = key
      · by_cases asked : other = place <;> simp_all
      · by_cases asked : other = place <;> simp [asked, same, Ne.symm same]

/-- What is put at a place stands there, and all else stays. -/
theorem entry?_put (inside : place ≠ []) (other : Location) :
    Files.entry? (files.put place entry) other = if other = place then some entry else files.entry? other := by
  unfold entry?
  by_cases root : other = []
  · subst root
    rw [if_neg inside.symm]
    rfl
  · simp only [List.isEmpty_eq_false_iff.mpr root, Bool.false_eq_true, if_false]
    unfold put
    split
    case isTrue known =>
      obtain ⟨old, known⟩ := Option.isSome_iff_exists.mp known
      simp [lookup_map, known]
    case isFalse unknown =>
      rw [Option.not_isSome_iff_eq_none] at unknown
      by_cases same : other = place
      · simp [List.lookup_append, same, unknown]
      · simp [List.lookup_append, lookup_cons, same]

/-- Two states of the files that differ at one place at most. -/
structure SameBut (files later : Files) (place : Location) : Prop where
  current : later.current = files.current
  entry : ∀ other, other ≠ place → later.entry? other = files.entry? other

theorem SameBut.refl (files : Files) (place : Location) : SameBut files files place :=
  ⟨rfl, fun _ _ => rfl⟩

theorem SameBut.trans (first : SameBut files later place) (second : SameBut later last place) :
    SameBut files last place :=
  ⟨second.current.trans first.current, fun other elsewhere =>
    (second.entry other elsewhere).trans (first.entry other elsewhere)⟩

theorem put_sameBut (files : Files) (inside : place ≠ []) (entry : FileEntry) :
    SameBut files (files.put place entry) place where
  current := by
    unfold put
    split <;> rfl
  entry other elsewhere := by
    rw [entry?_put inside, if_neg elsewhere]

section walk
variable {names : List String}

theorem walk_cons {name : String} (found : files.entry? place = some .directory)
    (short : name.utf8ByteSize ≤ Path.longestName) (rest : List String) :
    files.walk place (name :: rest) = files.walk (descend place name) rest := by
  rw [walk, found]
  dsimp only
  rw [if_neg (Nat.not_lt.mpr short)]

/-- Every step down starts at a directory. -/
theorem walk_cons_ok {name : String} {rest : List String} (walked : files.walk place (name :: rest) = .ok other) :
    files.entry? place = some .directory ∧ name.utf8ByteSize ≤ Path.longestName ∧
      files.walk (descend place name) rest = .ok other := by
  rw [walk] at walked
  split at walked
  case h_1 found =>
    split at walked
    case isTrue => cases walked
    case isFalse short => exact ⟨found, Nat.not_lt.mp short, walked⟩
  case h_2 => cases walked
  case h_3 => cases walked

/-- A way down directories stays open as long as they stay. -/
theorem walk_of_keeps
    (keeps : ∀ place, files.entry? place = some .directory → later.entry? place = some .directory)
    (walked : files.walk place names = .ok other) : later.walk place names = .ok other := by
  induction names generalizing place with
  | nil => exact walked
  | cons name rest inductionHypothesis =>
      obtain ⟨found, short, walked⟩ := walk_cons_ok walked
      rw [walk_cons (keeps place found) short]
      exact inductionHypothesis walked

theorem walk_append (walked : files.walk place names = .ok other) (rest : List String) :
    files.walk place (names ++ rest) = files.walk other rest := by
  induction names generalizing place with
  | nil =>
      cases walked
      rfl
  | cons name names inductionHypothesis =>
      obtain ⟨found, short, walked⟩ := walk_cons_ok walked
      rw [List.cons_append, walk_cons found short]
      exact inductionHypothesis walked

theorem descend_name {name : String} (isName : Path.IsName name) : descend place name = place ++ [name] := by
  unfold descend
  split
  · exact absurd rfl isName.dot
  · exact absurd rfl isName.dots
  · rfl

theorem walk_name {name : String} (found : files.entry? place = some .directory) (isName : Path.IsName name) :
    files.walk place [name] = .ok (place ++ [name]) := by
  rw [walk_cons found isName.short, descend_name isName]
  rfl

end walk

/-- The path leads to a directory at the place. -/
structure DirectoryAt (files : Files) (path : String) (place : Location) : Prop where
  checked : checkPath path = .ok ()
  walked : files.walk (files.origin path) (Path.names path) = .ok place
  found : files.entry? place = some .directory

/-- The path leads to the place of a file, which may or may not be there. -/
structure FileAt (files : Files) (path : String) (place : Location) : Prop where
  located : files.locate path = .ok place
  slash : path.endsWith "/" = false
  inside : place ≠ []

section path
variable {path directory name : String} {content : ByteArray}

theorem checkPath_eq_ok : checkPath path = .ok () ↔
    '\x00' ∉ path.toList ∧ path ≠ "" ∧ path.utf8ByteSize ≤ Path.longestPath := by
  unfold checkPath
  split
  · simp_all
  · split
    · simp_all
    · split <;> simp_all

/-- Directories stay when something that is no directory changes. -/
theorem SameBut.keeps (same : SameBut files later other) (noDirectory : files.entry? other ≠ some .directory)
    (place : Location) (found : files.entry? place = some .directory) : later.entry? place = some .directory := by
  rw [same.entry place fun equal => noDirectory (equal ▸ found)]
  exact found

theorem locate_eq_ok : files.locate path = .ok place ↔
    checkPath path = .ok () ∧ files.walk (files.origin path) (Path.names path) = .ok place := by
  unfold locate
  cases checkPath path with
  | error fault => simp [bind, Except.bind]
  | ok => simp [bind, Except.bind]

section keeps
variable (current : later.current = files.current)
  (keeps : ∀ place, files.entry? place = some .directory → later.entry? place = some .directory)
include current keeps

theorem DirectoryAt.of_keeps (directoryAt : DirectoryAt files path place) : DirectoryAt later path place where
  checked := directoryAt.checked
  walked := by
    rw [origin, current]
    exact walk_of_keeps keeps directoryAt.walked
  found := keeps place directoryAt.found

theorem locate_of_keeps (located : files.locate path = .ok place) : later.locate path = .ok place := by
  obtain ⟨checked, walked⟩ := locate_eq_ok.mp located
  refine locate_eq_ok.mpr ⟨checked, ?_⟩
  rw [origin, current]
  exact walk_of_keeps keeps walked

theorem FileAt.of_keeps (fileAt : FileAt files path place) : FileAt later path place where
  located := locate_of_keeps current keeps fileAt.located
  slash := fileAt.slash
  inside := fileAt.inside

end keeps

theorem DirectoryAt.of_sameBut (directoryAt : DirectoryAt files path place) (same : SameBut files later other)
    (noDirectory : files.entry? other ≠ some .directory) : DirectoryAt later path place :=
  directoryAt.of_keeps same.current (same.keeps noDirectory)

theorem FileAt.of_sameBut (fileAt : FileAt files path place) (same : SameBut files later other)
    (noDirectory : files.entry? other ≠ some .directory) : FileAt later path place :=
  fileAt.of_keeps same.current (same.keeps noDirectory)

theorem checkPath_join (checked : checkPath directory = .ok ()) (isName : Path.IsName name)
    (room : directory.utf8ByteSize + 1 + name.utf8ByteSize ≤ Path.longestPath) :
    checkPath (Path.join directory name) = .ok () := by
  obtain ⟨solid, nonempty, -⟩ := checkPath_eq_ok.mp checked
  obtain ⟨front, text, slash⟩ := Path.toList_join isName nonempty
  refine checkPath_eq_ok.mpr ⟨?_, ?_, Nat.le_trans (Path.utf8ByteSize_join_le directory name) room⟩
  · rw [text, List.mem_append, List.mem_cons]
    rintro (inside | slash | inside)
    · rcases slash with equal | equal <;> exact solid (by simp [equal, inside])
    · cases slash
    · exact isName.solid inside
  · intro empty
    simp [empty] at text

/-- A name in a directory leads to the place behind it. -/
theorem DirectoryAt.fileAt (directoryAt : DirectoryAt files directory place) (isName : Path.IsName name)
    (room : directory.utf8ByteSize + 1 + name.utf8ByteSize ≤ Path.longestPath) :
    FileAt files (Path.join directory name) (place ++ [name]) where
  located := by
    have nonempty := (checkPath_eq_ok.mp directoryAt.checked).2.1
    have origin : files.origin (Path.join directory name) = files.origin directory := by
      rw [Files.origin, Files.origin, Path.startsWith_join isName nonempty]
    rw [locate, checkPath_join directoryAt.checked isName room, Path.names_join isName nonempty, origin]
    exact (walk_append directoryAt.walked [name]).trans (walk_name directoryAt.found isName)
  slash := Path.endsWith_join isName (checkPath_eq_ok.mp directoryAt.checked).2.1
  inside := by simp

theorem FileAt.find_eq (fileAt : FileAt files path place) : files.find path =
    match files.entry? place with
    | some entry => .ok (place, entry)
    | none => .error .notFound := by
  simp only [find, fileAt.located, fileAt.slash, bind, Except.bind]
  cases files.entry? place with
  | none => rfl
  | some entry => cases entry <;> rfl

theorem FileAt.read_file (fileAt : FileAt files path place) (found : files.entry? place = some (.file content)) :
    files.read path = .ok content := by
  rw [read, fileAt.find_eq, found]
  rfl

theorem FileAt.read_congr (fileAt : FileAt files path place) (laterAt : FileAt later path place)
    (same : later.entry? place = files.entry? place) : later.read path = files.read path := by
  rw [read, read, fileAt.find_eq, laterAt.find_eq, same]

theorem FileAt.locateFile_eq (fileAt : FileAt files path place) : files.locateFile path =
    match files.entry? place with
    | some .directory => .error .isDirectory
    | _ => .ok place := by
  simp only [locateFile, fileAt.located, fileAt.slash, bind, Except.bind]
  cases files.entry? place with
  | none => rfl
  | some entry => cases entry <;> rfl

theorem FileAt.locateFile_file (fileAt : FileAt files path place)
    (noDirectory : files.entry? place ≠ some .directory) : files.locateFile path = .ok place := by
  rw [fileAt.locateFile_eq]
  split
  case h_1 found => exact absurd found noDirectory
  case h_2 => rfl

/-- Where a file may be written, the path leads to no directory. -/
theorem fileAt_of_locateFile (located : files.locateFile path = .ok place) :
    FileAt files path place ∧ files.entry? place ≠ some .directory := by
  unfold locateFile at located
  cases slash : path.endsWith "/" with
  | true =>
      rw [slash] at located
      cases parent : files.locateParent path <;> rw [parent] at located <;> cases located
  | false =>
      rw [slash] at located
      cases walked : files.locate path with
      | error fault =>
          rw [walked] at located
          cases located
      | ok found =>
          rw [walked] at located
          change (match files.entry? found with
            | some .directory => throw .isDirectory
            | _ => return found : Except FileFault Location) = .ok place at located
          split at located
          case h_1 => cases located
          case h_2 noDirectory =>
            cases located
            refine ⟨⟨walked, slash, ?_⟩, noDirectory⟩
            rintro rfl
            exact noDirectory rfl

/-- A file is written unless a directory stands there. -/
theorem FileAt.write_eq (fileAt : FileAt files path place) (noDirectory : files.entry? place ≠ some .directory) :
    files.write path content = .ok (files.put place (.file content)) := by
  rw [write, fileAt.locateFile_file noDirectory]
  rfl

/-- A text that was written is read back. -/
theorem FileAt.readText_put (fileAt : FileAt files path place) (noDirectory : files.entry? place ≠ some .directory)
    (text : String) : (files.put place (.file text.toUTF8)).readText path = .ok text := by
  have found : Files.entry? (files.put place (.file text.toUTF8)) place = some (.file text.toUTF8) := by
    rw [entry?_put fileAt.inside, if_pos rfl]
  have kept := fileAt.of_sameBut (put_sameBut files fileAt.inside (.file text.toUTF8)) noDirectory
  have decoded : String.fromUTF8? text.toUTF8 = some text := by
    rw [String.toUTF8_eq_toByteArray, String.fromUTF8?, dif_pos text.isValidUTF8]
    rfl
  rw [readText, kept.read_file found]
  dsimp only [bind, Except.bind]
  rw [decoded]
  rfl

/-- The content of the file at a place; a file that is not there has none. -/
def contentAt (files : Files) (place : Location) : ByteArray :=
  match files.entry? place with
  | some (.file content) => content
  | _ => .empty

theorem FileAt.append_eq (fileAt : FileAt files path place) (noDirectory : files.entry? place ≠ some .directory) :
    files.append path content = .ok (files.put place (.file (files.contentAt place ++ content))) := by
  rw [append, fileAt.locateFile_file noDirectory]
  simp only [bind, Except.bind, contentAt]
  cases found : files.entry? place with
  | none =>
      rw [ByteArray.empty_append]
      rfl
  | some entry =>
      cases entry with
      | directory => exact absurd found noDirectory
      | file before => rfl

theorem FileAt.size_eq (fileAt : FileAt files path place) : files.size path =
    match files.entry? place with
    | some (.file content) => .ok content.size
    | some .directory => .ok directorySize
    | none => .error .notFound := by
  rw [size, fileAt.find_eq]
  cases files.entry? place with
  | none => rfl
  | some entry => cases entry <;> rfl

theorem DirectoryAt.find_eq (directoryAt : DirectoryAt files directory place) :
    files.find directory = .ok (place, .directory) := by
  have located : files.locate directory = .ok place := locate_eq_ok.mpr ⟨directoryAt.checked, directoryAt.walked⟩
  simp only [find, located, directoryAt.found, bind, Except.bind]
  rfl

/-- The names in a directory are those of the places behind it. -/
theorem DirectoryAt.list_eq (directoryAt : DirectoryAt files directory place) : ∃ names,
    files.list directory = .ok names ∧ ∀ name, name ∈ names ↔ Option.isSome ( files.entry? (place ++ [name])) := by
  refine ⟨files.entries.filterMap fun entry => if entry.1.dropLast = place then entry.1.getLast? else none, ?_,
    fun name => ?_⟩
  · simp only [list, directoryAt.find_eq, bind, Except.bind]
    rfl
  · have behind (other : Location) : other.dropLast = place ∧ other.getLast? = some name ↔ other = place ++ [name] := by
      constructor
      · rintro ⟨rfl, last⟩
        obtain ⟨front, rfl⟩ := List.getLast?_eq_some_iff.mp last
        rw [List.dropLast_concat]
      · rintro rfl
        simp
    have entry : files.entry? (place ++ [name]) = files.entries.lookup (place ++ [name]) := by
      unfold entry?
      simp
    rw [entry, List.lookup_isSome_iff, List.mem_filterMap]
    constructor
    · rintro ⟨⟨other, entry⟩, member, named⟩
      refine ⟨_, member, ?_⟩
      have := (behind other).mp (by simpa using named)
      simp [this]
    · rintro ⟨⟨other, entry⟩, member, same⟩
      refine ⟨_, member, ?_⟩
      obtain rfl : place ++ [name] = other := eq_of_beq same
      simp

end path

section create
variable {start : Location} {names : List String} {made : Files}

theorem isDirectory_iff : files.isDirectory start names = true ↔
    ∃ place, files.walk start names = .ok place ∧ files.entry? place = some .directory := by
  unfold isDirectory
  cases walked : files.walk start names with
  | error fault => simp [Except.map]
  | ok place =>
      simp only [Except.map]
      cases found : files.entry? place with
      | none => simp [found]
      | some entry => cases entry <;> simp [found]

/-- A directory that was made is there. -/
theorem isDirectory_of_makeDirectory (created : files.makeDirectory start names = .ok made) :
    made.isDirectory start names = true ∧ made.current = files.current := by
  unfold makeDirectory at created
  cases walked : files.walk start names with
  | error fault => simp [walked, bind, Except.bind] at created
  | ok place =>
      simp only [walked, bind, Except.bind] at created
      cases found : files.entry? place with
      | some entry => simp [found, throw, throwThe, MonadExceptOf.throw] at created
      | none =>
          rw [found] at created
          cases created
          have inside : place ≠ [] := by
            rintro rfl
            cases found
          have same := put_sameBut files inside .directory
          have there : Files.entry? (files.put place .directory) place = some .directory := by
            rw [entry?_put inside, if_pos rfl]
          refine ⟨isDirectory_iff.mpr ⟨place, walk_of_keeps (fun other known => ?_) walked, there⟩, same.current⟩
          rw [same.entry other fun equal => by rw [equal, found] at known; cases known]
          exact known

theorem isDirectory_of_ensureDirectory (ensured : files.ensureDirectory start names = .ok made) :
    made.isDirectory start names = true ∧ made.current = files.current := by
  unfold ensureDirectory at ensured
  split at ensured
  case h_1 created =>
    cases ensured
    exact isDirectory_of_makeDirectory created
  case h_2 =>
    split at ensured
    case isTrue known =>
      cases ensured
      exact ⟨known, rfl⟩
    case isFalse => cases ensured

theorem ensureUpward_current (files : Files) (start : Location) (places : List (List String)) :
    (files.ensureUpward start places).2.current = files.current := by
  induction places with
  | nil => rfl
  | cons names upper inductionHypothesis =>
      unfold ensureUpward
      split
      case h_1 ensured => exact (isDirectory_of_ensureDirectory ensured).2
      case h_2 =>
        split
        case h_1 ready above =>
          rw [above] at inductionHypothesis
          split
          case h_1 ensured => exact (isDirectory_of_ensureDirectory ensured).2.trans inductionHypothesis
          case h_2 => exact inductionHypothesis
        case h_2 => exact inductionHypothesis
      case h_3 => rfl

theorem isDirectory_of_ensureUpward {places : List (List String)}
    (ensured : files.ensureUpward start (names :: places) = (.ok (), made)) : made.isDirectory start names = true := by
  unfold ensureUpward at ensured
  split at ensured
  case h_1 created =>
    cases ensured
    exact (isDirectory_of_ensureDirectory created).1
  case h_2 =>
    split at ensured
    case h_1 =>
      split at ensured
      case h_1 created =>
        cases ensured
        exact (isDirectory_of_ensureDirectory created).1
      case h_2 => cases ensured
    case h_2 failed unready => exact absurd ensured (unready made)
  case h_3 => cases ensured

/-- A path that is no longer missing leads to a directory. -/
theorem directoryAt_of_createDirectories {path : String} (nonempty : path ≠ "")
    (created : (files.createDirectories path).1 = .ok ()) :
    ∃ place, DirectoryAt (files.createDirectories path).2 path place := by
  have inhabited : path.isEmpty = false := by simpa using nonempty
  cases checked : checkPath path with
  | error fault => simp [createDirectories, inhabited, checked] at created
  | ok =>
      have steps : files.createDirectories path =
          files.ensureUpward (files.origin path) (Path.names path :: Path.above (Path.names path)) := by
        simp [createDirectories, inhabited, checked]
      rw [steps] at created ⊢
      generalize ensured : files.ensureUpward _ _ = result at created ⊢
      obtain ⟨outcome, made⟩ := result
      obtain rfl : outcome = .ok () := created
      have current : made.current = files.current := by
        rw [← ensureUpward_current files (files.origin path) (Path.names path :: Path.above (Path.names path)), ensured]
      have origin : made.origin path = files.origin path := by
        rw [Files.origin, Files.origin, current]
      obtain ⟨place, walked, found⟩ := isDirectory_iff.mp (isDirectory_of_ensureUpward ensured)
      exact ⟨place, checked, origin ▸ walked, found⟩

/-- A directory need not be created again. -/
theorem DirectoryAt.createDirectories_eq {path : String} (directoryAt : DirectoryAt files path place) :
    files.createDirectories path = (.ok (), files) := by
  have inhabited : path.isEmpty = false := by simpa using (checkPath_eq_ok.mp directoryAt.checked).2.1
  have known : files.isDirectory (files.origin path) (Path.names path) = true :=
    isDirectory_iff.mpr ⟨place, directoryAt.walked, directoryAt.found⟩
  have refused : files.makeDirectory (files.origin path) (Path.names path) = .error .exists := by
    simp only [makeDirectory, directoryAt.walked, directoryAt.found, bind, Except.bind]
    rfl
  have ensured : files.ensureDirectory (files.origin path) (Path.names path) = .ok files := by
    simp [ensureDirectory, refused, known]
  simp [createDirectories, inhabited, directoryAt.checked, ensureUpward, ensured]

/-- A path that was created is there as long as its directories are. -/
theorem createDirectories_of_keeps {path : String} (created : files.createDirectories path = (.ok (), made))
    (current : later.current = made.current)
    (keeps : ∀ place, made.entry? place = some .directory → later.entry? place = some .directory) :
    later.createDirectories path = (.ok (), later) := by
  by_cases empty : path = ""
  · simp [createDirectories, empty]
  · obtain ⟨place, directoryAt⟩ := directoryAt_of_createDirectories empty (congrArg Prod.fst created)
    rw [created] at directoryAt
    exact (directoryAt.of_keeps current keeps).createDirectories_eq

end create

end EpisodicReplay.Files
