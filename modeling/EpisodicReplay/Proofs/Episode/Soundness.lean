import EpisodicReplay.Capture
import EpisodicReplay.Episode.File
import EpisodicReplay.Episode.Json
import EpisodicReplay.Proofs.Episode

/-!
Episodes that are built, read from a file or captured are sound, and no push or change of the tag makes an episode
sound or unsound. An episode that is decoded from JSON is as sound as its text.
-/

namespace EpisodicReplay

namespace Episode
variable {episode : Episode}

theorem ofTicks_sound (ticks : List Tick) (tag : Tag) : (ofTicks ticks tag).Sound :=
  (Built.ofTicks ticks tag).sound

/-- A push neither repairs an episode nor breaks it. -/
theorem push_sound_iff (episode : Episode) (tick : Tick) : (episode.push tick).2.Sound ↔ episode.Sound := by
  refine ⟨fun sound => ?_, fun sound => sound.push tick⟩
  unfold push at sound
  split at sound
  case isTrue => exact sound
  case isFalse room =>
    refine ⟨Nat.le_of_not_le fun long => room (decide_eq_true long), fun other member => sound.finite other ?_⟩
    rw [Array.toList_push]
    exact List.mem_append_left _ member

theorem setTag_sound_iff (episode : Episode) (tag : Tag) : (episode.setTag tag).Sound ↔ episode.Sound :=
  ⟨fun sound => ⟨sound.fits, sound.finite⟩, fun sound => ⟨sound.fits, sound.finite⟩⟩

/-- What is done with an episode that is there. -/
inductive Edit where
  | push (tick : Tick)
  | setTag (tag : Tag)

def edit (episode : Episode) : Edit → Episode
  | .push tick => (episode.push tick).2
  | .setTag tag => episode.setTag tag

def edited (episode : Episode) (edits : List Edit) : Episode :=
  edits.foldl edit episode

theorem edited_sound_iff (episode : Episode) (edits : List Edit) : (episode.edited edits).Sound ↔ episode.Sound := by
  induction edits generalizing episode with
  | nil => rfl
  | cons change edits inductionHypothesis =>
      refine (inductionHypothesis (episode.edit change)).trans ?_
      cases change with
      | push tick => exact episode.push_sound_iff tick
      | setTag tag => exact episode.setTag_sound_iff tag

end Episode

/-- Reading a file sanitizes its ticks and drops those that do not fit. -/
theorem EpisodeFile.read_sound {content : ByteArray} {episode : Episode}
    (read : EpisodeFile.read content = .ok episode) : episode.Sound := by
  unfold EpisodeFile.read at read
  split at read
  case h_1 => cases read
  case h_2 =>
    cases read
    exact Episode.ofTicks_sound ..

namespace Capture
variable {capacity : Nat} {capture : Capture} {history : History capacity} {tag : Tag} {episode : Episode}

/-- The episode under way, if there is one, is sound. -/
def HoldsSound (capture : Capture) : Prop :=
  match capture.state with
  | .idle => True
  | .capturing episode _ _ => episode.Sound

/-- A step that completes sound episodes and leaves a sound one under way. -/
def Yields (result : Option Episode × Capture) : Prop :=
  (∀ episode, result.1 = some episode → episode.Sound) ∧ result.2.HoldsSound

theorem yields_finish (capture : Capture) (sound : episode.Sound) : Yields (capture.finish episode) :=
  ⟨fun _ completed => Option.some.inj completed ▸ sound, trivial⟩

theorem seed_sound (history : History capacity) (tag : Tag) (count : Nat) : (seed history tag count).1.Sound :=
  List.foldlRecOn (motive := fun (pushed : Episode × Nat) => pushed.1.Sound) _ _ (.empty tag)
    fun _ sound entry _ => sound.push entry.tick

theorem begin_yields (holds : capture.HoldsSound) (history : History capacity) (tag : Tag) :
    Yields (capture.begin history tag) := by
  unfold begin
  split
  case isTrue => exact ⟨nofun, holds⟩
  case isFalse =>
    have sound := seed_sound history tag (min capture.window.before (history.size - 1))
    dsimp only
    split
    case isTrue => exact yields_finish capture sound
    case isFalse => exact ⟨nofun, sound⟩

/-- Draining pushes entries into the episode under way. -/
theorem drain_sound (sound : episode.Sound) (remaining lastSequence : Nat) (entries : List History.Entry) :
    ∃ extended left newest, (drain episode remaining lastSequence entries).2 = .capturing extended left newest ∧
      extended.Sound := by
  induction entries generalizing episode remaining lastSequence with
  | nil => exact ⟨episode, remaining, lastSequence, rfl, sound⟩
  | cons entry rest inductionHypothesis =>
      rw [drain]
      split
      case isTrue => exact ⟨_, _, _, rfl, sound.push entry.tick⟩
      case isFalse => exact inductionHypothesis (sound.push entry.tick) ..

theorem progress_yields (holds : capture.HoldsSound) (history : History capacity) :
    Yields (capture.progress history) := by
  unfold progress
  split
  case h_1 => exact ⟨nofun, holds⟩
  case h_2 running remaining lastSequence state =>
    have sound : running.Sound := by rwa [HoldsSound, state] at holds
    obtain ⟨extended, left, newest, drained, extendedSound⟩ :=
      drain_sound sound remaining lastSequence (history.entriesAfter lastSequence)
    generalize drain running remaining lastSequence (history.entriesAfter lastSequence) = result at drained ⊢
    obtain ⟨done, later⟩ := result
    obtain rfl : later = .capturing extended left newest := drained
    cases done with
    | true => exact yields_finish capture extendedSound
    | false => exact ⟨nofun, extendedSound⟩

theorem addTag_holdsSound (holds : capture.HoldsSound) (tag : Tag) : (capture.addTag tag).HoldsSound := by
  unfold addTag
  split
  case h_1 => exact holds
  case h_2 running remaining lastSequence state =>
    rw [HoldsSound, state] at holds
    exact (Episode.setTag_sound_iff ..).mpr holds

theorem step_yields (holds : capture.HoldsSound) (history : History capacity) (tag : Tag) :
    Yields (capture.step history tag) := by
  have waiting : ({ capture with debounce := capture.debounce - 1 } : Capture).HoldsSound := holds
  obtain ⟨finishedSound, advancedHolds⟩ := progress_yields (addTag_holdsSound waiting tag) history
  rw [step]
  dsimp only
  split
  case isTrue =>
    obtain ⟨startedSound, nextHolds⟩ := begin_yields advancedHolds history tag
    refine ⟨fun episode completed => ?_, nextHolds⟩
    rcases (Option.orElse_eq_some ..).mp completed with started | ⟨-, finished⟩
    · exact startedSound episode started
    · exact finishedSound episode finished
  case isFalse => exact ⟨finishedSound, advancedHolds⟩

/-- The captures that come from a fresh one by steps on any histories. -/
inductive Reached : Capture → Prop where
  | ofWindow (window : Window) : Reached (.ofWindow window)
  | step {capture : Capture} (reached : Reached capture) {capacity : Nat} (history : History capacity) (tag : Tag) :
      Reached (capture.step history tag).2

theorem Reached.holdsSound (reached : Reached capture) : capture.HoldsSound := by
  induction reached with
  | ofWindow window => trivial
  | step reached history tag inductionHypothesis => exact (step_yields inductionHypothesis history tag).2

end Capture

namespace Episode

/-- The episodes that are built anew, read from a file or completed by a capture. -/
inductive Ingested : Episode → Prop where
  | empty (tag : Tag) : Ingested (.empty tag)
  | ofTicks (ticks : List Tick) (tag : Tag) : Ingested (.ofTicks ticks tag)
  | read {episode : Episode} (content : ByteArray) (read : EpisodeFile.read content = .ok episode) : Ingested episode
  | captured {episode : Episode} {capture : Capture} (reached : capture.Reached) {capacity : Nat}
      (history : History capacity) (tag : Tag) (completed : (capture.step history tag).1 = some episode) :
      Ingested episode

theorem Ingested.sound {episode : Episode} (ingested : Ingested episode) : episode.Sound := by
  cases ingested with
  | empty tag => exact .empty tag
  | ofTicks ticks tag => exact ofTicks_sound ticks tag
  | read content read => exact EpisodeFile.read_sound read
  | captured reached history tag completed => exact (Capture.step_yields reached.holdsSound history tag).1 _ completed

/-- The episode that a JSON text encodes. -/
def decode? (text : String) : Option Episode :=
  (Json.parse? text.toList).bind ofJson?

/-- The items that a JSON text lists as the ticks of an episode. -/
def tickItems? (text : String) : Option (List Json.Value) := do
  match (← (← Json.parse? text.toList).fields? ["ticks", "tag"]).lookup "ticks" with
  | some (.array items) => some items
  | _ => none

/-- Values that are read item by item have a property if what is read from each item has it. -/
theorem forall_mem_of_mapM {α β : Type} {read? : α → Option β} {p : β → Prop} {items : List α} {values : List β}
    (read : items.mapM read? = some values) : values.length = items.length ∧
      ((∀ value ∈ values, p value) ↔ ∀ item ∈ items, ∃ value, read? item = some value ∧ p value) := by
  induction items generalizing values with
  | nil =>
      cases read
      simp
  | cons item items inductionHypothesis =>
      rw [List.mapM_cons] at read
      obtain ⟨first, readFirst, read⟩ := Option.bind_eq_some_iff.mp read
      obtain ⟨rest, readRest, read⟩ := Option.bind_eq_some_iff.mp read
      cases read
      obtain ⟨length, each⟩ := inductionHypothesis readRest
      simp [length, each, readFirst]

/-- Every listed item is read as a tick, and the ticks of the episode are just these. -/
theorem mapM_tickItems {text : String} {episode : Episode} (decoded : decode? text = some episode) :
    ∃ items, tickItems? text = some items ∧ items.mapM Tick.ofJson? = some episode.ticks.toList := by
  obtain ⟨json, parsed, decoded⟩ := Option.bind_eq_some_iff.mp decoded
  obtain ⟨fields, known, decoded⟩ := Option.bind_eq_some_iff.mp decoded
  obtain ⟨ticks, listed, decoded⟩ := Option.bind_eq_some_iff.mp decoded
  obtain ⟨tag, tagged, decoded⟩ := Option.bind_eq_some_iff.mp decoded
  obtain ⟨value, found, listed⟩ := Option.bind_eq_some_iff.mp listed
  cases decoded
  cases value with
  | array items =>
      refine ⟨items, ?_, listed⟩
      simp only [tickItems?, parsed, bind, Option.bind, known, found]
  | _ => cases listed

/-- However an episode begins and whatever is done with it then, it is sound, unless it was decoded from JSON. Then it
is sound just if the text lists no more ticks than fit, all of them finite. -/
theorem edited_sound (edits : List Edit) :
    (∀ episode, Ingested episode → (episode.edited edits).Sound) ∧
      ∀ text episode, decode? text = some episode → ∃ items, tickItems? text = some items ∧
        ((episode.edited edits).Sound ↔
          items.length ≤ maxLength ∧ ∀ item ∈ items, ∃ tick, Tick.ofJson? item = some tick ∧ tick.isFinite) := by
  constructor
  · intro episode ingested
    exact (episode.edited_sound_iff edits).mpr ingested.sound
  · intro text episode decoded
    obtain ⟨items, listed, read⟩ := mapM_tickItems decoded
    obtain ⟨length, finite⟩ := forall_mem_of_mapM (p := fun tick : Tick => tick.isFinite = true) read
    refine ⟨items, listed, (episode.edited_sound_iff edits).trans ?_⟩
    rw [← length, ← finite]
    exact ⟨fun sound => ⟨sound.fits, sound.finite⟩, fun ⟨fits, finite⟩ => ⟨fits, finite⟩⟩

/-- A tick with a channel that is no number and one that is infinite. -/
def noisyTick : Tick :=
  { Tick.zero with amp := 0 / 0, filterAlpha := Binary32.infinity }

/-- The text of an episode with one tick, whose first channel is given. -/
def loudText (amp : String) : String :=
  "\x7b\"ticks\":[[" ++ amp ++ ",0,0,0,0,0,0,0]],\"tag\":1\x7d"

/-- A capture of a noisy tick, and a text with a large number that binary32 still holds. -/
theorem edited_sound_noisyTick :
    let edits := [Edit.push noisyTick, .setTag .align]
    Ingested (ofTicks [noisyTick] .spike) ∧ ((ofTicks [noisyTick] .spike).edited edits).Sound ∧
      ∃ episode, decode? (loudText "3e38") = some episode ∧ (episode.edited edits).Sound := by
  intro edits
  have completed : ((Capture.ofWindow ⟨0, 0⟩).step ((History.empty (show 0 < 1 by decide)).push noisyTick) .spike).1 =
      some (ofTicks [noisyTick] .spike) := by decide +kernel
  have ingested : Ingested (ofTicks [noisyTick] .spike) := .captured (.ofWindow ⟨0, 0⟩) _ .spike completed
  have decoded : (decode? (loudText "3e38")).isSome = true := by decide +kernel
  have finite : (tickItems? (loudText "3e38")).all (fun items => decide (items.length ≤ maxLength) &&
      items.all fun item => (Tick.ofJson? item).any Tick.isFinite) = true := by decide +kernel
  obtain ⟨episode, decoded⟩ := Option.isSome_iff_exists.mp decoded
  obtain ⟨items, listed, sound⟩ := (edited_sound edits).2 _ episode decoded
  rw [listed, Option.all_some, Bool.and_eq_true, decide_eq_true_eq, List.all_eq_true] at finite
  exact ⟨ingested, (edited_sound edits).1 _ ingested, episode, decoded,
    sound.mpr ⟨finite.1, fun item member => (Option.any_eq_true ..).mp (finite.2 item member)⟩⟩

/-- The text of an episode with a number of ticks, all of them zero, character by character. -/
def zeros (count : Nat) : List Char :=
  "\x7b\"ticks\":[".toList ++ [','].intercalate (List.replicate count "[0,0,0,0,0,0,0,0]".toList) ++
    "],\"tag\":1\x7d".toList

/-- A text with a number beyond binary32 and a text with one tick too many are decoded all the same. -/
theorem not_sound_decoded :
    (∃ episode, decode? (loudText "1e39") = some episode ∧ ¬episode.Sound) ∧
      ∃ episode, decode? (.ofList (zeros (maxLength + 1))) = some episode ∧ ¬episode.Sound := by
  constructor
  · refine ⟨⟨#[{ Tick.zero with amp := Binary32.infinity }], .spike⟩, by decide +kernel, fun sound => ?_⟩
    exact absurd (sound.finite _ List.mem_cons_self) (by decide +kernel)
  · have parsed : ((Json.parse? (zeros 129)).bind ofJson?).map Episode.length = some 129 := by decide +kernel
    rewrite [← String.toList_ofList (l := zeros 129)] at parsed
    obtain ⟨episode, decoded, length⟩ := Option.map_eq_some_iff.mp parsed
    refine ⟨episode, decoded, fun sound => ?_⟩
    have fits : episode.length ≤ maxLength := sound.fits
    rw [length] at fits
    exact Nat.not_succ_le_self maxLength fits

end Episode

end EpisodicReplay
