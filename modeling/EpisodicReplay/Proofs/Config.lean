import EpisodicReplay.Config
import EpisodicReplay.Proofs.Json.Record
import EpisodicReplay.Proofs.Selector.Label

/-!
Texts of selectors and of configurations. Whatever is read, from a file or out of the environment, has one text that it
is written as and read back from.
-/

namespace EpisodicReplay

namespace Tuning.Space
open Json (Member Reads Value)
variable {space : Space} {json : Value}

/-- The bounds that are no whole numbers. -/
def bounds (space : Space) : List Float32 :=
  [space.alphaLow, space.alphaHigh, space.alignLow, space.alignHigh]

/-- The counts of a space that can be read. -/
structure Fits (space : Space) : Prop where
  warmupLow : space.warmupLow < UInt32.size
  warmupHigh : space.warmupHigh < UInt32.size

theorem fits_of_ofJson? (read : ofJson? json = some space) : space.Fits := by
  simp only [ofJson?, Option.bind_eq_bind, Option.bind_eq_some_iff, Option.pure_def, Option.some.injEq] at read
  obtain ⟨fields, -, alphaLow, -, alphaHigh, -, warmupLow, low, warmupHigh, high, alignLow, -, alignHigh, -, rfl⟩ :=
    read
  have fits (json : Value) (warmup : Nat) (read : warmup? json = some warmup) : warmup < UInt32.size :=
    Json.lt_of_natBelow? read
  exact ⟨Json.holds_of_optional? (· < UInt32.size) (by decide) fits low,
    Json.holds_of_optional? (· < UInt32.size) (by decide) fits high⟩

theorem Fits.reads (fits : space.Fits) (back : ∀ bound ∈ space.bounds, Json.ReadsBack bound) :
    Reads space.toJson ofJson? space := by
  obtain ⟨alphaLow, alphaLowSpelled, alphaLowRead⟩ := (back space.alphaLow (by simp [bounds])).reads
  obtain ⟨alphaHigh, alphaHighSpelled, alphaHighRead⟩ := (back space.alphaHigh (by simp [bounds])).reads
  obtain ⟨warmupLow, warmupLowSpelled, warmupLowRead⟩ :=
    Json.reads_writeNat fits.warmupLow (fits.warmupLow.trans (by decide))
  obtain ⟨warmupHigh, warmupHighSpelled, warmupHighRead⟩ :=
    Json.reads_writeNat fits.warmupHigh (fits.warmupHigh.trans (by decide))
  obtain ⟨alignLow, alignLowSpelled, alignLowRead⟩ := (back space.alignLow (by simp [bounds])).reads
  obtain ⟨alignHigh, alignHighSpelled, alignHighRead⟩ := (back space.alignHigh (by simp [bounds])).reads
  let members : List Member := [
    ⟨"alpha_min", _, _, alphaLowSpelled⟩, ⟨"alpha_max", _, _, alphaHighSpelled⟩,
    ⟨"warmup_min", _, _, warmupLowSpelled⟩, ⟨"warmup_max", _, _, warmupHighSpelled⟩,
    ⟨"align_min", _, _, alignLowSpelled⟩, ⟨"align_max", _, _, alignHighSpelled⟩]
  refine Json.reads_writeObject members rfl (by decide) (List.cons_ne_nil _ _) ?_
  refine Option.bind_eq_some_iff.mpr ⟨_, alphaLowRead, Option.bind_eq_some_iff.mpr ⟨_, alphaHighRead, ?_⟩⟩
  refine Option.bind_eq_some_iff.mpr ⟨_, warmupLowRead, Option.bind_eq_some_iff.mpr ⟨_, warmupHighRead, ?_⟩⟩
  exact Option.bind_eq_some_iff.mpr ⟨_, alignLowRead, Option.bind_eq_some_iff.mpr ⟨_, alignHighRead, rfl⟩⟩

end Tuning.Space

namespace Tuning.Settings
open Json (Member Reads Value)
variable {settings : Settings} {json : Value}

/-- Settings that can be read. -/
structure Fits (settings : Settings) : Prop where
  source : settings.source.IsNamed
  selectCount : settings.selectCount < UInt64.size
  trials : settings.trials < UInt64.size
  refinements : settings.refinements < UInt64.size
  maxRuns : settings.maxRuns < UInt64.size
  space : settings.space.Fits

theorem standard_fits : standard.Fits where
  source := trivial
  selectCount := by decide
  trials := by decide
  refinements := by decide
  maxRuns := by decide
  space := ⟨by decide, by decide⟩

theorem fits_of_ofJson? (read : ofJson? json = some settings) : settings.Fits := by
  simp only [ofJson?, Option.bind_eq_bind, Option.bind_eq_some_iff, Option.pure_def, Option.some.injEq] at read
  obtain ⟨fields, -, source, sourceRead, selectCount, selectRead, trials, trialsRead, refinements, refinementsRead,
    maxRuns, maxRead, seed, -, space, spaceRead, rfl⟩ := read
  have fits (json : Value) (count : Nat) (read : json.count? = some count) : count < UInt64.size :=
    Json.lt_of_natBelow? read
  exact {
    source := Json.holds_of_optional? Selector.IsNamed standard_fits.source (fun _ _ => Selector.isNamed_of_ofJson?)
      sourceRead
    selectCount := Json.holds_of_optional? (· < UInt64.size) standard_fits.selectCount fits selectRead
    trials := Json.holds_of_optional? (· < UInt64.size) standard_fits.trials fits trialsRead
    refinements := Json.holds_of_optional? (· < UInt64.size) standard_fits.refinements fits refinementsRead
    maxRuns := Json.holds_of_optional? (· < UInt64.size) standard_fits.maxRuns fits maxRead
    space := Json.holds_of_optional? Space.Fits standard_fits.space (fun _ _ => Space.fits_of_ofJson?) spaceRead }

theorem Fits.reads (fits : settings.Fits) (back : ∀ bound ∈ settings.space.bounds, Json.ReadsBack bound) :
    Reads settings.toJson ofJson? settings := by
  obtain ⟨select, selectSpelled, selectRead⟩ := Json.reads_writeNat fits.selectCount fits.selectCount
  obtain ⟨trials, trialsSpelled, trialsRead⟩ := Json.reads_writeNat fits.trials fits.trials
  obtain ⟨refinements, refinementsSpelled, refinementsRead⟩ := Json.reads_writeNat fits.refinements fits.refinements
  obtain ⟨maxRuns, maxSpelled, maxRead⟩ := Json.reads_writeNat fits.maxRuns fits.maxRuns
  obtain ⟨seed, seedSpelled, seedRead⟩ := Json.reads_writeNat_uint64 settings.seed
  obtain ⟨space, spaceSpelled, spaceRead⟩ := fits.space.reads back
  let members : List Member := [
    ⟨"source", _, _, settings.source.spells_toJson⟩, ⟨"select_n", _, _, selectSpelled⟩,
    ⟨"trials", _, _, trialsSpelled⟩, ⟨"local_refine", _, _, refinementsSpelled⟩, ⟨"max_runs", _, _, maxSpelled⟩,
    ⟨"seed", _, _, seedSpelled⟩, ⟨"space", _, _, spaceSpelled⟩]
  refine Json.reads_writeObject members rfl (by decide) (List.cons_ne_nil _ _) ?_
  refine Option.bind_eq_some_iff.mpr ⟨_, Selector.ofJson?_label fits.source, ?_⟩
  refine Option.bind_eq_some_iff.mpr ⟨_, selectRead, Option.bind_eq_some_iff.mpr ⟨_, trialsRead, ?_⟩⟩
  refine Option.bind_eq_some_iff.mpr ⟨_, refinementsRead, Option.bind_eq_some_iff.mpr ⟨_, maxRead, ?_⟩⟩
  exact Option.bind_eq_some_iff.mpr ⟨_, seedRead, Option.bind_eq_some_iff.mpr ⟨_, spaceRead, rfl⟩⟩

end Tuning.Settings

namespace Window
open Json (Member Reads Value)
variable {window : Window} {json : Value}

/-- Counts of ticks that can be read. -/
structure Fits (window : Window) : Prop where
  before : window.before < UInt64.size
  after : window.after < UInt64.size

theorem standard_fits : standard.Fits :=
  ⟨by decide, by decide⟩

theorem fits_of_ofJson? (read : ofJson? json = some window) : window.Fits := by
  simp only [ofJson?, Option.bind_eq_bind, Option.bind_eq_some_iff, Option.pure_def, Option.some.injEq] at read
  obtain ⟨fields, -, before, beforeRead, after, afterRead, rfl⟩ := read
  have fits (json : Value) (count : Nat) (read : json.count? = some count) : count < UInt64.size :=
    Json.lt_of_natBelow? read
  exact ⟨Json.holds_of_optional? (· < UInt64.size) standard_fits.before fits beforeRead,
    Json.holds_of_optional? (· < UInt64.size) standard_fits.after fits afterRead⟩

theorem Fits.reads (fits : window.Fits) : Reads window.toJson ofJson? window := by
  obtain ⟨before, beforeSpelled, beforeRead⟩ := Json.reads_writeNat fits.before fits.before
  obtain ⟨after, afterSpelled, afterRead⟩ := Json.reads_writeNat fits.after fits.after
  let members : List Member := [⟨"pre", _, _, beforeSpelled⟩, ⟨"post", _, _, afterSpelled⟩]
  refine Json.reads_writeObject members rfl (by decide) (List.cons_ne_nil _ _) ?_
  exact Option.bind_eq_some_iff.mpr ⟨_, beforeRead, Option.bind_eq_some_iff.mpr ⟨_, afterRead, rfl⟩⟩

end Window

namespace Config
open Json (Member Reads Value)
variable {config loaded : Config} {json : Value} {text : String} {α : Type} {value : α} {name : String}
  {read? : List Char → Option α}

/-- A configuration that can be read. -/
structure Fits (config : Config) : Prop where
  window : config.window.Fits
  tuning : config.tuning.Fits

theorem fits_of_ofJson? (read : ofJson? json = some config) : config.Fits := by
  simp only [ofJson?, Option.bind_eq_bind, Option.bind_eq_some_iff, Option.pure_def, Option.some.injEq] at read
  obtain ⟨fields, -, window, windowRead, tuning, tuningRead, rfl⟩ := read
  exact ⟨Json.holds_of_optional? Window.Fits Window.standard_fits (fun _ _ => Window.fits_of_ofJson?) windowRead,
    Json.holds_of_optional? Tuning.Settings.Fits Tuning.Settings.standard_fits
      (fun _ _ => Tuning.Settings.fits_of_ofJson?) tuningRead⟩

theorem ofText_eq_ok_iff : ofText text = .ok config ↔ (Json.parse? text.toList).bind ofJson? = some config := by
  rw [ofText]
  cases (Json.parse? text.toList).bind ofJson? <;> simp

theorem fits_of_ofText (read : ofText text = .ok config) : config.Fits := by
  obtain ⟨json, -, read⟩ := Option.bind_eq_some_iff.mp (ofText_eq_ok_iff.mp read)
  exact fits_of_ofJson? read

theorem Fits.reads (fits : config.Fits) (back : ∀ bound ∈ config.tuning.space.bounds, Json.ReadsBack bound) :
    Reads config.toJson ofJson? config := by
  obtain ⟨window, windowSpelled, windowRead⟩ := fits.window.reads
  obtain ⟨tuning, tuningSpelled, tuningRead⟩ := fits.tuning.reads back
  let members : List Member := [⟨"capture", _, _, windowSpelled⟩, ⟨"tune", _, _, tuningSpelled⟩]
  refine Json.reads_writeObject members rfl (by decide) (List.cons_ne_nil _ _) ?_
  exact Option.bind_eq_some_iff.mpr ⟨_, windowRead, Option.bind_eq_some_iff.mpr ⟨_, tuningRead, rfl⟩⟩

theorem Fits.ofText_toJson (fits : config.Fits) (back : ∀ bound ∈ config.tuning.space.bounds, Json.ReadsBack bound) :
    ofText (String.ofList config.toJson) = .ok config := by
  rw [ofText_eq_ok_iff, String.toList_ofList]
  exact (fits.reads back).parse?

/-- What holds of a value and of all that is read holds of what a variable overrides. -/
theorem holds_of_override (property : α → Prop) (holds : property value)
    (reads : ∀ chars result, read? chars = some result → property result) (environment : String → Option String) :
    property ((override? environment name read?).getD value) := by
  cases overridden : override? environment name read? with
  | none => exact holds
  | some result =>
      obtain ⟨text, -, read⟩ := Option.bind_eq_some_iff.mp overridden
      exact reads _ result read

theorem Fits.withEnvironment (fits : config.Fits) (environment : String → Option String) :
    (config.withEnvironment environment).Fits := by
  have counts (chars : List Char) (count : Nat) (read : Decimal.readCount? chars = some count) :
      count < UInt64.size := Decimal.lt_of_readBelow? read
  obtain ⟨⟨before, after⟩, tuning⟩ := fits
  exact {
    window.before := holds_of_override (· < UInt64.size) before counts environment
    window.after := holds_of_override (· < UInt64.size) after counts environment
    tuning := { tuning with
      source := holds_of_override Selector.IsNamed tuning.source (fun _ _ => Selector.isNamed_of_ofTrimmed?) environment
      trials := holds_of_override (· < UInt64.size) tuning.trials counts environment
      refinements := holds_of_override (· < UInt64.size) tuning.refinements counts environment } }

/-- The same variables override nothing more. -/
theorem withEnvironment_withEnvironment (config : Config) (environment : String → Option String) :
    (config.withEnvironment environment).withEnvironment environment = config.withEnvironment environment := by
  have again {α : Type} (overridden : Option α) (value : α) :
      overridden.getD (overridden.getD value) = overridden.getD value := by
    cases overridden <;> rfl
  simp only [withEnvironment, again]

/-- What is read as a selector has a label that is read back, alone and as JSON, and that no other selector has; what is
not is told trimmed. A configuration that is read, from JSON and then out of the environment, is changed no more by the
same environment, and is read back as JSON if the numbers in it are. -/
theorem texts_canonical :
    (∀ text selector, Selector.parse text = .ok selector →
      Selector.parse selector.label = .ok selector ∧
      (Json.parse? selector.toJson).bind Value.string? = some selector.label.toList ∧
      (Json.parse? selector.toJson).bind Selector.ofJson? = some selector ∧
      ∀ mask, selector = .tag mask → mask.isEmpty = false ∧ mask.restricted = mask) ∧
    (∀ first second selector other, Selector.parse first = .ok selector → Selector.parse second = .ok other →
      (selector = other ↔ selector.label = other.label)) ∧
    (∀ text failure, Selector.parse text = .error failure →
      failure = .unknownSelector (.ofList (Text.trim text.toList))) ∧
    ∀ text loaded environment, ofText text = .ok loaded →
      let config := loaded.withEnvironment environment
      config.withEnvironment environment = config ∧
      ((∀ bound ∈ config.tuning.space.bounds, bound.isFinite = true) →
        (∀ bound ∈ config.tuning.space.bounds, bound.isFinite = true → Json.ReadsBack bound) →
        ofText (String.ofList config.toJson) = .ok config) := by
  refine ⟨fun text selector read => ?_, fun first second selector other readFirst readSecond => ?_,
    fun text failure => Selector.eq_of_parse_eq_error, fun text loaded environment read => ?_⟩
  · have named := Selector.isNamed_of_parse read
    refine ⟨Selector.parse_label named, ?_, ?_, ?_⟩
    · rw [selector.spells_toJson.parse?]
      exact Json.text?_map_piece _
    · rw [selector.spells_toJson.parse?]
      exact Selector.ofJson?_label named
    · rintro mask rfl
      exact named
  · refine ⟨congrArg Selector.label, fun same => ?_⟩
    have readOther := Selector.parse_label (Selector.isNamed_of_parse readSecond)
    rw [← same, Selector.parse_label (Selector.isNamed_of_parse readFirst)] at readOther
    exact Except.ok.inj readOther
  · intro config
    refine ⟨loaded.withEnvironment_withEnvironment environment, fun finite back => ?_⟩
    have fits : config.Fits := (fits_of_ofText read).withEnvironment environment
    exact fits.ofText_toJson fun bound member => back bound member (finite bound member)

/-- An environment that overrides a count and the source, and nothing by what does not read. -/
def busyEnvironment : String → Option String
  | "LIMINAL_ERB_POST" => some "many"
  | "LIMINAL_TUNE_TRIALS" => some " +25"
  | "LIMINAL_TUNE_SOURCE" => some "tag: lowharm;Spike,bogus "
  | _ => none

def wideText : String :=
  "\x7b\"capture\":[8],\"tune\":\x7b\"source\":\"idx: 07\",\"space\":\x7b\"align_max\":1.5\x7d\x7d\x7d"

/-- The configuration of the text. -/
def wideConfig : Config where
  window := { Window.standard with before := 8 }
  tuning := { Tuning.Settings.standard with source := .id 7, space := { Tuning.Space.standard with alignHigh := 1.5 } }

theorem texts_canonical_wideConfig :
    Selector.parse " tag:lowharm,Spike" = .ok (.tag ⟨5⟩) ∧
    Selector.parse (Selector.tag ⟨5⟩).label = .ok (.tag ⟨5⟩) ∧
    Selector.parse "LATEST" = .ok .latest ∧
    (Selector.tag ⟨5⟩ = .latest ↔ (Selector.tag ⟨5⟩).label = Selector.latest.label) ∧
    (Selector.parse " idx:-1 " = .error (.unknownSelector "idx:-1") ∧
      Failure.unknownSelector "idx:-1" = .unknownSelector (.ofList (Text.trim " idx:-1 ".toList))) ∧
    ofText wideText = .ok wideConfig ∧
      let config := wideConfig.withEnvironment busyEnvironment
      config.tuning.trials = 25 ∧ config.tuning.source = .tag ⟨5⟩ ∧
        (∀ bound ∈ config.tuning.space.bounds, bound.isFinite = true ∧ Json.ReadsBack bound) ∧
        config.withEnvironment busyEnvironment = config ∧ ofText (String.ofList config.toJson) = .ok config := by
  obtain ⟨accepted, distinct, refused, loads⟩ := texts_canonical
  have tagged : Selector.parse " tag:lowharm,Spike" = .ok (.tag ⟨5⟩) := by decide +kernel
  have latest : Selector.parse "LATEST" = .ok .latest := by decide +kernel
  have read : ofText wideText = .ok wideConfig := by decide +kernel
  have bounds : ∀ bound ∈ (wideConfig.withEnvironment busyEnvironment).tuning.space.bounds,
      bound.isFinite = true ∧ Json.ReadsBack bound := by
    decide +kernel
  obtain ⟨again, back⟩ := loads wideText wideConfig busyEnvironment read
  have failed : Selector.parse " idx:-1 " = .error (.unknownSelector "idx:-1") := by decide +kernel
  exact ⟨tagged, (accepted _ _ tagged).1, latest, distinct _ _ _ _ tagged latest, ⟨failed, refused _ _ failed⟩, read,
    by decide +kernel, by decide +kernel, bounds, again,
    back (fun bound member => (bounds bound member).1) fun bound member _ => (bounds bound member).2⟩

end Config

end EpisodicReplay
