import EpisodicReplay.Command
import EpisodicReplay.Proofs.Filter
import EpisodicReplay.Proofs.Log
import EpisodicReplay.Proofs.Json.Fields
import EpisodicReplay.Proofs.Tuning.Transcript

/-! What a search finds can be put into a filter, and into a file and back. -/

namespace EpisodicReplay.Json

/-- What the text of a number is read as, through binary64. -/
def narrowed? (number : Float32) : Option Float32 :=
  match parse? (writeFloat32 number) with
  | some (.number spelling) => spelling.value?.map fun wide => Binary32.narrow wide.toFloat
  | _ => none

theorem spells_of_narrowed? {number : Float32} (back : narrowed? number = some number) :
    ∃ spelling wide, Spells (writeFloat32 number) (.number spelling) ∧ spelling.value? = some wide ∧
      Binary32.narrow wide.toFloat = number := by
  obtain ⟨value, spelled⟩ := spells_writeFloat32 number
  rw [narrowed?, spelled.parse?] at back
  cases value with
  | number spelling =>
      obtain ⟨wide, valued, narrow⟩ := Option.map_eq_some_iff.mp back
      exact ⟨spelling, wide, spelled, valued, narrow⟩
  | null | boolean | string | array | object => cases back

end EpisodicReplay.Json

namespace EpisodicReplay.Tuning.Profile
open Json (Member Spells)

/-- The last member of a written object with a name. -/
theorem member?_object (members : List Member) (name : String) :
    member? (.object (members.map Member.read)) name =
      (members.reverse.find? (·.name = name)).map Member.value := by
  have named (member : Member) : (Json.text? member.read.1 = some name.toList) = (member.name = name) := by
    rw [Member.read, Json.text?_map_piece, Option.some_inj, String.toList_inj]
  rw [member?, ← List.map_reverse, List.find?_map, Option.map_map]
  simp only [Function.comp_def, named]
  rfl

/-- A member that holds a number. -/
structure Numeral where
  name : String
  text : List Char
  spelling : Json.Number
  wide : Json.NumberValue
  spelled : Spells text (.number spelling)
  valued : spelling.value? = some wide

def Numeral.member (numeral : Numeral) : Member :=
  ⟨numeral.name, numeral.text, .number numeral.spelling, numeral.spelled⟩

/-- The number that the last of some members with a name holds. -/
def lookup? (numerals : List Numeral) (name : String) : Option Json.NumberValue :=
  (numerals.reverse.find? (·.name = name)).map Numeral.wide

theorem number?_object (numerals : List Numeral) (name : String) :
    number? (.object ((numerals.map Numeral.member).map Member.read)) name = lookup? numerals name := by
  rw [number?, member?_object, ← List.map_reverse, List.find?_map, Option.map_map]
  change (match (numerals.reverse.find? (·.name = name)).map fun numeral => Json.Value.number numeral.spelling with
    | some (.number spelling) => spelling.value?
    | _ => none) = _
  rw [lookup?]
  cases numerals.reverse.find? (·.name = name) with
  | none => rfl
  | some numeral => exact numeral.valued

theorem isDecodable_object (numerals : List Numeral) (depth : Nat) :
    Json.Value.isDecodable (depth + 1) (.object ((numerals.map Numeral.member).map Member.read)) = true := by
  rw [Json.Value.isDecodable, List.map_map, List.all_map, List.all_eq_true]
  intro numeral _
  have named : Json.text? (numeral.name.toList.map Json.piece) = some numeral.name.toList := Json.text?_map_piece _
  simp [Member.read, Numeral.member, named, Json.Value.isDecodable, numeral.valued]

theorem ofText_writeObject {numerals : List Numeral} {alpha warmup allowAlign : Json.NumberValue} (path : String)
    (alphaFound : lookup? numerals "trs_alpha" = some alpha) (warmupFound : lookup? numerals "trs_warmup" = some warmup)
    (alignFound : lookup? numerals "allow_align" = some allowAlign) :
    ofText path (String.ofList (Json.writeObject ((numerals.map Numeral.member).map Member.written) ++ ['\n'])) =
      .ok ⟨Binary32.narrow alpha.toFloat, warmupOf warmup, Binary32.narrow allowAlign.toFloat,
        (lookup? numerals "loss").map fun loss => Binary32.narrow loss.toFloat⟩ := by
  have nonempty : numerals.map Numeral.member ≠ [] := by
    rintro empty
    rw [List.map_eq_nil_iff.mp empty] at alphaFound
    cases alphaFound
  rw [ofText, String.toList_ofList, (Json.spells_writeObject nonempty).parse?_line, Option.filter_some,
    if_pos (show Json.Value.isDecodable maxDepth _ = true from isDecodable_object numerals 126)]
  simp only [Option.elim_some, pure_bind, number?_object, alphaFound, warmupFound, alignFound]
  rfl

/-- A profile with a short warmup is read back if its numbers are. -/
theorem ofText_toJson {profile : Profile} (path : String) (alphaBack : Json.narrowed? profile.alpha = some profile.alpha)
    (alignBack : Json.narrowed? profile.allowAlign = some profile.allowAlign)
    (lossBack : ∀ loss ∈ profile.loss, Json.narrowed? loss = some loss)
    (short : profile.warmup ≤ ExponentialFilter.maxWarmup) :
    ofText path (String.ofList (profile.toJson ++ ['\n'])) = .ok profile := by
  obtain ⟨alphaSpelling, alphaWide, alphaSpelled, alphaValue, alphaNarrow⟩ := Json.spells_of_narrowed? alphaBack
  obtain ⟨alignSpelling, alignWide, alignSpelled, alignValue, alignNarrow⟩ := Json.spells_of_narrowed? alignBack
  have small : profile.warmup < UInt64.size := short.trans_lt (by decide)
  have warmupKept : warmupOf (.natural (.ofNat profile.warmup)) = profile.warmup := by
    rw [warmupOf, UInt64.toNat_ofNat_of_lt' small, Nat.min_eq_left short]
  let front : List Numeral := [⟨"trs_alpha", _, _, _, alphaSpelled, alphaValue⟩,
    ⟨"trs_warmup", _, _, _, Json.spells_writeNat profile.warmup, Json.value?_digits small⟩,
    ⟨"allow_align", _, _, _, alignSpelled, alignValue⟩]
  -- A loss behind the other numbers does not hide them.
  have read (rest : List Numeral) (others : ∀ numeral ∈ rest, numeral.name = "loss") :
      ofText path (String.ofList (Json.writeObject (((front ++ rest).map Numeral.member).map Member.written) ++ ['\n'])) =
        .ok ⟨profile.alpha, profile.warmup, profile.allowAlign,
          (lookup? (front ++ rest) "loss").map fun loss => Binary32.narrow loss.toFloat⟩ := by
    have absent (name : String) (other : "loss" ≠ name) : rest.reverse.find? (·.name = name) = none := by
      rw [List.find?_eq_none]
      intro numeral member
      rw [others numeral (List.mem_reverse.mp member), decide_eq_true_iff]
      exact other
    have alphaFound : lookup? (front ++ rest) "trs_alpha" = some alphaWide := by
      simp [lookup?, front, List.find?_append, absent]
    have warmupFound : lookup? (front ++ rest) "trs_warmup" = some (.natural (.ofNat profile.warmup)) := by
      simp [lookup?, front, List.find?_append, absent]
    have alignFound : lookup? (front ++ rest) "allow_align" = some alignWide := by
      simp [lookup?, front, List.find?_append, absent]
    rw [ofText_writeObject path alphaFound warmupFound alignFound, alphaNarrow, warmupKept, alignNarrow]
  obtain ⟨alpha, warmup, allowAlign, loss⟩ := profile
  cases loss with
  | none => exact read [] fun numeral member => absurd member List.not_mem_nil
  | some loss =>
      obtain ⟨lossSpelling, lossWide, lossSpelled, lossValue, lossNarrow⟩ :=
        Json.spells_of_narrowed? (lossBack loss rfl)
      have whole := read [⟨"loss", _, _, _, lossSpelled, lossValue⟩] fun numeral member => by
        rw [List.mem_singleton.mp member]
      have lossFound : lookup? (front ++ [⟨"loss", _, _, _, lossSpelled, lossValue⟩]) "loss" = some lossWide := rfl
      rw [lossFound, Option.map_some, lossNarrow] at whole
      exact whole

end EpisodicReplay.Tuning.Profile

namespace EpisodicReplay.Tuning
open Binary32

/-- What a filter takes as it is. -/
structure Parameters.Applicable (parameters : Parameters) : Prop where
  alpha : InUnit parameters.alpha
  allowAlign : InUnit parameters.allowAlign
  short : parameters.warmup ≤ ExponentialFilter.maxWarmup

theorem Parameters.standard_applicable : Parameters.standard.Applicable where
  alpha := inUnit_of_le rfl (by decide) (by decide)
  allowAlign := inUnit_of_le rfl (by decide) (by decide)
  short := by decide

theorem Space.Normal.applicable {space : Space} {parameters : Parameters} (normal : space.Normal)
    (inside : space.Inside parameters) : parameters.Applicable where
  alpha := normal.alpha.inUnit_of_between inside.alpha
  allowAlign := normal.align.inUnit_of_between inside.align
  short := inside.warmupHigh.trans normal.short

namespace Parameters.Applicable
variable {parameters : Parameters} (applicable : parameters.Applicable)
include applicable

theorem run_reconfigure (filter : ExponentialFilter) :
    (ExponentialFilter.reconfigure parameters.alpha parameters.warmup).run.run filter =
      (.ok (), { filter with alpha := parameters.alpha, warmup := parameters.warmup }) :=
  filter.run_reconfigure_of_inUnit applicable.alpha applicable.short

end Parameters.Applicable

/-- What a filter refuses does not reach the tuner. -/
theorem Tuner.run_apply {φ : Type} [SmoothingFilter φ] (outcome : Outcome) (filter : φ) (tuner : Tuner) :
    (Tuner.apply outcome).run.run (filter, tuner) =
      match (SmoothingFilter.reconfigure outcome.parameters.alpha outcome.parameters.warmup).run.run filter with
      | (.ok (), next) => (.ok (), next, { tuner with allowAlign := clampUnit outcome.parameters.allowAlign })
      | (.error failure, next) => (.error failure, next, tuner) := by
  rw [Tuner.apply, run_bind, run_on]
  rcases (SmoothingFilter.reconfigure outcome.parameters.alpha outcome.parameters.warmup).run.run filter with
    ⟨_ | _, next⟩ <;> rfl

section
variable (φ : Type) [SmoothingFilter φ] (episodes : List Episode) (space : Space) (trials refinements : Nat)
  (seed : UInt64)

/-- The best of a search can be applied, whether it was evaluated or not. -/
theorem search_applicable : (search φ episodes space trials refinements seed).1.parameters.Applicable := by
  rw [search_eq_transcript]
  dsimp only
  rcases (transcript_sound φ episodes space trials refinements seed).best_scored with unevaluated | scored
  · rw [unevaluated]
    exact Parameters.standard_applicable
  · exact space.normalized_normal.applicable (transcript_inside φ episodes space trials refinements seed _ scored)

/-- A search ends in an outcome that every filter takes as it is. If the text of its numbers is read back through
binary64, then its profile can be saved wherever a file may be written, and is loaded from there unchanged. -/
theorem Tuner.search_reusable (tuner : Tuner) :
    let best := (tuner.search φ episodes space trials refinements seed).1
    let parameters := best.parameters
    (∀ (holder : Tuner) (filter : ExponentialFilter), (Tuner.apply best).run.run (filter, holder) =
      (.ok (), { filter with alpha := parameters.alpha, warmup := parameters.warmup },
        { holder with allowAlign := parameters.allowAlign })) ∧
    (∀ (holder : Tuner) (consent influence : Float32),
      Tuner.isMisaligned { holder with allowAlign := parameters.allowAlign } consent influence =
        Tuning.isMisaligned parameters.allowAlign consent influence) ∧
    (Profile.ofOutcome best).parameters = parameters ∧
    ((∀ number ∈ [parameters.alpha, parameters.allowAlign, best.loss], number.isFinite →
      Json.narrowed? number = some number) →
      ∀ (files : Files) (path : String) (place : Location), files.locateFile path = .ok place →
        ∃ later, ((Profile.ofOutcome best).save path).run.run files = (.ok (), later) ∧
          Profile.load later path = .ok (Profile.ofOutcome best) ∧
          ∀ paths : DataPaths, paths.profile = path → Command.liveFilter later paths =
            { ExponentialFilter.standard with alpha := parameters.alpha, warmup := parameters.warmup }) := by
  intro best parameters
  have applicable : parameters.Applicable := search_applicable φ episodes space trials refinements seed
  refine ⟨fun holder filter => ?_, fun _ _ _ => rfl, rfl, fun back files path place located => ?_⟩
  · have taken : (SmoothingFilter.reconfigure parameters.alpha parameters.warmup).run.run filter = _ :=
      applicable.run_reconfigure filter
    rw [Tuner.run_apply, taken]
    dsimp only
    rw [applicable.allowAlign.clampUnit_eq]
  · obtain ⟨fileAt, noDirectory⟩ := Files.fileAt_of_locateFile located
    have lossBack : ∀ loss ∈ (Profile.ofOutcome best).loss, Json.narrowed? loss = some loss := by
      intro loss kept
      cases evaluated : best.isEvaluated with
      | true =>
          rw [Profile.ofOutcome, evaluated] at kept
          cases kept
          exact back best.loss (by simp) evaluated
      | false =>
          rw [Profile.ofOutcome, evaluated] at kept
          cases kept
    let text := String.ofList ((Profile.ofOutcome best).toJson ++ ['\n'])
    have loaded : Profile.load (files.put place (.file text.toUTF8)) path = .ok (Profile.ofOutcome best) := by
      rw [Profile.load, fileAt.readText_put noDirectory]
      exact Profile.ofText_toJson path (back parameters.alpha (by simp) applicable.alpha.finite)
        (back parameters.allowAlign (by simp) applicable.allowAlign.finite) lossBack applicable.short
    refine ⟨_, FileAction.run_write fileAt noDirectory, loaded, fun paths same => ?_⟩
    rw [Command.liveFilter, same, loaded]
    exact congrArg Prod.snd (applicable.run_reconfigure .standard)

end

/-- An episode of one tick. -/
def singleTick : Episode :=
  ⟨#[{ Tick.zero with influence := 0.5, consent := 0.9 }], .spike⟩

theorem Tuner.search_reusable_singleTick :
    ∃ best later, (Tuner.standard.search ExponentialFilter [singleTick] .standard 2 1 42).1 = best ∧
      best.isEvaluated ∧
      (∀ number ∈ [best.parameters.alpha, best.parameters.allowAlign, best.loss], number.isFinite →
        Json.narrowed? number = some number) ∧
      Files.empty.locateFile "tune_profile.json" = .ok ["tune_profile.json"] ∧
      ((Profile.ofOutcome best).save "tune_profile.json").run.run .empty = (.ok (), later) ∧
      Profile.load later "tune_profile.json" = .ok (Profile.ofOutcome best) ∧
      Command.liveFilter later ⟨""⟩ =
        { ExponentialFilter.standard with alpha := best.parameters.alpha, warmup := best.parameters.warmup } := by
  have evaluated : (Tuner.standard.search ExponentialFilter [singleTick] .standard 2 1 42).1.isEvaluated := by
    decide +kernel
  have back : ∀ number ∈ [(Tuner.standard.search ExponentialFilter [singleTick] .standard 2 1 42).1.parameters.alpha,
      (Tuner.standard.search ExponentialFilter [singleTick] .standard 2 1 42).1.parameters.allowAlign,
      (Tuner.standard.search ExponentialFilter [singleTick] .standard 2 1 42).1.loss], number.isFinite →
      Json.narrowed? number = some number := by
    decide +kernel
  have located : Files.empty.locateFile "tune_profile.json" = .ok ["tune_profile.json"] := by decide +kernel
  have reusable := search_reusable ExponentialFilter [singleTick] .standard 2 1 42 Tuner.standard
  generalize (Tuner.standard.search ExponentialFilter [singleTick] .standard 2 1 42).1 = best at evaluated back reusable
  obtain ⟨later, saved, loaded, live⟩ := reusable.2.2.2 back .empty "tune_profile.json" ["tune_profile.json"] located
  exact ⟨best, later, rfl, evaluated, back, located, saved, loaded, live ⟨""⟩ (by decide +kernel)⟩

end EpisodicReplay.Tuning
