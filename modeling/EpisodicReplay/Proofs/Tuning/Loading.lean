import EpisodicReplay.Command
import EpisodicReplay.Proofs.Filter
import EpisodicReplay.Proofs.Json.Finite
import EpisodicReplay.Proofs.Rounding.Away

/-! What is loaded from a file of tuned parameters, and the filter that comes of it, whatever the file holds. -/

namespace EpisodicReplay

namespace Json

/-- The rational that a number stands for. -/
def NumberValue.Denotes (number : NumberValue) (exact : ℚ) : Prop :=
  match number with
  | .natural value => exact = value.toNat
  | .negative magnitude => exact = -magnitude
  | .real value => value.isFinite = true ∧ exact = Rounding.value value.toModel.unpack

theorem Number.exists_denotes {spelling : Number} {number : NumberValue} (taken : spelling.value? = some number) :
    ∃ exact, number.Denotes exact := by
  cases number with
  | natural value => exact ⟨value.toNat, rfl⟩
  | negative magnitude => exact ⟨-magnitude, rfl⟩
  | real value => exact ⟨Rounding.value value.toModel.unpack, isFinite_of_value? taken, rfl⟩

/-- An object has a member that is this number. Of several members with the name the last one counts. -/
def Value.HasNumber (json : Value) (name : String) (number : NumberValue) : Prop :=
  ∃ before key spelling after, json = .object (before ++ (key, .number spelling) :: after) ∧
    text? key = some name.toList ∧ (∀ member ∈ after, text? member.1 ≠ some name.toList) ∧
    spelling.value? = some number

end Json

namespace Tuning.Profile
open Binary32 (InUnit narrow)
open Json (NumberValue Value)
open Rounding (nearestAway)
variable {files : Files} {path text field name : String} {json : Value} {number alpha warmup allowAlign : NumberValue}
  {profile : Profile} {exact : ℚ}

theorem member?_eq_some_iff {value : Value} : member? json name = some value ↔
    ∃ before key after, json = .object (before ++ (key, value) :: after) ∧ Json.text? key = some name.toList ∧
      ∀ member ∈ after, Json.text? member.1 ≠ some name.toList := by
  cases json with
  | object members =>
      simp only [member?, Option.map_eq_some_iff, List.find?_eq_some_iff_append, decide_eq_true_eq, Bool.not_eq_true',
        decide_eq_false_iff_not]
      constructor
      · rintro ⟨⟨key, _⟩, ⟨named, after, before, split, others⟩, rfl⟩
        refine ⟨before.reverse, key, after.reverse, ?_, named, fun member late => ?_⟩
        · rw [List.reverse_eq_iff.mp split]
          simp
        · exact others member (List.mem_reverse.mp late)
      · rintro ⟨before, key, after, equal, named, others⟩
        cases equal
        refine ⟨(key, value), ⟨named, after.reverse, before.reverse, ?_, fun member late => ?_⟩, rfl⟩
        · simp
        · exact others member (List.mem_reverse.mp late)
  | null | boolean | number | string | array => simp [member?]

theorem number?_eq_some_iff : number? json name = some number ↔ json.HasNumber name number := by
  constructor
  · intro found
    unfold number? at found
    split at found
    case h_1 spelling member =>
      obtain ⟨before, key, after, split, named, others⟩ := member?_eq_some_iff.mp member
      exact ⟨before, key, spelling, after, split, named, others, found⟩
    case h_2 => cases found
  · rintro ⟨before, key, spelling, after, split, named, others, valued⟩
    rw [number?, member?_eq_some_iff.mpr ⟨before, key, after, split, named, others⟩]
    exact valued

/-- A warmup is the exact number, rounded with halves away from zero and then clamped. -/
theorem warmupOf_eq (denotes : number.Denotes exact) :
    (warmupOf number : ℤ) = max 0 (min (nearestAway exact) ExponentialFilter.maxWarmup) := by
  cases number with
  | natural value =>
      have whole : nearestAway value.toNat = value.toNat := mod_cast Rounding.nearestAway_intCast value.toNat
      rw [denotes, whole, warmupOf]
      omega
  | negative magnitude =>
      have whole : nearestAway (-magnitude) = -magnitude := mod_cast Rounding.nearestAway_intCast (-magnitude)
      rw [denotes, whole, warmupOf]
      omega
  | real value =>
      rw [denotes.2, ← Rounding.nearestInteger_eq_nearestAway, warmupOf]
      omega

/-- The members without which there is no profile, in the order in which they are asked for. -/
def required : List String := ["trs_alpha", "trs_warmup", "allow_align"]

theorem mem_required_iff : field ∈ required ↔ field = "trs_alpha" ∨ field = "trs_warmup" ∨ field = "allow_align" := by
  simp [required]

/-- A file is text that spells this value. Nothing in it is nested too deeply, cannot be decoded or is out of
range. -/
def Holds (files : Files) (path : String) (json : Value) : Prop :=
  ∃ text, files.readText path = .ok text ∧ Json.parse? text.toList = some json ∧ json.isDecodable maxDepth = true

/-- The first of the required members that is no number. -/
def FirstLacking (json : Value) (field : String) : Prop :=
  ∃ before after, required = before ++ field :: after ∧ (∀ other ∈ before, ∃ number, json.HasNumber other number) ∧
    ∀ number, ¬json.HasNumber field number

/-- A profile has the numbers of a value. -/
structure TakenFrom (json : Value) (profile : Profile) : Prop where
  alpha : ∃ number, json.HasNumber "trs_alpha" number ∧ profile.alpha = narrow number.toFloat
  warmup : ∃ number exact, json.HasNumber "trs_warmup" number ∧ number.Denotes exact ∧
    (profile.warmup : ℤ) = max 0 (min (nearestAway exact) ExponentialFilter.maxWarmup)
  allowAlign : ∃ number, json.HasNumber "allow_align" number ∧ profile.allowAlign = narrow number.toFloat
  loss : ∀ number, json.HasNumber "loss" number → profile.loss = some (narrow number.toFloat)
  noLoss : (∀ number, ¬json.HasNumber "loss" number) → profile.loss = none

theorem number?_eq_none_iff : number? json name = none ↔ ∀ number, ¬json.HasNumber name number := by
  simp only [Option.eq_none_iff_forall_ne_some, ne_eq, number?_eq_some_iff]

theorem find?_required_iff : required.find? (fun name => (number? json name).isNone) = some field ↔
    FirstLacking json field := by
  have present (other : String) : (!(number? json other).isNone) = true ↔ ∃ number, json.HasNumber other number := by
    simp only [Option.not_isNone, Option.isSome_iff_exists, number?_eq_some_iff]
  rw [List.find?_eq_some_iff_append, Option.isNone_iff_eq_none, number?_eq_none_iff]
  simp only [present]
  constructor
  · rintro ⟨lacking, before, after, split, others⟩
    exact ⟨before, after, split, others, lacking⟩
  · rintro ⟨before, after, split, others, lacking⟩
    exact ⟨lacking, before, after, split, others⟩

namespace Holds
variable (holds : Holds files path json)
include holds

theorem load_eq (alphaFound : number? json "trs_alpha" = some alpha)
    (warmupFound : number? json "trs_warmup" = some warmup)
    (alignFound : number? json "allow_align" = some allowAlign) :
    load files path = .ok ⟨narrow alpha.toFloat, warmupOf warmup, narrow allowAlign.toFloat,
      (number? json "loss").map fun loss => narrow loss.toFloat⟩ := by
  obtain ⟨text, read, parsed, decodable⟩ := holds
  rw [load, read]
  dsimp only
  rw [ofText, parsed, Option.filter_some, if_pos decodable]
  simp only [Option.elim_some, pure_bind, alphaFound, warmupFound, alignFound]
  rfl

theorem load_eq_missing (lacking : required.find? (fun name => (number? json name).isNone) = some field) :
    load files path = .error (.missingField path field) := by
  obtain ⟨text, read, parsed, decodable⟩ := holds
  rw [load, read]
  dsimp only
  rw [ofText, parsed, Option.filter_some, if_pos decodable]
  simp only [Option.elim_some, pure_bind]
  cases alphaFound : number? json "trs_alpha" with
  | none =>
      have first : required.find? (fun name => (number? json name).isNone) = some "trs_alpha" := by
        simp [required, alphaFound]
      rw [Option.some_inj.mp (lacking.symm.trans first)]
      rfl
  | some alpha =>
      cases warmupFound : number? json "trs_warmup" with
      | none =>
          have first : required.find? (fun name => (number? json name).isNone) = some "trs_warmup" := by
            simp [required, alphaFound, warmupFound]
          rw [Option.some_inj.mp (lacking.symm.trans first)]
          rfl
      | some warmup =>
          have last := List.find?_some lacking
          rcases mem_required_iff.mp (List.mem_of_find?_eq_some lacking) with rfl | rfl | rfl
          · simp [alphaFound] at last
          · simp [warmupFound] at last
          · rw [Option.isNone_iff_eq_none.mp last]
            rfl

/-- A value has everything that a profile needs, or lacks one thing first. -/
theorem load_cases : (∃ profile, load files path = .ok profile ∧ TakenFrom json profile) ∨
    ∃ field, FirstLacking json field ∧ load files path = .error (.missingField path field) := by
  cases lacking : required.find? (fun name => (number? json name).isNone) with
  | some field => exact .inr ⟨field, find?_required_iff.mp lacking, holds.load_eq_missing lacking⟩
  | none =>
      have present (name : String) (member : name ∈ required) : ∃ number, number? json name = some number := by
        have found := List.find?_eq_none.mp lacking name member
        rwa [Option.isNone_iff_eq_none, ← ne_eq, Option.ne_none_iff_exists'] at found
      obtain ⟨alpha, alphaFound⟩ := present "trs_alpha" (by decide)
      obtain ⟨warmup, warmupFound⟩ := present "trs_warmup" (by decide)
      obtain ⟨allowAlign, alignFound⟩ := present "allow_align" (by decide)
      have warmupMember := number?_eq_some_iff.mp warmupFound
      obtain ⟨exact, denotes⟩ : ∃ exact, warmup.Denotes exact := by
        obtain ⟨_, _, _, _, _, _, _, valued⟩ := warmupMember
        exact Json.Number.exists_denotes valued
      refine .inl ⟨_, holds.load_eq alphaFound warmupFound alignFound, ?_, ?_, ?_, ?_, ?_⟩
      · exact ⟨alpha, number?_eq_some_iff.mp alphaFound, rfl⟩
      · exact ⟨warmup, exact, warmupMember, denotes, warmupOf_eq denotes⟩
      · exact ⟨allowAlign, number?_eq_some_iff.mp alignFound, rfl⟩
      · intro loss member
        dsimp only
        rw [number?_eq_some_iff.mpr member, Option.map_some]
      · intro absent
        dsimp only
        rw [number?_eq_none_iff.mpr absent, Option.map_none]

end Holds

/-- A file that holds no value is refused before any member is asked for. -/
theorem exists_holds (readable : ∀ fault, load files path ≠ .error (.file path fault))
    (spelled : load files path ≠ .error .json) : ∃ json, Holds files path json := by
  unfold load at readable spelled
  cases read : files.readText path with
  | error fault => exact absurd (by rw [read]) (readable fault)
  | ok text =>
      rw [read] at spelled
      dsimp only at spelled
      cases found : (Json.parse? text.toList).filter (Value.isDecodable maxDepth) with
      | none => exact absurd (by rw [ofText, found]; rfl) spelled
      | some json => exact ⟨json, text, read, Option.filter_eq_some_iff.mp found⟩

theorem FirstLacking.unique {other : String} (first : FirstLacking json field) (second : FirstLacking json other) :
    field = other :=
  Option.some_inj.mp ((find?_required_iff.mpr first).symm.trans (find?_required_iff.mpr second))

theorem TakenFrom.exists_number (taken : TakenFrom json profile) (member : field ∈ required) :
    ∃ number, json.HasNumber field number := by
  rcases mem_required_iff.mp member with rfl | rfl | rfl
  · exact taken.alpha.imp fun _ found => found.1
  · obtain ⟨number, _, found, -⟩ := taken.warmup
    exact ⟨number, found⟩
  · exact taken.allowAlign.imp fun _ found => found.1

theorem TakenFrom.not_firstLacking (taken : TakenFrom json profile) : ¬FirstLacking json field := by
  rintro ⟨before, after, split, -, lacking⟩
  obtain ⟨number, found⟩ := @TakenFrom.exists_number field json profile taken (by simp [split])
  exact lacking number found

/-- A loaded profile is what some value in the file says, as far as there are numbers for it. -/
theorem takenFrom_of_load (loaded : load files path = .ok profile) :
    ∃ json, Holds files path json ∧ TakenFrom json profile := by
  obtain ⟨json, holds⟩ := @exists_holds files path (by simp [loaded]) (by simp [loaded])
  rcases holds.load_cases with ⟨other, found, taken⟩ | ⟨field, -, missing⟩
  · obtain rfl := Except.ok.inj (loaded.symm.trans found)
    exact ⟨json, holds, taken⟩
  · cases loaded.symm.trans missing

example : (ofText "p.json" "\x7b\"trs_alpha\":0.4,\"trs_warmup\":2.5,\"allow_align\":1e9\x7d").toOption =
    some ⟨0.4, 3, 1000000000, none⟩ := by
  decide +kernel

theorem load_eq_ok_iff : (∃ profile, load files path = .ok profile) ↔
    ∃ json, Holds files path json ∧ ∀ field ∈ required, ∃ number, json.HasNumber field number := by
  constructor
  · rintro ⟨profile, loaded⟩
    obtain ⟨json, holds, taken⟩ := takenFrom_of_load loaded
    exact ⟨json, holds, fun _ => taken.exists_number⟩
  · rintro ⟨json, holds, complete⟩
    rcases holds.load_cases with ⟨profile, loaded, -⟩ | ⟨field, ⟨before, after, split, -, lacking⟩, -⟩
    · exact ⟨profile, loaded⟩
    · obtain ⟨number, found⟩ := complete field (by simp [split])
      exact absurd found (lacking number)

theorem load_eq_missing_iff : load files path = .error (.missingField path field) ↔
    ∃ json, Holds files path json ∧ FirstLacking json field := by
  constructor
  · intro refused
    obtain ⟨json, holds⟩ := @exists_holds files path (by simp [refused]) (by simp [refused])
    rcases holds.load_cases with ⟨profile, loaded, -⟩ | ⟨other, lacking, missing⟩
    · cases refused.symm.trans loaded
    · cases refused.symm.trans missing
      exact ⟨json, holds, lacking⟩
  · rintro ⟨json, holds, lacking⟩
    rcases holds.load_cases with ⟨profile, -, taken⟩ | ⟨other, otherLacking, missing⟩
    · exact absurd lacking taken.not_firstLacking
    · rw [lacking.unique otherLacking, missing]

theorem TakenFrom.warmup_le (taken : TakenFrom json profile) : profile.warmup ≤ ExponentialFilter.maxWarmup := by
  obtain ⟨_, _, -, -, clamped⟩ := taken.warmup
  omega

end Tuning.Profile

namespace Command
open Binary32 (InUnit)
open Tuning.Profile (FirstLacking Holds TakenFrom load required)
variable {files : Files} {paths : DataPaths} {profile : Tuning.Profile}

theorem liveFilter_of_inUnit (loaded : load files paths.profile = .ok profile) (unit : InUnit profile.alpha) :
    profile.warmup ≤ ExponentialFilter.maxWarmup ∧
      liveFilter files paths = { ExponentialFilter.standard with alpha := profile.alpha, warmup := profile.warmup } := by
  obtain ⟨json, -, taken⟩ := Tuning.Profile.takenFrom_of_load loaded
  refine ⟨taken.warmup_le, ?_⟩
  rw [liveFilter, loaded]
  dsimp only
  rw [ExponentialFilter.standard.run_reconfigure_of_inUnit unit taken.warmup_le]

/-- A profile that does not load, or that the filter refuses, leaves no trace. -/
theorem liveFilter_of_outside
    (outside : ∀ profile, load files paths.profile = .ok profile → ¬InUnit profile.alpha) :
    liveFilter files paths = .standard := by
  unfold liveFilter
  cases loaded : load files paths.profile with
  | error failure => rfl
  | ok profile =>
      dsimp only
      rw [ExponentialFilter.standard.run_reconfigure_of_outside fun taken => outside profile loaded taken.1]

/-- Whatever the files hold, the filter to work with is a fresh one that smooths, with a short warmup. It is the
standard one, unless a profile loads whose alpha is in `[0, 1]`; then it has alpha and warmup of that profile. A profile
loads from every text that spells a JSON object with three numbers, and says what is missing from any other JSON. -/
theorem liveFilter_safe (files : Files) (paths : DataPaths) :
    ((liveFilter files paths).influence = 0 ∧ (liveFilter files paths).harmony = 0 ∧
      (liveFilter files paths).consent = 0 ∧ InUnit (liveFilter files paths).alpha ∧
      (liveFilter files paths).warmup ≤ ExponentialFilter.maxWarmup) ∧
    (∀ profile, load files paths.profile = .ok profile → InUnit profile.alpha →
      liveFilter files paths =
        { ExponentialFilter.standard with alpha := profile.alpha, warmup := profile.warmup }) ∧
    ((∀ profile, load files paths.profile = .ok profile → ¬InUnit profile.alpha) →
      liveFilter files paths = .standard) ∧
    ∀ path : String,
      ((∃ profile, load files path = .ok profile) ↔
        ∃ json, Holds files path json ∧ ∀ field ∈ required, ∃ number, json.HasNumber field number) ∧
      (∀ field, load files path = .error (.missingField path field) ↔
        ∃ json, Holds files path json ∧ FirstLacking json field) ∧
      ∀ profile, load files path = .ok profile → ∃ json, Holds files path json ∧ TakenFrom json profile := by
  refine ⟨?_, fun profile loaded unit => (liveFilter_of_inUnit loaded unit).2, liveFilter_of_outside, fun path =>
    ⟨Tuning.Profile.load_eq_ok_iff, fun _ => Tuning.Profile.load_eq_missing_iff,
      fun _ => Tuning.Profile.takenFrom_of_load⟩⟩
  by_cases usable : ∃ profile, load files paths.profile = .ok profile ∧ InUnit profile.alpha
  · obtain ⟨profile, loaded, unit⟩ := usable
    obtain ⟨short, same⟩ := liveFilter_of_inUnit loaded unit
    rw [same]
    exact ⟨rfl, rfl, rfl, unit, short⟩
  · rw [liveFilter_of_outside fun profile loaded unit => usable ⟨profile, loaded, unit⟩]
    exact ⟨rfl, rfl, rfl, ExponentialFilter.clampAlpha_inUnit ExponentialFilter.defaultAlpha, by decide⟩

end Command

end EpisodicReplay
