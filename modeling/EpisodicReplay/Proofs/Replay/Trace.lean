import EpisodicReplay.Proofs.Binary32.Within
import EpisodicReplay.Proofs.Json.Fields
import EpisodicReplay.Replay

/-!
What a trace line holds and whether it can be read. A label is short and free of quotes. A number is finite unless it
is so large that it cannot be scaled to its six places, and a line with a number that is not finite is not read.
-/

namespace EpisodicReplay.Replay
open Binary32
open Float.Model (UnpackedFloat)
open Json (Member Spells Value)

section label

theorem length_modeLabel (mode : String) : 0 < (modeLabel mode).length ∧ (modeLabel mode).length ≤ maxLabelLength := by
  unfold modeLabel
  split
  case isTrue => decide
  case isFalse nonempty =>
    have some : 0 < mode.toList.length := by
      rw [List.length_pos_iff, ne_eq, String.toList_eq_nil_iff]
      exact fun empty => nonempty (String.isEmpty_iff.mpr empty)
    rw [← String.length_toList, String.toList_ofList, List.length_map, List.length_take]
    exact ⟨Nat.lt_min.mpr ⟨by decide, some⟩, Nat.min_le_left ..⟩

theorem quote_notMem_modeLabel (mode : String) : '"' ∉ (modeLabel mode).toList := by
  unfold modeLabel
  split
  case isTrue => decide
  case isFalse =>
    rw [String.toList_ofList, List.mem_map]
    rintro ⟨char, -, same⟩
    split at same
    case isTrue => cases same
    case isFalse other => exact other same

end label

section sixPlaces
variable {number : Float32}

theorem unpack_million : (1000000 : Float32).toModel.unpack = .finite .positive 16000000 (-4) (by decide) :=
  rfl

theorem value_million : value 1000000 = 1000000 := by
  rw [value_of_unpack_eq unpack_million]
  norm_num [UnpackedFloat.Sign.apply]

theorem isFinite_million : (1000000 : Float32).isFinite = true := rfl

/-- What is not finite stays so when it is divided. -/
theorem isFinite_div_million (infinite : number.isFinite = false) : (number / 1000000).isFinite = false := by
  change number.toModel.unpack.isFinite = false at infinite
  have special : (number.toModel.unpack.div .binary32 (1000000 : Float32).toModel.unpack).isFinite = false ∧
      Rounding.magnitude (number.toModel.unpack.div .binary32 (1000000 : Float32).toModel.unpack) = 0 ∧
      Rounding.Canonical .binary32 (number.toModel.unpack.div .binary32 (1000000 : Float32).toModel.unpack) := by
    rw [unpack_million]
    cases unpacked : number.toModel.unpack with
    | zero | finite => rw [unpacked] at infinite; cases infinite
    | infinity | notANumber => exact ⟨rfl, rfl, trivial⟩
  obtain ⟨still, zero, canonical⟩ := special
  have kept : (number / 1000000).toModel.unpack =
      number.toModel.unpack.div .binary32 (1000000 : Float32).toModel.unpack :=
    Rounding.unpack_pack (by decide) canonical (by rw [zero]; norm_num [Rounding.limit])
  change (number / 1000000).toModel.unpack.isFinite = false
  rwa [kept]

/-- Only scaling a number up to its six places can make it infinite. -/
theorem sixPlaces_isFinite_iff :
    (sixPlaces number).isFinite = true ↔ (number.isFinite = true → (number * 1000000).isFinite = true) := by
  unfold sixPlaces
  split
  case isFalse infinite => simp [infinite, isFinite_zero]
  case isTrue finite =>
    simp only [finite, forall_const]
    constructor
    · intro result
      by_contra beyond
      have infinite : (number * 1000000).isFinite = false := Bool.eq_false_iff.mpr beyond
      rw [roundIntegral_of_not_isFinite infinite, isFinite_div_million infinite] at result
      cases result
    · intro scaled
      have rounded := roundIntegral_isFinite scaled
      refine (div_isNearest rounded isFinite_million (by norm_num [value_million]) ?_).isFinite
      have below : |value (roundIntegral (number * 1000000))| < 2 ^ 128 := by
        rw [value, Rounding.abs_value]
        exact (magnitude_lt_limit _).trans_le (by norm_num [Rounding.limit, Float.Model.Format.exponentBias])
      rw [value_million, abs_div, abs_of_pos (by norm_num : (0 : ℚ) < 1000000), div_le_iff₀ (by norm_num)]
      exact below.le.trans (by norm_num)

/-- A number up to 2 to the power of 107 has six places. -/
theorem sixPlaces_isFinite (within : Within 107 number) : (sixPlaces number).isFinite = true := by
  refine sixPlaces_isFinite_iff.mpr fun finite => (mul_isNearest finite isFinite_million ?_).isFinite
  rw [value_million, abs_mul, abs_of_pos (by norm_num : (0 : ℚ) < 1000000)]
  exact (mul_le_mul_of_nonneg_right within.bounded (by norm_num)).trans (by norm_num)

end sixPlaces

namespace Trace
variable {trace : Trace}

/-- Reads a line that was written for a trace. -/
def ofLine? (line : String) : Option Trace :=
  (Json.parse? line.toList).bind ofJson?

section members
variable {delta alpha gap : Value}

/-- The members of a trace line. -/
def members (trace : Trace) (delta alpha gap : Value) (spelledDelta : Spells (Json.writeFloat32 trace.delta) delta)
    (spelledAlpha : Spells (Json.writeFloat32 trace.alpha) alpha)
    (spelledGap : Spells (Json.writeFloat32 trace.gap) gap) : List Member := [
  ⟨"tick", _, _, Json.spells_writeNat trace.tick.toNat⟩,
  ⟨"src_idx", _, _, Json.spells_writeNat trace.source.toNat⟩,
  ⟨"delta", _, delta, spelledDelta⟩,
  ⟨"alpha", _, alpha, spelledAlpha⟩,
  ⟨"err_after", _, gap, spelledGap⟩,
  ⟨"mode", _, _, Json.spells_writeString trace.mode⟩]

/-- A trace is read back just if its three numbers are. -/
theorem ofLine?_line (spelledDelta : Spells (Json.writeFloat32 trace.delta) delta)
    (spelledAlpha : Spells (Json.writeFloat32 trace.alpha) alpha)
    (spelledGap : Spells (Json.writeFloat32 trace.gap) gap) :
    ofLine? trace.line = delta.float32?.bind fun delta => alpha.float32?.bind fun alpha =>
      gap.float32?.map fun gap => { trace with delta, alpha, gap } := by
  let written := members trace delta alpha gap spelledDelta spelledAlpha spelledGap
  let fields := written.map Member.field
  have text : trace.toJson = Json.writeObject (written.map Member.written) := rfl
  have spelled : Spells trace.toJson (.object (written.map Member.read)) :=
    text ▸ Json.spells_writeObject (List.cons_ne_nil _ _)
  have shown : Value.fields? ["tick", "src_idx", "delta", "alpha", "err_after", "mode"]
      (.object (written.map Member.read)) = some fields := by
    rw [Json.fields?_object]
    simp [fields, written, members, Member.field]
  have tick : Json.required? fields "tick" Value.uint32? = some trace.tick := Json.uint32?_digits trace.tick
  have source : Json.required? fields "src_idx" Value.uint32? = some trace.source := Json.uint32?_digits trace.source
  have deltaRead : Json.required? fields "delta" Value.float32? = delta.float32? := rfl
  have alphaRead : Json.required? fields "alpha" Value.float32? = alpha.float32? := rfl
  have gapRead : Json.required? fields "err_after" Value.float32? = gap.float32? := rfl
  have mode : Json.required? fields "mode" Value.string? = some trace.mode.toList := Json.text?_map_piece _
  generalize fields = known at shown tick source deltaRead alphaRead gapRead mode
  rw [ofLine?, line, String.toList_ofList, spelled.parse?, Option.bind_some, ofJson?, shown]
  simp only [tick, source, deltaRead, alphaRead, gapRead, mode, Option.bind_eq_bind, Option.bind_some,
    String.ofList_toList]
  cases delta.float32? <;> cases alpha.float32? <;> cases gap.float32? <;> rfl

end members

/-- A trace is read back if its numbers are. -/
theorem ofLine?_line_of_readsBack (delta : Json.ReadsBack trace.delta) (alpha : Json.ReadsBack trace.alpha)
    (gap : Json.ReadsBack trace.gap) : ofLine? trace.line = some trace := by
  obtain ⟨_, spelledDelta⟩ := Json.spells_writeFloat32 trace.delta
  obtain ⟨_, spelledAlpha⟩ := Json.spells_writeFloat32 trace.alpha
  obtain ⟨_, spelledGap⟩ := Json.spells_writeFloat32 trace.gap
  rw [ofLine?_line spelledDelta spelledAlpha spelledGap, delta.float32? spelledDelta, alpha.float32? spelledAlpha,
    gap.float32? spelledGap]
  rfl

/-- A delta that is not finite is written as null, and null is no delta. -/
theorem ofLine?_line_eq_none (infinite : trace.delta.isFinite = false) : ofLine? trace.line = none := by
  obtain ⟨_, spelledAlpha⟩ := Json.spells_writeFloat32 trace.alpha
  obtain ⟨_, spelledGap⟩ := Json.spells_writeFloat32 trace.gap
  rw [ofLine?_line (Json.spells_writeFloat32_of_not_isFinite infinite) spelledAlpha spelledGap]
  rfl

end Trace

end EpisodicReplay.Replay
