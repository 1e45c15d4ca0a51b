import EpisodicReplay.Proofs.Replay.Readable
import EpisodicReplay.Proofs.Tuning.Steps

/-!
Whatever is asked of an exponential filter, its parameters stay in their ranges. If it is fed from the unit interval,
then so are its outputs: a blend does not overshoot, and what a score or a replay clamps is not changed by that.
-/

namespace EpisodicReplay
open Binary32

/-- A step with all its outputs in the unit interval. -/
structure FilterStep.Inside (output : FilterStep) : Prop where
  influence : InUnit output.influence
  harmony : InUnit output.harmony
  consent : InUnit output.consent
  delta : InUnit output.delta

namespace ExponentialFilter
variable {filter : ExponentialFilter} {allowed : Float32 → Prop} {influence harmony consent : Float32}

/-- A filter whose smoothed values are in the unit interval. -/
structure Contained (filter : ExponentialFilter) : Prop where
  influence : InUnit filter.influence
  harmony : InUnit filter.harmony
  consent : InUnit filter.consent

section step
variable (influenceUnit : InUnit influence) (harmonyUnit : InUnit harmony) (consentUnit : InUnit consent)
include influenceUnit harmonyUnit consentUnit

theorem Contained.advance (contained : filter.Contained) :
    (filter.advance influence harmony consent).Contained := by
  have share := clampAlpha_inUnit filter.alpha
  unfold ExponentialFilter.advance
  dsimp only
  split
  · exact ⟨influenceUnit, harmonyUnit, consentUnit⟩
  · exact ⟨blend_inUnit share influenceUnit contained.influence, blend_inUnit share harmonyUnit contained.harmony,
      blend_inUnit share consentUnit contained.consent⟩

theorem Contained.step (contained : filter.Contained) :
    (filter.step influence harmony consent).2.Contained ∧ (filter.step influence harmony consent).1.Inside := by
  have next := contained.advance influenceUnit harmonyUnit consentUnit
  have gaps := ((next.influence.abs_sub influenceUnit).maximum (next.harmony.abs_sub harmonyUnit)).maximum
    (next.consent.abs_sub consentUnit)
  unfold ExponentialFilter.step
  simp only [finiteOr_of_isFinite influenceUnit.finite, finiteOr_of_isFinite harmonyUnit.finite,
    finiteOr_of_isFinite consentUnit.finite]
  exact ⟨next, next.influence, next.harmony, next.consent, gaps⟩

end step

/-- A filter that has only been fed from the unit interval has its smoothed values there. -/
theorem Reached.contained (reached : Reached InUnit filter) : filter.Contained := by
  have zeros : InUnit 0 := inUnit_zero
  induction reached with
  | ofAlpha => exact ⟨zeros, zeros, zeros⟩
  | fresh => exact ⟨zeros, zeros, zeros⟩
  | step _ influence harmony consent inductionHypothesis =>
      exact (inductionHypothesis.step influence harmony consent).1
  | reset => exact ⟨zeros, zeros, zeros⟩
  | @reconfigure filter _ alpha warmup inductionHypothesis =>
      rcases filter.run_reconfigure_cases alpha warmup with ⟨-, -, taken⟩ | refused
      · rw [taken]
        exact ⟨inductionHypothesis.influence, inductionHypothesis.harmony, inductionHypothesis.consent⟩
      · rwa [refused]

/-- A filter as it is built, from parameters of any kind. -/
inductive Built : ExponentialFilter → Prop
  | standard : Built standard
  | ofAlpha (alpha : Float32) : Built (ofAlpha alpha)
  | fresh (alpha : Float32) (warmup : Nat) : Built (fresh alpha warmup)

/-- What can be asked of a filter. -/
inductive Request where
  | step (influence harmony consent : Float32)
  | reset
  | reconfigure (alpha : Float32) (warmup : Nat)

/-- The numbers that a request feeds to the filter. -/
def Request.inputs : Request → List Float32
  | .step influence harmony consent => [influence, harmony, consent]
  | .reset | .reconfigure .. => []

inductive Reply where
  | output (output : FilterStep)
  | done
  | refused (failure : Failure)
deriving DecidableEq

/-- The reply to a request, and the filter after it. -/
def respond (filter : ExponentialFilter) : Request → Reply × ExponentialFilter
  | .step influence harmony consent =>
    let (output, next) := filter.step influence harmony consent
    (.output output, next)
  | .reset => (.done, filter.reset)
  | .reconfigure alpha warmup =>
    match (ExponentialFilter.reconfigure alpha warmup).run.run filter with
    | (.ok (), next) => (.done, next)
    | (.error failure, next) => (.refused failure, next)

def after (filter : ExponentialFilter) (requests : List Request) : ExponentialFilter :=
  requests.foldl (fun filter request => (filter.respond request).2) filter

theorem Built.reached (built : filter.Built) : filter.Reached allowed := by
  cases built with
  | standard => exact .ofAlpha defaultAlpha
  | ofAlpha alpha => exact .ofAlpha alpha
  | fresh alpha warmup => exact .fresh alpha warmup

theorem Reached.respond (reached : filter.Reached allowed) {request : Request}
    (fed : ∀ number ∈ request.inputs, allowed number) : (filter.respond request).2.Reached allowed := by
  cases request with
  | step influence harmony consent =>
      exact .step reached (fed influence (by simp [Request.inputs])) (fed harmony (by simp [Request.inputs]))
        (fed consent (by simp [Request.inputs]))
  | reset => exact .reset reached
  | reconfigure alpha warmup =>
      have next := Reached.reconfigure reached alpha warmup
      rw [ExponentialFilter.respond]
      generalize (ExponentialFilter.reconfigure alpha warmup).run.run filter = result at next ⊢
      rcases result with ⟨_ | _, next⟩ <;> assumption

theorem Reached.after (reached : filter.Reached allowed) {requests : List Request}
    (fed : ∀ request ∈ requests, ∀ number ∈ request.inputs, allowed number) :
    (filter.after requests).Reached allowed := by
  induction requests generalizing filter with
  | nil => exact reached
  | cons request requests inductionHypothesis =>
      exact inductionHypothesis (reached.respond (fed request List.mem_cons_self))
        fun later member => fed later (List.mem_cons_of_mem request member)

/-- A replay feeds a filter from the unit interval, and gets outputs that are there. -/
theorem Reached.inside_of_mem_callsOf (reached : filter.Reached InUnit) {ticks : List Tick} {call : Replay.Call}
    (member : call ∈ Replay.callsOf filter ticks) : call.output.Inside := by
  obtain ⟨before, tick, reachedBefore, rfl⟩ := Replay.exists_of_mem_callsOf (Reached InUnit)
    (fun _ tick reached => Replay.reached_callOf (fun _ unit => unit) reached tick) reached member
  obtain ⟨influence, harmony, consent⟩ := Replay.inputs_inUnit tick
  exact (reachedBefore.contained.step influence harmony consent).2

end ExponentialFilter

namespace Replay

/-- The trace of the step at an index, with the gap between its outputs as they are. -/
def Call.plainTrace (source : UInt32) (mode : String) (index : Nat) (call : Call) : Trace :=
  { call.trace source mode index with gap := sixPlaces (call.output.consent - call.output.influence).abs }

/-- The totals of steps whose outputs are counted as they are. -/
def plainTotals (allowAlign : Float32) (calls : List Call) : Tuning.Totals where
  delta := totalOf (·.output.delta) calls
  harmony := totalOf (·.output.harmony) calls
  consent := totalOf (·.output.consent) calls
  misaligned := calls.countP fun call => allowAlign < (call.output.consent - call.output.influence).abs
  ticks := calls.length

theorem Call.gap_of_inside {call : Call} (inside : call.output.Inside) :
    call.gap = (call.output.consent - call.output.influence).abs := by
  rw [Call.gap, inside.consent.clampUnit_eq, inside.influence.clampUnit_eq]

theorem Call.trace_eq_plainTrace {call : Call} (inside : call.output.Inside) (source : UInt32) (mode : String)
    (index : Nat) : call.trace source mode index = call.plainTrace source mode index := by
  rw [Call.plainTrace, Call.trace, Call.gap_of_inside inside]

theorem totalOf_congr {calls : List Call} {first second : Call → Float32}
    (agree : ∀ call ∈ calls, first call = second call) : totalOf first calls = totalOf second calls := by
  apply List.foldl_ext
  intro total call member
  rw [agree call member]

/-- Clamping outputs of the unit interval does not change what is counted. -/
theorem totals_eq_plainTotals {calls : List Call} (inside : ∀ call ∈ calls, call.output.Inside)
    (allowAlign : Float32) : totals allowAlign calls = plainTotals allowAlign calls := by
  have delta := totalOf_congr fun call member => finiteOr_of_isFinite (inside call member).delta.finite 0
  have harmony := totalOf_congr fun call member => (inside call member).harmony.clampUnit_eq
  have consent := totalOf_congr fun call member => (inside call member).consent.clampUnit_eq
  have gaps : misaligned allowAlign calls = (plainTotals allowAlign calls).misaligned :=
    List.countP_congr fun call member => by rw [Call.gap_of_inside (inside call member)]
  rw [totals, plainTotals, delta, harmony, consent, gaps]
  rfl

end Replay

namespace ExponentialFilter
variable {filter : ExponentialFilter}

/-- After any requests the parameters of a filter are in their ranges, so that alpha need not be clamped again, and
parameters that are not are refused and change nothing. If all that the filter was fed with is in the unit interval,
then its next outputs are there too, and clamping them changes neither a replay nor a score. -/
theorem keeps_range (built : filter.Built) (requests : List Request) :
    let last := filter.after requests
    (InUnit last.alpha ∧ last.warmup ≤ maxWarmup ∧ clampAlpha last.alpha = last.alpha) ∧
      (∀ alpha warmup,
        (InUnit alpha ∧ warmup ≤ maxWarmup →
          last.respond (.reconfigure alpha warmup) = (.done, { last with alpha, warmup })) ∧
        (¬(InUnit alpha ∧ warmup ≤ maxWarmup) →
          last.respond (.reconfigure alpha warmup) = (.refused (.filterRejected alpha warmup), last))) ∧
      ((∀ request ∈ requests, ∀ number ∈ request.inputs, InUnit number) →
        (∀ influence harmony consent, InUnit influence → InUnit harmony → InUnit consent →
          (last.step influence harmony consent).1.Inside) ∧
        ∀ (episode : Episode) (source : UInt32) (mode : String) (log : Option Replay.TraceLog) (files : Files),
          ((Replay.episode episode source mode last log).run files).1.1 =
            (Replay.callsOf last episode.ticks.toList).mapIdx
              (Replay.Call.plainTrace source (Replay.modeLabel mode))) ∧
      ∀ (episodes : List Episode) (parameters : Tuning.Parameters),
        Tuning.evaluate ExponentialFilter episodes parameters =
          (Replay.plainTotals parameters.allowAlign
            (episodes.flatMap (Tuning.callsIn ExponentialFilter parameters))).outcome parameters := by
  intro last
  have reached : last.Reached fun _ => True := built.reached.after fun _ _ _ _ => trivial
  have unit := reached.alpha_inUnit
  refine ⟨⟨unit, reached.warmup_le, clampAlpha_of_inUnit unit⟩, fun alpha warmup => ⟨?_, ?_⟩, fun fed => ⟨?_, ?_⟩, ?_⟩
  · rintro ⟨alphaUnit, short⟩
    rw [respond, run_reconfigure_of_inUnit last alphaUnit short]
  · intro outside
    rw [respond, run_reconfigure_of_outside last outside]
  · intro influence harmony consent influenceUnit harmonyUnit consentUnit
    exact ((built.reached.after fed).contained.step influenceUnit harmonyUnit consentUnit).2
  · intro episode source mode log files
    rw [Replay.fst_run_episode, Replay.traces_eq]
    apply List.mapIdx_eq_mapIdx_iff.mpr
    intro index inside
    have member := List.getElem_mem inside
    exact Replay.Call.trace_eq_plainTrace ((built.reached.after fed).inside_of_mem_callsOf member) source _ index
  · intro episodes parameters
    have inside : ∀ call ∈ episodes.flatMap (Tuning.callsIn ExponentialFilter parameters), call.output.Inside := by
      intro call member
      obtain ⟨episode, -, called⟩ := List.mem_flatMap.mp member
      exact Reached.inside_of_mem_callsOf (.fresh _ _) called
    rw [Tuning.evaluate_eq_outcome, Replay.totals_eq_plainTotals inside]

/-- A filter built from no number at all, and then refused, reset, reconfigured and fed. -/
theorem keeps_range_refused :
    let filter := ExponentialFilter.fresh (Float32.ofBits 0x7fc00000) 99
    let requests : List Request :=
      [.step 1 0.5 0.25, .reconfigure infinity 3, .reset, .reconfigure 0.7 0, .step 0.3 1 0.9, .reconfigure 0.7 11]
    let last := filter.after requests
    filter.warmup = maxWarmup ∧ last.alpha = 0.7 ∧ last.warmup = 0 ∧ InUnit last.alpha ∧
      last.respond (.reconfigure (-1) 3) = (.refused (.filterRejected (-1) 3), last) ∧
      (last.step 1 0.1 0.999).1.Inside ∧ (last.step 1 0.1 0.999).1.influence ≠ 1 := by
  intro filter requests last
  have unit {number : Float32} (inside : number.isFinite = true ∧ 0 ≤ number ∧ number ≤ 1) : InUnit number :=
    inUnit_of_le inside.1 inside.2.1 inside.2.2
  have fed : ∀ request ∈ requests, ∀ number ∈ request.inputs, InUnit number := by
    have checked : ∀ request ∈ requests, ∀ number ∈ request.inputs,
        number.isFinite = true ∧ 0 ≤ number ∧ number ≤ 1 := by decide +kernel
    exact fun request asked number member => unit (checked request asked number member)
  obtain ⟨⟨alpha, -, -⟩, answers, contained, -⟩ := keeps_range (.fresh (Float32.ofBits 0x7fc00000) 99) requests
  have outside : ¬(InUnit (-1) ∧ 3 ≤ maxWarmup) := fun inside => absurd inside.1.zero_le (by decide +kernel)
  exact ⟨by decide +kernel, by decide +kernel, by decide +kernel, alpha, (answers (-1) 3).2 outside,
    (contained fed).1 1 0.1 0.999 (unit (by decide +kernel)) (unit (by decide +kernel)) (unit (by decide +kernel)),
    by decide +kernel⟩

end ExponentialFilter

end EpisodicReplay
