import EpisodicReplay.Proofs.Filter
import EpisodicReplay.Proofs.Replay.Observed
import EpisodicReplay.Proofs.Replay.Trace

/-!
Which traces of an exponential filter can be read. All of their numbers are finite, unless the filter has been fed with
numbers so large that its delta cannot be rounded to six places.
-/

namespace EpisodicReplay.Replay
open Binary32 ExponentialFilter
variable {filter : ExponentialFilter} {allowed : Float32 → Prop}

/-- A trace whose numbers are finite, except for its delta perhaps, and which is read back if its delta is finite. -/
structure Trace.Sound (trace : Trace) : Prop where
  alpha : trace.alpha.isFinite = true
  gap : trace.gap.isFinite = true
  labelled : 0 < trace.mode.length ∧ trace.mode.length ≤ 63
  unquoted : '"' ∉ trace.mode.toList
  read : (∀ number ∈ [trace.delta, trace.alpha, trace.gap], number.isFinite = true → Json.ReadsBack number) →
    Trace.ofLine? trace.line = if trace.delta.isFinite then some trace else none

theorem Call.gap_within (call : Call) : Within 1 call.gap :=
  ((clampUnit_inUnit _).within.sub (clampUnit_inUnit _).within (by decide)).abs

theorem Call.trace_sound {call : Call} (unit : InUnit call.alpha) (source : UInt32) (mode : String) (index : Nat) :
    (call.trace source (modeLabel mode) index).Sound := by
  have alpha : (sixPlaces call.alpha).isFinite = true := sixPlaces_isFinite (unit.within.le_of_le (by decide))
  have gap : (sixPlaces call.gap).isFinite = true := sixPlaces_isFinite (call.gap_within.le_of_le (by decide))
  refine ⟨alpha, gap, length_modeLabel mode, quote_notMem_modeLabel mode, fun readsBack => ?_⟩
  split
  case isTrue delta =>
    exact Trace.ofLine?_line_of_readsBack (readsBack _ (by simp) delta) (readsBack _ (by simp) alpha)
      (readsBack _ (by simp) gap)
  case isFalse infinite => exact Trace.ofLine?_line_eq_none (Bool.eq_false_iff.mpr infinite)

/-- What a replay gives to a filter can be given to any filter that takes numbers of the unit interval. -/
theorem reached_callOf (unit : ∀ number, InUnit number → allowed number) (reached : filter.Reached allowed)
    (tick : Tick) : (callOf filter (inputs tick)).2.Reached allowed := by
  obtain ⟨influence, harmony, consent⟩ := inputs_inUnit tick
  exact .step reached (unit _ influence) (unit _ harmony) (unit _ consent)

/-- A filter that has only seen bounded numbers answers a replay with bounded deltas. -/
theorem delta_within {place : ℕ} (small : place < 127) (reached : filter.Reached (|value ·| ≤ 2 ^ place))
    {ticks : List Tick} {call : Call} (member : call ∈ callsOf filter ticks) :
    Within (place + 1) call.output.delta := by
  have unit (number : Float32) (unit : InUnit number) : |value number| ≤ 2 ^ place :=
    (unit.within.le_of_le (Nat.zero_le place)).bounded
  obtain ⟨before, tick, reachedBefore, rfl⟩ :=
    exists_of_mem_callsOf (Reached _) (fun _ tick reached => reached_callOf unit reached tick) reached member
  obtain ⟨influence, harmony, consent⟩ := inputs_inUnit tick
  exact ((reachedBefore.smooths small).step small (unit _ influence) (unit _ harmony) (unit _ consent)).2

/-- Every trace of a replay is sound. Its delta is not finite just if the filter's delta is finite and too large to be
scaled to six places, and that takes inputs beyond 2 to the power of 106 before the replay. -/
theorem traces_sound (reached : filter.Reached fun _ => True) (episode : Episode) (source : UInt32) (mode : String)
    (log : Option TraceLog) (files : Files) :
    let calls := callsOf filter episode.ticks.toList
    let traces := ((Replay.episode episode source mode filter log).run files).1.1
    traces = calls.mapIdx (Call.trace source (modeLabel mode)) ∧
      (∀ trace ∈ traces, trace.Sound) ∧
      (∀ call ∈ calls, ∀ index, (call.trace source (modeLabel mode) index).delta.isFinite = true ↔
        (call.output.delta.isFinite = true → (call.output.delta * 1000000).isFinite = true)) ∧
      (filter.Reached (fun number => |value number| ≤ 2 ^ 106) → ∀ trace ∈ traces, trace.delta.isFinite = true) := by
  intro calls traces
  have told : traces = calls.mapIdx (Call.trace source (modeLabel mode)) := by
    change ((Replay.episode episode source mode filter log).run files).1.1 = _
    rw [fst_run_episode, traces_eq]
  rw [told]
  refine ⟨rfl, fun trace member => ?_, fun call _ index => sixPlaces_isFinite_iff, fun bounded trace member => ?_⟩
  · obtain ⟨index, inside, rfl⟩ := List.mem_mapIdx.mp member
    obtain ⟨before, tick, reachedBefore, same⟩ := exists_of_mem_callsOf (Reached _)
      (fun _ tick reached => reached_callOf (fun _ _ => trivial) reached tick) reached (List.getElem_mem inside)
    have unit : InUnit calls[index].alpha := by
      rw [same]
      exact (reached_callOf (fun _ _ => trivial) reachedBefore tick).alpha_inUnit
    exact Call.trace_sound unit source mode index
  · obtain ⟨index, inside, rfl⟩ := List.mem_mapIdx.mp member
    exact sixPlaces_isFinite (delta_within (by decide) bounded (List.getElem_mem inside))

/-- A tick that is all influence. -/
def influenceTick : Tick :=
  { Tick.zero with influence := 1 }

/-- The lines of a filter that has seen moderate numbers are read back. -/
theorem traces_sound_influenceTick :
    let filter := ((ExponentialFilter.fresh 0.3 1).step 0.5 0.25 2).2
    let traces := ((Replay.episode (.ofTicks [influenceTick, .zero] .spike) 7 "idx:7" filter none).run .empty).1.1
    traces.length = 2 ∧ ∀ trace ∈ traces, trace.delta.isFinite = true ∧ Trace.ofLine? trace.line = some trace := by
  intro filter traces
  have reached : filter.Reached fun number => |value number| ≤ 2 ^ 106 :=
    .step (.fresh 0.3 1) (by decide +kernel) (by decide +kernel) (by decide +kernel)
  have wide : filter.Reached fun _ => True := reached.mono fun _ _ => trivial
  obtain ⟨-, sound, -, finite⟩ := traces_sound wide (.ofTicks [influenceTick, .zero] .spike) 7 "idx:7" none .empty
  refine ⟨by decide +kernel, fun trace member => ⟨finite reached trace member, ?_⟩⟩
  have readsBack : ∀ trace ∈ traces, ∀ number ∈ [trace.delta, trace.alpha, trace.gap],
      number.isFinite = true → Json.ReadsBack number := by decide +kernel
  rw [(sound trace member).read (readsBack trace member), if_pos (finite reached trace member)]

/-- A filter of small alpha that has let a large number pass. -/
def loudFilter : ExponentialFilter :=
  ((ExponentialFilter.fresh 1e-9 1).step 1 7.5e37 0).2

/-- The filter answers with a finite delta, but its trace has none that is finite, and is not read back. -/
theorem not_finite_loudFilter : loudFilter.Reached (fun _ => True) ∧
    (∀ call ∈ callsOf loudFilter [influenceTick], call.output.delta = 7.5e37 ∧ call.output.delta.isFinite = true) ∧
    ((Replay.episode (.ofTicks [influenceTick] .spike) 0 "all" loudFilter none).run .empty).1.1 =
      [⟨0, 0, infinity, 0, 1, "all"⟩] ∧
    Trace.ofLine? (Trace.line ⟨0, 0, infinity, 0, 1, "all"⟩) = none :=
  ⟨.step (.fresh 1e-9 1) trivial trivial trivial, by decide +kernel, by decide +kernel,
    Trace.ofLine?_line_eq_none isFinite_infinity⟩

end EpisodicReplay.Replay
