import EpisodicReplay.Filter
import EpisodicReplay.Proofs.Binary32.Within

/-! What states an exponential filter gets into, and how far its outputs go. -/

namespace EpisodicReplay.ExponentialFilter
open Binary32
variable {allowed : Float32 → Prop} {filter : ExponentialFilter} {influence harmony consent : Float32} {place : ℕ}

/-- A filter that was built from any parameters and has since then been used, with allowed inputs only. -/
inductive Reached (allowed : Float32 → Prop) : ExponentialFilter → Prop
  | ofAlpha (alpha : Float32) : Reached allowed (ofAlpha alpha)
  | fresh (alpha : Float32) (warmup : Nat) : Reached allowed (fresh alpha warmup)
  | step {filter : ExponentialFilter} {influence harmony consent : Float32} (reached : Reached allowed filter)
      (influenceAllowed : allowed influence) (harmonyAllowed : allowed harmony) (consentAllowed : allowed consent) :
      Reached allowed (filter.step influence harmony consent).2
  | reset {filter : ExponentialFilter} (reached : Reached allowed filter) : Reached allowed filter.reset
  | reconfigure {filter : ExponentialFilter} (reached : Reached allowed filter) (alpha : Float32) (warmup : Nat) :
      Reached allowed ((reconfigure alpha warmup).run.run filter).2

theorem Reached.mono {wider : Float32 → Prop} (reached : Reached allowed filter)
    (weaker : ∀ number, allowed number → wider number) : Reached wider filter := by
  induction reached with
  | ofAlpha alpha => exact .ofAlpha alpha
  | fresh alpha warmup => exact .fresh alpha warmup
  | step _ influence harmony consent inductionHypothesis =>
      exact .step inductionHypothesis (weaker _ influence) (weaker _ harmony) (weaker _ consent)
  | reset _ inductionHypothesis => exact .reset inductionHypothesis
  | reconfigure _ alpha warmup inductionHypothesis => exact .reconfigure inductionHypothesis alpha warmup

theorem clampAlpha_inUnit (alpha : Float32) : InUnit (clampAlpha alpha) :=
  unitOr_inUnit alpha (inUnit_of_le rfl (by decide) (by decide))

section reconfigure
variable {alpha : Float32} {warmup : Nat} (filter : ExponentialFilter)

/-- A filter takes parameters in their ranges and keeps everything else. -/
theorem run_reconfigure_of_inUnit (unit : InUnit alpha) (short : warmup ≤ maxWarmup) :
    (reconfigure alpha warmup).run.run filter = (.ok (), { filter with alpha, warmup }) := by
  have fine : (!(alpha.isFinite && 0 ≤ alpha && alpha ≤ 1 && warmup ≤ maxWarmup)) = false := by
    simp [unit.finite, unit.zero_le, unit.le_one, short]
  rw [reconfigure, fine]
  rfl

/-- It refuses all others before anything is changed. -/
theorem run_reconfigure_of_outside (outside : ¬(InUnit alpha ∧ warmup ≤ maxWarmup)) :
    (reconfigure alpha warmup).run.run filter = (.error (.filterRejected alpha warmup), filter) := by
  have refused : (!(alpha.isFinite && 0 ≤ alpha && alpha ≤ 1 && warmup ≤ maxWarmup)) = true := by
    rw [Bool.not_eq_true', ← Bool.not_eq_true]
    intro fine
    simp only [Bool.and_eq_true, decide_eq_true_eq] at fine
    obtain ⟨⟨⟨finite, low⟩, high⟩, short⟩ := fine
    exact outside ⟨inUnit_of_le finite low high, short⟩
  rw [reconfigure, refused]
  rfl

/-- Whatever it is asked for, it has parameters in their ranges afterwards, or is as it was. -/
theorem run_reconfigure_cases (alpha : Float32) (warmup : Nat) :
    (InUnit alpha ∧ warmup ≤ maxWarmup ∧
      ((reconfigure alpha warmup).run.run filter).2 = { filter with alpha, warmup }) ∨
    ((reconfigure alpha warmup).run.run filter).2 = filter := by
  by_cases taken : InUnit alpha ∧ warmup ≤ maxWarmup
  · exact .inl ⟨taken.1, taken.2, by rw [run_reconfigure_of_inUnit filter taken.1 taken.2]⟩
  · exact .inr (by rw [run_reconfigure_of_outside filter taken])

end reconfigure

/-- An alpha inside its range is not clamped again. -/
theorem clampAlpha_of_inUnit {alpha : Float32} (unit : InUnit alpha) : clampAlpha alpha = alpha :=
  unit.unitOr_eq defaultAlpha

theorem advance_alpha (filter : ExponentialFilter) (influence harmony consent : Float32) :
    (filter.advance influence harmony consent).alpha = filter.alpha := by
  unfold advance
  dsimp only
  split <;> rfl

theorem Reached.alpha_inUnit (reached : Reached allowed filter) : InUnit filter.alpha := by
  induction reached with
  | ofAlpha alpha => exact clampAlpha_inUnit alpha
  | fresh alpha _ => exact clampAlpha_inUnit alpha
  | step _ _ _ _ inductionHypothesis =>
      change InUnit (ExponentialFilter.advance ..).alpha
      rwa [advance_alpha]
  | reset _ inductionHypothesis => exact inductionHypothesis
  | @reconfigure filter _ alpha warmup inductionHypothesis =>
      rcases filter.run_reconfigure_cases alpha warmup with ⟨unit, -, taken⟩ | refused
      · rwa [taken]
      · rwa [refused]

theorem Reached.warmup_le (reached : Reached allowed filter) : filter.warmup ≤ maxWarmup := by
  have restarted : defaultWarmup ≤ maxWarmup := by decide
  induction reached with
  | ofAlpha => exact restarted
  | fresh _ warmup => exact Nat.min_le_right warmup maxWarmup
  | @step filter influence harmony consent _ _ _ _ inductionHypothesis =>
      have fewer (influence harmony consent : Float32) :
          (filter.advance influence harmony consent).warmup ≤ filter.warmup := by
        unfold ExponentialFilter.advance
        dsimp only
        split
        · exact Nat.sub_le filter.warmup 1
        · exact Nat.le_refl filter.warmup
      exact (fewer _ _ _).trans inductionHypothesis
  | reset => exact restarted
  | @reconfigure filter _ alpha warmup inductionHypothesis =>
      rcases filter.run_reconfigure_cases alpha warmup with ⟨-, short, taken⟩ | refused
      · rwa [taken]
      · rwa [refused]

/-- A filter whose smoothed values have not got beyond a power of two. -/
structure Smooths (place : ℕ) (filter : ExponentialFilter) : Prop where
  influence : Within place filter.influence
  harmony : Within place filter.harmony
  consent : Within place filter.consent

theorem Smooths.advance (smooths : filter.Smooths place) (small : place < 127)
    (influenceWithin : Within place influence)
    (harmonyWithin : Within place harmony) (consentWithin : Within place consent) :
    (filter.advance influence harmony consent).Smooths place := by
  have share := clampAlpha_inUnit filter.alpha
  unfold ExponentialFilter.advance
  dsimp only
  split
  · exact ⟨influenceWithin, harmonyWithin, consentWithin⟩
  · exact ⟨blend_within share influenceWithin smooths.influence small,
      blend_within share harmonyWithin smooths.harmony small, blend_within share consentWithin smooths.consent small⟩

/-- Smoothed values stay where the inputs are, and the gap between them is at most twice as large. -/
theorem Smooths.step (smooths : filter.Smooths place) (small : place < 127)
    (influenceBounded : |value influence| ≤ 2 ^ place) (harmonyBounded : |value harmony| ≤ 2 ^ place)
    (consentBounded : |value consent| ≤ 2 ^ place) :
    (filter.step influence harmony consent).2.Smooths place ∧
      Within (place + 1) (filter.step influence harmony consent).1.delta := by
  have influenceWithin := within_finiteOr influenceBounded
  have harmonyWithin := within_finiteOr harmonyBounded
  have consentWithin := within_finiteOr consentBounded
  have next := smooths.advance small influenceWithin harmonyWithin consentWithin
  have gaps := (next.influence.sub influenceWithin small).abs.maximum (next.harmony.sub harmonyWithin small).abs
  exact ⟨next, gaps.maximum (next.consent.sub consentWithin small).abs⟩

/-- A filter that has only seen bounded inputs has only bounded smoothed values. -/
theorem Reached.smooths (reached : Reached (|value ·| ≤ 2 ^ place) filter) (small : place < 127) :
    filter.Smooths place := by
  have zeros : Within place 0 := within_zero place
  induction reached with
  | ofAlpha => exact ⟨zeros, zeros, zeros⟩
  | fresh => exact ⟨zeros, zeros, zeros⟩
  | step _ influence harmony consent inductionHypothesis =>
      exact (inductionHypothesis.step small influence harmony consent).1
  | reset => exact ⟨zeros, zeros, zeros⟩
  | @reconfigure filter _ alpha warmup inductionHypothesis =>
      rcases filter.run_reconfigure_cases alpha warmup with ⟨-, -, taken⟩ | refused
      · rw [taken]
        exact ⟨inductionHypothesis.influence, inductionHypothesis.harmony, inductionHypothesis.consent⟩
      · rwa [refused]

end EpisodicReplay.ExponentialFilter
