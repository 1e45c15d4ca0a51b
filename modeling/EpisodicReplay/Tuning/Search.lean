import EpisodicReplay.Tuning.Evaluation
import EpisodicReplay.Tuning.Ranking
import EpisodicReplay.Tuning.Space

/-! Seeded search: samples over a space, then draws near the best of them. -/

namespace EpisodicReplay.Tuning

def standardTrials : Nat := 50

/-- How many of the best samples are refined. -/
def refinedBases : Nat := 3

/-- A search under way. -/
structure Progress where
  generator : Generator
  ranking : Ranking
  best : Outcome

/-- Scores a candidate; the best is replaced only by a smaller loss. -/
def Progress.consider (φ : Type) [SmoothingFilter φ] (episodes : List Episode) (progress : Progress)
    (parameters : Parameters) : Progress :=
  let candidate := evaluate φ episodes parameters
  { progress with
    ranking := (progress.ranking.insert candidate).2
    best := if candidate.loss < progress.best.loss then candidate else progress.best }

def Progress.trial (φ : Type) [SmoothingFilter φ] (episodes : List Episode) (space : Space) (progress : Progress) :
    Progress :=
  let (parameters, generator) := space.sample progress.generator
  { progress with generator }.consider φ episodes parameters

def Progress.refine (φ : Type) [SmoothingFilter φ] (episodes : List Episode) (space : Space) (progress : Progress)
    (base : Parameters) : Progress :=
  let (parameters, generator) := space.perturb base progress.generator
  { progress with generator }.consider φ episodes parameters

/-- The bases of all refinements in their order: equal shares, rounded up, until the number is reached. -/
def refinementBases (bases : List Parameters) (refinements : Nat) : List Parameters :=
  if bases.isEmpty then []
  else
    let share := (refinements + bases.length - 1) / bases.length
    (bases.flatMap (List.replicate share)).take refinements

def search (φ : Type) [SmoothingFilter φ] (episodes : List Episode) (space : Space) (trials refinements : Nat)
    (seed : UInt64) : Outcome × Ranking :=
  let start : Progress := ⟨.ofSeed seed, .empty, .unevaluated .standard⟩
  if episodes.isEmpty then (start.best, start.ranking)
  else
    let space := space.normalized
    let trials := if trials = 0 then standardTrials else trials
    let sampled := trials.repeat (Progress.trial φ episodes space) start
    let bases := (sampled.ranking.items.take refinedBases).map Outcome.parameters
    let refined := (refinementBases bases refinements).foldl (Progress.refine φ episodes space) sampled
    (refined.best, refined.ranking)

/-- The tolerated misalignment before any outcome is applied. -/
def standardAllowAlign : Float32 := 0.2

/-- The ranking of the last search and the tolerance of the last applied outcome. -/
structure Tuner where
  ranking : Ranking
  allowAlign : Float32

namespace Tuner

def standard : Tuner :=
  ⟨.empty, standardAllowAlign⟩

def search (φ : Type) [SmoothingFilter φ] (tuner : Tuner) (episodes : List Episode) (space : Space)
    (trials refinements : Nat) (seed : UInt64) : Outcome × Tuner :=
  let (best, ranking) := Tuning.search φ episodes space trials refinements seed
  (best, { tuner with ranking })

/-- Hands an outcome to a live filter, and keeps its tolerance if the filter takes it. -/
def apply {φ : Type} [SmoothingFilter φ] (outcome : Outcome) : InPlace (φ × Tuner) Unit := do
  let parameters := outcome.parameters
  InPlace.on Prod.fst (fun (_, tuner) filter => (filter, tuner))
    (SmoothingFilter.reconfigure parameters.alpha parameters.warmup)
  modify fun (filter, tuner) => (filter, { tuner with allowAlign := Binary32.clampUnit parameters.allowAlign })

def isMisaligned (tuner : Tuner) (consent influence : Float32) : Bool :=
  Tuning.isMisaligned tuner.allowAlign consent influence

end Tuner

end EpisodicReplay.Tuning
