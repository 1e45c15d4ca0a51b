import EpisodicReplay.Selector
import EpisodicReplay.Tuning.Space

/-! What to tune on, how long, and inside which bounds. -/

namespace EpisodicReplay.Tuning
open Json (Value)

structure Settings where
  source : Selector
  /-- At most so many of the selected episodes are used; zero means all. -/
  selectCount : Nat
  trials : Nat
  refinements : Nat
  /-- The bound on trials and refinements together. -/
  maxRuns : Nat
  seed : UInt64
  space : Space
deriving DecidableEq

namespace Settings

def standard : Settings :=
  ⟨.latest, 0, 60, 10, 200, 42, .standard⟩

instance : Inhabited Settings := ⟨standard⟩

/-- The trials and refinements that fit the bound. At least one trial runs; refinements get what is left. -/
def budget (settings : Settings) : Nat × Nat :=
  let maxRuns := max settings.maxRuns 1
  let trials := min (max settings.trials 1) maxRuns
  (trials, min settings.refinements (maxRuns - trials))

def toJson (settings : Settings) : List Char :=
  Json.writeObject [
    ("source", settings.source.toJson),
    ("select_n", Json.writeNat settings.selectCount),
    ("trials", Json.writeNat settings.trials),
    ("local_refine", Json.writeNat settings.refinements),
    ("max_runs", Json.writeNat settings.maxRuns),
    ("seed", Json.writeNat settings.seed.toNat),
    ("space", settings.space.toJson)]

def ofJson? (json : Value) : Option Settings := do
  let fields ← json.fields? ["source", "select_n", "trials", "local_refine", "max_runs", "seed", "space"]
  return {
    source := ← Json.optional? fields "source" Selector.ofJson? standard.source
    selectCount := ← Json.optional? fields "select_n" Value.count? standard.selectCount
    trials := ← Json.optional? fields "trials" Value.count? standard.trials
    refinements := ← Json.optional? fields "local_refine" Value.count? standard.refinements
    maxRuns := ← Json.optional? fields "max_runs" Value.count? standard.maxRuns
    seed := ← Json.optional? fields "seed" Value.uint64? standard.seed
    space := ← Json.optional? fields "space" Space.ofJson? standard.space }

end Settings

end EpisodicReplay.Tuning
