import EpisodicReplay.Capture
import EpisodicReplay.Files
import EpisodicReplay.Tuning.Settings

/-! Configuration from a file and from the environment. -/

namespace EpisodicReplay
open Json (Value)

namespace Window

def standard : Window :=
  ⟨24, 32⟩

def toJson (window : Window) : List Char :=
  Json.writeObject [("pre", Json.writeNat window.before), ("post", Json.writeNat window.after)]

def ofJson? (json : Value) : Option Window := do
  let fields ← json.fields? ["pre", "post"]
  return {
    before := ← Json.optional? fields "pre" Value.count? standard.before
    after := ← Json.optional? fields "post" Value.count? standard.after }

end Window

structure Config where
  window : Window
  tuning : Tuning.Settings
deriving DecidableEq

namespace Config

def standard : Config :=
  ⟨.standard, .standard⟩

instance : Inhabited Config := ⟨standard⟩

def toJson (config : Config) : List Char :=
  Json.writeObject [("capture", config.window.toJson), ("tune", config.tuning.toJson)]

def ofJson? (json : Value) : Option Config := do
  let fields ← json.fields? ["capture", "tune"]
  return {
    window := ← Json.optional? fields "capture" Window.ofJson? .standard
    tuning := ← Json.optional? fields "tune" Tuning.Settings.ofJson? .standard }

def ofText (text : String) : Except Failure Config :=
  ((Json.parse? text.toList).bind ofJson?).elim (.error .json) .ok

/-- The configuration in a file; a missing file stands for the standard one. -/
def load (files : Files) (path : String) : Except Failure Config :=
  match files.readText path with
  | .ok text => ofText text
  | .error .notFound => .ok standard
  | .error fault => .error (.file path fault)

/-- A variable that is set and readable. -/
def override? (environment : String → Option String) (name : String) (read? : List Char → Option α) : Option α :=
  (environment name).bind fun text => read? (Text.trim text.toList)

/-- Replaces what variables override. A variable that does not read is ignored. -/
def withEnvironment (config : Config) (environment : String → Option String) : Config :=
  { window := {
      before := (override? environment "LIMINAL_ERB_PRE" Decimal.readCount?).getD config.window.before
      after := (override? environment "LIMINAL_ERB_POST" Decimal.readCount?).getD config.window.after }
    tuning := { config.tuning with
      trials := (override? environment "LIMINAL_TUNE_TRIALS" Decimal.readCount?).getD config.tuning.trials
      refinements := (override? environment "LIMINAL_TUNE_REFINE" Decimal.readCount?).getD config.tuning.refinements
      seed := (override? environment "LIMINAL_TUNE_SEED" Decimal.readUInt64?).getD config.tuning.seed
      source := (override? environment "LIMINAL_TUNE_SOURCE" Selector.ofTrimmed?).getD config.tuning.source } }

end Config

/-- Where configuration, logs and profile lie: all below one directory. -/
structure DataPaths where
  root : String
deriving DecidableEq, Repr

namespace DataPaths

def logs (paths : DataPaths) : String :=
  Path.join paths.root "logs"

def config (paths : DataPaths) : String :=
  Path.join paths.root "config.json"

def profile (paths : DataPaths) : String :=
  Path.join paths.root "tune_profile.json"

end DataPaths

end EpisodicReplay
