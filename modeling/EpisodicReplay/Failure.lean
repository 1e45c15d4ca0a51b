import EpisodicReplay.Decimal.Shortest
import EpisodicReplay.Text.Quoted

/-! What can go wrong, and how it is told. -/

namespace EpisodicReplay

/-- Why a file cannot be used. -/
inductive FileFault where
  | notFound
  | exists
  | notDirectory
  | isDirectory
  | nameTooLong
  /-- The content is not UTF-8. -/
  | notText
  /-- The path has a zero byte, which no name may hold. -/
  | zeroByte
deriving Repr, DecidableEq

/-- The number under which the operating system knows a fault. -/
def FileFault.code? : FileFault → Option Nat
  | .notFound => some 2
  | .exists => some 17
  | .notDirectory => some 20
  | .isDirectory => some 21
  | .nameTooLong => some 36
  | .notText => none
  | .zeroByte => none

def FileFault.kind : FileFault → String
  | .notFound => "NotFound"
  | .exists => "AlreadyExists"
  | .notDirectory => "NotADirectory"
  | .isDirectory => "IsADirectory"
  | .nameTooLong => "InvalidFilename"
  | .notText => "InvalidData"
  | .zeroByte => "InvalidInput"

def FileFault.words : FileFault → String
  | .notFound => "No such file or directory"
  | .exists => "File exists"
  | .notDirectory => "Not a directory"
  | .isDirectory => "Is a directory"
  | .nameTooLong => "File name too long"
  | .notText => "stream did not contain valid UTF-8"
  | .zeroByte => "file name contained an unexpected NUL byte"

def FileFault.message (fault : FileFault) : String :=
  match fault.code? with
  | some code => fault.words ++ " (os error " ++ toString code ++ ")"
  | none => fault.words

/-- The fault with its parts named. -/
def FileFault.details (fault : FileFault) : String :=
  let parts := "kind: " ++ fault.kind ++ ", message: " ++ Text.quoted fault.words ++ " \x7d"
  match fault.code? with
  | some code => "Os \x7b code: " ++ toString code ++ ", " ++ parts
  | none => "Error \x7b " ++ parts

/-- Everything that this library refuses. -/
inductive Failure where
  | file (path : String) (fault : FileFault)
  | json
  | emptyEpisode (path : String)
  | missingField (path : String) (field : String)
  | filterRejected (alpha : Float32) (warmup : Nat)
  | unknownSelector (text : String)
  | noDataDirectory
  | noEpisodes
  | notPersistent
deriving DecidableEq

def Failure.message : Failure → String
  | .file path fault => "I/O error at " ++ Text.quoted path ++ ": " ++ fault.message
  | .json => "JSON error"
  | .emptyEpisode path => "episode file " ++ Text.quoted path ++ " holds no readable ticks"
  | .missingField path field => "profile " ++ Text.quoted path ++ " is missing field \x60" ++ field ++ "\x60"
  | .filterRejected alpha warmup =>
    "filter rejected configuration alpha=" ++ Decimal.plain alpha ++ " warmup=" ++ toString warmup
  | .unknownSelector text =>
    "unrecognized episode selector " ++ Text.quoted text ++ " (expected latest, all, idx:N or tag:SPEC)"
  | .noDataDirectory => "could not determine a data directory"
  | .noEpisodes => "no episodes available"
  | .notPersistent => "episode store has no backing directory"

/-- The kind of a failure and its parts, for a diagnosis. -/
def Failure.details : Failure → String
  | .file path fault => "Io \x7b path: " ++ Text.quoted path ++ ", source: " ++ fault.details ++ " \x7d"
  | .json => "Json"
  | .emptyEpisode path => "MalformedEpisode \x7b path: " ++ Text.quoted path ++ " \x7d"
  | .missingField path field =>
    "InvalidProfile \x7b path: " ++ Text.quoted path ++ ", field: " ++ Text.quoted field ++ " \x7d"
  | .filterRejected alpha warmup =>
    "FilterRejected \x7b alpha: " ++ Decimal.plain alpha ++ ", warmup: " ++ toString warmup ++ " \x7d"
  | .unknownSelector text => "InvalidSelector(" ++ Text.quoted text ++ ")"
  | .noDataDirectory => "NoDataDir"
  | .noEpisodes => "NoEpisodes"
  | .notPersistent => "NotPersistent"

/-- Work on a state in place that may fail. What was done before a failure stays done. -/
abbrev InPlace (σ : Type) := ExceptT Failure (StateM σ)

/-- Work on a part of a state. -/
def InPlace.on {σ τ α : Type} (part : σ → τ) (replace : σ → τ → σ) (work : InPlace τ α) : InPlace σ α :=
  ExceptT.mk (modifyGet fun state =>
    let (result, next) := work.run.run (part state)
    (result, replace state next))

end EpisodicReplay
