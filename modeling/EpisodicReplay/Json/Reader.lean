import EpisodicReplay.Json.Token

/-!
JSON text to values. Tokens drive a push-down machine with an explicit stack, so that nesting is not limited.
-/

namespace EpisodicReplay.Json

/-- A container that is still open. What it holds so far is in reverse. -/
inductive Frame where
  | array (items : List Value)
  | object (members : List (List Piece × Value)) (key : List Piece)

/-- What the machine waits for. -/
inductive Awaiting where
  | value
  | valueOrClose
  | key (members : List (List Piece × Value))
  | keyOrClose
  | colon (members : List (List Piece × Value)) (key : List Piece)
  | commaOrClose (last : Value)
  | nothing (result : Value)

structure Machine where
  awaiting : Awaiting
  frames : List Frame

/-- A value is complete: it is the result, or the next part of the innermost container. -/
def Machine.accept (value : Value) : List Frame → Machine
  | [] => ⟨.nothing value, []⟩
  | frames => ⟨.commaOrClose value, frames⟩

/-- A token where a value may begin. -/
def Machine.beginValue? (frames : List Frame) : Token → Option Machine
  | .openArray => some ⟨.valueOrClose, .array [] :: frames⟩
  | .openObject => some ⟨.keyOrClose, frames⟩
  | .string pieces => some (accept (.string pieces) frames)
  | .scalar value => some (accept value frames)
  | _ => none

def Machine.step? (machine : Machine) (token : Token) : Option Machine :=
  match machine.awaiting, machine.frames, token with
  | .value, frames, token => beginValue? frames token
  | .valueOrClose, .array [] :: frames, .closeArray => some (accept (.array []) frames)
  | .valueOrClose, frames, token => beginValue? frames token
  | .keyOrClose, frames, .closeObject => some (accept (.object []) frames)
  | .keyOrClose, frames, .string key => some ⟨.colon [] key, frames⟩
  | .key members, frames, .string key => some ⟨.colon members key, frames⟩
  | .colon members key, frames, .colon => some ⟨.value, .object members key :: frames⟩
  | .commaOrClose last, .array items :: frames, .comma => some ⟨.value, .array (last :: items) :: frames⟩
  | .commaOrClose last, .array items :: frames, .closeArray =>
    some (accept (.array (last :: items).reverse) frames)
  | .commaOrClose last, .object members key :: frames, .comma => some ⟨.key ((key, last) :: members), frames⟩
  | .commaOrClose last, .object members key :: frames, .closeObject =>
    some (accept (.object ((key, last) :: members).reverse) frames)
  | _, _, _ => none

/-- Feeds the tokens of some text to the machine. -/
def Machine.run? (machine : Machine) : List Char → Option Machine
  | [] => some machine
  | char :: rest =>
    if isSpace char then machine.run? rest
    else match _read : readToken? (char :: rest) with
      | none => none
      | some (token, after) =>
        match machine.step? token with
        | none => none
        | some next => next.run? after
termination_by chars => chars.length
decreasing_by
  · simp
  · exact readToken?_length (by assumption)

/-- The one value that some text spells. -/
def parse? (chars : List Char) : Option Value :=
  match Machine.run? ⟨.value, []⟩ chars with
  | some ⟨.nothing result, _⟩ => some result
  | _ => none

end EpisodicReplay.Json
