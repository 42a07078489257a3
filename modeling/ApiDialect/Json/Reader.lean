import ApiDialect.Json.Token

/-!
Documents from JSON tokens. The reader keeps the containers that are still open on a stack, so
that each token is one step and a limit on nesting is a limit on the height of the stack.
-/

namespace ApiDialect
namespace Json

/-- An open container with what it holds so far, newest first. -/
inductive Frame where
  | array (done : List Value)
  | object (done : List (String × Value))
  | member (done : List (String × Value)) (name : String)

inductive Expected where
  | value
  | valueOrEnd
  | name
  | nameOrEnd
  | colon
  | commaOrEnd
  deriving DecidableEq

/-- Where a reader stands: inside some containers, or behind the whole document. -/
inductive State where
  | within (stack : List Frame) (expected : Expected)
  | complete (value : Value)

namespace State

def start : State := .within [] .value

/-- A finished value belongs to the innermost open container. -/
def finish (value : Value) : List Frame → Option State
  | [] => some (.complete value)
  | .array done :: outer => some (.within (.array (value :: done) :: outer) .commaOrEnd)
  | .member done name :: outer =>
    some (.within (.object ((name, value) :: done) :: outer) .commaOrEnd)
  | .object _ :: _ => none

/-- Opens a container unless `limit` of them are open already. -/
def enter (limit : Nat) (stack : List Frame) (frame : Frame) (expected : Expected) :
    Option State :=
  if stack.length < limit then some (.within (frame :: stack) expected) else none

def value (limit : Nat) (stack : List Frame) : Token → Option State
  | .scalar scalar => finish scalar stack
  | .beginArray => enter limit stack (.array []) .valueOrEnd
  | .beginObject => enter limit stack (.object []) .nameOrEnd
  | _ => none

def close : List Frame → Token → Option State
  | .array done :: outer, .endArray => finish (.arr done.reverse) outer
  | .object done :: outer, .endObject => finish (.obj (Members.ofList done.reverse)) outer
  | _, _ => none

def name : List Frame → Token → Option State
  | .object done :: outer, .scalar (.str text) => some (.within (.member done text :: outer) .colon)
  | _, _ => none

def comma : List Frame → Option State
  | .array done :: outer => some (.within (.array done :: outer) .value)
  | .object done :: outer => some (.within (.object done :: outer) .name)
  | _ => none

def step (limit : Nat) : State → Token → Option State
  | .within stack .value, token => value limit stack token
  | .within stack .valueOrEnd, .endArray => close stack .endArray
  | .within stack .valueOrEnd, token => value limit stack token
  | .within stack .name, token => name stack token
  | .within stack .nameOrEnd, .endObject => close stack .endObject
  | .within stack .nameOrEnd, token => name stack token
  | .within stack .colon, .colon => some (.within stack .value)
  | .within _ .colon, _ => none
  | .within stack .commaOrEnd, .comma => comma stack
  | .within stack .commaOrEnd, token => close stack token
  | .complete _, _ => none

def value? : State → Option Value
  | .complete value => some value
  | .within _ _ => none

end State

/-- Containers may be nested this deep in a document. -/
def nestingLimit : Nat := 127

def readWithin (limit : Nat) (text : String) : Option Value := do
  let tokens ← scan text.toList
  let state ← tokens.foldlM (State.step limit) State.start
  state.value?

def read (text : String) : Option Value :=
  readWithin nestingLimit text

end Json
end ApiDialect
