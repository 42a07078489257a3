import ApiDialect.Error
import ApiDialect.Value

/-!
Schemas in the vocabulary of the older dialect: alternatives are dropped, a discriminator is the
bare name of a property, and what has no keyword there moves to an extension. The depth of a
schema is limited, and the limit is what the recursion descends on.
-/

namespace ApiDialect

/-- The side of an exchange that a schema describes. Write-only properties belong to requests. -/
inductive Direction where
  | request
  | response
  deriving DecidableEq

/-- An entry of a discriminator's mapping that waits to be written onto the schema it names. -/
structure Tag where
  payload : String
  target : String
  deriving DecidableEq

/-- Tags and warnings in the order in which they were met. -/
structure Queue where
  tags : List Tag
  warnings : List Warning

def Queue.empty : Queue := ⟨[], []⟩

/-- A rewriting that fails keeps what it has queued before. -/
abbrev Rewriting := ExceptT Error (StateM Queue)

namespace Tag

def isNameChar (char : Char) : Bool :=
  char.isAlphanum || char = '.' || char = '_' || char = '-'

/-- Whether a target can be the name of a component rather than a reference. -/
def isSchemaName (target : String) : Bool :=
  !target.isEmpty && target.toList.all isNameChar

/-- The references to try in turn. -/
def candidates (tag : Tag) : List String :=
  (if isSchemaName tag.target then ["#/components/schemas/" ++ tag.target] else []) ++ [tag.target]

end Tag

namespace Schema

/-- Without `oneOf` and `anyOf` a discriminator has nothing left to choose from. -/
def dropAlternatives (members : Members Value) : Members Value :=
  let has := Members.has members "oneOf" || Members.has members "anyOf"
  let rest := Members.erase (Members.erase members "oneOf") "anyOf"
  if has then Members.erase rest "discriminator" else rest

def queueTag (payload : String) (target : Value) : Rewriting Unit :=
  match target with
  | .str target => modify fun queue => { queue with tags := queue.tags ++ [⟨payload, target⟩] }
  | _ => modify fun queue =>
      { queue with warnings := queue.warnings ++ [.invalidMapping payload] }

/-- The entries of a mapping are queued, and the property's name takes the discriminator's
place. -/
def collapseDiscriminator (members : Members Value) : Rewriting (Members Value) := do
  match Members.get? members "discriminator" with
  | some (.obj discriminator) =>
    match Members.get? discriminator "mapping" with
    | some (.obj mapping) => mapping.forM fun entry => queueTag entry.1 entry.2
    | _ => pure ()
    match Members.get? discriminator "propertyName" with
    | some name => return Members.insert members "discriminator" name
    | none => return Members.erase members "discriminator"
  | _ => return members

def isWriteOnly (property : Value) : Bool :=
  (property.get? "writeOnly").any Value.isTrue

/-- Properties that the direction has. -/
def keepProperties (direction : Direction) (properties : Members Value) : Members Value :=
  match direction with
  | .request => properties
  | .response => properties.filter fun property => !isWriteOnly property.2

def withoutWriteOnly : Value → Value
  | .obj members => .obj (Members.erase members "writeOnly")
  | property => property

/-- `nullable` and `deprecated` become extensions; an extension that is there already stays. -/
def renameMarks (members : Members Value) : Members Value :=
  let members :=
    if (Members.get? members "nullable").any Value.isTrue then
      Members.insert (Members.erase members "nullable") "x-nullable" (.bool true)
    else members
  match Members.get? members "deprecated" with
  | some deprecated =>
    Members.insertIfAbsent (Members.erase members "deprecated") "x-deprecated" deprecated
  | none => members

def eachItem (rewrite : String → Value → Rewriting Value) (path : String) :
    Nat → List Value → Rewriting (List Value)
  | _, [] => return []
  | index, item :: rest => do
    let item ← rewrite (path ++ "/allOf/" ++ toString index) item
    return item :: (← eachItem rewrite path (index + 1) rest)

def eachProperty (rewrite : String → Value → Rewriting Value) (path : String) :
    List (String × Value) → Rewriting (List (String × Value))
  | [] => return []
  | (name, property) :: rest => do
    let property ← rewrite (path ++ "/properties/" ++ name) property
    return (name, withoutWriteOnly property) :: (← eachProperty rewrite path rest)

def inParts (rewrite : String → Value → Rewriting Value) (path : String)
    (members : Members Value) : Rewriting (Members Value) := do
  match Members.get? members "allOf" with
  | some (.arr parts) =>
    return Members.insert members "allOf" (.arr (← eachItem rewrite path 0 parts))
  | _ => return members

/-- Goes into the properties of an object and the items of an array, as the type says. -/
def inContent (rewrite : String → Value → Rewriting Value) (direction : Direction)
    (path : String) (members : Members Value) : Rewriting (Members Value) := do
  match Value.textAt? members "type" with
  | some "object" =>
    match Members.get? members "properties" with
    | some (.obj properties) =>
      let kept ← eachProperty rewrite path (keepProperties direction properties)
      return Members.insert members "properties" (.obj kept)
    | _ => return members
  | some "array" =>
    match Members.get? members "items" with
    | some items => return Members.insert members "items" (← rewrite (path ++ "/items") items)
    | none => return members
  | _ => return members

/-- Rewrites a node that may have `levels - 1` more levels of nodes below it. -/
def rewriteWithin (limit : Nat) (direction : Direction) :
    (levels : Nat) → String → Value → Rewriting Value
  | 0, path, _ => throw (.nestingExceeded path limit)
  | levels + 1, path, .obj members => do
    let below := rewriteWithin limit direction levels
    let members ← inParts below path (dropAlternatives members)
    let members ← collapseDiscriminator members
    let members ← inContent below direction path members
    return .obj (renameMarks members)
  | _ + 1, _, value => return value

/-- Rewrites a schema whose nodes are at most `limit` levels below it. -/
def rewrite (limit : Nat) (direction : Direction) (schema : Value) : Rewriting Value :=
  rewriteWithin limit direction (limit + 1) "#" schema

end Schema
end ApiDialect
