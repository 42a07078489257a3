import ApiDialect.Reference

/-!
Parameters with their constraints on themselves: what one dialect says in a nested schema and a
style, the other says beside the parameter's name and in one word about collections.
-/

namespace ApiDialect
namespace Parameter

inductive Location where
  | path
  | query
  | header
  | cookie
  | body
  | formData
  deriving DecidableEq

namespace Location

def all : List Location := [.path, .query, .header, .cookie, .body, .formData]

def name : Location → String
  | .path => "path"
  | .query => "query"
  | .header => "header"
  | .cookie => "cookie"
  | .body => "body"
  | .formData => "formData"

def ofName? (name : String) : Option Location :=
  all.find? (·.name = name)

end Location

/-- The ways in which an array is written as text. -/
inductive Style where
  | matrix
  | label
  | simple
  | spaceDelimited
  | pipeDelimited
  | deepObject
  | form
  deriving DecidableEq

namespace Style

def all : List Style :=
  [.matrix, .label, .simple, .spaceDelimited, .pipeDelimited, .deepObject, .form]

def name : Style → String
  | .matrix => "matrix"
  | .label => "label"
  | .simple => "simple"
  | .spaceDelimited => "spaceDelimited"
  | .pipeDelimited => "pipeDelimited"
  | .deepObject => "deepObject"
  | .form => "form"

def ofName? (name : String) : Option Style :=
  all.find? (·.name = name)

/-- The word for a style; an unset `explode` counts as false. -/
def collectionFormat? (style : Style) (explode : Option Bool) : Option String :=
  match style, explode == some true with
  | .matrix, false => some "csv"
  | .matrix, true => none
  | .label, _ => none
  | .simple, _ => some "csv"
  | .spaceDelimited, _ => some "ssv"
  | .pipeDelimited, _ => some "pipes"
  | .deepObject, _ => some "multi"
  | .form, true => some "multi"
  | .form, false => some "csv"

/-- The style of a parameter that names none. -/
def atLocation : Option Location → Style
  | some .query | some .cookie => .form
  | _ => .simple

end Style

/-- The word for a style given by name; an unknown style has none. -/
def collectionFormat? (style : String) (explode : Option Bool) : Option String :=
  (Style.ofName? style).bind fun style => style.collectionFormat? explode

/-- Keywords that a parameter takes over from its schema. -/
def hoisted : List String :=
  ["format", "minimum", "maximum", "exclusiveMinimum", "exclusiveMaximum", "minLength",
    "maxLength", "multipleOf", "minItems", "maxItems", "uniqueItems", "minProperties",
    "maxProperties", "additionalProperties", "pattern", "enum", "default", "type", "items"]

/-- `additionalProperties` is taken over only as a schema. -/
def isHoisted (key : String) (value : Value) : Bool :=
  !(key = "additionalProperties" && value.bool?.isSome)

def hoistKey (schema : Members Value) (parameter : Members Value) (key : String) :
    Members Value :=
  match Members.get? schema key with
  | some value => if isHoisted key value then Members.insert parameter key value else parameter
  | none => parameter

def hoistExtension (parameter : Members Value) (entry : String × Value) : Members Value :=
  if entry.1.startsWith "x-" then Members.insertIfAbsent parameter entry.1 entry.2 else parameter

def isPresentText (value : Option Value) : Bool :=
  (value.bind Value.text?).any fun text => !text.isEmpty

/-- A description of the schema serves where the parameter has none. -/
def hoistDescription (schema parameter : Members Value) : Members Value :=
  if isPresentText (Members.get? parameter "description") then parameter
  else
    match Members.get? schema "description" with
    | some description =>
      if isPresentText (some description) then Members.insert parameter "description" description
      else parameter
    | none => parameter

/-- Constraints of the schema replace those of the parameter; its extensions give way. -/
def hoist (schema parameter : Members Value) : Members Value :=
  let parameter := hoisted.foldl (hoistKey schema) parameter
  hoistDescription schema (schema.foldl hoistExtension parameter)

def location? (parameter : Members Value) : Option Location :=
  (Value.textAt? parameter "in").bind Location.ofName?

def renameExample (parameter : Members Value) : Members Value :=
  match Members.get? parameter "example" with
  | some shown => Members.insert (Members.erase parameter "example") "x-example" shown
  | none => parameter

/-- Everything but a body gives up its schema. -/
def flatten (resolver : Resolver) (root : Value) (parameter : Members Value) :
    Except Error (Members Value) := do
  let schema ← (Members.get? parameter "schema").mapM (resolver.resolve root)
  let parameter := match schema with
    | some (.obj schema) => hoist schema parameter
    | _ => parameter
  return renameExample (Members.erase (Members.erase parameter "schema") "allowReserved")

def setCollectionFormat (style : Style) (parameter : Members Value) : Members Value :=
  let explode := (Members.get? parameter "explode").bind Value.bool?
  let parameter := Members.erase parameter "collectionFormat"
  match style.collectionFormat? explode with
  | some word => Members.insert parameter "collectionFormat" (.str word)
  | none => parameter

/-- Arrays say how they are written, unless their style is unknown. -/
def formatCollection (location : Option Location) (parameter : Members Value) :
    Members Value :=
  if Value.textAt? parameter "type" = some "array" then
    let style := match Value.textAt? parameter "style" with
      | some name => Style.ofName? name
      | none => some (Style.atLocation location)
    match style with
    | some style => setCollectionFormat style parameter
    | none => parameter
  else parameter

def rewrite (resolver : Resolver) (root : Value) (parameter : Members Value) :
    Except Error (Members Value) := do
  let location := location? parameter
  let parameter ←
    if location = some .body then pure parameter else flatten resolver root parameter
  let parameter := formatCollection location parameter
  return Members.erase (Members.erase parameter "style") "explode"

/-- A referenced parameter is replaced by its target first. -/
def rewriteNode (resolver : Resolver) (root node : Value) : Except Error Value := do
  match (← resolver.resolve root node) with
  | .obj parameter => return .obj (← rewrite resolver root parameter)
  | other => return other

/-- Rewrites the list of parameters of a path item or an operation that has one. -/
def rewriteAll (resolver : Resolver) (root : Value) (owner : Members Value) :
    Except Error (Members Value) := do
  match Members.get? owner "parameters" with
  | some (.arr parameters) =>
    let rewritten ← parameters.mapM (rewriteNode resolver root)
    return Members.insert owner "parameters" (.arr rewritten)
  | _ => return owner

end Parameter
end ApiDialect
