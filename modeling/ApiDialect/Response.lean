import ApiDialect.MediaType
import ApiDialect.Reference
import ApiDialect.Schema

/-!
Responses with one schema each. What their contents had to say about media types goes to the
operation, examples go to a table by media type, and headers carry their type themselves.
-/

namespace ApiDialect
namespace Response

/-- What the entries of a response's content add up to, read in order. -/
structure Folded where
  produced : List String
  first : Option Value
  json : Option Value
  shown : List (String × Value)

def presentAt? (media : Value) (name : String) : Option Value :=
  (media.get? name).filter fun value => !value.isNull

/-- Appends an element that is not in the list yet. -/
def addNew (list : List String) (element : String) : List String :=
  if element ∈ list then list else list ++ [element]

def foldEntry (folded : Folded) (entry : String × Value) : Folded :=
  let mediaType := MediaType.produced entry.1
  let schema := presentAt? entry.2 "schema"
  { produced := addNew folded.produced mediaType
    first := folded.first.or schema
    json := folded.json.or (if MediaType.isJson mediaType then schema else none)
    shown := folded.shown ++ ((presentAt? entry.2 "example").map (mediaType, ·)).toList }

/-- The schema of the first JSON content serves, else the first schema of all. -/
def Folded.schema? (folded : Folded) : Option Value :=
  folded.json.or folded.first

def foldContent (produced : List String) (content : Members Value) : Folded :=
  content.foldl foldEntry ⟨produced, none, none, []⟩

/-- An example is added to the examples, unless those are no mapping. -/
def addExample (response : Members Value) (entry : String × Value) : Members Value :=
  let response := Members.insertIfAbsent response "examples" (.obj [])
  match Members.get? response "examples" with
  | some (.obj examples) =>
    Members.insert response "examples" (.obj (Members.insert examples entry.1 entry.2))
  | _ => response

/-- A header takes type and format from its schema, also when the schema has none. -/
def flattenHeader (header : Members Value) : Members Value :=
  match Members.get? header "schema" with
  | none => header
  | some schema =>
    let header := Members.erase (Members.erase (Members.erase header "schema") "type") "format"
    ["type", "format"].foldl (fun header key =>
      match schema.get? key with
      | some value => Members.insert header key value
      | none => header) header

def rewriteHeader (resolver : Resolver) (root : Value) (entry : String × Value) :
    Except Error (String × Value) := do
  match (← resolver.resolve root entry.2) with
  | .obj header => return (entry.1, .obj (flattenHeader header))
  | other => return (entry.1, other)

def rewriteHeaders (resolver : Resolver) (root : Value) (response : Members Value) :
    Except Error (Members Value) := do
  match Members.get? response "headers" with
  | some (.obj headers) =>
    let rewritten ← headers.mapM (rewriteHeader resolver root)
    return Members.insert response "headers" (.obj rewritten)
  | _ => return response

/-- Whose responses are rewritten: references lead from `root` on, and schemas are limited. -/
structure Setting where
  resolver : Resolver
  limit : Nat
  root : Value

namespace Setting
variable (setting : Setting)

def setSchema (response : Members Value) (schema : Option Value) :
    Rewriting (Members Value) := do
  match schema with
  | none => return response
  | some schema =>
    let schema ← setting.resolver.inlineExternal setting.root schema
    let schema ← Schema.rewrite setting.limit .response schema
    return Members.insert response "schema" schema

def foldInto (produced : List String) (response : Members Value) :
    Rewriting (List String × Members Value) := do
  match Members.get? response "content" with
  | none => return (produced, response)
  | some content =>
    let response := Members.erase response "content"
    match content with
    | .obj content =>
      let folded := foldContent produced content
      let response := folded.shown.foldl addExample response
      return (folded.produced, ← setting.setSchema response folded.schema?)
    | _ => return (produced, response)

/-- Rewrites one response and adds its media types to those produced so far. -/
def rewriteNode (produced : List String) (node : Value) : Rewriting (List String × Value) := do
  match (← setting.resolver.resolve setting.root node) with
  | .obj response =>
    let (produced, response) ← setting.foldInto produced response
    let response ← rewriteHeaders setting.resolver setting.root response
    return (produced, .obj response)
  | other => return (produced, other)

def rewriteEach (produced : List String) :
    List (String × Value) → Rewriting (List String × List (String × Value))
  | [] => return (produced, [])
  | (status, node) :: rest => do
    let (produced, response) ← setting.rewriteNode produced node
    let (produced, rest) ← rewriteEach produced rest
    return (produced, (status, response) :: rest)

def declared (operation : Members Value) : List String :=
  match Members.get? operation "produces" with
  | some (.arr types) => (Value.texts types).foldl addNew []
  | _ => []

/-- Rewrites what comes out of an operation. The media types of all responses join those that the
operation has declared. -/
def rewriteResponses (operation : Members Value) : Rewriting (Members Value) := do
  match Members.get? operation "responses" with
  | some (.obj responses) =>
    let (produced, responses) ← setting.rewriteEach (declared operation) responses
    let operation := Members.insert operation "responses" (.obj responses)
    if produced.isEmpty then return operation
    else return Members.insert operation "produces" (.arr (produced.map .str))
  | _ => return operation

end Setting
end Response
end ApiDialect
