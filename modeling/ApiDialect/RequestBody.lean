import ApiDialect.MediaType
import ApiDialect.Parameter
import ApiDialect.Schema

/-!
Request bodies as parameters: one that holds the whole body, or one for each property of a form.
-/

namespace ApiDialect
namespace RequestBody

def isReadOnly (property : Value) : Bool :=
  (property.get? "readOnly").any Value.isTrue

def formParameter (required : List String) (entry : String × Value) : Value :=
  let parameter : Members Value :=
    [("name", .str entry.1), ("in", .str "formData"), ("schema", entry.2)]
  .obj (if entry.1 ∈ required then parameter ++ [("required", .bool true)] else parameter)

/-- One parameter for every property that can be sent; only objects with properties have any. -/
def formParameters? (schema : Value) : Option (List Value) := do
  let members ← schema.members?
  if Value.textAt? members "type" ≠ some "object" then none
  else
    let properties ← (Members.get? members "properties").bind Value.members?
    let required := (((Members.get? members "required").bind Value.items?).map Value.texts).getD []
    return (properties.filter fun entry => !isReadOnly entry.2).map (formParameter required)

/-- The media types that a request may have: all media ranges without a wildcard. -/
def consumed (content : Members Value) : List Value :=
  (content.names.filter fun key => MediaType.isRange key && !MediaType.isWildcard key).map .str

def binary : Value :=
  .obj [("type", .str "string"), ("format", .str "binary")]

def schemaAt? (content : Members Value) (key : String) : Option Value :=
  (Members.get? content key).bind (·.get? "schema")

/-- What is needed to turn the content of a body into parameters. -/
structure Setting where
  resolver : Resolver
  limit : Nat
  root : Value

namespace Setting
variable (setting : Setting)

def asForm (parameter : Members Value) (schema : Option Value) : Rewriting (List Value) := do
  let parameter := Members.insert parameter "in" (.str "formData")
  match schema with
  | none => return [.obj parameter]
  | some schema =>
    let schema ← setting.resolver.resolve setting.root schema
    let schema ← Schema.rewrite setting.limit .request schema
    match formParameters? schema with
    | some parameters => return parameters
    | none => return [.obj (Members.insert parameter "schema" schema)]

def asJson (parameter : Members Value) (schema : Option Value) : Rewriting (List Value) := do
  let parameter := Members.insert parameter "in" (.str "body")
  match schema with
  | none => return [.obj parameter]
  | some schema =>
    let schema ← Schema.rewrite setting.limit .request schema
    return [.obj (Members.insert parameter "schema" schema)]

def asBytes (parameter : Members Value) (schema : Option Value) :
    Rewriting (List Value) := do
  let parameter := Members.erase (Members.insert parameter "in" (.str "body")) "type"
  let schema ← Schema.rewrite setting.limit .request (schema.getD binary)
  return [.obj (Members.insert parameter "schema" schema)]

/-- The parameters that stand for the content of a body. -/
def parameters (body content : Members Value) (key : String) (kind : MediaType.BodyKind) :
    Rewriting (List Value) := do
  let schema ← (schemaAt? content key).mapM (setting.resolver.inlineExternal setting.root ·)
  match kind with
  | .form => setting.asForm body schema
  | .json => setting.asJson body schema
  | .other => setting.asBytes body schema

def append (operation : Members Value) (parameters : List Value) : Members Value :=
  match Members.get? operation "parameters" with
  | some (.arr existing) => Members.insert operation "parameters" (.arr (existing ++ parameters))
  | _ => operation

/-- The body of an operation becomes parameters behind the existing ones. A body without content
is dropped. -/
def replaceBody (operation : Members Value) : Rewriting (Members Value) := do
  match Members.get? operation "requestBody" with
  | none => return operation
  | some node =>
    let operation := Members.erase operation "requestBody"
    let target : Value ← setting.resolver.resolve setting.root node
    let body := Members.insert (target.members?.getD []) "name" (.str "body")
    match Members.get? body "content" with
    | some (.obj content) =>
      match MediaType.preferred? content with
      | none => return operation
      | some (key, kind) =>
        let operation := Members.insert operation "consumes" (.arr (consumed content))
        let body := Members.erase body "content"
        return append operation (← setting.parameters body content key kind)
    | _ => return operation

def withParameters (operation : Members Value) : Members Value :=
  match Members.get? operation "parameters" with
  | some (.arr _) => operation
  | _ => Members.insert operation "parameters" (.arr [])

/-- Rewrites what goes into an operation. It has a list of parameters afterwards. -/
def rewriteOperation (operation : Members Value) : Rewriting (Members Value) := do
  let operation ← setting.replaceBody (withParameters operation)
  Parameter.rewriteAll setting.resolver setting.root operation

end Setting
end RequestBody
end ApiDialect
