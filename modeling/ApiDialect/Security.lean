import ApiDialect.Error
import ApiDialect.Value

/-!
Security schemes. A bearer token has no scheme of its own in the older dialect and is described as
a key in a header; of several flows only the first is kept.
-/

namespace ApiDialect
namespace Security

inductive Kind where
  | basic
  | bearer
  | oauth2
  | other
  deriving DecidableEq

def Kind.of (scheme : Members Value) : Kind :=
  match Value.textAt? scheme "type", Value.textAt? scheme "scheme" with
  | some "http", some "basic" => .basic
  | some "http", some "bearer" => .bearer
  | some "oauth2", _ => .oauth2
  | _, _ => .other

/-- The older name of a flow. -/
def flowName (flow : String) : String :=
  match flow with
  | "clientCredentials" => "application"
  | "authorizationCode" => "accessCode"
  | _ => flow

def basic (scheme : Members Value) : Members Value :=
  Members.erase (Members.insert scheme "type" (.str "basic")) "scheme"

def bearer (scheme : Members Value) : Members Value :=
  let scheme := Members.insert scheme "type" (.str "apiKey")
  let scheme := Members.insert scheme "name" (.str "Authorization")
  let scheme := Members.insert scheme "in" (.str "header")
  Members.erase (Members.erase scheme "scheme") "bearerFormat"

/-- Puts what the flow says in the place of what the scheme said. -/
def takeFromFlow (flow : Value) (scheme : Members Value) (key : String) : Members Value :=
  let scheme := Members.erase scheme key
  match flow.get? key with
  | some value => Members.insert scheme key value
  | none => scheme

def firstFlow (scheme : Members Value) : Except FlowFault (String × Value) :=
  match Members.get? scheme "flows" with
  | none => .error .missing
  | some (.obj []) => .error .empty
  | some (.obj (flow :: _)) => .ok flow
  | some _ => .error .notMapping

def oauth2 (scheme : Members Value) : Except FlowFault (Members Value) := do
  let (name, flow) ← firstFlow scheme
  let scheme := Members.insert (Members.erase scheme "flows") "flow" (.str (flowName name))
  return ["authorizationUrl", "tokenUrl", "scopes"].foldl (takeFromFlow flow) scheme

def rewrite (name : String) (scheme : Members Value) : Except Error (Members Value) :=
  match Kind.of scheme with
  | .basic => .ok (basic scheme)
  | .bearer => .ok (bearer scheme)
  | .oauth2 => (oauth2 scheme).mapError (.invalidSecurityScheme name)
  | .other => .ok scheme

def rewriteEntry (entry : String × Value) : Except Error (String × Value) := do
  match entry.2 with
  | .obj scheme => return (entry.1, .obj (← rewrite entry.1 scheme))
  | _ => return entry

/-- Schemes in order; the first that cannot be rewritten decides. -/
def rewriteAll (schemes : Members Value) : Except Error (Members Value) :=
  schemes.mapM rewriteEntry

end Security
end ApiDialect
