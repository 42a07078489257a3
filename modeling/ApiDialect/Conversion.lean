import ApiDialect.Discriminator
import ApiDialect.RequestBody
import ApiDialect.Response
import ApiDialect.Server

/-!
From one dialect to the other. Path items are converted one by one and written back, then the
components move, then what waits for the new layout is done.
-/

namespace ApiDialect

structure Converted where
  document : Value
  warnings : List Warning
  deriving DecidableEq

namespace Conversion

inductive Method where
  | get
  | put
  | post
  | delete
  | options
  | head
  | patch
  | trace
  deriving DecidableEq

namespace Method

/-- In the order in which operations are converted. -/
def all : List Method := [.get, .put, .post, .delete, .options, .head, .patch, .trace]

def key : Method → String
  | .get => "get"
  | .put => "put"
  | .post => "post"
  | .delete => "delete"
  | .options => "options"
  | .head => "head"
  | .patch => "patch"
  | .trace => "trace"

def ofKey? (key : String) : Option Method :=
  all.find? (·.key = key)

/-- The name by which a method goes in a message. -/
def title (method : Method) : String :=
  method.key.toUpper

end Method

/-- How references are followed and how deep schemas may be. -/
structure Setting where
  resolver : Resolver
  limit : Nat

namespace Setting
variable (setting : Setting)

def hostNames : HostNames :=
  setting.resolver.files.hostNames

def operation (root : Value) (members : Members Value) : Rewriting (Members Value) := do
  let body : RequestBody.Setting := ⟨setting.resolver, setting.limit, root⟩
  let response : Response.Setting := ⟨setting.resolver, setting.limit, root⟩
  response.rewriteResponses (← body.rewriteOperation members)

/-- An operation that is a reference is replaced by its target, whatever that is. -/
def operationNode (root node : Value) : Rewriting Value := do
  let target : Value ← setting.resolver.resolve root node
  match target with
  | .obj members => return .obj (← setting.operation root members)
  | other => return other

def method (root : Value) (item : Members Value) (method : Method) :
    Rewriting (Members Value) := do
  match Members.get? item method.key with
  | none => return item
  | some node => return Members.insert item method.key (← setting.operationNode root node)

def pathItem (root node : Value) : Rewriting Value := do
  let target : Value ← setting.resolver.resolve root node
  match target with
  | .obj item =>
    let item ← Parameter.rewriteAll setting.resolver root item
    return .obj (← Method.all.foldlM (setting.method root) item)
  | other => return other

def pathsOf (document : Members Value) : Members Value :=
  match Members.get? document "paths" with
  | some (.obj paths) => paths
  | _ => []

/-- Converts the item under a path. Later references see what it has become. -/
def path (document : Members Value) (path : String) : Rewriting (Members Value) := do
  match Members.get? (pathsOf document) path with
  | none => return document
  | some node =>
    let item ← setting.pathItem (.obj document) node
    return Members.modify document "paths" fun _ =>
      .obj (Members.insert (pathsOf document) path item)

def paths (document : Members Value) : Rewriting (Members Value) :=
  (pathsOf document).names.foldlM setting.path document

/-- The document up to the point where only references have to be put right. -/
def layout (document : Members Value) : Rewriting (Members Value × Bool) := do
  let document := Members.insert document "swagger" (.str "2.0")
  let document ← setting.paths (Server.rewrite setting.hostNames document)
  Relocation.components setting.limit document

def finish (document : Members Value) (relocated : Bool) (queue : Queue) : Converted :=
  let discriminator : Discriminator.Setting := ⟨setting.resolver, relocated⟩
  let (marked, unresolved) := discriminator.applyAll (.obj document) queue.tags
  ⟨if relocated then Relocation.references marked else marked, queue.warnings ++ unresolved⟩

/-- Converts a whole document. Nothing but an object is one. -/
def convert (document : Value) : Except Error Converted :=
  match document with
  | .obj members =>
    match (setting.layout members).run.run .empty with
    | (.ok (members, relocated), queue) => .ok (setting.finish members relocated queue)
    | (.error error, _) => .error error
  | _ => .error (.otherDialect "document root" .openApi3)

end Setting
end Conversion
end ApiDialect
