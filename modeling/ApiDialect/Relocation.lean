import ApiDialect.Schema
import ApiDialect.Security

/-!
Components in their older places. Schemas and security schemes get sections of their own, the rest
is kept together, and references follow.
-/

namespace ApiDialect
namespace Relocation

/-- Where a reference leads after its target has moved. Schemas move to the definitions. -/
def reference (text : String) : String :=
  Text.replaceFirst "#/components/" "#/x-components/"
    (Text.replaceFirst "#/components/schemas/" "#/definitions/" text)

def member (name : String) (value relocated : Value) : Value :=
  match value with
  | .str text => if name = "$ref" then .str (reference text) else value
  | _ => relocated

mutual
/-- Relocates every reference of a tree. -/
def references : Value → Value
  | .arr items => .arr (referencesOfItems items)
  | .obj members => .obj (referencesOfMembers members)
  | value => value
termination_by structural value => value

def referencesOfItems : List Value → List Value
  | [] => []
  | item :: rest => references item :: referencesOfItems rest
termination_by structural items => items

def referencesOfMembers : List (String × Value) → List (String × Value)
  | [] => []
  | (name, value) :: rest =>
    (name, member name value (references value)) :: referencesOfMembers rest
termination_by structural members => members
end

/-- Shared schemas are rewritten once, as those of responses. -/
def rewriteDefinition (limit : Nat) (entry : String × Value) :
    Rewriting (String × Value) := do
  return (entry.1, ← Schema.rewrite limit .response entry.2)

def definitions (limit : Nat) : Value → Rewriting Value
  | .obj schemas => do return .obj (← schemas.mapM (rewriteDefinition limit))
  | other => return other

def securityDefinitions : Value → Except Error Value
  | .obj schemes => do return .obj (← Security.rewriteAll schemes)
  | other => return other

def moveSchemas (limit : Nat) (document components : Members Value) :
    Rewriting (Members Value × Members Value) := do
  match Members.get? components "schemas" with
  | some schemas =>
    let moved ← definitions limit schemas
    return (Members.insert document "definitions" moved, Members.erase components "schemas")
  | none => return (document, components)

def moveSecurity (document components : Members Value) :
    Except Error (Members Value × Members Value) := do
  match Members.get? components "securitySchemes" with
  | some schemes =>
    let moved ← securityDefinitions schemes
    return (Members.insert document "securityDefinitions" moved,
      Members.erase components "securitySchemes")
  | none => return (document, components)

/-- Moves the components of a document and says whether there were any. Components that are no
mapping stay, at the end of the document. -/
def components (limit : Nat) (document : Members Value) : Rewriting (Members Value × Bool) := do
  match Members.get? document "components" with
  | none => return (document, false)
  | some (.obj components) =>
    let document := Members.erase document "components"
    let (document, components) ← moveSchemas limit document components
    let (document, components) ← moveSecurity document components
    return (Members.insert document "x-components" (.obj components), true)
  | some other =>
    return (Members.insert (Members.erase document "components") "components" other, false)

end Relocation
end ApiDialect
