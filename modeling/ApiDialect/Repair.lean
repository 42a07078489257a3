import ApiDialect.Decimal.Notation
import ApiDialect.Dialect
import ApiDialect.Text.Search

/-!
Small mistakes that authors make in the older dialect, and their repair. A repaired document needs
no further repair.
-/

namespace ApiDialect
namespace Repair

def collapse : List Char → List Char
  | '/' :: '/' :: rest => collapse ('/' :: rest)
  | char :: rest => char :: collapse rest
  | [] => []

def withoutLastSlash (path : List Char) : List Char :=
  if path.getLast? = some '/' then path.dropLast else path

/-- A base path without empty segments; the shortest one is a single slash. -/
def basePath (path : String) : String :=
  let kept := withoutLastSlash (collapse path.toList)
  if kept.isEmpty then "/" else String.ofList kept

def versionIn (info : Value) : Value :=
  match info with
  | .obj members =>
    match Members.get? members "version" with
    | some (.num version) => .obj (Members.insert members "version" (.str version.versionText))
    | _ => info
  | _ => info

def basePathIn : Value → Value
  | .str path => .str (basePath path)
  | other => other

def withoutId (definition : String × Value) : String × Value :=
  match definition with
  | (name, .obj members) => (name, .obj (Members.erase members "id"))
  | other => other

def idsIn : Value → Value
  | .obj definitions => .obj (definitions.map withoutId)
  | other => other

/-- Versions become texts, base paths are tidied, and definitions lose the member `id`. -/
def members (document : Members Value) : Members Value :=
  let document := Members.modify document "info" versionIn
  let document := Members.modify document "basePath" basePathIn
  Members.modify document "definitions" idsIn

end Repair

/-- Only documents of the older dialect are repaired. -/
def Dialect.repair (dialect : Dialect) (document : Value) : Value :=
  match dialect, document with
  | .swagger2, .obj members => .obj (Repair.members members)
  | _, _ => document

end ApiDialect
