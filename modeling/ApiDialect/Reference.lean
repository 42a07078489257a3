import ApiDialect.Error
import ApiDialect.Parse
import ApiDialect.Pointer
import ApiDialect.Url.Basic

/-!
References from one place of a document to another or to a document in a file. Following a
reference is a single step: a target that is a reference itself is handed back as it is.
-/

namespace ApiDialect

/-- The reference that a node consists of, if it does. -/
def Value.reference? (value : Value) : Option String :=
  (value.get? "$ref").bind Value.text?

namespace Reference

/-- A reference without a file stays in its document. -/
def isLocal (reference : String) : Bool :=
  reference.startsWith "#"

/-- Everything that starts like a web address, and every URL whose scheme is no drive letter. -/
def isRemote (names : HostNames) (file : String) : Bool :=
  file.startsWith "http" || (Url.read? names file).any fun url => url.scheme.length > 1

end Reference

def Value.isExternalReference (value : Value) : Bool :=
  value.reference?.any fun reference => !Reference.isLocal reference

/-- Where references of a document lead: to itself, and to files beside it when its directory is
known. -/
structure Resolver where
  directory : Option String
  files : Files

namespace Resolver

/-- The document in a file beside the current one. -/
def load (resolver : Resolver) (reference file : String) : Except Error Value := do
  if Reference.isRemote resolver.files.hostNames file then throw (.unsupportedReference reference)
  match resolver.directory with
  | none => throw (.unsupportedReference reference)
  | some directory =>
    let path := Path.join directory file
    match resolver.files.readText path with
    | .error fault => throw (.unreadableReference path fault)
    | .ok text =>
      match parse? text with
      | none => throw (.malformed file)
      | some document => return document

def walk (reference : String) (document : Value) (fragment : String) : Except Error Value :=
  match document.walk? (Pointer.ofFragment fragment) with
  | some target => .ok target
  | none => .error (.unresolvedReference reference)

theorem walk_eq_ok {reference fragment : String} {document target : Value} :
    walk reference document fragment = .ok target ↔ document.walk? (Pointer.ofFragment fragment) = some target := by
  unfold walk
  cases document.walk? (Pointer.ofFragment fragment) <;> simp

/-- The target of a reference; a file without a fragment is meant as a whole. -/
def follow (resolver : Resolver) (root : Value) (reference : String) : Except Error Value :=
  match Text.strip? "#" reference with
  | some fragment => walk reference root fragment
  | none =>
    match Text.splitOnce? '#' reference with
    | some (file, fragment) => do walk reference (← resolver.load reference file) fragment
    | none => resolver.load reference reference

/-- A node that is no reference stands for itself. -/
def resolve (resolver : Resolver) (root node : Value) : Except Error Value :=
  match node.reference? with
  | some reference => resolver.follow root reference
  | none => .ok node

/-- Fetches the target of a reference into another document and leaves all other nodes alone. -/
def inlineExternal (resolver : Resolver) (root node : Value) : Except Error Value :=
  if node.isExternalReference then resolver.resolve root node else .ok node

end Resolver
end ApiDialect
