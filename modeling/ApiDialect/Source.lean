import ApiDialect.Registry

/-!
Where a document comes from, and what is asked of it before it is worked on: it has to be readable,
of the expected dialect and of a version that is supported.
-/

namespace ApiDialect

inductive Source where
  | object (document : Value)
  | file (path : String)
  | text (content : String)
  deriving DecidableEq

namespace Source

private def looksLikePath (input : String) : Bool :=
  input.startsWith "./" || input.startsWith "../" || !Text.occurs "://" input

/-- Input that leads to a file, looks like a path or holds no web address is taken for a file. -/
def detect (files : Files) (input : String) : Source :=
  if files.exists? input || looksLikePath input then .file input else .text input

/-- How a source is called in a message. -/
def origin : Source → String
  | .object _ => "object"
  | .file path => "file " ++ path
  | .text _ => "string"

def path? : Source → Option String
  | .file path => some path
  | _ => none

def parse (origin text : String) : Except Error Value :=
  match parse? text with
  | some document => .ok document
  | none => .error (.malformed origin)

/-- The document itself, before anything is asked of it. -/
def document (files : Files) : Source → Except Error Value
  | .object document => .ok document
  | .text content => parse "input" content
  | .file path =>
    match files.readText path with
    | .ok content => parse path content
    | .error fault => .error (.unreadableSource path fault)

end Source

/-- A document that has passed its checks. -/
structure Loaded where
  dialect : Dialect
  document : Value
  path : Option String
  deriving DecidableEq

namespace Loaded

/-- Relative references start from the directory that holds the document. -/
def directory (loaded : Loaded) : Option String :=
  loaded.path.bind Path.parent?

def checkVersion (dialect : Dialect) (document : Value) : Except Error Unit :=
  let version := (dialect.version? document).getD ""
  if dialect.versions.contains version then .ok ()
  else .error (.unsupportedVersion dialect version)

/-- Loads a document. It is repaired before its version is looked at. -/
def load (registry : Registry) (files : Files) (source : Source) (dialect : Dialect) :
    Except Error Loaded := do
  registry.require dialect
  let document ← source.document files
  if !dialect.describes document then throw (.otherDialect source.origin dialect)
  let document := dialect.repair document
  checkVersion dialect document
  return ⟨dialect, document, source.path?⟩

/-- Fills what the document leaves out. -/
def fill (loaded : Loaded) (placeholders : Value) : Loaded :=
  { loaded with document := loaded.document.fill placeholders }

/-- Converts a document and repairs the outcome. In its own dialect it stays as it is. -/
def convert (registry : Registry) (files : Files) (limit : Nat) (target : Dialect)
    (loaded : Loaded) : Except Error Converted := do
  if target = loaded.dialect then return ⟨loaded.document, []⟩
  registry.require loaded.dialect
  let setting : Conversion.Setting := ⟨⟨loaded.directory, files⟩, limit⟩
  let converted ← loaded.dialect.convert target setting loaded.document
  registry.require target
  return { converted with document := target.repair converted.document }

end Loaded
end ApiDialect
