import ApiDialect.Decimal.Notation
import ApiDialect.Dialect
import ApiDialect.Text.Search

/-!
Which dialect a document is written in, and which version of it. A document belongs to a dialect
when it names the dialect's family, whatever version it gives there.
-/

namespace ApiDialect
namespace Dialect

/-- The versions of a dialect that can be read. -/
def versions : Dialect → List String
  | .openApi3 => ["3.0"]
  | .swagger2 => ["2.0"]

def describes (dialect : Dialect) (document : Value) : Bool :=
  (document.get? dialect.family).isSome

/-- A version is compared in full, or without what follows its second part. -/
def shorten (dialect : Dialect) (version : String) : String :=
  match dialect with
  | .openApi3 => String.intercalate "." ((Text.split '.' version).take 2)
  | .swagger2 => version

/-- The version of a document, when it is a text or a number. -/
def version? (dialect : Dialect) (document : Value) : Option String :=
  match document.get? dialect.family with
  | some (.str version) => some (dialect.shorten version)
  | some (.num version) => some (dialect.shorten (Notation.json.write version))
  | _ => none

end Dialect
end ApiDialect
