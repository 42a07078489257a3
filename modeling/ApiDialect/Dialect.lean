/-!
The two dialects in which an API can be described.
-/

namespace ApiDialect

inductive Dialect where
  | openApi3
  | swagger2
  deriving DecidableEq, Inhabited

namespace Dialect

def all : List Dialect := [.openApi3, .swagger2]

def name : Dialect → String
  | .openApi3 => "openapi_3"
  | .swagger2 => "swagger_2"

def ofName? (name : String) : Option Dialect :=
  all.find? (·.name = name)

/-- The word under which a document gives its version, which is also the family of the dialect. -/
def family : Dialect → String
  | .openApi3 => "openapi"
  | .swagger2 => "swagger"

theorem ofName?_name (dialect : Dialect) : ofName? dialect.name = some dialect := by
  cases dialect <;> decide

end Dialect
end ApiDialect
