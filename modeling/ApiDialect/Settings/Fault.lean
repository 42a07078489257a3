import ApiDialect.Decimal.Notation
import ApiDialect.Text.Quoted

/-!
What is wrong with settings that cannot be used, and how it is said.
-/

namespace ApiDialect

/-- What a setting may be. -/
inductive Expectation where
  | settings
  | name
  | nothing
  | truth
  | count
  deriving DecidableEq

def Expectation.message : Expectation → String
  | .settings => "struct ConversionRequest"
  | .name => "string or map"
  | .nothing => "unit"
  | .truth => "a boolean"
  | .count => "usize"

/-- A value as it is called in a message. Only scalars are shown themselves. -/
def Value.description : Value → String
  | .null => "null"
  | .bool value => "boolean `" ++ toString value ++ "`"
  | .num (.int value) => "integer `" ++ toString value ++ "`"
  | .num (.float bits) => "floating point `" ++ Notation.json.writeFloat bits ++ "`"
  | .str text => "string " ++ Quoted.quote text
  | .arr _ => "sequence"
  | .obj _ => "map"

inductive SettingsFault where
  | wrongType (found : Value) (expected : Expectation)
  | negative (value : Int)
  | unknownName (name : String) (known : List String)
  | notSingle
  | tooMany (count : Nat)
  deriving DecidableEq

private def code (name : String) : String :=
  "`" ++ name ++ "`"

/-- Two names are alternatives, more are a list. -/
private def oneOf : List String → String
  | [first, second] => code first ++ " or " ++ code second
  | names => "one of " ++ String.intercalate ", " (names.map code)

def SettingsFault.message : SettingsFault → String
  | .wrongType found expected =>
    "invalid type: " ++ found.description ++ ", expected " ++ expected.message
  | .negative value =>
    "invalid value: integer " ++ code (toString value) ++ ", expected " ++ Expectation.count.message
  | .unknownName name known => "unknown variant " ++ code name ++ ", expected " ++ oneOf known
  | .notSingle => "invalid value: map, expected map with a single key"
  | .tooMany count =>
    "invalid length " ++ toString count ++ ", expected fewer elements in array"

end ApiDialect
