import ApiDialect.Json.Reader
import ApiDialect.Yaml.Reader

/-!
Documents from text. Text that is no JSON is read as YAML.
-/

namespace ApiDialect

def parse? (text : String) : Option Value :=
  (Json.read text).or (Yaml.read text)

end ApiDialect
