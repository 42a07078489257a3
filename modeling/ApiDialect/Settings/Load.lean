import ApiDialect.Error
import ApiDialect.Parse
import ApiDialect.Settings.Basic

/-!
Settings from a file. Without the file everything has its default.
-/

namespace ApiDialect
namespace Settings

/-- Settings from the text of a file that is called `path`. -/
def ofText (path text : String) : Except Error Settings :=
  match parse? text with
  | some value => (ofValue value).mapError .invalidSettings
  | none => .error (.malformed path)

def load (files : Files) (path : String) : Except Error Settings :=
  if files.exists? path then
    match files.readText path with
    | .ok text => ofText path text
    | .error fault => .error (.fileFault fault)
  else .ok {}

end Settings
end ApiDialect
