import ApiDialect.Files.Path
import ApiDialect.Url.HostName

/-!
What a conversion can see around it: the text or the fault that a path leads to in a file system, and
the tables by which names of hosts are written in ASCII.
-/

namespace ApiDialect

inductive FileFault where
  | notFound
  | notDirectory
  | isDirectory
  | nameTooLong
  | nameWithNul
  | notText
  | other (message : String)
  deriving DecidableEq, Inhabited

def FileFault.message : FileFault → String
  | .notFound => "No such file or directory (os error 2)"
  | .notDirectory => "Not a directory (os error 20)"
  | .isDirectory => "Is a directory (os error 21)"
  | .nameTooLong => "File name too long (os error 36)"
  | .nameWithNul => "file name contained an unexpected NUL byte"
  | .notText => "stream did not contain valid UTF-8"
  | .other message => message

/-- Paths are relative to the directory in which the program runs. -/
structure Files where
  readText : String → Except FileFault String
  exists? : String → Bool
  hostNames : HostNames := .settled

namespace Files

/-- No file anywhere. -/
def none : Files where
  readText := fun _ => .error .notFound
  exists? := fun _ => false

end Files

/-- Bytes as text, when they are UTF-8. -/
def decodeText (bytes : ByteArray) : Except FileFault String :=
  match String.fromUTF8? bytes with
  | some text => .ok text
  | none => .error .notText

end ApiDialect
