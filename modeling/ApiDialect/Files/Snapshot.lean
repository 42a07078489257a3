import ApiDialect.Files.Basic
import ApiDialect.Members

/-!
Files as they were found at some moment. A path that was not looked at counts as absent.
-/

namespace ApiDialect

/-- What a path has led to. -/
abbrev Snapshot := Members (Except FileFault ByteArray)

namespace Snapshot

/-- Something that cannot be read may still be there. -/
private def isThere : Except FileFault ByteArray → Bool
  | .ok _ => true
  | .error .notFound | .error .notDirectory | .error .nameTooLong | .error .nameWithNul => false
  | .error _ => true

def files (snapshot : Snapshot) : Files where
  readText := fun path =>
    match Members.get? snapshot path with
    | some found => do decodeText (← found)
    | none => .error .notFound
  exists? := fun path => (Members.get? snapshot path).any isThere

/-- The texts that were found, whatever they hold. -/
def texts (snapshot : Snapshot) : List String :=
  snapshot.filterMap fun entry =>
    match entry.2 with
    | .ok content => String.fromUTF8? content
    | .error _ => none

end Snapshot
end ApiDialect
