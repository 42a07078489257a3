/-!
Tags of nodes. A tag is kept as bytes, because its escapes may spell bytes that are no text, and it
ends before the first byte that is zero.
-/

namespace ApiDialect
namespace Yaml

structure Tag where
  bytes : List UInt8
  deriving DecidableEq, Inhabited

namespace Tag

def ofBytes (bytes : List UInt8) : Tag :=
  ⟨bytes.takeWhile (· ≠ 0)⟩

def ofText (text : String) : Tag :=
  ofBytes text.toUTF8.data.toList

/-- The tag that a handle's text and a suffix make up. -/
def append (beginning suffix : Tag) : Tag :=
  ⟨beginning.bytes ++ suffix.bytes⟩

/-- The exclamation mark on its own. -/
def mark : Tag := ofText "!"

/-- What the names of the core schema begin with. -/
def coreBeginning : Tag := ofText "tag:yaml.org,2002:"

def core (name : String) : Tag :=
  coreBeginning.append (ofText name)

def isLocal (tag : Tag) : Bool :=
  tag.bytes.head? = some 0x21

/-- A local tag that is text names something that a document does not have. -/
def isForeign (tag : Tag) : Bool :=
  tag.isLocal && (String.fromUTF8? ⟨(tag.bytes.drop 1).toArray⟩).isSome

end Tag
end Yaml
end ApiDialect
