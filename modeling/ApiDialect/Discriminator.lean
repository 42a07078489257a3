import ApiDialect.Reference
import ApiDialect.Relocation

/-!
Discriminator values on the schemas that a mapping names. They are written when all references
have reached their final places, so a mapping is followed in the new layout.
-/

namespace ApiDialect
namespace Discriminator

/-- The value under both names by which it is looked up. -/
def mark (payload : String) : Value → Value
  | .obj members =>
    .obj (Members.insert (Members.insert members "x-discriminator-value" (.str payload))
      "x-ms-discriminator-value" (.str payload))
  | value => value

def markAt? (payload fragment : String) (document : Value) : Option Value :=
  let pointer := Pointer.ofFragment fragment
  match document.walk? pointer with
  | some (.obj _) => document.modifyAt? (mark payload) pointer
  | _ => none

/-- What is needed to find the target of a mapping. -/
structure Setting where
  resolver : Resolver
  relocated : Bool

/-- The document with a candidate marked, when the candidate is a schema of it. Schemas of other
documents only have to be there. -/
def Setting.place? (setting : Setting) (payload : String) (document : Value) (candidate : String) :
    Option Value :=
  if Reference.isLocal candidate then
    let reference := if setting.relocated then Relocation.reference candidate else candidate
    (Text.strip? "#" reference).bind fun fragment => markAt? payload fragment document
  else
    match setting.resolver.follow document candidate with
    | .ok _ => some document
    | .error _ => none

/-- The first candidate that leads to a schema counts; a tag without one is reported. -/
def Setting.apply (setting : Setting) (state : Value × List Warning) (tag : Tag) :
    Value × List Warning :=
  match tag.candidates.findSome? (setting.place? tag.payload state.1) with
  | some document => (document, state.2)
  | none => (state.1, state.2 ++ [.unresolvedMapping tag.payload tag.target])

def Setting.applyAll (setting : Setting) (document : Value) (tags : List Tag) :
    Value × List Warning :=
  tags.foldl setting.apply (document, [])

end Discriminator
end ApiDialect
