import ApiDialect.Value

/-!
Documents laid over others. What a document leaves out shows through from below, so placeholders
fill gaps and never replace anything.
-/

namespace ApiDialect
namespace Value

mutual
/-- Two objects are merged name by name; otherwise the upper value hides the lower one. -/
def overlay (lower upper : Value) : Value :=
  match lower, upper with
  | .obj lower, .obj upper => .obj (overlayMembers lower upper)
  | _, upper => upper
termination_by structural upper

/-- Members of both objects keep the lower one's place. -/
def overlayMembers (lower : List (String × Value)) (upper : List (String × Value)) :
    List (String × Value) :=
  match upper with
  | [] => lower
  | (name, value) :: rest =>
    let merged :=
      match Members.get? lower name with
      | some hidden => overlay hidden value
      | none => value
    overlayMembers (Members.insert lower name merged) rest
termination_by structural upper
end

/-- What every document has to say about itself. -/
def placeholders : Value :=
  .obj [("info", .obj
    [("title", .str "< An API title here >"), ("version", .str "< An API version here >")])]

/-- Fills what a document leaves out. -/
def fill (document : Value) (placeholders : Value) : Value :=
  placeholders.overlay document

end Value
end ApiDialect
