import ApiDialect.Pointer

/-! Places of a tree. Pointers are texts and may be spelled in several ways; a place is the list of the steps themselves. -/

namespace ApiDialect

/-- One step down a tree. -/
inductive Step where
  | member (name : String)
  | item (index : Nat)
  deriving DecidableEq

/-- A node, by the steps that lead to it from the root. -/
abbrev Place := List Step

namespace Value

/-- The step that is taken for a token. -/
def step? (value : Value) (token : String) : Option Step :=
  match value with
  | .obj _ => some (.member token)
  | .arr _ => (Pointer.index? token).map .item
  | _ => none

/-- Where a pointer leads. An index has several spellings, its place has one. -/
def placeAt? (value : Value) : Pointer → Option Place
  | [] => some []
  | token :: rest => do
    let child ← value.child? token
    let step ← value.step? token
    return step :: (← child.placeAt? rest)

/-- The child to which a step leads. -/
def childAt? : Value → Step → Option Value
  | .obj members, .member name => Members.get? members name
  | .arr items, .item index => items[index]?
  | _, _ => none

/-- The node at a place. -/
def at? (value : Value) : Place → Option Value
  | [] => some value
  | step :: rest => (value.childAt? step).bind fun child => child.at? rest

end Value
end ApiDialect
