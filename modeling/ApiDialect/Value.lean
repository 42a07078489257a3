import ApiDialect.Members

/-!
Documents as untyped trees with ordered objects. Numbers keep the distinction between integers
and floats, because it decides how they are written.
-/

namespace ApiDialect

/-- A float is held as its 64 bits, so that equality of numbers is equality of texts. -/
inductive Number where
  | int (value : Int)
  | float (bits : UInt64)
  deriving DecidableEq, Inhabited

inductive Value where
  | null
  | bool (value : Bool)
  | num (value : Number)
  | str (text : String)
  | arr (items : List Value)
  | obj (members : List (String × Value))
  deriving Inhabited

namespace Value

mutual
def decideEq : (first second : Value) → Decidable (first = second)
  | .null, .null => isTrue rfl
  | .bool first, .bool second => decidable_of_iff (first = second) (by simp)
  | .num first, .num second => decidable_of_iff (first = second) (by simp)
  | .str first, .str second => decidable_of_iff (first = second) (by simp)
  | .arr first, .arr second =>
    have := decideEqItems first second
    decidable_of_iff (first = second) (by simp)
  | .obj first, .obj second =>
    have := decideEqMembers first second
    decidable_of_iff (first = second) (by simp)
  | .null, .bool _ | .null, .num _ | .null, .str _ | .null, .arr _ | .null, .obj _
  | .bool _, .null | .bool _, .num _ | .bool _, .str _ | .bool _, .arr _ | .bool _, .obj _
  | .num _, .null | .num _, .bool _ | .num _, .str _ | .num _, .arr _ | .num _, .obj _
  | .str _, .null | .str _, .bool _ | .str _, .num _ | .str _, .arr _ | .str _, .obj _
  | .arr _, .null | .arr _, .bool _ | .arr _, .num _ | .arr _, .str _ | .arr _, .obj _
  | .obj _, .null | .obj _, .bool _ | .obj _, .num _ | .obj _, .str _ | .obj _, .arr _ =>
    isFalse (by simp)
termination_by structural first => first

def decideEqItems : (first second : List Value) → Decidable (first = second)
  | [], [] => isTrue rfl
  | [], _ :: _ | _ :: _, [] => isFalse (by simp)
  | head :: rest, other :: others =>
    have := decideEq head other
    have := decideEqItems rest others
    decidable_of_iff (head = other ∧ rest = others) (by simp)
termination_by structural first => first

def decideEqMembers : (first second : List (String × Value)) → Decidable (first = second)
  | [], [] => isTrue rfl
  | [], _ :: _ | _ :: _, [] => isFalse (by simp)
  | (name, head) :: rest, (otherName, other) :: others =>
    have := decideEq head other
    have := decideEqMembers rest others
    decidable_of_iff ((name = otherName ∧ head = other) ∧ rest = others) (by simp)
termination_by structural first => first
end

instance : DecidableEq Value := decideEq

/-- The member of an object under a name; no other value has members. -/
def get? : Value → String → Option Value
  | .obj members, name => Members.get? members name
  | _, _ => none

def text? : Value → Option String
  | .str text => some text
  | _ => none

def bool? : Value → Option Bool
  | .bool value => some value
  | _ => none

def items? : Value → Option (List Value)
  | .arr items => some items
  | _ => none

def members? : Value → Option (Members Value)
  | .obj members => some members
  | _ => none

def isNull : Value → Bool
  | .null => true
  | _ => false

def isTrue : Value → Bool
  | .bool true => true
  | _ => false

/-- The strings of an array, in order; other elements are passed over. -/
def texts (items : List Value) : List String :=
  items.filterMap text?

/-- The text under a name of an object. -/
def textAt? (members : Members Value) (name : String) : Option String :=
  (Members.get? members name).bind text?

mutual
/-- Every object of the tree has distinct names. -/
def WellFormed : Value → Prop
  | .arr items => WellFormedItems items
  | .obj members => Members.Distinct members ∧ WellFormedMembers members
  | _ => True
termination_by structural value => value

def WellFormedItems : List Value → Prop
  | [] => True
  | item :: rest => WellFormed item ∧ WellFormedItems rest
termination_by structural items => items

def WellFormedMembers : List (String × Value) → Prop
  | [] => True
  | (_, member) :: rest => WellFormed member ∧ WellFormedMembers rest
termination_by structural members => members
end

end Value
end ApiDialect
