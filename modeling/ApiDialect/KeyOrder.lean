import ApiDialect.Value

/-!
The order of keys in a written document. Both sorted orders are total on names, so a document has
one sorted form.
-/

namespace ApiDialect

inductive KeyOrder where
  /-- Well-known keys first and in this sequence, the rest alphabetically. -/
  | conventional
  | alphabetical
  | asWritten
  deriving DecidableEq, Inhabited

namespace KeyOrder

def all : List KeyOrder := [.conventional, .alphabetical, .asWritten]

def name : KeyOrder → String
  | .conventional => "openapi"
  | .alphabetical => "alpha"
  | .asWritten => "false"

def ofName? (name : String) : Option KeyOrder :=
  all.find? (·.name = name)

theorem ofName?_name (order : KeyOrder) : ofName? order.name = some order := by
  cases order <;> decide

def wellKnown : List String :=
  ["openapi", "swagger", "info", "servers", "host", "basePath", "schemes", "consumes", "produces",
    "paths", "components", "definitions", "parameters", "responses", "securityDefinitions",
    "security", "tags", "externalDocs"]

/-- The position among the well-known keys; every other key comes behind them. -/
def rank (order : KeyOrder) (name : String) : Nat :=
  match order with
  | .conventional => wellKnown.idxOf name
  | _ => 0

/-- Ranks decide first, then the order of characters by code point. -/
def atMost (order : KeyOrder) (first second : String) : Bool :=
  order.rank first < order.rank second ||
    (order.rank first = order.rank second && !decide (second < first))

/-- Rearranges the members of one object. -/
def arrange (order : KeyOrder) (members : Members Value) : Members Value :=
  match order with
  | .asWritten => members
  | _ => members.mergeSort fun first second => order.atMost first.1 second.1

mutual
def sortKeys (order : KeyOrder) : Value → Value
  | .arr items => .arr (sortItems order items)
  | .obj members => .obj (order.arrange (sortMembers order members))
  | value => value
termination_by structural value => value

def sortItems (order : KeyOrder) : List Value → List Value
  | [] => []
  | item :: rest => sortKeys order item :: sortItems order rest
termination_by structural items => items

def sortMembers (order : KeyOrder) : List (String × Value) → List (String × Value)
  | [] => []
  | (name, value) :: rest => (name, sortKeys order value) :: sortMembers order rest
termination_by structural members => members
end

end KeyOrder
end ApiDialect
