import ApiDialect.Value
import ApiDialect.Yaml.Node
import ApiDialect.Yaml.Scalar

/-!
Documents from YAML text. Aliases are copied, keys are taken as they are written, and plain
scalars get the types of the core schema.
-/

namespace ApiDialect
namespace Yaml
namespace Node

/-- An anchor is known by the count of names in use when it was written, also when its own name
is one of them. -/
def define (numbers : Members Nat) (properties : Properties String) :
    Members Nat × Properties Nat :=
  match properties.anchor with
  | none => (numbers, ⟨none, properties.tag⟩)
  | some name =>
    (Members.insert numbers name numbers.length, ⟨some numbers.length, properties.tag⟩)

mutual
/-- Numbers the anchors of a tree in the order in which they are written. An alias must come
behind its anchor, but may stand inside the node that it repeats. -/
def link (numbers : Members Nat) : Node String → Option (Members Nat × Node Nat)
  | .alias name => (Members.get? numbers name).map fun number => (numbers, .alias number)
  | .scalar properties text isPlain =>
    let (numbers, properties) := define numbers properties
    some (numbers, .scalar properties text isPlain)
  | .sequence properties items => do
    let (numbers, properties) := define numbers properties
    let (numbers, items) ← linkItems numbers items
    return (numbers, .sequence properties items)
  | .mapping properties pairs => do
    let (numbers, properties) := define numbers properties
    let (numbers, pairs) ← linkPairs numbers pairs
    return (numbers, .mapping properties pairs)
termination_by structural node => node

def linkItems (numbers : Members Nat) :
    List (Node String) → Option (Members Nat × List (Node Nat))
  | [] => some (numbers, [])
  | item :: rest => do
    let (numbers, item) ← link numbers item
    let (numbers, rest) ← linkItems numbers rest
    return (numbers, item :: rest)
termination_by structural items => items

def linkPairs (numbers : Members Nat) :
    List (Node String × Node String) → Option (Members Nat × List (Node Nat × Node Nat))
  | [] => some (numbers, [])
  | (key, value) :: rest => do
    let (numbers, key) ← link numbers key
    let (numbers, value) ← link numbers value
    let (numbers, rest) ← linkPairs numbers rest
    return (numbers, (key, value) :: rest)
termination_by structural pairs => pairs
end

def anchored (properties : Properties Nat) (node : Node Nat) : List (Nat × Node Nat) :=
  match properties.anchor with
  | none => []
  | some number => [(number, node)]

mutual
/-- The anchored nodes of a tree in the order in which they are written. -/
def anchors : Node Nat → List (Nat × Node Nat)
  | .alias _ => []
  | .scalar properties text isPlain => anchored properties (.scalar properties text isPlain)
  | .sequence properties items =>
    anchored properties (.sequence properties items) ++ anchorsOfItems items
  | .mapping properties pairs =>
    anchored properties (.mapping properties pairs) ++ anchorsOfPairs pairs
termination_by structural node => node

def anchorsOfItems : List (Node Nat) → List (Nat × Node Nat)
  | [] => []
  | item :: rest => anchors item ++ anchorsOfItems rest
termination_by structural items => items

def anchorsOfPairs : List (Node Nat × Node Nat) → List (Nat × Node Nat)
  | [] => []
  | (key, value) :: rest => anchors key ++ anchors value ++ anchorsOfPairs rest
termination_by structural pairs => pairs
end

mutual
/-- Scalars and aliases count once, the two ends of a collection once each. -/
def size : Node Nat → Nat
  | .alias _ => 1
  | .scalar _ _ _ => 1
  | .sequence _ items => 2 + sizeOfItems items
  | .mapping _ pairs => 2 + sizeOfPairs pairs
termination_by structural node => node

def sizeOfItems : List (Node Nat) → Nat
  | [] => 0
  | item :: rest => size item + sizeOfItems rest
termination_by structural items => items

def sizeOfPairs : List (Node Nat × Node Nat) → Nat
  | [] => 0
  | (key, value) :: rest => size key + size value + sizeOfPairs rest
termination_by structural pairs => pairs
end

end Node

/-- Reading with a number of aliases that may still be followed. -/
abbrev Reading := StateT Nat Option

namespace Reading

/-- The node that a node stands for. When a number was given twice, its last node counts. -/
def target (anchors : List (Nat × Node Nat)) : Node Nat → Reading (Node Nat)
  | .alias number => do
    match (← get), anchors.reverse.lookup number with
    | left + 1, some node =>
      set left
      return node
    | _, _ => failure
  | node => return node

def untagged? (text : String) (isPlain : Bool) : Option Value :=
  if isPlain then (Plain.ofText text).value? text else some (.str text)

/-- A scalar as a value. A tag of the core schema forces a type, any other complete tag makes a
string, and a local tag that is no text is passed over. -/
def scalar? (tag : Option Tag) (text : String) (isPlain : Bool) : Option Value :=
  match tag with
  | none => untagged? text isPlain
  | some tag =>
    if tag.isForeign then none
    else if tag.isLocal then untagged? text isPlain
    else if tag = .core "bool" then (Plain.bool? text).map .bool
    else if tag = .core "int" then
      (Plain.int? text.toList).bind fun value => (Plain.int value).value? text
    else if tag = .core "float" then
      (Plain.float? text.toList).bind fun value => (Plain.float value).value? text
    else if tag = .core "null" then if Plain.isNull text then some .null else none
    else some (.str text)

def isForeign (properties : Properties Nat) : Bool :=
  properties.tag.any Tag.isForeign

def key (anchors : List (Nat × Node Nat)) (node : Node Nat) : Reading String := do
  match (← target anchors node) with
  | .scalar _ text _ => return text
  | _ => failure

def scalarValue : Node Nat → Reading Value
  | .scalar properties text isPlain => scalar? properties.tag text isPlain
  | _ => failure

/-- The value of a node that is no alias, from the values of the nodes inside it. -/
def nodeValue (anchors : List (Nat × Node Nat)) (below : Node Nat → Reading Value) :
    Node Nat → Reading Value
  | .sequence properties items =>
    if isForeign properties then failure
    else return .arr (← items.mapM below)
  | .mapping properties pairs =>
    if isForeign properties then failure
    else do
      let members ← pairs.mapM fun pair => return (← key anchors pair.1, ← below pair.2)
      return .obj (Members.ofList members)
  | node => scalarValue node

/-- The value of a node inside at most `depth` more collections. -/
def value (anchors : List (Nat × Node Nat)) : (depth : Nat) → Node Nat → Reading Value
  | 0, node => do scalarValue (← target anchors node)
  | depth + 1, node => do nodeValue anchors (value anchors depth) (← target anchors node)

end Reading

/-- Collections may be nested this deep in a document. -/
def nestingLimit : Nat := 128

def read (text : String) : Option Value := do
  let node ← Node.ofTokens? (← Scan.tokens? text)
  let (_, node) ← node.link []
  let (value, _) ← (Reading.value node.anchors nestingLimit node).run (100 * node.size)
  return value

end Yaml
end ApiDialect
