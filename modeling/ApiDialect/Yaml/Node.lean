import ApiDialect.Members
import ApiDialect.Yaml.Indentation

/-!
The tree that a token sequence describes, with anchors and aliases still in it.
-/

namespace ApiDialect
namespace Yaml

structure Properties (Name : Type) where
  anchor : Option Name
  tag : Option Tag

/-- A tree whose anchors and aliases are names of some kind. -/
inductive Node (Name : Type) where
  | alias (name : Name)
  | scalar (properties : Properties Name) (text : String) (isPlain : Bool)
  | sequence (properties : Properties Name) (items : List (Node Name))
  | mapping (properties : Properties Name) (pairs : List (Node Name × Node Name))

namespace Node

def noProperties : Properties String := ⟨none, none⟩

/-- What stands where nothing is written. -/
def empty : Node String := .scalar noProperties "" true

/-- What tag handles stand for. -/
abbrev Handles := Members Tag

def defaultHandles : Handles :=
  [("!", Tag.mark), ("!!", Tag.coreBeginning)]

private def fullTag? (handles : Handles) (handle : String) (suffix : Tag) : Option Tag :=
  if handle.isEmpty then some suffix
  else (Members.get? handles handle).map fun beginning => beginning.append suffix

/-- An anchor and a tag in either order, each at most once. -/
private def properties? (handles : Handles) : List Token → Option (Properties String × List Token)
  | .anchor name :: .tag handle suffix :: rest => do
    return (⟨some name, some (← fullTag? handles handle suffix)⟩, rest)
  | .anchor name :: rest => some (⟨some name, none⟩, rest)
  | .tag handle suffix :: .anchor name :: rest => do
    return (⟨some name, some (← fullTag? handles handle suffix)⟩, rest)
  | .tag handle suffix :: rest => do
    return (⟨none, some (← fullTag? handles handle suffix)⟩, rest)
  | rest => some (noProperties, rest)

private def endsMember : List Token → Bool
  | .key :: _ | .value :: _ | .blockEnd :: _ => true
  | _ => false

private def endsItem : List Token → Bool
  | .entry :: _ | .blockEnd :: _ => true
  | _ => false

private def endsFlow (close : Token) : List Token → Bool
  | token :: _ => token = .flowEntry || token = close
  | [] => false

mutual
/-- One node. Block collections occur only in a block, and a sequence without indentation of its
own only under a key. -/
private def node? (handles : Handles) : Nat → (block underKey : Bool) → List Token →
    Option (Node String × List Token)
  | 0, _, _, _ => none
  | _, _, _, .alias name :: rest => some (.alias name, rest)
  | fuel + 1, block, underKey, tokens => do
    let (properties, tokens) ← properties? handles tokens
    let sequence (result : List (Node String) × List Token) : Node String × List Token :=
      (.sequence properties result.1, result.2)
    let mapping (result : List (Node String × Node String) × List Token) : Node String × List Token :=
      (.mapping properties result.1, result.2)
    match tokens with
    | .scalar text isPlain :: rest => return (.scalar properties text isPlain, rest)
    | .flowSequenceStart :: rest => sequence <$> flowItems? handles fuel true rest
    | .flowMappingStart :: rest => mapping <$> flowPairs? handles fuel true rest
    | .entry :: _ =>
      if underKey then sequence <$> hangingItems? handles fuel tokens
      else if properties.anchor.isSome || properties.tag.isSome then
        return (.scalar properties "" true, tokens)
      else none
    | .blockSequenceStart :: rest =>
      if block then sequence <$> blockItems? handles fuel rest
      else if properties.anchor.isSome || properties.tag.isSome then
        return (.scalar properties "" true, tokens)
      else none
    | .blockMappingStart :: rest =>
      if block then mapping <$> blockPairs? handles fuel rest
      else if properties.anchor.isSome || properties.tag.isSome then
        return (.scalar properties "" true, tokens)
      else none
    | _ =>
      if properties.anchor.isSome || properties.tag.isSome then
        return (.scalar properties "" true, tokens)
      else none

private def blockItems? (handles : Handles) : Nat → List Token →
    Option (List (Node String) × List Token)
  | fuel + 1, .entry :: rest => do
    let (item, rest) ←
      if endsItem rest then some (empty, rest) else node? handles fuel true false rest
    let (items, rest) ← blockItems? handles fuel rest
    return (item :: items, rest)
  | _, .blockEnd :: rest => some ([], rest)
  | _, _ => none

/-- The items of a sequence that ends where its hyphens do. -/
private def hangingItems? (handles : Handles) : Nat → List Token →
    Option (List (Node String) × List Token)
  | fuel + 1, .entry :: rest => do
    let (item, rest) ←
      if endsItem rest || endsMember rest then some (empty, rest)
      else node? handles fuel true false rest
    let (items, rest) ← hangingItems? handles fuel rest
    return (item :: items, rest)
  | 0, .entry :: _ => none
  | _, rest => some ([], rest)

private def blockPairs? (handles : Handles) : Nat → List Token →
    Option (List (Node String × Node String) × List Token)
  | fuel + 1, .key :: rest => do
    let (key, rest) ←
      if endsMember rest then some (empty, rest) else node? handles fuel true true rest
    let (value, rest) ← match rest with
      | .value :: rest =>
        if endsMember rest then some (empty, rest) else node? handles fuel true true rest
      | _ => some (empty, rest)
    let (pairs, rest) ← blockPairs? handles fuel rest
    return ((key, value) :: pairs, rest)
  | _, .blockEnd :: rest => some ([], rest)
  | _, _ => none

private def flowItems? (handles : Handles) : Nat → (first : Bool) → List Token →
    Option (List (Node String) × List Token)
  | 0, _, _ => none
  | _, _, .flowSequenceEnd :: rest => some ([], rest)
  | fuel + 1, false, .flowEntry :: rest =>
    match rest with
    | .flowSequenceEnd :: rest => some ([], rest)
    | _ => flowItems? handles fuel true rest
  | _, false, _ => none
  | fuel + 1, true, tokens => do
    let (item, rest) ← match tokens with
      | .key :: rest => flowPair? handles fuel rest
      | _ => node? handles fuel false false tokens
    let (items, rest) ← flowItems? handles fuel false rest
    return (item :: items, rest)

/-- A single pair inside a flow sequence is a mapping of its own. Where its key is left out, one
token is passed over. -/
private def flowPair? (handles : Handles) : Nat → List Token → Option (Node String × List Token)
  | 0, _ => none
  | fuel + 1, tokens => do
    let (key, rest) ← match tokens with
      | .value :: rest | .flowEntry :: rest | .flowSequenceEnd :: rest => some (empty, rest)
      | _ => node? handles fuel false false tokens
    let (value, rest) ← match rest with
      | .value :: rest =>
        if endsFlow .flowSequenceEnd rest then some (empty, rest)
        else node? handles fuel false false rest
      | _ => some (empty, rest)
    return (.mapping noProperties [(key, value)], rest)

private def flowPairs? (handles : Handles) : Nat → (first : Bool) → List Token →
    Option (List (Node String × Node String) × List Token)
  | 0, _, _ => none
  | _, _, .flowMappingEnd :: rest => some ([], rest)
  | fuel + 1, false, .flowEntry :: rest =>
    match rest with
    | .flowMappingEnd :: rest => some ([], rest)
    | _ => flowPairs? handles fuel true rest
  | _, false, _ => none
  | fuel + 1, true, .key :: rest => do
    let (key, rest) ← match rest with
      | .value :: _ => some (empty, rest)
      | _ =>
        if endsFlow .flowMappingEnd rest then some (empty, rest)
        else node? handles fuel false false rest
    let (value, rest) ← match rest with
      | .value :: rest =>
        if endsFlow .flowMappingEnd rest then some (empty, rest)
        else node? handles fuel false false rest
      | _ => some (empty, rest)
    let (pairs, rest) ← flowPairs? handles fuel false rest
    return ((key, value) :: pairs, rest)
  | fuel + 1, true, tokens => do
    let (key, rest) ← node? handles fuel false false tokens
    let (pairs, rest) ← flowPairs? handles fuel false rest
    return ((key, empty) :: pairs, rest)
end

/-- Directives before a document. A second version or a second meaning of a handle is an error, and
the version must be one that can be read. -/
private def directives? (version : Bool) (handles : Handles) :
    List Token → Option (Handles × List Token)
  | .versionDirective major minor :: rest =>
    if version || major ≠ 1 || (minor ≠ 1 && minor ≠ 2) then none
    else directives? true handles rest
  | .tagDirective handle beginning :: rest =>
    if Members.has handles handle then none
    else directives? version (Members.insert handles handle beginning) rest
  | rest => some (handles, rest)

private def withDefaults (handles : Handles) : Handles :=
  defaultHandles.foldl (fun handles pair => Members.insertIfAbsent handles pair.1 pair.2) handles

private def isOnlyEnds (tokens : List Token) : Bool :=
  tokens.all (· = .documentEnd)

private def root? (handles : Handles) (tokens : List Token) : Option (Node String) := do
  let (node, rest) ← node? handles (2 * tokens.length + 2) true false tokens
  if isOnlyEnds rest then some node else none

private def explicit? (tokens : List Token) : Option (Node String) := do
  let (handles, rest) ← directives? false [] tokens
  match rest with
  | .documentStart :: rest =>
    if isOnlyEnds rest then some empty else root? (withDefaults handles) rest
  | _ => none

/-- The only document of a text; nothing at all is an empty document. -/
def ofTokens? (tokens : List Token) : Option (Node String) :=
  match tokens with
  | [] => some empty
  | .versionDirective _ _ :: _ | .tagDirective _ _ :: _ | .documentStart :: _ => explicit? tokens
  | _ => root? defaultHandles tokens

end Node
end Yaml
end ApiDialect
