import ApiDialect.Proofs.KeptPlaces
import ApiDialect.Proofs.MappingEntries

/-! The nodes of a schema that its rewriting visits, with the way that leads to each of them. A node is
rewritten where it stands, so the same way leads to what has become of it. -/

namespace ApiDialect
open Rewriting Value

/-- Elements that are related stay so when they are numbered. -/
theorem forall₂_zipIdx {α β : Type} {related : α → β → Prop} {items : List α} {results : List β}
    (each : List.Forall₂ related items results) (start : Nat) :
    List.Forall₂ (fun item result => result.2 = item.2 ∧ related item.1 result.1) (items.zipIdx start)
      (results.zipIdx start) := by
  induction each generalizing start with
  | nil => exact .nil
  | cons held _ ih => exact .cons ⟨rfl, held⟩ (ih (start + 1))

namespace Schema

/-- Where a schema stands in the one above it. -/
inductive Branch where
  | part (index : Nat)
  | property (name : String)
  | items
  deriving DecidableEq

/-- The way from a schema down to one of its nodes, branch by branch. -/
abbrev Route := List Branch

namespace Branch

def text : Branch → String
  | .part index => "/allOf/" ++ toString index
  | .property name => "/properties/" ++ name
  | .items => "/items"

def child? (branch : Branch) (schema : Value) : Option Value :=
  match branch with
  | .part index => ((schema.get? "allOf").bind items?).bind (·[index]?)
  | .property name => (schema.get? "properties").bind (·.get? name)
  | .items => schema.get? "items"

/-- What is left on a branch of a node that has been rewritten there: a property loses its mark. -/
def trim : Branch → Value → Value
  | .property _, value => withoutWriteOnly value
  | _, value => value

end Branch

namespace Route

/-- A route as messages write it. -/
def text : Route → String
  | [] => ""
  | branch :: rest => branch.text ++ text rest

def node? : Route → Value → Option Value
  | [], schema => some schema
  | branch :: rest, schema => (branch.child? schema).bind (node? rest)

/-- The last branch says what is left of a node. -/
def trim (route : Route) (value : Value) : Value :=
  match route.getLast? with
  | some branch => branch.trim value
  | none => value

end Route

/-- The parts of a schema, with their places. -/
def partBranches (members : Members Value) : List (Branch × Value) :=
  (parts members).zipIdx.map fun part => (.part part.2, part.1)

/-- The properties that an object has for a direction, or the items of an array. -/
def contentBranches (direction : Direction) (members : Members Value) : List (Branch × Value) :=
  match Value.textAt? members "type" with
  | some "object" =>
    match Members.get? members "properties" with
    | some (.obj properties) => (keepProperties direction properties).map fun entry => (.property entry.1, entry.2)
    | _ => []
  | some "array" => (Members.get? members "items").toList.map (Prod.mk .items)
  | _ => []

/-- What stands one level below a node, in the order in which it is visited. -/
def branches (direction : Direction) (members : Members Value) : List (Branch × Value) :=
  partBranches members ++ contentBranches direction members

/-- A route leads from a schema to one of its nodes. For requests it may lead through any property. -/
inductive Reaches (direction : Direction) : Value → Route → Value → Prop where
  | here (value : Value) : Reaches direction value [] value
  | down {members : Members Value} {branch : Branch} {child node : Value} {route : Route}
      (stands : (branch, child) ∈ branches direction members) (deeper : Reaches direction child route node) :
      Reaches direction (.obj members) (branch :: route) node

/-- The nodes at a depth with the routes to them. A node comes with everything below it before the
next one does. -/
def nodesAt (direction : Direction) : (depth : Nat) → Value → List (Route × Value)
  | 0, value => [([], value)]
  | depth + 1, .obj members => (branches direction members).flatMap fun below =>
      (nodesAt direction depth below.2).map fun node => (below.1 :: node.1, node.2)
  | _ + 1, _ => []

variable {limit levels depth : Nat} {direction : Direction} {path name : String} {members others whole filled : Members Value}
  {schema node child after : Value} {branch : Branch} {route : Route} {rewrite : String → Value → Rewriting Value}
  {good : String → Value → Prop}

theorem mem_partBranches_iff : (branch, child) ∈ partBranches members ↔
    ∃ index parts, branch = .part index ∧ Members.get? members "allOf" = some (.arr parts) ∧ parts[index]? = some child := by
  unfold partBranches parts
  split
  next parts seen =>
    constructor
    · intro member
      obtain ⟨⟨part, index⟩, inside, same⟩ := List.mem_map.mp member
      cases same
      exact ⟨index, parts, rfl, seen, List.mk_mem_zipIdx_iff_getElem?.mp inside⟩
    · rintro ⟨index, listed, rfl, found, inside⟩
      cases seen.symm.trans found
      exact List.mem_map.mpr ⟨(child, index), List.mk_mem_zipIdx_iff_getElem?.mpr inside, rfl⟩
  next other =>
    constructor
    · intro member
      cases member
    · rintro ⟨_, listed, _, found, _⟩
      exact absurd found (other listed)

theorem contentBranches_object {properties : Members Value} (isObject : textAt? members "type" = some "object")
    (seen : Members.get? members "properties" = some (.obj properties)) :
    contentBranches direction members = (keepProperties direction properties).map fun entry => (.property entry.1, entry.2) := by
  simp only [contentBranches, isObject, seen]

theorem contentBranches_array (isArray : textAt? members "type" = some "array") :
    contentBranches direction members = (Members.get? members "items").toList.map (Prod.mk .items) := by
  simp only [contentBranches, isArray]

/-- An object whose properties are no mapping has none. -/
theorem contentBranches_of_bare (isObject : textAt? members "type" = some "object")
    (bare : ∀ properties, Members.get? members "properties" ≠ some (.obj properties)) :
    contentBranches direction members = [] := by
  simp only [contentBranches, isObject]

theorem contentBranches_of_scalar (other : textAt? members "type" ≠ some "object")
    (another : textAt? members "type" ≠ some "array") : contentBranches direction members = [] := by
  unfold contentBranches
  split
  next isObject => exact absurd isObject other
  next isArray => exact absurd isArray another
  next => rfl

theorem mem_contentBranches_iff : (branch, child) ∈ contentBranches direction members ↔
    (∃ name properties, branch = .property name ∧ textAt? members "type" = some "object" ∧
      Members.get? members "properties" = some (.obj properties) ∧ (name, child) ∈ keepProperties direction properties) ∨
    branch = .items ∧ textAt? members "type" = some "array" ∧ Members.get? members "items" = some child := by
  unfold contentBranches
  split
  next isObject =>
    split
    next properties seen => simp [isObject, seen, Prod.ext_iff, eq_comm, and_comm]
    next other =>
      simp only [isObject, List.not_mem_nil, false_iff]
      rintro (⟨_, properties, _, _, found, _⟩ | ⟨_, impossible, _⟩)
      · exact other properties found
      · exact absurd impossible (by decide)
  next isArray => simp [isArray, Prod.ext_iff, eq_comm, and_comm]
  next other another =>
    simp only [List.not_mem_nil, false_iff]
    rintro (⟨_, _, _, isObject, _⟩ | ⟨_, isArray, _⟩)
    · exact other isObject
    · exact another isArray

theorem mem_of_mem_keepProperties {properties : Members Value} {entry : String × Value}
    (member : entry ∈ keepProperties direction properties) : entry ∈ properties := by
  cases direction with
  | request => exact member
  | response => exact List.mem_of_mem_filter member

/-- What stands on a branch is found there. -/
theorem child?_of_mem (formed : Formed (.obj members)) (stands : (branch, child) ∈ branches direction members) :
    branch.child? (.obj members) = some child := by
  rcases List.mem_append.mp stands with part | content
  · obtain ⟨index, parts, rfl, seen, inside⟩ := mem_partBranches_iff.mp part
    simp only [Branch.child?, Value.get?, seen, Option.bind_some, items?]
    exact inside
  · rcases mem_contentBranches_iff.mp content with ⟨name, properties, rfl, _, seen, kept⟩ | ⟨rfl, _, seen⟩
    · have distinct : Members.Distinct properties := Sound.distinct (Sound.get? formed seen)
      simp only [Branch.child?, Value.get?, seen, Option.bind_some]
      exact distinct.get?_of_mem (mem_of_mem_keepProperties kept)
    · exact seen

theorem sound_of_mem (sound : Sound good (.obj members)) (stands : (branch, child) ∈ branches direction members) :
    Sound good child := by
  rcases List.mem_append.mp stands with part | content
  · obtain ⟨index, parts, _, seen, inside⟩ := mem_partBranches_iff.mp part
    exact (sound.get? seen).item (List.mem_of_getElem? inside)
  · rcases mem_contentBranches_iff.mp content with ⟨name, properties, _, _, seen, kept⟩ | ⟨_, _, seen⟩
    · exact (Sound.entry (sound.get? seen) (mem_of_mem_keepProperties kept)).2
    · exact sound.get? seen

namespace Reaches

theorem sound (reaches : Reaches direction schema route node) (start : Sound good schema) : Sound good node := by
  induction reaches with
  | here => exact start
  | down stands _ ih => exact ih (sound_of_mem start stands)

theorem inv (reaches : Reaches direction schema route node) :
    (route = [] ∧ node = schema) ∨ ∃ members branch child rest, schema = .obj members ∧ route = branch :: rest ∧
      (branch, child) ∈ branches direction members ∧ Reaches direction child rest node := by
  cases reaches with
  | here => exact Or.inl ⟨rfl, rfl⟩
  | down stands deeper => exact Or.inr ⟨_, _, _, _, rfl, rfl, stands, deeper⟩

end Reaches

theorem reaches_nil_iff : Reaches direction schema [] node ↔ node = schema := by
  constructor
  · intro reaches
    cases reaches
    rfl
  · rintro rfl
    exact .here node

theorem reaches_cons_iff : Reaches direction schema (branch :: route) node ↔
    ∃ members child, schema = .obj members ∧ (branch, child) ∈ branches direction members ∧ Reaches direction child route node := by
  constructor
  · intro reaches
    cases reaches with
    | down stands deeper => exact ⟨_, _, rfl, stands, deeper⟩
  · rintro ⟨members, child, rfl, stands, deeper⟩
    exact .down stands deeper

theorem mem_nodesAt_iff :
    (route, node) ∈ nodesAt direction depth schema ↔ Reaches direction schema route node ∧ route.length = depth := by
  induction depth generalizing schema route with
  | zero =>
    rw [nodesAt, List.mem_singleton, List.length_eq_zero_iff, Prod.mk.injEq]
    constructor
    · rintro ⟨rfl, rfl⟩
      exact ⟨.here node, rfl⟩
    · rintro ⟨reaches, rfl⟩
      exact ⟨rfl, reaches_nil_iff.mp reaches⟩
  | succ depth ih =>
    constructor
    · intro member
      cases schema with
      | obj members =>
        obtain ⟨⟨branch, child⟩, stands, member⟩ := List.mem_flatMap.mp member
        obtain ⟨⟨rest, found⟩, inside, same⟩ := List.mem_map.mp member
        cases same
        obtain ⟨deeper, long⟩ := ih.mp inside
        exact ⟨.down stands deeper, congrArg (· + 1) long⟩
      | _ => cases member
    · rintro ⟨reaches, long⟩
      cases reaches with
      | here => cases long
      | down stands deeper =>
        apply List.mem_flatMap.mpr
        exact ⟨_, stands, List.mem_map.mpr ⟨_, ih.mpr ⟨deeper, Nat.succ.inj long⟩, rfl⟩⟩

/-- Where there is no node at a depth, there is none below it. -/
theorem Reaches.shallow (reaches : Reaches direction schema route node) (bare : nodesAt direction depth schema = []) :
    route.length < depth := by
  induction reaches generalizing depth with
  | here value =>
    cases depth with
    | zero => cases bare
    | succ depth => exact Nat.succ_pos depth
  | down stands _ ih =>
    cases depth with
    | zero => cases bare
    | succ depth =>
      have inner := List.flatMap_eq_nil_iff.mp bare _ stands
      exact Nat.succ_lt_succ (ih (List.map_eq_nil_iff.mp inner))

/-- Below a node only four of its members count. -/
theorem branches_congr (parts : Members.get? others "allOf" = Members.get? members "allOf")
    (type : Members.get? others "type" = Members.get? members "type")
    (properties : Members.get? others "properties" = Members.get? members "properties")
    (items : Members.get? others "items" = Members.get? members "items") :
    branches direction others = branches direction members := by
  simp only [branches, partBranches, contentBranches, Schema.parts, textAt?, parts, type, properties, items]

theorem branches_withoutWriteOnly (distinct : Members.Distinct members) :
    branches direction (Members.erase members "writeOnly") = branches direction members := by
  apply branches_congr <;> exact distinct.get?_erase_of_ne (by decide)

/-- What a node has become on its branch. -/
def Becomes (rewrite : String → Value → Rewriting Value) (before after : Branch × Value) : Prop :=
  after.1 = before.1 ∧ ∃ inner result, Returns (rewrite inner before.2) result ∧ after.2 = before.1.trim result

theorem inParts_becomes (returned : Returns (inParts rewrite path members) whole) :
    List.Forall₂ (Becomes rewrite) (partBranches members) (partBranches whole) := by
  have each : List.Forall₂ (fun part result => ∃ inner, Returns (rewrite inner part) result) (parts members) (parts whole) := by
    unfold inParts at returned
    split at returned
    next items seen =>
      obtain ⟨results, each, returned⟩ := returned.bind
      obtain rfl := returns_pure.mp returned
      rw [parts_of_listed seen, parts_of_listed (Members.get?_insert_self ..)]
      exact eachItem_returns each
    next other =>
      obtain rfl := returns_pure.mp returned
      rw [parts_of_bare other]
      exact .nil
  unfold partBranches
  rw [List.forall₂_map_left_iff, List.forall₂_map_right_iff]
  apply (forall₂_zipIdx each 0).imp
  rintro ⟨part, index⟩ ⟨result, other⟩ ⟨same, inner, made⟩
  exact ⟨congrArg Branch.part same, inner, result, made, rfl⟩

theorem inContent_becomes (returned : Returns (inContent rewrite direction path members) filled) :
    List.Forall₂ (Becomes rewrite) (contentBranches direction members) (contentBranches .request filled) := by
  unfold inContent at returned
  split at returned
  next isObject =>
    split at returned
    next properties seen =>
      obtain ⟨results, each, returned⟩ := returned.bind
      obtain rfl := returns_pure.mp returned
      have still : textAt? (Members.insert members "properties" (.obj results)) "type" = some "object" := by
        rw [textAt?, Members.get?_insert_of_ne (by decide), ← textAt?, isObject]
      rw [contentBranches_object isObject seen, contentBranches_object still (Members.get?_insert_self ..)]
      rw [List.forall₂_map_left_iff, List.forall₂_map_right_iff]
      apply (eachProperty_returns each).imp
      rintro entry result ⟨name, inner, property, made, rest⟩
      exact ⟨congrArg Branch.property name, inner, property, made, rest⟩
    next other =>
      obtain rfl := returns_pure.mp returned
      rw [contentBranches_of_bare isObject other, contentBranches_of_bare isObject other]
      exact .nil
  next isArray =>
    split at returned
    next items seen =>
      obtain ⟨result, made, returned⟩ := returned.bind
      obtain rfl := returns_pure.mp returned
      have still : textAt? (Members.insert members "items" result) "type" = some "array" := by
        rw [textAt?, Members.get?_insert_of_ne (by decide), ← textAt?, isArray]
      rw [contentBranches_array isArray, contentBranches_array still, seen, Members.get?_insert_self]
      exact .cons ⟨rfl, _, result, made, rfl⟩ .nil
    next absent =>
      obtain rfl := returns_pure.mp returned
      rw [contentBranches_array isArray, contentBranches_array isArray, absent]
      exact .nil
  next other another =>
    obtain rfl := returns_pure.mp returned
    rw [contentBranches_of_scalar other another, contentBranches_of_scalar other another]
    exact .nil

/-- An object is rewritten into an object, and what stands below it is rewritten where it stands. -/
theorem rewriteWithin_becomes (formed : Formed (.obj members))
    (returned : Returns (rewriteWithin limit direction levels path (.obj members)) after) :
    ∃ below result, levels = below + 1 ∧ after = .obj result ∧
      List.Forall₂ (Becomes (rewriteWithin limit direction below)) (branches direction members) (branches .request result) := by
  rcases rewriteWithin_returns returned with ⟨impossible, _⟩ | ⟨below, _, parted, filled, rfl, same, parts, content, rfl⟩
  · cases impossible
  cases same
  have ready := prepared formed parts
  have distinct := inContent_distinct ready.distinct content
  refine ⟨below, renameMarks filled, rfl, rfl, ?_⟩
  have dropped {name : String} (other : name ∉ ["oneOf", "anyOf", "discriminator"]) :
      Members.get? (dropAlternatives members) name = Members.get? members name := get?_dropAlternatives formed.distinct other
  have upper : partBranches (renameMarks filled) = partBranches parted := by
    have same : Members.get? (renameMarks filled) "allOf" = Members.get? parted "allOf" := by
      rw [get?_renameMarks distinct (by decide), get?_inContent content (by decide),
        get?_collapsed (inParts_others (dropAlternatives_sound formed).distinct parts).1 (by decide)]
    simp only [partBranches, Schema.parts, same]
  have lower : contentBranches .request (renameMarks filled) = contentBranches .request filled := by
    have kept {name : String} (other : name ∉ ["nullable", "x-nullable", "deprecated", "x-deprecated"]) :
        Members.get? (renameMarks filled) name = Members.get? filled name := get?_renameMarks distinct other
    simp only [contentBranches, textAt?, kept (by decide : "type" ∉ _), kept (by decide : "properties" ∉ _),
      kept (by decide : "items" ∉ _)]
  have start : partBranches (dropAlternatives members) = partBranches members := by
    simp only [partBranches, Schema.parts, dropped (by decide : "allOf" ∉ _)]
  have middle : contentBranches direction (collapsed parted) = contentBranches direction members := by
    simp only [contentBranches, textAt?, ready.others "type" (by decide), ready.others "properties" (by decide),
      ready.others "items" (by decide)]
  rw [branches, branches, upper, lower, ← start, ← middle]
  exact List.rel_append (inParts_becomes parts) (inContent_becomes content)

/-- What stands below a node stands, rewritten, below what the node has become. -/
theorem rewriteWithin_child? (formed : Formed (.obj members))
    (returned : Returns (rewriteWithin limit direction levels path (.obj members)) after)
    (stands : (branch, child) ∈ branches direction members) :
    ∃ below inner result, Returns (rewriteWithin limit direction below inner child) result ∧
      branch.child? after = some (branch.trim result) := by
  have sound : Formed after := rewriteWithin_refers textual_true.shallow returned formed
  obtain ⟨below, changed, _, rfl, each⟩ := rewriteWithin_becomes formed returned
  obtain ⟨index, inside⟩ := List.getElem?_of_mem stands
  obtain ⟨⟨other, last⟩, there, same, inner, result, made, rest⟩ := getElem?_of_forall₂ each inside
  dsimp only at same made rest
  subst same rest
  exact ⟨below, inner, result, made, child?_of_mem sound (List.mem_of_getElem? there)⟩

theorem child?_trim (formed : Formed schema) (branch below : Branch) :
    below.child? (branch.trim schema) = below.child? schema := by
  cases branch with
  | property name =>
    cases schema with
    | obj members =>
      have distinct : Members.Distinct members := Sound.distinct formed
      cases below <;> simp [Branch.trim, withoutWriteOnly, Branch.child?, Value.get?, distinct.get?_erase]
    | _ => rfl
  | _ => rfl

/-- The same route leads to what a node has become. The induction is on the route. -/
theorem Reaches.rewritten (reaches : Reaches direction schema route node) (formed : Formed schema)
    (returned : Returns (rewriteWithin limit direction levels path schema) after) :
    ∃ below inner result, Returns (rewriteWithin limit direction below inner node) result ∧
      route.node? after = some (route.trim result) := by
  induction reaches generalizing levels path after with
  | here => exact ⟨levels, path, after, returned, rfl⟩
  | @down members branch child node route stands deeper ih =>
    obtain ⟨below, inner, result, made, found⟩ := rewriteWithin_child? formed returned stands
    have single : Formed child := sound_of_mem formed stands
    obtain ⟨last, final, stop, ended, there⟩ := ih single made
    refine ⟨last, final, stop, ended, ?_⟩
    rw [Route.node?, found, Option.bind_some]
    cases route with
    | nil =>
      cases there
      rfl
    | cons next rest =>
      -- The next branch does not go through the mark, so it leads on whether the mark is there or not.
      have sound : Formed result := rewriteWithin_refers textual_true.shallow made single
      rw [Route.node?] at there ⊢
      rw [child?_trim sound, there]
      simp only [Route.trim, List.getLast?_cons_cons]

end Schema
end ApiDialect
