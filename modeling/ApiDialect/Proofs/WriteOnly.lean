import ApiDialect.Proofs.Agreement
import ApiDialect.Proofs.Alike

/-! Properties that only requests have. A schema that is rewritten for a request keeps them without
their mark, and one that is rewritten for a response loses them. -/

namespace ApiDialect
open Rewriting Value Discriminator

namespace Schema
variable {limit levels : Nat} {direction : Direction} {path name : String} {members properties filled : Members Value}
  {schema rewritten : Value} {rewrite : String → Value → Rewriting Value}

/-- The property of a name; other keywords may hold anything. -/
def property? (schema : Value) (name : String) : Option Value :=
  (schema.get? "properties").bind (·.get? name)

/-- An object with a property that is marked as one of requests. -/
structure WritesOnly (schema : Value) (name : String) : Prop where
  isObject : schema.get? "type" = some (.str "object")
  marked : ∃ property, property? schema name = some property ∧ isWriteOnly property

/-- A schema with a property that has no such mark, or has it no longer. -/
def Declares (schema : Value) (name : String) : Prop :=
  ∃ property, property? schema name = some property ∧ property.get? "writeOnly" = none

theorem get?_dropAlternatives (distinct : Members.Distinct members) (other : name ∉ ["oneOf", "anyOf", "discriminator"]) :
    Members.get? (dropAlternatives members) name = Members.get? members name := by
  simp only [List.mem_cons, List.not_mem_nil, or_false, not_or] at other
  obtain ⟨one, any, discriminator⟩ := other
  have rest : Members.get? (Members.erase (Members.erase members "oneOf") "anyOf") name = Members.get? members name := by
    rw [(distinct.erase _).get?_erase_of_ne (Ne.symm any), distinct.get?_erase_of_ne (Ne.symm one)]
  unfold dropAlternatives
  dsimp only
  split
  next => rw [((distinct.erase _).erase _).get?_erase_of_ne (Ne.symm discriminator), rest]
  next => exact rest

theorem renameNullable_distinct (distinct : Members.Distinct members) : Members.Distinct (renameNullable members) := by
  unfold renameNullable
  split
  next => exact (distinct.erase _).insert _ _
  next => exact distinct

theorem get?_renameNullable (distinct : Members.Distinct members) (one : name ≠ "nullable") (other : name ≠ "x-nullable") :
    Members.get? (renameNullable members) name = Members.get? members name := by
  unfold renameNullable
  split
  next => rw [Members.get?_insert_of_ne (Ne.symm other), distinct.get?_erase_of_ne (Ne.symm one)]
  next => rfl

theorem get?_renameDeprecated (distinct : Members.Distinct members) (one : name ≠ "deprecated") (other : name ≠ "x-deprecated") :
    Members.get? (renameDeprecated members) name = Members.get? members name := by
  unfold renameDeprecated
  split
  next => rw [Members.get?_insertIfAbsent, if_neg (Ne.symm other), distinct.get?_erase_of_ne (Ne.symm one)]
  next => rfl

theorem get?_renameMarks (distinct : Members.Distinct members)
    (other : name ∉ ["nullable", "x-nullable", "deprecated", "x-deprecated"]) :
    Members.get? (renameMarks members) name = Members.get? members name := by
  simp only [List.mem_cons, List.not_mem_nil, or_false, not_or] at other
  obtain ⟨one, two, three, four⟩ := other
  rw [renameMarks_eq, get?_renameDeprecated (renameNullable_distinct distinct) three four, get?_renameNullable distinct one two]

/-- The properties of an object are what is gone into. -/
theorem inContent_object (isObject : Members.get? members "type" = some (.str "object"))
    (listed : Members.get? members "properties" = some (.obj properties))
    (returned : Returns (inContent rewrite direction path members) filled) :
    ∃ results, Returns (eachProperty rewrite path (keepProperties direction properties)) results ∧
      filled = Members.insert members "properties" (.obj results) := by
  have object : textAt? members "type" = some "object" := by rw [textAt?, isObject]; rfl
  unfold inContent at returned
  simp only [object, listed] at returned
  obtain ⟨results, each, returned⟩ := returned.bind
  exact ⟨results, each, returns_pure.mp returned⟩

theorem collapsed_distinct (distinct : Members.Distinct members) : Members.Distinct (collapsed members) := by
  unfold collapsed
  split
  next =>
    split
    next => exact distinct.insert _ _
    next => exact distinct.erase _
  next => exact distinct

/-- Everything that comes before a schema's content leaves the content alone. -/
theorem rewrite_stages (formed : Formed (.obj members))
    (returned : Returns (Schema.rewrite limit direction (.obj members)) rewritten) :
    ∃ below whole filled, rewritten = .obj (renameMarks filled) ∧ Members.Distinct whole ∧
      (∀ name, name ∉ ["oneOf", "anyOf", "discriminator", "allOf"] → Members.get? whole name = Members.get? members name) ∧
      Returns (inContent (rewriteWithin limit direction below) direction "#" whole) filled := by
  rcases rewriteWithin_returns returned with ⟨impossible, _⟩ | ⟨below, _, parted, filled, _, same, parts, content, rfl⟩
  · cases impossible
  cases same
  obtain ⟨distinct, others⟩ := inParts_others (dropAlternatives_sound formed).distinct parts
  refine ⟨below, collapsed parted, filled, rfl, collapsed_distinct distinct, fun name other => ?_, content⟩
  simp only [List.mem_cons, List.not_mem_nil, or_false, not_or] at other
  obtain ⟨one, any, discriminator, all⟩ := other
  rw [get?_collapsed distinct discriminator, others name all, get?_dropAlternatives formed.distinct]
  simp [one, any, discriminator]

theorem inContent_distinct (distinct : Members.Distinct members)
    (returned : Returns (inContent rewrite direction path members) filled) : Members.Distinct filled := by
  rcases inContent_returns returned with rfl | ⟨_, _, _, _, _, rfl⟩ | ⟨_, _, _, _, _, rfl⟩
  · exact distinct
  · exact distinct.insert _ _
  · exact distinct.insert _ _

/-- A reference is none of the keywords that are rewritten. -/
theorem rewrite_reference? (formed : Formed schema) (returned : Returns (Schema.rewrite limit direction schema) rewritten) :
    rewritten.reference? = schema.reference? := by
  cases schema with
  | obj members =>
    obtain ⟨below, whole, filled, rfl, distinct, others, content⟩ := rewrite_stages formed returned
    have still : Members.get? filled "$ref" = Members.get? whole "$ref" := by
      rcases inContent_returns content with rfl | ⟨_, _, _, _, _, rfl⟩ | ⟨_, _, _, _, _, rfl⟩
      · rfl
      · exact Members.get?_insert_of_ne (by decide) _
      · exact Members.get?_insert_of_ne (by decide) _
    unfold Value.reference?
    rw [Value.get?, get?_renameMarks (inContent_distinct distinct content) (by decide), still, others _ (by decide)]
    rfl
  | _ =>
    rcases rewriteWithin_returns returned with ⟨_, rfl⟩ | ⟨_, _, _, _, _, impossible, _⟩
    · rfl
    · cases impossible

/-- What becomes of the properties of an object. -/
theorem rewrite_properties (formed : Formed schema) (isObject : schema.get? "type" = some (.str "object"))
    (listed : schema.get? "properties" = some (.obj properties))
    (returned : Returns (Schema.rewrite limit direction schema) rewritten) :
    ∃ below results, rewritten.get? "properties" = some (.obj results) ∧
      List.Forall₂ (fun entry result => result.1 = entry.1 ∧
        ∃ inner property, Returns (rewriteWithin limit direction below inner entry.2) property ∧
          result.2 = withoutWriteOnly property) (keepProperties direction properties) results := by
  cases schema with
  | obj members =>
    obtain ⟨below, whole, filled, rfl, distinct, others, content⟩ := rewrite_stages formed returned
    obtain ⟨results, each, rfl⟩ := inContent_object ((others _ (by decide)).trans isObject)
      ((others _ (by decide)).trans listed) content
    refine ⟨below, results, ?_, eachProperty_returns each⟩
    rw [Value.get?, get?_renameMarks (distinct.insert _ _) (by decide), Members.get?_insert_self]
  | _ => cases isObject

theorem get?_withoutWriteOnly {property : Value} (formed : Formed property) :
    (withoutWriteOnly property).get? "writeOnly" = none := by
  cases property with
  | obj members => exact (Sound.distinct formed).get?_erase_self "writeOnly"
  | _ => rfl

theorem WritesOnly.listed (writes : WritesOnly schema name) : ∃ properties property,
    schema.get? "properties" = some (.obj properties) ∧ Members.get? properties name = some property ∧
      isWriteOnly property := by
  obtain ⟨property, found, marked⟩ := writes.marked
  obtain ⟨properties, listed, found⟩ := Option.bind_eq_some_iff.mp found
  cases properties with
  | obj properties => exact ⟨properties, property, listed, found, marked⟩
  | _ => cases found

/-- A request keeps the property, and its mark goes. -/
theorem rewrite_request (formed : Formed schema) (writes : WritesOnly schema name)
    (returned : Returns (Schema.rewrite limit .request schema) rewritten) : Declares rewritten name := by
  obtain ⟨properties, property, listed, found, _⟩ := writes.listed
  obtain ⟨below, results, held, each⟩ := rewrite_properties formed writes.isObject listed returned
  obtain ⟨_, seen, inner, changed, made, rfl⟩ := Members.get?_of_forall₂ each found
  refine ⟨withoutWriteOnly changed, ?_, get?_withoutWriteOnly ?_⟩
  · rw [property?, held]
    exact seen
  · exact rewriteWithin_refers textual_true.shallow made (Sound.get? (formed.valueGet? listed) found)

/-- A response has no such property. -/
theorem rewrite_response (formed : Formed schema) (writes : WritesOnly schema name)
    (returned : Returns (Schema.rewrite limit .response schema) rewritten) : property? rewritten name = none := by
  obtain ⟨properties, property, listed, found, marked⟩ := writes.listed
  obtain ⟨below, results, held, each⟩ := rewrite_properties formed writes.isObject listed returned
  have distinct : Members.Distinct properties := Sound.distinct (formed.valueGet? listed)
  have dropped : Members.get? (keepProperties .response properties) name = none := by
    rw [keepProperties, distinct.get?_filter, found]
    simp [marked]
  rw [property?, held]
  exact Members.get?_eq_none_of_forall₂ each dropped

variable {tags : List Tag} {after : Value}

theorem property?_references (schema : Value) (name : String) :
    property? (Relocation.references schema) name =
      (property? schema name).map fun property => Relocation.member name property (Relocation.references property) := by
  unfold property?
  rw [Relocation.get?_references]
  cases schema.get? "properties" with
  | none => rfl
  | some properties =>
    rw [Option.map_some, Option.bind_some, Option.bind_some, Relocation.member_of_ne (by decide)]
    exact Relocation.get?_references properties name

theorem Declares.references (declares : Declares schema name) : Declares (Relocation.references schema) name := by
  obtain ⟨property, found, unmarked⟩ := declares
  refine ⟨_, (property?_references schema name).trans (congrArg _ found), ?_⟩
  cases property with
  | obj members => exact (Relocation.get?_references (.obj members) "writeOnly").trans (by rw [unmarked]; rfl)
  | str text =>
    simp only [Relocation.member]
    split <;> rfl
  | _ => rfl

/-- A tag can write over a property, but what it writes there has no mark. -/
theorem Declares.tagged (declares : Declares schema name) (tagged : Tagged tags schema after) : Declares after name := by
  obtain ⟨property, found, unmarked⟩ := declares
  obtain ⟨properties, listed, found⟩ := Option.bind_eq_some_iff.mp found
  obtain ⟨last, here, inner⟩ := tagged.member listed (by decide)
  cases properties with
  | obj properties =>
    obtain ⟨changed, rfl⟩ := inner.obj
    obtain ⟨final, seen, rest | ⟨_, text, rfl⟩⟩ := inner.get? found
    · exact ⟨final, by rw [property?, here]; exact seen, rest.no_member unmarked (by decide)⟩
    · exact ⟨.str text, by rw [property?, here]; exact seen, rfl⟩
  | _ => cases found

/-- A property appears only where its name is one that tags write. -/
theorem property?_tagged (tagged : Tagged tags schema after) (absent : property? schema name = none)
    (plain : ¬ isMark name) : property? after name = none := by
  unfold property? at absent ⊢
  cases listed : schema.get? "properties" with
  | none => rw [tagged.no_member listed (by decide), Option.bind_none]
  | some properties =>
    rw [listed, Option.bind_some] at absent
    obtain ⟨last, here, inner⟩ := tagged.member listed (by decide)
    rw [here, Option.bind_some]
    exact inner.no_member absent plain

end Schema
end ApiDialect
