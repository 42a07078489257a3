import ApiDialect.Proofs.Layout
import ApiDialect.Proofs.Reading
import ApiDialect.Proofs.Texts

/-! Where the references of a converted document come from. Whatever a conversion builds is made of
parts of the document, so its references are references of the document. The last step relocates
each of them once, or leaves all of them alone when there were no components to move. -/

namespace ApiDialect
open Rewriting

namespace Value

/-- A member of some object of the tree. -/
inductive HasMember (name : String) (held : Value) : Value → Prop where
  | here {members : Members Value} (inside : (name, held) ∈ members) : HasMember name held (.obj members)
  | member {members : Members Value} {entry : String × Value} (inside : entry ∈ members)
      (below : HasMember name held entry.2) : HasMember name held (.obj members)
  | item {items : List Value} {value : Value} (inside : value ∈ items) (below : HasMember name held value) :
      HasMember name held (.arr items)

/-- A text that stands under `$ref` somewhere in the tree. -/
def Mentions (value : Value) (reference : String) : Prop :=
  HasMember "$ref" (.str reference) value

variable {good : String → Value → Prop} {value : Value}

mutual
theorem everyMember_of_hasMember : (value : Value) → (∀ name held, HasMember name held value → good name held) →
    value.EveryMember good
  | .arr items, each => everyMemberOfItems_of_hasMember items fun _ inside name held below =>
    each name held (.item inside below)
  | .obj members, each => everyMemberOfMembers_of_hasMember members
    (fun entry inside => each entry.1 entry.2 (.here inside))
    fun _ inside name held below => each name held (.member inside below)
  | .null, _ | .bool _, _ | .num _, _ | .str _, _ => trivial
termination_by structural value => value

theorem everyMemberOfItems_of_hasMember : (items : List Value) →
    (∀ item ∈ items, ∀ name held, HasMember name held item → good name held) → EveryMemberOfItems good items
  | [], _ => trivial
  | item :: rest, each => ⟨everyMember_of_hasMember item (each item List.mem_cons_self),
    everyMemberOfItems_of_hasMember rest fun other inside => each other (List.mem_cons_of_mem _ inside)⟩
termination_by structural items => items

theorem everyMemberOfMembers_of_hasMember : (members : List (String × Value)) →
    (∀ entry ∈ members, good entry.1 entry.2) →
    (∀ entry ∈ members, ∀ name held, HasMember name held entry.2 → good name held) → EveryMemberOfMembers good members
  | [], _, _ => trivial
  | (name, child) :: rest, fine, each => ⟨fine (name, child) List.mem_cons_self,
    everyMember_of_hasMember child (each (name, child) List.mem_cons_self),
    everyMemberOfMembers_of_hasMember rest (fun entry inside => fine entry (List.mem_cons_of_mem _ inside))
      fun entry inside => each entry (List.mem_cons_of_mem _ inside)⟩
termination_by structural members => members
end

/-- What is said of every member is said of each one that a walk through the tree can find. -/
theorem everyMember_iff_hasMember :
    value.EveryMember good ↔ ∀ name held, HasMember name held value → good name held := by
  refine ⟨fun every name held has => ?_, everyMember_of_hasMember value⟩
  induction has with
  | here inside => exact (everyMemberOfMembers_iff.mp every _ inside).1
  | member inside _ ih => exact ih (everyMemberOfMembers_iff.mp every _ inside).2
  | item inside _ ih => exact ih (everyMemberOfItems_iff.mp every _ inside)

theorem everyReference_iff_hasMember {fine : Value → Prop} :
    value.EveryReference fine ↔ ∀ held, HasMember "$ref" held value → fine held := by
  refine everyMember_iff_hasMember.trans ⟨fun each held has => each "$ref" held has rfl, ?_⟩
  rintro each name held has rfl
  exact each held has

end Value

open Value

namespace Relocation
variable {limit : Nat} {document result : Members Value} {relocated : Bool}

/-- References are relocated just when there are components to move. -/
theorem relocated_iff (returned : Returns (components limit document) (result, relocated)) :
    relocated = true ↔ ∃ mapping, Members.get? document "components" = some (.obj mapping) := by
  rcases components_returns returned with ⟨absent, _, rfl⟩ | ⟨other, held, plain, _, rfl⟩ | ⟨mapping, _, _, held, _, _, _, rfl⟩
  · simp [absent]
  · rw [held]
    refine iff_of_false Bool.false_ne_true ?_
    rintro ⟨mapping, same⟩
    cases same
    cases plain
  · exact iff_of_true rfl ⟨mapping, held⟩

end Relocation

namespace Conversion
namespace Setting
variable {setting : Setting} {document : Value} {converted : Converted}

/-- A reference that stays in its document and is one of it. -/
def Native (document held : Value) : Prop :=
  ∃ reference, held = .str reference ∧ Reference.isLocal reference ∧ document.Mentions reference

theorem textual_native (document : Value) : Textual (Native document) := by
  rintro held plain ⟨reference, rfl, _⟩
  cases plain

/-- A reference that is local is what no file is read for. -/
theorem strip?_isSome {reference : String} (inside : Reference.isLocal reference) :
    (Text.strip? "#" reference).isSome := by
  obtain ⟨rest, same⟩ := String.startsWith_string_iff.mp inside
  rw [Text.strip?, ← same, Text.stripChars?_append]
  rfl

theorem loads_native (resolver : Resolver) (document : Value) : resolver.Loads (atReference (Native document)) := by
  refine Resolver.loads_of_local fun reference held => ?_
  obtain ⟨_, same, inside, _⟩ := held rfl
  cases same
  exact strip?_isSome inside

/-- A conversion that has only local references to follow makes no new ones: they are those of the
document, relocated once when there are components and never otherwise. -/
theorem references_originate {document : Value} {converted : Converted} (formed : document.WellFormed)
    (inside : ∀ held, HasMember "$ref" held document → ∃ reference, held = .str reference ∧ Reference.isLocal reference)
    (made : setting.convert document = .ok converted) :
    ((∃ mapping, document.get? "components" = some (.obj mapping)) →
      ∀ held, HasMember "$ref" held converted.document →
        ∃ reference, document.Mentions reference ∧ held = .str (Relocation.reference reference)) ∧
    ((∀ mapping, document.get? "components" ≠ some (.obj mapping)) →
      ∀ held, HasMember "$ref" held converted.document → ∃ reference, document.Mentions reference ∧ held = .str reference) := by
  obtain ⟨members, paths, laid, relocated, queue, rfl, walked, moved, rfl⟩ := convert_stages made
  have native : (Value.obj members).EveryReference (Native (.obj members)) := by
    refine everyReference_iff_hasMember.mpr fun held has => ?_
    obtain ⟨reference, rfl, isLocal⟩ := inside held has
    exact ⟨reference, rfl, isLocal, has⟩
  have textual := textual_native (.obj members)
  have sound : Refers (Native (.obj members)) (.obj members) := ⟨formed, native⟩
  have visited := paths_refers textual (loads_native setting.resolver (.obj members)) walked (opened_refers sound)
  have placed := Relocation.components_refers textual.shallow moved visited
  obtain ⟨marked, written, same⟩ := finish_eq setting laid relocated queue
  have tagged : Refers (Native (.obj members)) marked := written.refers textual placed
  have iff := Relocation.relocated_iff moved
  rw [get?_components_walked sound.distinct walked] at iff
  rw [same]
  constructor
  · intro mapped
    rw [if_pos (iff.mpr mapped)]
    have last := everyReference_iff_hasMember.mp (Relocation.references_refers marked tagged).members
    intro held has
    obtain ⟨_, ⟨reference, rfl, _, mentioned⟩, rfl⟩ := last held has
    exact ⟨reference, mentioned, rfl⟩
  · intro unmapped
    rw [if_neg fun moves => by obtain ⟨mapping, seen⟩ := iff.mp moves; exact unmapped mapping seen]
    intro held has
    obtain ⟨reference, rfl, _, mentioned⟩ := everyReference_iff_hasMember.mp tagged.members held has
    exact ⟨reference, mentioned, rfl⟩

/-- A kennel whose dogs are described in one place and named in two. -/
def kennel : Value :=
  .obj [("openapi", .str "3.0.0"),
    ("paths", .obj [("/dogs", .obj [("get", .obj [("responses", .obj [("200", .obj [("content", .obj [
      ("application/json", .obj [("schema", .obj [("type", .str "array"),
        ("items", .obj [("$ref", .str "#/components/schemas/Dog")])])])])]),
      ("404", .obj [("$ref", .str "#/components/responses/NoDog")])])])])]),
    ("components", .obj [("schemas", .obj [("Dog", .obj [("type", .str "object")])]),
      ("responses", .obj [("NoDog", .obj [("description", .str "gone")])])])]

def convertedKennel : Value :=
  .obj [("swagger", .str "2.0"),
    ("paths", .obj [("/dogs", .obj [("get", .obj [("responses", .obj [("200", .obj [
        ("schema", .obj [("type", .str "array"), ("items", .obj [("$ref", .str "#/definitions/Dog")])])]),
      ("404", .obj [("description", .str "gone")])]),
      ("parameters", .arr []), ("produces", .arr [.str "application/json"])])])]),
    ("definitions", .obj [("Dog", .obj [("type", .str "object")])]),
    ("x-components", .obj [("responses", .obj [("NoDog", .obj [("description", .str "gone")])])])]

theorem kennel_originates : convertedKennel.Mentions "#/definitions/Dog" ∧
    ∃ reference, kennel.Mentions reference ∧ Value.str "#/definitions/Dog" = .str (Relocation.reference reference) := by
  have refers : ∀ held, HasMember "$ref" held kennel → ∃ reference, held = .str reference ∧ Reference.isLocal reference := by
    refine everyReference_iff_hasMember.mp ?_
    simp [kennel, EveryReference, EveryMember, EveryMemberOfMembers, atReference]
    decide +kernel
  have made : Setting.convert ⟨⟨none, Files.none⟩, 10⟩ kennel = .ok ⟨convertedKennel, []⟩ := by decide +kernel
  have mentioned : convertedKennel.Mentions "#/definitions/Dog" :=
    .member (.tail _ (.head _)) <| .member (.head _) <| .member (.head _) <| .member (.head _) <| .member (.head _) <|
      .member (.head _) <| .member (.tail _ (.head _)) <| .here (.head _)
  exact ⟨mentioned, (references_originate (by decide) refers made).1 ⟨_, rfl⟩ _ mentioned⟩

end Setting
end Conversion
end ApiDialect
