import ApiDialect.Proofs.Aliases
import ApiDialect.Proofs.OperationFrames
import ApiDialect.Proofs.ReferenceOrigins

/-! Members that a conversion does not know. At the root, in a path item, in an operation and in a
response only some names belong to the conversion; whatever stands under another name stays there,
and nothing appears under one. -/

namespace ApiDialect
namespace Conversion
namespace Setting
open Rewriting Value Discriminator
variable {setting : Setting} {root node result : Value} {document item operation response : Members Value} {name path : String}

/-- Every member but those of some names is what it was, with its references put right. -/
def Keeps (relocated : Bool) (owned : List String) (before after : Members Value) : Prop :=
  ∀ name, name ∉ owned → Members.get? after name = Members.get? (readdressed relocated before) name

/-- The names at the root that a conversion writes or removes. -/
def rootNames : List String :=
  ["swagger", "openapi", "servers", "host", "schemes", "basePath", "paths", "components", "definitions",
    "securityDefinitions", "x-components"]

def itemNames : List String :=
  "parameters" :: Method.all.map Method.key

def operationNames : List String :=
  ["parameters", "requestBody", "consumes", "responses", "produces"]

def responseNames : List String :=
  ["content", "schema", "examples", "headers"]

theorem Keeps.readdressed {relocated : Bool} {owned : List String} {before after : Members Value}
    (same : ∀ name, name ∉ owned → Members.get? after name = Members.get? before name) :
    Keeps relocated owned before (readdressed relocated after) :=
  fun name other => get?_readdressed (same name other)

/-- The root is left alone by the server, the paths and the components alike. -/
theorem get?_laid {walked laid : Members Value} {relocated : Bool} (formed : Formed (.obj document))
    (ran : Returns ((pathsOf (setting.opened document)).names.foldlM setting.path (setting.opened document)) walked)
    (moved : Returns (Relocation.components setting.limit walked) (laid, relocated)) (other : name ∉ rootNames) :
    Members.get? laid name = Members.get? document name := by
  have apart : ∀ owned ∈ rootNames, name ≠ owned := fun owned member same => other (same ▸ member)
  have outside : ∀ part : List String, (∀ owned ∈ part, owned ∈ rootNames) → name ∉ part :=
    fun part inside member => apart name (inside name member) rfl
  have visited : Formed (.obj walked) := paths_formed (opened_refers formed) ran
  have still : Members.get? walked name = Members.get? (setting.opened document) name :=
    (paths_framed ran).others name (apart "paths" (by decide))
  rw [Relocation.get?_components visited moved (outside _ (by decide)), still,
    get?_opened formed.distinct (outside _ (by decide)), if_neg, if_neg (apart "swagger" (by decide))]
  rintro (same | same)
  · exact apart "servers" (by decide) same
  · exact apart "openapi" (by decide) same

/-- A response that is no reference is folded where it stands. -/
theorem rewriteNode_keeps {setting : Response.Setting} {before after : List String} (formed : Formed (.obj response))
    (plain : (Value.obj response).reference? = none)
    (returned : Returns (setting.rewriteNode before (.obj response)) (after, result)) :
    ∃ folded, result = .obj folded ∧ ∀ name, name ∉ responseNames → Members.get? folded name = Members.get? response name := by
  obtain ⟨target, found, reached⟩ := Response.Setting.rewriteNode_returns returned
  cases (resolve_of_reference?_eq_none plain).symm.trans found
  obtain ⟨scalar, _⟩ | ⟨_, folded, headed, same, made, listed, rest⟩ := reached
  · cases scalar
  cases same
  refine ⟨headed, congrArg Prod.snd rest, fun name other => ?_⟩
  simp only [responseNames, List.mem_cons, List.not_mem_nil, or_false, not_or] at other
  obtain ⟨content, schema, examples, headers⟩ := other
  rw [Response.get?_rewriteHeaders listed headers,
    Response.Setting.get?_foldInto formed.distinct made (by simp [schema, examples]), if_neg content]

/-- An operation keeps what is neither about its requests nor about its responses, and so does each
response. -/
theorem operation_keeps {converted : Members Value} (formed : Formed (.obj operation))
    (returned : Returns (setting.operation root operation) converted) :
    (∀ name, name ∉ operationNames → Members.get? converted name = Members.get? operation name) ∧
    ∀ responses status response, Members.get? operation "responses" = some (.obj responses) →
      Members.get? responses status = some (.obj response) → (Value.obj response).reference? = none →
      ∃ answers folded, Members.get? converted "responses" = some (.obj answers) ∧
        Members.get? answers status = some (.obj folded) ∧
        ∀ name, name ∉ responseNames → Members.get? folded name = Members.get? response name := by
  obtain ⟨bodiless, asked, answered⟩ := operation_returns returned
  constructor
  · intro name other
    simp only [operationNames, List.mem_cons, List.not_mem_nil, or_false, not_or] at other
    obtain ⟨one, two, three, four, five⟩ := other
    rw [Response.Setting.get?_rewriteResponses answered (by simp [four, five]),
      RequestBody.Setting.get?_rewriteOperation formed.distinct asked (by simp [one, two, three])]
  · intro responses status response listed found plain
    have inner : Formed (.obj response) := Sound.get? (Sound.get? formed listed) found
    have still : Members.get? bodiless "responses" = some (.obj responses) :=
      (RequestBody.Setting.get?_rewriteOperation formed.distinct asked (by decide)).trans listed
    obtain ⟨answers, here, each⟩ := Response.Setting.rewriteResponses_answers answered still
    obtain ⟨answer, stop, before, after, made⟩ := Members.get?_of_forall₂ each found
    obtain ⟨folded, rfl, kept⟩ := rewriteNode_keeps inner plain made
    exact ⟨answers, folded, here, stop, kept⟩

/-- A path item that is no reference keeps what is neither its parameters nor an operation, and an
operation that is no reference is converted under its method. -/
theorem pathItem_keeps (plain : (Value.obj item).reference? = none)
    (returned : Returns (setting.pathItem root (.obj item)) result) :
    ∃ turned, result = .obj turned ∧
      (∀ name, name ∉ itemNames → Members.get? turned name = Members.get? item name) ∧
      ∀ (method : Method) operation, Members.get? item method.key = some (.obj operation) →
        (Value.obj operation).reference? = none →
        ∃ converted, Members.get? turned method.key = some (.obj converted) ∧
          Returns (setting.operation root operation) converted := by
  obtain ⟨target, found, reached⟩ := pathItem_returns returned
  cases (resolve_of_reference?_eq_none plain).symm.trans found
  obtain ⟨scalar, _⟩ | ⟨_, listed, turned, same, flat, all, rfl⟩ := reached
  · cases scalar
  cases same
  obtain ⟨each, others⟩ := methods_turned Method.nodup_all all
  refine ⟨turned, rfl, fun name other => ?_, fun method operation seen bare => ?_⟩
  · obtain ⟨parameters, methods⟩ := not_or.mp (mt List.mem_cons.mpr other)
    rw [others name fun method member same => methods (List.mem_map.mpr ⟨method, member, same.symm⟩),
      Parameter.get?_rewriteAll flat parameters]
  · rcases each method (Method.mem_all method) with ⟨absent, _⟩ | ⟨node, converted, held, made, stop⟩
    · rw [Parameter.get?_rewriteAll flat method.key_ne_parameters, seen] at absent
      cases absent
    rw [Parameter.get?_rewriteAll flat method.key_ne_parameters, seen] at held
    cases held
    obtain ⟨target, found, ⟨scalar, _⟩ | ⟨_, rewritten, same, ran, rfl⟩⟩ := operationNode_returns made
    · cases (resolve_of_reference?_eq_none bare).symm.trans found
      cases scalar
    · cases (resolve_of_reference?_eq_none bare).symm.trans found
      cases same
      exact ⟨rewritten, stop, ran⟩

/-- The item under a path, converted in the document that the paths before it have left. -/
theorem item_converted {walked paths : Members Value} (formed : Formed (.obj document))
    (ran : Returns ((pathsOf (setting.opened document)).names.foldlM setting.path (setting.opened document)) walked)
    (here : Members.get? document "paths" = some (.obj paths)) (seen : Members.get? paths path = some node) :
    ∃ before item, Returns (setting.pathItem (.obj before) node) item ∧
      Members.get? walked "paths" = some (.obj (pathsOf walked)) ∧ Members.get? (pathsOf walked) path = some item := by
  have listed : pathsOf (setting.opened document) = paths := pathsOf_opened formed.distinct here
  have distinct : (pathsOf (setting.opened document)).names.Nodup := by
    rw [listed]
    exact Sound.distinct (Sound.get? formed here)
  rw [← listed] at seen
  obtain ⟨earlier, later, parts⟩ := List.append_of_mem (Members.mem_names_of_get? seen)
  rw [parts] at ran distinct
  obtain ⟨before, item, visited⟩ := paths_visited distinct seen ran
  exact ⟨before, item, visited.made, get?_paths_of_mem visited.stop, visited.stop⟩

/-- Tags apart, a conversion keeps every member under a name that is none of its own: at the root, and
in each path item, operation and response that is written in its place. -/
theorem extensions_survive {converted : Converted} (formed : (Value.obj document).WellFormed)
    (made : setting.convert (.obj document) = .ok converted) :
    ∃ relocated unmarked,
      (relocated = true ↔ ∃ mapping, Members.get? document "components" = some (.obj mapping)) ∧
      setting.untagged document = .ok (.obj unmarked) ∧
      Tagged (setting.queued document) (.obj unmarked) converted.document ∧
      Keeps relocated rootNames document unmarked ∧
      ∀ paths path item, Members.get? document "paths" = some (.obj paths) →
        Members.get? paths path = some (.obj item) → (Value.obj item).reference? = none →
        ∃ turned, (Value.obj unmarked).walk? ["paths", path] = some (.obj turned) ∧
          Keeps relocated itemNames item turned ∧
          ∀ (method : Method) operation, Members.get? item method.key = some (.obj operation) →
            (Value.obj operation).reference? = none →
            ∃ rewritten, Members.get? turned method.key = some (.obj rewritten) ∧
              Keeps relocated operationNames operation rewritten ∧
              ∀ responses status response, Members.get? operation "responses" = some (.obj responses) →
                Members.get? responses status = some (.obj response) → (Value.obj response).reference? = none →
                ∃ folded, (Value.obj rewritten).walk? ["responses", status] = some (.obj folded) ∧
                  Keeps relocated responseNames response folded := by
  obtain ⟨walked, laid, relocated, ran, moved, untagged, tagged⟩ := convert_tagged made
  have sound : Formed (.obj document) := formed_iff.mpr formed
  have visited : Formed (.obj walked) := paths_formed (opened_refers sound) ran
  have moves := Relocation.relocated_iff moved
  rw [get?_components_walked sound.distinct ran] at moves
  refine ⟨relocated, _, moves, untagged, tagged, .readdressed fun name other => get?_laid sound ran moved other, ?_⟩
  intro paths path item here seen plain
  obtain ⟨before, after, ran, listed, stop⟩ := item_converted sound ran here seen
  obtain ⟨turned, rfl, kept, each⟩ := pathItem_keeps plain ran
  have still : Members.get? laid "paths" = some (.obj (pathsOf walked)) :=
    (Relocation.get?_components visited moved (by decide)).trans listed
  refine ⟨_, walk?_readdressed still stop, .readdressed kept, fun method operation found bare => ?_⟩
  have inner : Formed (.obj operation) := Sound.get? (Sound.get? (Sound.get? sound here) seen) found
  obtain ⟨rewritten, held, ran⟩ := each method operation found bare
  obtain ⟨same, answers⟩ := operation_keeps inner ran
  refine ⟨_, get?_readdressed_obj held, .readdressed same, fun responses status response one two clean => ?_⟩
  obtain ⟨listed, folded, first, second, rest⟩ := answers responses status response one two clean
  have inside : (Value.obj (readdressed relocated rewritten)).get? "responses" = some _ := get?_readdressed_obj first
  have last : (Value.obj (readdressed relocated listed)).get? status = some _ := get?_readdressed_obj second
  refine ⟨_, ?_, .readdressed rest⟩
  rw [walk?_of_get? inside, walk?_of_get? last]
  rfl

/-- A bakery with notes of its own everywhere. One of them is taken for a kind of loaf by a mapping. -/
def bakery : Members Value :=
  [("openapi", .str "3.0.0"),
    ("x-owner", .obj [("bakes", .obj [("$ref", .str "#/components/schemas/Loaf")])]),
    ("paths", .obj [("/loaves", .obj [("x-shelf", .num (.int 3)),
      ("get", .obj [("operationId", .str "listLoaves"),
        ("responses", .obj [("200", .obj [("description", .str "fresh"),
          ("content", .obj [("application/json", .obj [("schema",
            .obj [("$ref", .str "#/components/schemas/Loaf")])])])])])])])]),
    ("components", .obj [("schemas", .obj [("Loaf", .obj [("type", .str "object"),
      ("discriminator", .obj [("propertyName", .str "flour"), ("mapping", .obj [("rye", .str "#/x-owner")])])])])])]

def bakeryPaths : Value :=
  .obj [("/loaves", .obj [("x-shelf", .num (.int 3)),
    ("get", .obj [("operationId", .str "listLoaves"),
      ("responses", .obj [("200", .obj [("description", .str "fresh"),
        ("schema", .obj [("$ref", .str "#/definitions/Loaf")])])]),
      ("parameters", .arr []), ("produces", .arr [.str "application/json"])])])]

def untaggedBakery : Members Value :=
  [("swagger", .str "2.0"), ("x-owner", .obj [("bakes", .obj [("$ref", .str "#/definitions/Loaf")])]),
    ("paths", bakeryPaths), ("definitions", .obj [("Loaf", .obj [("type", .str "object"), ("discriminator", .str "flour")])]),
    ("x-components", .obj [])]

def convertedBakery : Value :=
  .obj [("swagger", .str "2.0"),
    ("x-owner", .obj [("bakes", .obj [("$ref", .str "#/definitions/Loaf")]),
      ("x-discriminator-value", .str "rye"), ("x-ms-discriminator-value", .str "rye")]),
    ("paths", bakeryPaths), ("definitions", .obj [("Loaf", .obj [("type", .str "object"), ("discriminator", .str "flour")])]),
    ("x-components", .obj [])]

theorem bakery_survives :
    Tagged [⟨"rye", "#/x-owner"⟩] (.obj untaggedBakery) convertedBakery ∧
      Members.get? untaggedBakery "x-owner" = some (.obj [("bakes", .obj [("$ref", .str "#/definitions/Loaf")])]) ∧
      Members.get? untaggedBakery "x-baker" = none ∧
      ∃ turned, (Value.obj untaggedBakery).walk? ["paths", "/loaves"] = some (.obj turned) ∧
        Members.get? turned "x-shelf" = some (.num (.int 3)) ∧
        ∃ rewritten, Members.get? turned "get" = some (.obj rewritten) ∧
          Members.get? rewritten "operationId" = some (.str "listLoaves") ∧
          ∃ folded, (Value.obj rewritten).walk? ["responses", "200"] = some (.obj folded) ∧
            Members.get? folded "description" = some (.str "fresh") := by
  have made : Setting.convert ⟨⟨none, Files.none⟩, 10⟩ (.obj bakery) = .ok ⟨convertedBakery, []⟩ := by decide +kernel
  have same : Setting.untagged ⟨⟨none, Files.none⟩, 10⟩ bakery = .ok (.obj untaggedBakery) := by decide +kernel
  have waiting : Setting.queued ⟨⟨none, Files.none⟩, 10⟩ bakery = [⟨"rye", "#/x-owner"⟩] := by decide +kernel
  obtain ⟨relocated, unmarked, moves, untagged, tagged, root, items⟩ := extensions_survive (by decide) made
  rw [waiting] at tagged
  cases untagged.symm.trans same
  cases moves.mpr ⟨_, rfl⟩
  obtain ⟨turned, here, kept, methods⟩ := items _ "/loaves" _ rfl rfl rfl
  obtain ⟨rewritten, found, still, answers⟩ := methods .get _ rfl rfl
  obtain ⟨folded, stop, rest⟩ := answers _ "200" _ rfl rfl rfl
  refine ⟨tagged, ?_, ?_, turned, here, ?_, rewritten, found, ?_, folded, stop, ?_⟩
  · exact (root "x-owner" (by decide)).trans (by decide +kernel)
  · exact (root "x-baker" (by decide)).trans (by decide +kernel)
  · exact (kept "x-shelf" (by decide)).trans (by decide +kernel)
  · exact (still "operationId" (by decide)).trans (by decide +kernel)
  · exact (rest "description" (by decide)).trans (by decide +kernel)

end Setting
end Conversion
end ApiDialect
