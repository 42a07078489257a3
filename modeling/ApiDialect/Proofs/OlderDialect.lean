import ApiDialect.Proofs.Layout
import ApiDialect.Proofs.OlderParts
import ApiDialect.Proofs.Reading

/-! A converted document is free of what only the newer dialect has. Each path item is when it is
written back, the loop and the relocation do not touch it again, and marks and references keep the
shape of every node. -/

namespace ApiDialect
open Rewriting Value Discriminator

namespace Conversion
variable {setting : Setting} {root node result : Value} {item document : Members Value}

structure OlderOperation (operation : Members Value) : Prop where
  listed : ∃ nodes, Members.get? operation "parameters" = some (.arr nodes)
  flat : Parameter.ListsFlat operation
  bodiless : Members.get? operation "requestBody" = none
  answers : Response.Setting.AnswersOlder operation

structure OlderItem (item : Members Value) : Prop where
  flat : Parameter.ListsFlat item
  operations : ∀ method : Method, ∀ operation, Members.get? item method.key = some (.obj operation) →
    OlderOperation operation

/-- The root names its dialect, and every path item is free of newer constructs. -/
structure OlderDocument (document : Members Value) : Prop where
  version : Members.get? document "swagger" = some (.str "2.0")
  versionless : Members.get? document "openapi" = none
  serverless : Members.get? document "servers" = none
  items : ∀ paths, Members.get? document "paths" = some (.obj paths) →
    ∀ path item, Members.get? paths path = some (.obj item) → OlderItem item

namespace Setting

theorem operation_older {members converted : Members Value} (leads : setting.resolver.Leads root (atReference fun _ => True))
    (returned : Returns (setting.operation root members) converted) (formed : Formed (.obj members)) :
    OlderOperation converted := by
  obtain ⟨bodiless, first, last⟩ := operation_returns returned
  obtain ⟨⟨nodes, seen⟩, flat, gone⟩ := RequestBody.Setting.rewriteOperation_older leads first formed
  have kept := Response.Setting.get?_rewriteResponses last (by decide : "parameters" ∉ ["responses", "produces"])
  refine ⟨⟨nodes, kept.trans seen⟩, fun nodes seen => flat nodes (kept.symm.trans seen), ?_, ?_⟩
  · rw [Response.Setting.get?_rewriteResponses last (by decide), gone]
  · exact Response.Setting.rewriteResponses_older leads last
      (RequestBody.Setting.rewriteOperation_refers textual_true.shallow leads first formed)

theorem operationNode_older {operation : Members Value} (leads : setting.resolver.Leads root (atReference fun _ => True))
    (returned : Returns (setting.operationNode root node) (.obj operation)) (formed : Formed node) :
    OlderOperation operation := by
  obtain ⟨target, found, ⟨plain, same⟩ | ⟨members, converted, rfl, made, same⟩⟩ := operationNode_returns returned
  · cases same
    cases plain
  · cases same
    exact operation_older leads made (formed.resolve leads found)

theorem pathItem_older {converted : Members Value} (leads : setting.resolver.Leads root (atReference fun _ => True))
    (returned : Returns (setting.pathItem root node) (.obj converted)) (formed : Formed node) :
    OlderItem converted := by
  obtain ⟨target, found, ⟨plain, same⟩ | ⟨item, listed, methods, rfl, made, all, same⟩⟩ := pathItem_returns returned
  · cases same
    cases plain
  cases same
  have resolved : Formed (.obj item) := formed.resolve leads found
  have sound : Formed (.obj listed) := Parameter.rewriteAll_refers leads made resolved
  obtain ⟨turned, frame⟩ := methods_turned Method.nodup_all all
  refine ⟨fun nodes seen => ?_, fun method operation seen => ?_⟩
  · rw [frame "parameters" (by decide)] at seen
    exact Parameter.rewriteAll_flat leads made resolved nodes seen
  · rcases turned method (Method.mem_all method) with ⟨_, absent⟩ | ⟨inner, after, held, run, same⟩
    · cases absent.symm.trans seen
    · cases same.symm.trans seen
      exact operationNode_older leads run (Sound.get? sound held)

/-- Every path is visited, and what it gets then stays. -/
theorem paths_older {converted : Members Value} (formed : Formed (.obj document))
    (returned : Returns ((pathsOf document).names.foldlM setting.path document) converted)
    {path : String} (seen : Members.get? (pathsOf converted) path = some (.obj item)) : OlderItem item := by
  have distinct : (pathsOf document).names.Nodup := (pathsOf_refers formed).distinct
  have member : path ∈ (pathsOf document).names := by
    rw [← (paths_framed returned).paths]
    exact Members.mem_names_of_get? seen
  obtain ⟨node, start⟩ := Members.exists_get?_of_mem member
  obtain ⟨earlier, later, parts⟩ := List.append_of_mem member
  rw [parts] at returned distinct
  obtain ⟨before, after, visited⟩ := paths_visited distinct start returned
  have leads := setting.resolver.loads_formed.leads (paths_formed formed visited.ran)
  cases visited.stop.symm.trans seen
  exact pathItem_older leads visited.made (Sound.get? (pathsOf_refers formed) start)

end Setting
end Conversion

/-! What is absent stays absent under marks and references, and what is an object was one. -/

namespace Mildly
open Conversion
variable {item document : Members Value}

theorem flat {parameter changed : Members Value} (mildly : Mildly (.obj parameter) (.obj changed))
    (flat : Parameter.Flat parameter) : Parameter.Flat changed := by
  refine ⟨mildly.get?_none (by decide) flat.style, mildly.get?_none (by decide) flat.explode, fun place => ?_⟩
  have bare := flat.bare fun body => place (mildly.get?_str (by decide) (by decide) body)
  exact ⟨mildly.get?_none (by decide) bare.1, mildly.get?_none (by decide) bare.2.1,
    mildly.get?_none (by decide) bare.2.2⟩

theorem listsFlat {owner changed : Members Value} (mildly : Mildly (.obj owner) (.obj changed))
    (flat : Parameter.ListsFlat owner) : Parameter.ListsFlat changed := by
  intro nodes seen parameter member
  obtain ⟨sources, found, items⟩ := mildly.get?_arr seen
  obtain ⟨source, inside, held⟩ := items.item_obj member
  exact held.flat (flat sources found source inside)

theorem olderResponse {response changed : Members Value} (mildly : Mildly (.obj response) (.obj changed))
    (older : Response.Older response) : Response.Older changed := by
  refine ⟨mildly.get?_none (by decide) older.content, fun headers seen name header held => ?_⟩
  obtain ⟨sources, found, inner⟩ := mildly.get?_obj seen
  obtain ⟨source, inside, last⟩ := inner.get?_obj held
  exact last.get?_none (by decide) (older.headers sources found name source inside)

theorem olderOperation {operation changed : Members Value} (mildly : Mildly (.obj operation) (.obj changed))
    (older : OlderOperation operation) : OlderOperation changed := by
  obtain ⟨nodes, listed⟩ := older.listed
  refine ⟨mildly.get?_isArr (by decide) listed, mildly.listsFlat older.flat,
    mildly.get?_none (by decide) older.bodiless, fun responses seen status response held => ?_⟩
  obtain ⟨sources, found, inner⟩ := mildly.get?_obj seen
  obtain ⟨source, inside, last⟩ := inner.get?_obj held
  exact last.olderResponse (older.answers sources found status source inside)

theorem olderItem {changed : Members Value} (mildly : Mildly (.obj item) (.obj changed))
    (older : OlderItem item) : OlderItem changed := by
  refine ⟨mildly.listsFlat older.flat, fun method operation seen => ?_⟩
  obtain ⟨source, found, inner⟩ := mildly.get?_obj seen
  exact inner.olderOperation (older.operations method source found)

theorem olderDocument {changed : Members Value} (mildly : Mildly (.obj document) (.obj changed))
    (older : OlderDocument document) : OlderDocument changed := by
  refine ⟨mildly.get?_str (by decide) (by decide) older.version, mildly.get?_none (by decide) older.versionless,
    mildly.get?_none (by decide) older.serverless, fun paths seen path item held => ?_⟩
  obtain ⟨sources, found, inner⟩ := mildly.get?_obj seen
  obtain ⟨source, inside, last⟩ := inner.get?_obj held
  exact last.olderItem (older.items sources found path source inside)

end Mildly

namespace Conversion
namespace Setting
variable {setting : Setting}

theorem layout_older {document paths result : Members Value} {relocated : Bool} (formed : Formed (.obj document))
    (walked : Returns ((pathsOf (setting.opened document)).names.foldlM setting.path (setting.opened document)) paths)
    (moved : Returns (Relocation.components setting.limit paths) (result, relocated)) : OlderDocument result := by
  have started : Formed (.obj (setting.opened document)) := opened_refers formed
  have sound : Formed (.obj paths) := paths_formed started walked
  have kept : ∀ name, name ∉ ["host", "schemes", "basePath"] → name ≠ "paths" →
      name ∉ ["components", "definitions", "securityDefinitions", "x-components"] →
      Members.get? result name = if name = "servers" ∨ name = "openapi" then none
        else if name = "swagger" then some (.str "2.0") else Members.get? document name := by
    intro name placed other section'
    rw [Relocation.get?_components sound moved section', (paths_framed walked).others name other,
      get?_opened formed.distinct placed]
  refine ⟨?_, ?_, ?_, fun items seen path item held => ?_⟩
  · rw [kept "swagger" (by decide) (by decide) (by decide), if_neg (by decide), if_pos rfl]
  · rw [kept "openapi" (by decide) (by decide) (by decide), if_pos (Or.inr rfl)]
  · rw [kept "servers" (by decide) (by decide) (by decide), if_pos (Or.inl rfl)]
  · rw [Relocation.get?_components sound moved (by decide)] at seen
    have inside : Members.get? (pathsOf paths) path = some (.obj item) := by
      rw [pathsOf, seen]
      exact held
    exact paths_older started walked inside

/-- Whatever a document refers to and however deep it is, its conversion has nothing left that only
the newer dialect knows. -/
theorem convert_older {document : Value} {converted : Converted} (formed : document.WellFormed)
    (made : setting.convert document = .ok converted) :
    ∃ result, converted.document = .obj result ∧ converted.document.WellFormed ∧ OlderDocument result ∧
      ((∃ mapping, document.get? "components" = some (.obj mapping)) → Members.get? result "components" = none) := by
  obtain ⟨members, paths, laid, relocated, queue, rfl, walked, moved, rfl⟩ := convert_stages made
  have sound : Formed (.obj members) := formed_iff.mpr formed
  have visited : Formed (.obj paths) := paths_formed (opened_refers sound) walked
  have placed : Formed (.obj laid) := Relocation.components_refers textual_true.shallow moved visited
  have mildly := finish_mildly setting laid relocated queue
  obtain ⟨result, same, _⟩ := mild_mildly.obj mildly
  refine ⟨result, same, finish_wellFormed placed, ?_, ?_⟩
  · rw [same] at mildly
    exact mildly.olderDocument (layout_older sound walked moved)
  · rintro ⟨mapping, seen⟩
    rw [same] at mildly
    have still : Members.get? paths "components" = some (.obj mapping) := by
      rw [(paths_framed walked).others _ (by decide), get?_opened sound.distinct (by decide), if_neg (by decide),
        if_neg (by decide)]
      exact seen
    have inner : Formed (.obj mapping) := Sound.get? visited still
    have gone := (Relocation.components_relocated visited.distinct still inner.distinct moved).2.components
    exact mildly.get?_none (by decide) gone

/-- A shop with a server, a shared parameter and an answer in JSON. -/
def petShop : Value :=
  .obj [("openapi", .str "3.0.0"), ("servers", .arr [.obj [("url", .str "https://example.com/v1")]]),
    ("paths", .obj [("/pets", .obj [("get", .obj [
      ("parameters", .arr [.obj [("$ref", .str "#/components/parameters/tags")]]),
      ("responses", .obj [("200", .obj [("content", .obj [("application/json", .obj [
        ("schema", .obj [("type", .str "string")])])])])])])])]),
    ("components", .obj [("parameters", .obj [("tags", .obj [("name", .str "tags"), ("in", .str "query"),
      ("style", .str "pipeDelimited"), ("schema", .obj [("type", .str "array")])])])])]

def olderPetShop : Value :=
  .obj [("schemes", .arr [.str "https"]), ("basePath", .str "/v1"),
    ("paths", .obj [("/pets", .obj [("get", .obj [
      ("parameters", .arr [.obj [("name", .str "tags"), ("in", .str "query"), ("collectionFormat", .str "pipes"),
        ("type", .str "array")]]),
      ("responses", .obj [("200", .obj [("schema", .obj [("type", .str "string")])])]),
      ("produces", .arr [.str "application/json"])])])]),
    ("host", .str "example.com"), ("swagger", .str "2.0"),
    ("x-components", .obj [("parameters", .obj [("tags", .obj [("name", .str "tags"), ("in", .str "query"),
      ("style", .str "pipeDelimited"), ("schema", .obj [("type", .str "array")])])])])]

theorem petShop_older : ∃ result, olderPetShop = .obj result ∧ olderPetShop.WellFormed ∧ OlderDocument result ∧
    ((∃ mapping, petShop.get? "components" = some (.obj mapping)) → Members.get? result "components" = none) :=
  convert_older (by decide)
    (by decide +kernel : Setting.convert ⟨⟨none, Files.none⟩, 10⟩ petShop = .ok ⟨olderPetShop, []⟩)

end Setting
end Conversion
end ApiDialect
