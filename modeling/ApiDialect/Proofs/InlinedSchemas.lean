import ApiDialect.Proofs.MovedTargets
import ApiDialect.Proofs.VisitedSchemas

/-! Schemas that are fetched from a file into an operation. Their own references stay as they are written,
and a fragment belongs to the document it stands in. So it leads to what the converted document has in its
place, whatever the file holds there. -/

namespace ApiDialect
open Rewriting Value

namespace Resolver
variable {resolver : Resolver} {root node external schema : Value} {reference : String}

/-- A reference into a file, the document in the file and what the reference leads to there. Without a
fragment the whole document is meant. -/
def Fetches (resolver : Resolver) (reference : String) (external schema : Value) : Prop :=
  Reference.isLocal reference = false ∧ ∃ file fragment,
    (Text.splitOnce? '#' reference).getD (reference, "") = (file, fragment) ∧
    resolver.load reference file = .ok external ∧ external.walk? (Pointer.ofFragment fragment) = some schema

theorem Fetches.inlineExternal (fetches : resolver.Fetches reference external schema) (refers : node.reference? = some reference)
    (root : Value) : resolver.inlineExternal root node = .ok schema := by
  obtain ⟨apart, file, fragment, cut, loaded, walks⟩ := fetches
  have outside : node.isExternalReference = true := by
    rw [isExternalReference, refers, Option.any_some, apart]
    rfl
  rw [Resolver.inlineExternal, if_pos outside, resolve, refers]
  dsimp only
  rw [follow, Discriminator.strip?_eq_none apart]
  cases split : Text.splitOnce? '#' reference with
  | none =>
    rw [split] at cut
    cases cut
    cases walks
    exact loaded
  | some parts =>
    rw [split] at cut
    cases cut
    dsimp only
    rw [loaded]
    change walk reference external fragment = _
    rw [walk, walks]

theorem Fetches.formed (fetches : resolver.Fetches reference external schema) : Formed schema := by
  obtain ⟨_, file, fragment, _, loaded, walks⟩ := fetches
  exact Sound.walk? (formed_iff.mpr (load_wellFormed loaded)) walks

end Resolver

namespace Response
namespace Setting
variable {setting : Setting} {produced after : List String} {node declared schema result : Value}
  {response content : Members Value}

/-- The schema of a response's content, fetched and rewritten, becomes that of the response. -/
theorem rewriteNode_schema (resolved : setting.resolver.resolve setting.root node = .ok (.obj response))
    (contained : Members.get? response "content" = some (.obj content)) (chosen : (foldContent [] content).schema? = some declared)
    (found : setting.resolver.inlineExternal setting.root declared = .ok schema)
    (returned : Returns (setting.rewriteNode produced node) (after, result)) :
    ∃ rewritten, Returns (Schema.rewrite setting.limit .response schema) rewritten ∧ result.get? "schema" = some rewritten := by
  obtain ⟨target, led, ⟨scalar, _⟩ | ⟨_, folded, headed, same, folds, heads, rest⟩⟩ := rewriteNode_returns returned
  · cases led.symm.trans resolved
    cases scalar
  cases led.symm.trans resolved
  cases same
  obtain rfl : result = .obj headed := congrArg Prod.snd rest
  rcases foldInto_returns folds with ⟨absent, _⟩ | ⟨_, other, plain, _⟩ | ⟨_, filled, again, set, rfl⟩
  · cases absent.symm.trans contained
  · cases other.symm.trans contained
    cases plain
  cases again.symm.trans contained
  rw [foldContent_schema?, chosen] at set
  rcases setSchema_returns set with ⟨impossible, _⟩ | ⟨_, fetched, rewritten, same, led, changed, rfl⟩
  · cases impossible
  cases same
  cases led.symm.trans found
  refine ⟨rewritten, changed, ?_⟩
  rw [Value.get?, get?_rewriteHeaders heads (by decide), Members.get?_insert_self]

end Setting
end Response

namespace Conversion

/-- Where an operation has a schema that is fetched when it lies in a file. -/
inductive Site where
  | body
  | answer (status : String)

namespace Site

def direction : Site → Direction
  | .body => .request
  | .answer _ => .response

/-- The schema that an operation has for its body or for a response before it is converted. -/
def Describes (resolver : Resolver) (root : Value) (operation : Members Value) (schema : Value) : Site → Prop
  | .body => RequestBody.Carries resolver root operation schema
  | .answer status => ∃ responses node response content,
      Members.get? operation "responses" = some (.obj responses) ∧ Members.get? responses status = some node ∧
      resolver.resolve root node = .ok (.obj response) ∧ Members.get? response "content" = some (.obj content) ∧
      (Response.foldContent [] content).schema? = some schema

/-- The schema that an operation has there afterwards. -/
def Holds (operation : Members Value) (schema : Value) : Site → Prop
  | .body => RequestBody.Sends operation schema
  | .answer status => (Value.obj operation).walk? ["responses", status, "schema"] = some schema

/-- The schema is brought into the operation from a file. -/
def Inlines (site : Site) (resolver : Resolver) (root : Value) (operation : Members Value) (external schema : Value) : Prop :=
  ∃ declared reference, site.Describes resolver root operation declared ∧ declared.reference? = some reference ∧
    resolver.Fetches reference external schema

end Site

namespace Setting
open Discriminator
variable {setting : Setting} {document before operation converted : Members Value} {root external schema declared : Value}
  {path status : String} {method : Method} {site : Site} {relocated : Bool}

theorem operation_answers (formed : Formed (.obj operation))
    (describes : (Site.answer status).Describes setting.resolver root operation declared)
    (found : setting.resolver.inlineExternal root declared = .ok schema)
    (returned : Returns (setting.operation root operation) converted) :
    ∃ rewritten, Returns (Schema.rewrite setting.limit .response schema) rewritten ∧
      (Value.obj converted).walk? ["responses", status, "schema"] = some rewritten := by
  obtain ⟨responses, node, response, content, listed, seen, resolved, contained, chosen⟩ := describes
  obtain ⟨bodiless, asked, answered⟩ := operation_returns returned
  have still : Members.get? bodiless "responses" = some (.obj responses) :=
    (RequestBody.Setting.get?_rewriteOperation formed.distinct asked (by decide)).trans listed
  obtain ⟨answers, here, each⟩ := Response.Setting.rewriteResponses_answers answered still
  obtain ⟨answer, stop, _, _, made⟩ := Members.get?_of_forall₂ each seen
  obtain ⟨rewritten, changed, last⟩ := Response.Setting.rewriteNode_schema resolved contained chosen found made
  refine ⟨rewritten, changed, ?_⟩
  rw [walk?, child?, here, Option.bind_some, walk?, child?, stop, Option.bind_some, walk?_of_get? last]
  rfl

/-- A schema from a file is rewritten like any other of its site. -/
theorem operation_inlines (formed : Formed (.obj operation))
    (leads : setting.resolver.Leads root (atReference fun _ => True))
    (inlines : site.Inlines setting.resolver root operation external schema)
    (returned : Returns (setting.operation root operation) converted) :
    Formed schema ∧ ∃ rewritten, Returns (Schema.rewrite setting.limit site.direction schema) rewritten ∧
      site.Holds converted rewritten := by
  obtain ⟨declared, reference, describes, refers, fetches⟩ := inlines
  have found := fetches.inlineExternal refers root
  refine ⟨fetches.formed, ?_⟩
  cases site with
  | body => exact operation_sends formed leads describes found returned
  | answer status => exact operation_answers formed describes found returned

theorem holds_readdressed (holds : site.Holds operation schema) :
    site.Holds (readdressed relocated operation) (readdressedSchema relocated schema) := by
  cases site with
  | body => exact sends_readdressed holds
  | answer status => exact walk?_readdressed_eq holds fun last => absurd last (by simp)

theorem readdressedSchema_obj (members : Members Value) :
    readdressedSchema relocated (.obj members) = .obj (readdressed relocated members) := by
  cases relocated <;> rfl

theorem walk?_readdressedSchema {place : Pointer} {reference : String}
    (walks : schema.walk? (place ++ ["$ref"]) = some (.str reference)) :
    (readdressedSchema relocated schema).walk? (place ++ ["$ref"]) =
      some (.str (readdressedReference relocated reference)) := by
  cases relocated with
  | false => exact walks
  | true => exact Relocation.walk?_references_text walks

/-- A reference of a schema that was brought in from a file is kept as one of the document it was brought
to. It resolves in the end if it leads to a component that is found again, or to what no conversion touches:
to what has become of that, and not of what the file holds in its place. -/
theorem inlined_settle {done : Converted} (formed : (Value.obj document).WellFormed)
    (made : setting.convert (.obj document) = .ok done) (reached : setting.Reached document path method before operation)
    (inlines : site.Inlines setting.resolver (.obj before) operation external schema) :
    ∃ relocated unmarked after last,
      (relocated = true ↔ ∃ mapping, Members.get? document "components" = some (.obj mapping)) ∧
      setting.untagged document = .ok (.obj unmarked) ∧
      Tagged (setting.queued document) (.obj unmarked) done.document ∧
      (Value.obj unmarked).walk? ["paths", path, method.key] = some (.obj after) ∧ site.Holds after last ∧
      ∀ place reference, Schema.Kept site.direction schema (place ++ ["$ref"]) (.str reference) →
        last.walk? (place ++ ["$ref"]) = some (.str (readdressedReference relocated reference)) ∧
        ∀ target moved, Counterpart setting document reference target moved →
          setting.resolver.follow (.obj document) reference = .ok target ∧
          setting.resolver.follow (.obj unmarked) (readdressedReference relocated reference) =
            .ok (readdressedSchema relocated moved) ∧
          ((∀ name, isMark name → Text.occurs name reference = false) →
            ∃ final, setting.resolver.follow done.document (readdressedReference relocated reference) = .ok final ∧
              Tagged (setting.queued document) (readdressedSchema relocated moved) final) := by
  have sound : Formed (.obj document) := formed_iff.mpr formed
  obtain ⟨walked, laid, relocated, ran, moved, untagged, tagged⟩ := convert_tagged made
  have visited : Formed (.obj walked) := paths_formed (opened_refers sound) ran
  have moves := Relocation.relocated_iff moved
  rw [get?_components_walked sound.distinct ran] at moves
  obtain ⟨item, converted, stop, held, returned, standing, inner⟩ := reached.converted sound ran
  have leads := setting.resolver.loads_formed.leads standing
  obtain ⟨single, rewritten, changed, holds⟩ := operation_inlines inner leads inlines returned
  have paths : Members.get? laid "paths" = some (.obj (pathsOf walked)) :=
    (Relocation.get?_components visited moved (by decide)).trans (get?_paths_of_mem stop)
  have stands : (Value.obj laid).walk? ["paths", path, method.key] = some (.obj converted) := by
    rw [walk?, child?, paths, Option.bind_some, walk?, child?, stop, Option.bind_some, walk?, child?, held]
    rfl
  refine ⟨relocated, _, readdressed relocated converted, _, moves, untagged, tagged, ?_, holds_readdressed holds,
    fun place reference kept => ?_⟩
  · rw [walk?_readdressed_eq stands fun _ => rfl, readdressedSchema_obj]
  · refine ⟨walk?_readdressedSchema (kept.walk?_rewritten single changed), fun target value counterpart => ?_⟩
    exact ⟨counterpart.follow _, counterpart.follow_laid sound ran moved _,
      fun unmarked => counterpart.follow_tagged sound ran moved tagged unmarked _⟩

/-- Stars are described in a file of their own, which has another idea of what a planet is. -/
def stargazing : Members Value :=
  [("openapi", .str "3.0.0"),
    ("paths", .obj [("/stars", .obj [("post", .obj (asking (.obj [("$ref", .str "stars.json#/Star")])))])]),
    ("components", .obj [("schemas", .obj [("Planet", .obj [("type", .str "object"), ("nullable", .bool true)])])])]

def starFiles : Files where
  readText path := if path = "sky/stars.json" then .ok (
    "\x7b\"Star\":\x7b\"type\":\"object\",\"properties\":\x7b\"planet\":\x7b\"$ref\":\"#/components/schemas/Planet\"\x7d\x7d\x7d," ++
    "\"components\":\x7b\"schemas\":\x7b\"Planet\":\x7b\"type\":\"string\"\x7d\x7d\x7d\x7d") else .error .notFound
  exists? path := path = "sky/stars.json"

def star (planet : String) : Value :=
  .obj [("type", .str "object"), ("properties", .obj [("planet", .obj [("$ref", .str planet)])])]

def convertedStargazing : Value :=
  .obj [("swagger", .str "2.0"),
    ("paths", .obj [("/stars", .obj [("post", .obj (sending (star "#/definitions/Planet")))])]),
    ("definitions", .obj [("Planet", .obj [("type", .str "object"), ("x-nullable", .bool true)])]), ("x-components", .obj [])]

theorem stargazing_inlines : Site.body.Inlines ⟨some "sky", starFiles⟩ (.obj (opened ⟨⟨some "sky", starFiles⟩, 10⟩ stargazing))
    (asking (.obj [("$ref", .str "stars.json#/Star")]))
    (.obj [("Star", star "#/components/schemas/Planet"),
      ("components", .obj [("schemas", .obj [("Planet", .obj [("type", .str "string")])])])])
    (star "#/components/schemas/Planet") :=
  ⟨_, _, ⟨_, _, _, "application/json", .json, rfl, rfl, rfl, rfl, by decide +kernel, by decide, rfl⟩, rfl,
    by decide +kernel, "stars.json", "/Star", by decide +kernel, by decide +kernel, by decide +kernel⟩

theorem stargazing_settles :
    (∃ after last, convertedStargazing.walk? ["paths", "/stars", "post"] = some (.obj after) ∧ Site.body.Holds after last ∧
      last.walk? ["properties", "planet", "$ref"] = some (.str "#/definitions/Planet")) ∧
    Resolver.follow ⟨some "sky", starFiles⟩ convertedStargazing "#/definitions/Planet" =
      .ok (.obj [("type", .str "object"), ("x-nullable", .bool true)]) := by
  have made : Setting.convert ⟨⟨some "sky", starFiles⟩, 10⟩ (.obj stargazing) = .ok ⟨convertedStargazing, []⟩ := by
    decide +kernel
  have same : Setting.untagged ⟨⟨some "sky", starFiles⟩, 10⟩ stargazing = .ok convertedStargazing := by decide +kernel
  have reached : Reached ⟨⟨some "sky", starFiles⟩, 10⟩ stargazing "/stars" .post
      (opened ⟨⟨some "sky", starFiles⟩, 10⟩ stargazing) (asking (.obj [("$ref", .str "stars.json#/Star")])) := ⟨rfl, _, _, _, rfl, rfl, rfl, rfl⟩
  have kept : Schema.Kept .request (star "#/components/schemas/Planet") (["properties", "planet"] ++ ["$ref"])
      (.str "#/components/schemas/Planet") :=
    .property rfl rfl rfl (fun impossible => nomatch impossible) (by decide) (Schema.kept_reference rfl)
  have becomes : readdressedReference true "#/components/schemas/Planet" = "#/definitions/Planet" := by decide +kernel
  have planet : Counterpart ⟨⟨some "sky", starFiles⟩, 10⟩ stargazing "#/components/schemas/Planet"
      (.obj [("type", .str "object"), ("nullable", .bool true)]) (.obj [("type", .str "object"), ("x-nullable", .bool true)]) :=
    @Counterpart.schema _ _ "Planet" "Planet" [] _ _ _ _ (by decide +kernel) (by decide +kernel) rfl rfl
      ⟨.empty, .empty, rfl⟩ rfl fun _ => rfl
  obtain ⟨relocated, unmarked, after, last, moves, untagged, _, stands, holds, references⟩ :=
    inlined_settle (by decide) made reached stargazing_inlines
  cases moves.mpr ⟨_, rfl⟩
  obtain ⟨written, leads⟩ := references _ _ kept
  rw [becomes] at written leads
  rw [untagged] at same
  rw [Except.ok.inj same] at stands leads
  exact ⟨⟨after, last, stands, holds, written⟩, (leads _ _ planet).2.1⟩

/-- A node of a tree has a parent that is a node, too. -/
def treeNode : Value :=
  .obj [("type", .str "object"), ("properties", .obj [("parent", .obj [("$ref", .str "#")])])]

def treeFiles : Files where
  readText path := if path = "tree.json" then .ok
    "\x7b\"type\":\"object\",\"properties\":\x7b\"parent\":\x7b\"$ref\":\"#\"\x7d\x7d\x7d" else .error .notFound
  exists? path := path = "tree.json"

def answering (content : Value) : Members Value :=
  [("responses", .obj [("200", .obj [("content", .obj [("application/json", .obj [("schema", content)])])])])]

/-- The nodes of a forest are described in a file that holds nothing else. -/
def forest : Members Value :=
  [("openapi", .str "3.0.0"), ("paths", .obj [("/nodes", .obj [("get", .obj (answering (.obj [("$ref", .str "tree.json")])))])])]

def convertedForest : Value :=
  .obj [("swagger", .str "2.0"), ("paths", .obj [("/nodes", .obj [("get", .obj [
    ("responses", .obj [("200", .obj [("schema", treeNode)])]), ("parameters", .arr []),
    ("produces", .arr [.str "application/json"])])])])]

/-- In the file the parent of a node is a node, and where the node has been brought it is a whole document. -/
theorem forest_strays : (Value.obj forest).WellFormed ∧
    Setting.convert ⟨⟨some "", treeFiles⟩, 10⟩ (.obj forest) = .ok ⟨convertedForest, []⟩ ∧
    Reached ⟨⟨some "", treeFiles⟩, 10⟩ forest "/nodes" .get (opened ⟨⟨some "", treeFiles⟩, 10⟩ forest)
      (answering (.obj [("$ref", .str "tree.json")])) ∧
    (Site.answer "200").Inlines ⟨some "", treeFiles⟩ (.obj (opened ⟨⟨some "", treeFiles⟩, 10⟩ forest))
      (answering (.obj [("$ref", .str "tree.json")])) treeNode treeNode ∧
    Schema.Kept .response treeNode ["properties", "parent", "$ref"] (.str "#") ∧
    Resolver.follow ⟨some "", treeFiles⟩ treeNode "#" = .ok treeNode ∧
    convertedForest.walk? ["paths", "/nodes", "get", "responses", "200", "schema"] = some treeNode ∧
    treeNode.walk? ["properties", "parent", "$ref"] = some (.str "#") ∧
    Resolver.follow ⟨some "", treeFiles⟩ convertedForest "#" = .ok convertedForest ∧ convertedForest ≠ treeNode := by
  refine ⟨by decide, by decide +kernel, ⟨rfl, _, _, _, rfl, rfl, rfl, rfl⟩, ?_, ?_, by decide +kernel, by decide +kernel, rfl,
    by decide +kernel, by decide⟩
  · exact ⟨.obj [("$ref", .str "tree.json")], "tree.json", ⟨_, _, _, _, rfl, rfl, rfl, rfl, by decide +kernel⟩, rfl,
      by decide +kernel, "tree.json", "", by decide +kernel, by decide +kernel, rfl⟩
  · exact .property rfl rfl rfl (fun _ => rfl) (by decide) (Schema.kept_reference rfl)

end Setting
end Conversion
end ApiDialect
