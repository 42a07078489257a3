import ApiDialect.Proofs.Layout
import ApiDialect.Proofs.MappingEntries
import ApiDialect.Proofs.OperationFrames

/-! The schemas that a conversion visits: for every operation that of its body and those of its
responses, in a document in which the paths before have been converted, and then the shared ones. -/

namespace ApiDialect
open Rewriting Value

/-- A schema together with the side of an exchange for which it is rewritten. -/
abbrev Visit := Direction × Value

/-- The entries that are met on some visits. -/
def Visit.entries (limit : Nat) (visits : List Visit) : Members Value :=
  visits.flatMap fun visit => Schema.entries visit.1 (limit + 1) visit.2

namespace RequestBody
namespace Setting

/-- The schema of the content that stands for a body. That of a form is looked up, and content of
unknown type that has none is taken for bytes. -/
def contentSchema? (setting : Setting) (content : Members Value) (key : String) (kind : MediaType.BodyKind) : Option Value :=
  let schema := (schemaAt? content key).bind fun node => (setting.resolver.inlineExternal setting.root node).toOption
  match kind with
  | .form => schema.bind fun node => (setting.resolver.resolve setting.root node).toOption
  | .json => schema
  | .other => some (schema.getD binary)

/-- The schema of an operation's body. -/
def bodySchema? (setting : Setting) (operation : Members Value) : Option Value := do
  let node ← Members.get? operation "requestBody"
  let body ← (setting.resolver.resolve setting.root node).toOption
  let content ← (body.get? "content").bind Value.members?
  let (key, kind) ← MediaType.preferred? content
  setting.contentSchema? content key kind

end Setting
end RequestBody

namespace Response
namespace Setting

/-- The schema that a response is left with, one for all its contents. -/
def contentSchema? (setting : Setting) (response : Value) : Option Value := do
  let content ← (response.get? "content").bind Value.members?
  let schema ← (foldContent [] content).schema?
  (setting.resolver.inlineExternal setting.root schema).toOption

/-- The schema of a response, or of the target of one. -/
def answerSchema? (setting : Setting) (node : Value) : Option Value :=
  (setting.resolver.resolve setting.root node).toOption.bind setting.contentSchema?

/-- The schemas of an operation's responses. -/
def answerSchemas (setting : Setting) (operation : Members Value) : List Value :=
  match Members.get? operation "responses" with
  | some (.obj responses) => responses.filterMap fun entry => setting.answerSchema? entry.2
  | _ => []

end Setting
end Response

namespace Conversion
namespace Setting

/-- What is visited in an operation, or in the target of one. -/
def operationVisits (setting : Setting) (root node : Value) : List Visit :=
  match setting.resolver.resolve root node with
  | .ok (.obj operation) =>
    (RequestBody.Setting.bodySchema? ⟨setting.resolver, setting.limit, root⟩ operation).toList.map (Prod.mk .request) ++
      (Response.Setting.answerSchemas ⟨setting.resolver, setting.limit, root⟩ operation).map (Prod.mk .response)
  | _ => []

/-- What is visited under the key of a method. -/
def methodVisits (setting : Setting) (root : Value) (item : Members Value) (method : Method) : List Visit :=
  (Members.get? item method.key).toList.flatMap (setting.operationVisits root)

/-- What is visited in a path item, method by method. -/
def itemVisits (setting : Setting) (root node : Value) : List Visit :=
  match setting.resolver.resolve root node with
  | .ok (.obj item) => Method.all.flatMap (setting.methodVisits root item)
  | _ => []

/-- The document when one more path has been converted. -/
def pathTaken (setting : Setting) (document : Members Value) (path : String) : Members Value :=
  match (setting.path document path).run.run .empty with
  | (.ok next, _) => next
  | (.error _, _) => document

/-- What is visited under some paths, one after the other. -/
def pathVisits (setting : Setting) (document : Members Value) : (todo : List String) → List Visit
  | [] => []
  | path :: rest =>
    (Members.get? (pathsOf document) path).toList.flatMap (setting.itemVisits (.obj document)) ++
      pathVisits setting (setting.pathTaken document path) rest

/-- The shared schemas of a document. -/
def sharedSchemas (document : Members Value) : List Value :=
  let schemas := ((Members.get? document "components").bind Value.members?).bind (Members.get? · "schemas")
  ((schemas.bind Value.members?).getD []).map Prod.snd

/-- All that is visited. -/
def visits (setting : Setting) (document : Members Value) : List Visit :=
  setting.pathVisits (setting.opened document) (pathsOf (setting.opened document)).names ++
    (sharedSchemas document).map (Prod.mk .response)

end Setting
end Conversion

namespace Visit

theorem entries_append (limit : Nat) (first second : List Visit) :
    entries limit (first ++ second) = entries limit first ++ entries limit second := List.flatMap_append

/-- What is met in a schema that is there at most once. -/
def entriesOf (limit : Nat) (direction : Direction) (schema : Option Value) : Members Value :=
  entries limit (schema.toList.map (Prod.mk direction))

theorem rewrite_collects {limit : Nat} {direction : Direction} {schema : Value} (formed : Formed schema) :
    Collects (Schema.rewrite limit direction schema) (entriesOf limit direction (some schema)) := by
  have single : entriesOf limit direction (some schema) = Schema.entries direction (limit + 1) schema :=
    List.append_nil _
  rw [single]
  exact Schema.rewrite_collects formed

end Visit

theorem toOption_ok {ε α : Type} (value : α) : (Except.ok value : Except ε α).toOption = some value := rfl

theorem toOption_eq_some {ε α : Type} {attempt : Except ε α} {value : α} (found : attempt.toOption = some value) :
    attempt = .ok value := by
  cases attempt with
  | error error => cases found
  | ok held => exact congrArg Except.ok (Option.some.inj found)

namespace RequestBody
namespace Setting
variable {setting : Setting} {operation parameter body content : Members Value} {schema : Option Value}

theorem asForm_collects (leads : setting.resolver.Leads setting.root (atReference fun _ => True))
    (formed : ∀ node, schema = some node → Formed node) :
    Collects (setting.asForm parameter schema) (Visit.entriesOf setting.limit .request
      (schema.bind fun node => (setting.resolver.resolve setting.root node).toOption)) := by
  cases schema with
  | none => exact collects_pure _
  | some node =>
    refine Collects.lift_bind fun target found => ?_
    rw [Option.bind_some, found]
    refine (Visit.rewrite_collects ((formed node rfl).resolve leads found)).bind_nil fun rewritten => ?_
    split
    next => exact collects_pure _
    next => exact collects_pure _

theorem asJson_collects (formed : ∀ node, schema = some node → Formed node) :
    Collects (setting.asJson parameter schema) (Visit.entriesOf setting.limit .request schema) := by
  cases schema with
  | none => exact collects_pure _
  | some node => exact (Visit.rewrite_collects (formed node rfl)).bind_pure

theorem asBytes_collects (formed : ∀ node, schema = some node → Formed node) :
    Collects (setting.asBytes parameter schema) (Visit.entriesOf setting.limit .request (some (schema.getD binary))) := by
  have held : Formed (schema.getD binary) := by
    cases schema with
    | none => exact formed_iff.mpr (by decide)
    | some node => exact formed node rfl
  exact (Visit.rewrite_collects held).bind_pure

theorem lift_mapM_collects (item : Option Value) (change : Value → Except Error Value) :
    Collects (item.mapM fun held => (liftM (change held) : Rewriting Value)) [] := by
  cases item with
  | none => exact collects_pure none
  | some held =>
    rw [Option.mapM_some, map_eq_pure_bind]
    exact (collects_lift _).bind_pure

theorem parameters_collects {key : String} {kind : MediaType.BodyKind}
    (leads : setting.resolver.Leads setting.root (atReference fun _ => True)) (formed : Formed (.obj content)) :
    Collects (setting.parameters body content key kind)
      (Visit.entriesOf setting.limit .request (setting.contentSchema? content key kind)) := by
  unfold parameters
  refine (lift_mapM_collects _ _).bind fun schema returned => ?_
  have fetched : schema = (schemaAt? content key).bind fun node =>
      (setting.resolver.inlineExternal setting.root node).toOption := by
    rcases lift_mapM_returns returned with ⟨absent, rfl⟩ | ⟨node, target, seen, found, rfl⟩
    · rw [absent, Option.bind_none]
    · rw [seen, Option.bind_some, found]
      rfl
  have sound : ∀ node, schema = some node → Formed node := by
    rintro node rfl
    obtain ⟨held, seen, found⟩ := Option.bind_eq_some_iff.mp fetched.symm
    obtain ⟨media, listed, seen⟩ := Option.bind_eq_some_iff.mp seen
    exact (((Sound.get? formed listed).valueGet? seen).inlineExternal leads (toOption_eq_some found))
  unfold contentSchema?
  rw [← fetched]
  cases kind with
  | form => exact asForm_collects leads sound
  | json => exact asJson_collects sound
  | other => exact asBytes_collects sound

theorem get?_named (target : Value) : Members.get? (named target) "content" = target.get? "content" := by
  rw [named, Members.get?_insert_of_ne (by decide)]
  cases target <;> rfl

theorem replaceBody_collects (leads : setting.resolver.Leads setting.root (atReference fun _ => True))
    (formed : Formed (.obj operation)) :
    Collects (setting.replaceBody operation) (Visit.entriesOf setting.limit .request (setting.bodySchema? operation)) := by
  unfold replaceBody bodySchema?
  cases seen : Members.get? operation "requestBody" with
  | none => exact collects_pure _
  | some node =>
    refine Collects.lift_bind fun target found => ?_
    have held : Formed target := (Sound.get? formed seen).resolve leads found
    have same := get?_named target
    unfold named at same
    simp only [found, toOption_ok, same, Option.bind_eq_bind, Option.bind_some]
    cases contained : target.get? "content" with
    | none => exact collects_pure _
    | some content =>
      cases content with
      | obj content =>
        simp only [Option.bind_some, members?]
        cases chosen : MediaType.preferred? content with
        | none => exact collects_pure _
        | some pair => exact (parameters_collects leads (held.valueGet? contained)).bind_pure
      | _ => exact collects_pure _

theorem rewriteOperation_collects (leads : setting.resolver.Leads setting.root (atReference fun _ => True))
    (formed : Formed (.obj operation)) :
    Collects (setting.rewriteOperation operation)
      (Visit.entriesOf setting.limit .request (setting.bodySchema? operation)) := by
  have same : setting.bodySchema? (withParameters operation) = setting.bodySchema? operation := by
    unfold bodySchema?
    rw [get?_withParameters (by decide)]
  rw [← same]
  exact (replaceBody_collects leads (withParameters_refers formed)).bind_nil fun _ => collects_lift _

end Setting
end RequestBody

namespace Response

/-- Which schema serves does not depend on the media types that are known before. -/
theorem foldContent_schema? (produced : List String) (content : Members Value) :
    (foldContent produced content).schema? = (foldContent [] content).schema? := by
  have same (entries : Members Value) (one other : Folded) (first : one.first = other.first) (json : one.json = other.json) :
      (entries.foldl foldEntry one).schema? = (entries.foldl foldEntry other).schema? := by
    induction entries generalizing one other with
    | nil => rw [List.foldl_nil, List.foldl_nil, Folded.schema?, Folded.schema?, first, json]
    | cons entry rest ih =>
      refine ih _ _ ?_ ?_
      · simp only [foldEntry, first]
      · simp only [foldEntry, json]
  exact same content _ _ rfl rfl

namespace Setting
variable {setting : Setting} {produced : List String} {response operation : Members Value} {node : Value}

theorem setSchema_collects (response : Members Value) {schema : Option Value}
    (leads : setting.resolver.Leads setting.root (atReference fun _ => True))
    (formed : ∀ node, schema = some node → Formed node) :
    Collects (setting.setSchema response schema) (Visit.entriesOf setting.limit .response
      (schema.bind fun node => (setting.resolver.inlineExternal setting.root node).toOption)) := by
  cases schema with
  | none => exact collects_pure _
  | some node =>
    refine Collects.lift_bind fun target found => ?_
    rw [Option.bind_some, found]
    exact (Visit.rewrite_collects ((formed node rfl).inlineExternal leads found)).bind_pure

theorem foldInto_collects (leads : setting.resolver.Leads setting.root (atReference fun _ => True))
    (formed : Formed (.obj response)) :
    Collects (setting.foldInto produced response)
      (Visit.entriesOf setting.limit .response (setting.contentSchema? (.obj response))) := by
  unfold foldInto contentSchema?
  simp only [Value.get?]
  cases contained : Members.get? response "content" with
  | none => exact collects_pure _
  | some content =>
    cases content with
    | obj content =>
      have held : Formed (.obj content) := Sound.get? formed contained
      have sound : ∀ node, (foldContent [] content).schema? = some node → Formed node := by
        intro node chosen
        obtain ⟨entry, inside, seen⟩ := (foldContent_from [] content).schema? chosen
        exact (held.entry inside).2.valueGet? seen
      refine Collects.bind_pure ?_
      rw [foldContent_schema? produced]
      exact setSchema_collects _ leads sound
    | _ => exact collects_pure _

theorem rewriteNode_collects (leads : setting.resolver.Leads setting.root (atReference fun _ => True)) (formed : Formed node) :
    Collects (setting.rewriteNode produced node) (Visit.entriesOf setting.limit .response (setting.answerSchema? node)) := by
  refine Collects.lift_bind fun target found => ?_
  have held : Formed target := formed.resolve leads found
  rw [answerSchema?, found, toOption_ok, Option.bind_some]
  cases target with
  | obj response => exact (foldInto_collects leads held).bind_nil fun _ => Collects.bind_pure (collects_lift _)
  | _ => exact collects_pure _

theorem rewriteEach_collects (leads : setting.resolver.Leads setting.root (atReference fun _ => True))
    {responses : List (String × Value)} (formed : ∀ entry ∈ responses, Formed entry.2) (produced : List String) :
    Collects (setting.rewriteEach produced responses) (Visit.entries setting.limit
      ((responses.filterMap fun entry => setting.answerSchema? entry.2).map (Prod.mk .response))) := by
  induction responses generalizing produced with
  | nil => exact collects_pure _
  | cons entry rest ih =>
    obtain ⟨first, later⟩ := List.forall_mem_cons.mp formed
    have parts : Visit.entries setting.limit
        (((entry :: rest).filterMap fun entry => setting.answerSchema? entry.2).map (Prod.mk .response)) =
        Visit.entriesOf setting.limit .response (setting.answerSchema? entry.2) ++ Visit.entries setting.limit
          ((rest.filterMap fun entry => setting.answerSchema? entry.2).map (Prod.mk .response)) := by
      rw [Visit.entriesOf, ← Visit.entries_append, ← List.map_append, List.filterMap_cons]
      cases setting.answerSchema? entry.2 <;> rfl
    rw [parts]
    exact (rewriteNode_collects leads first).bind fun _ _ => (ih later _).bind_pure

theorem rewriteResponses_collects (leads : setting.resolver.Leads setting.root (atReference fun _ => True))
    (formed : ∀ responses, Members.get? operation "responses" = some responses → Formed responses) :
    Collects (setting.rewriteResponses operation)
      (Visit.entries setting.limit ((setting.answerSchemas operation).map (Prod.mk .response))) := by
  unfold rewriteResponses
  split
  next responses seen =>
    have same : setting.answerSchemas operation = responses.filterMap fun entry => setting.answerSchema? entry.2 := by
      simp only [answerSchemas, seen]
    have held : Formed (.obj responses) := formed _ seen
    rw [same]
    refine (rewriteEach_collects leads (fun entry member => (held.entry member).2) _).bind_nil fun pair => ?_
    dsimp only
    split
    next => exact collects_pure _
    next => exact collects_pure _
  next other =>
    have same : setting.answerSchemas operation = [] := by
      unfold answerSchemas
      split
      next responses seen => exact absurd seen (other responses)
      next => rfl
    rw [same]
    exact collects_pure _

end Setting
end Response

namespace Conversion
namespace Setting
variable {setting : Setting} {root node : Value} {item document members : Members Value}

theorem operation_collects (leads : setting.resolver.Leads root (atReference fun _ => True)) (formed : Formed (.obj members)) :
    Collects (setting.operation root members) (Visit.entries setting.limit
      ((RequestBody.Setting.bodySchema? ⟨setting.resolver, setting.limit, root⟩ members).toList.map (Prod.mk .request) ++
        (Response.Setting.answerSchemas ⟨setting.resolver, setting.limit, root⟩ members).map (Prod.mk .response))) := by
  rw [Visit.entries_append]
  refine Collects.bind (RequestBody.Setting.rewriteOperation_collects leads formed) fun bodiless made => ?_
  have kept : Members.get? bodiless "responses" = Members.get? members "responses" :=
    RequestBody.Setting.get?_rewriteOperation formed.distinct made (by decide)
  have same : Response.Setting.answerSchemas ⟨setting.resolver, setting.limit, root⟩ members =
      Response.Setting.answerSchemas ⟨setting.resolver, setting.limit, root⟩ bodiless := by
    rw [Response.Setting.answerSchemas, Response.Setting.answerSchemas, kept]
  rw [same]
  refine Response.Setting.rewriteResponses_collects leads fun responses seen => ?_
  rw [kept] at seen
  exact Sound.get? formed seen

theorem operationNode_collects (leads : setting.resolver.Leads root (atReference fun _ => True)) (formed : Formed node) :
    Collects (setting.operationNode root node) (Visit.entries setting.limit (setting.operationVisits root node)) := by
  refine Collects.lift_bind fun target found => ?_
  have held : Formed target := formed.resolve leads found
  rw [operationVisits, found]
  cases target with
  | obj members => exact (operation_collects leads held).bind_pure
  | _ => exact collects_pure _

theorem method_collects {method : Method} (leads : setting.resolver.Leads root (atReference fun _ => True))
    (formed : ∀ node, Members.get? item method.key = some node → Formed node) :
    Collects (setting.method root item method) (Visit.entries setting.limit (setting.methodVisits root item method)) := by
  unfold Setting.method methodVisits
  cases seen : Members.get? item method.key with
  | none => exact collects_pure _
  | some node =>
    rw [Option.toList_some, List.flatMap_cons, List.flatMap_nil, List.append_nil]
    exact (operationNode_collects leads (formed node seen)).bind_pure

/-- A method still finds the operation that the item came with: the methods before it have other keys. -/
theorem methods_collect {methods : List Method} (leads : setting.resolver.Leads root (atReference fun _ => True))
    (distinct : methods.Nodup)
    (formed : ∀ method ∈ methods, ∀ node, Members.get? item method.key = some node → Formed node) :
    Collects (methods.foldlM (setting.method root) item)
      (Visit.entries setting.limit (methods.flatMap (setting.methodVisits root item))) := by
  induction methods generalizing item with
  | nil => exact collects_pure item
  | cons method rest ih =>
    obtain ⟨fresh, others⟩ := List.nodup_cons.mp distinct
    obtain ⟨first, later⟩ := List.forall_mem_cons.mp formed
    rw [List.foldlM_cons, List.flatMap_cons, Visit.entries_append]
    refine (method_collects leads first).bind fun middle made => ?_
    have kept : ∀ other ∈ rest, Members.get? middle other.key = Members.get? item other.key := by
      intro other member
      refine (method_turned made).2 _ fun same => ?_
      exact fresh (Method.key_injective same ▸ member)
    have same : rest.flatMap (setting.methodVisits root item) = rest.flatMap (setting.methodVisits root middle) :=
      List.flatMap_congr fun other member => by rw [methodVisits, methodVisits, kept other member]
    rw [same]
    refine ih others fun other member node seen => later other member node ?_
    rwa [← kept other member]

theorem pathItem_collects (leads : setting.resolver.Leads root (atReference fun _ => True)) (formed : Formed node) :
    Collects (setting.pathItem root node) (Visit.entries setting.limit (setting.itemVisits root node)) := by
  refine Collects.lift_bind fun target found => ?_
  have held : Formed target := formed.resolve leads found
  rw [itemVisits, found]
  cases target with
  | obj item =>
    refine Collects.lift_bind fun listed made => ?_
    have kept (method : Method) : Members.get? listed method.key = Members.get? item method.key :=
      Parameter.get?_rewriteAll made method.key_ne_parameters
    have same : Method.all.flatMap (setting.methodVisits root item) =
        Method.all.flatMap (setting.methodVisits root listed) :=
      List.flatMap_congr fun method _ => by rw [methodVisits, methodVisits, kept]
    dsimp only
    rw [same]
    refine (methods_collect leads Method.nodup_all fun method _ node seen => ?_).bind_pure
    rw [kept] at seen
    exact Sound.get? held seen
  | _ => exact collects_pure _

theorem path_collects (formed : Formed (.obj document)) (path : String) :
    Collects (setting.path document path) (Visit.entries setting.limit
      ((Members.get? (pathsOf document) path).toList.flatMap (setting.itemVisits (.obj document)))) := by
  unfold Setting.path
  cases seen : Members.get? (pathsOf document) path with
  | none => exact collects_pure _
  | some node =>
    have leads := setting.resolver.loads_formed.leads formed
    have held : Formed node := (Sound.get? formed (get?_paths_of_mem seen)).get? seen
    rw [Option.toList_some, List.flatMap_cons, List.flatMap_nil, List.append_nil]
    exact (pathItem_collects leads held).bind_pure

theorem pathTaken_of_returns {path : String} {next : Members Value} (formed : Formed (.obj document))
    (returned : Returns (setting.path document path) next) : setting.pathTaken document path = next := by
  rw [pathTaken, (path_collects formed path).run returned]

/-- Every path is visited in the document that the paths before have left. -/
theorem paths_collect (formed : Formed (.obj document)) (todo : List String) :
    Collects (todo.foldlM setting.path document) (Visit.entries setting.limit (setting.pathVisits document todo)) := by
  induction todo generalizing document with
  | nil => exact collects_pure document
  | cons path rest ih =>
    rw [List.foldlM_cons, pathVisits, Visit.entries_append]
    refine (path_collects formed path).bind fun next returned => ?_
    rw [pathTaken_of_returns formed returned]
    exact ih (path_refers textual_true setting.resolver.loads_formed returned formed)

end Setting
end Conversion

namespace Relocation
variable {limit : Nat} {document mapping : Members Value} {value : Value}

theorem rewriteDefinitions_collect {schemas : List (String × Value)} (formed : ∀ entry ∈ schemas, Formed entry.2) :
    Collects (schemas.mapM (rewriteDefinition limit))
      (Visit.entries limit ((schemas.map Prod.snd).map (Prod.mk .response))) := by
  induction schemas with
  | nil => exact collects_pure _
  | cons entry rest ih =>
    obtain ⟨first, later⟩ := List.forall_mem_cons.mp formed
    rw [List.mapM_cons]
    have one : Collects (rewriteDefinition limit entry) (Visit.entriesOf limit .response (some entry.2)) :=
      (Visit.rewrite_collects first).bind_pure
    have parts : Visit.entries limit (((entry :: rest).map Prod.snd).map (Prod.mk .response)) =
        Visit.entriesOf limit .response (some entry.2) ++
          Visit.entries limit ((rest.map Prod.snd).map (Prod.mk .response)) := by
      rw [Visit.entriesOf, ← Visit.entries_append]
      rfl
    rw [parts]
    exact one.bind fun _ _ => (ih later).bind_pure

theorem definitions_collect (formed : Formed value) :
    Collects (definitions limit value)
      (Visit.entries limit (((value.members?.getD []).map Prod.snd).map (Prod.mk .response))) := by
  cases value with
  | obj schemas => exact (rewriteDefinitions_collect fun entry member => (Sound.entry formed member).2).bind_pure
  | _ => exact collects_pure _

/-- Only shared schemas have anything to say about discriminators. -/
theorem components_collect (formed : Formed (.obj document)) :
    Collects (components limit document)
      (Visit.entries limit ((Conversion.Setting.sharedSchemas document).map (Prod.mk .response))) := by
  unfold components Conversion.Setting.sharedSchemas
  cases seen : Members.get? document "components" with
  | none => exact collects_pure _
  | some value =>
    cases value with
    | obj mapping =>
      have held : Formed (.obj mapping) := Sound.get? formed seen
      refine Collects.bind_nil ?_ fun moved => Collects.lift_bind fun secured _ => collects_pure _
      unfold moveSchemas
      simp only [members?, Option.bind_some]
      cases found : Members.get? mapping "schemas" with
      | none => exact collects_pure _
      | some schemas => exact (definitions_collect (Sound.get? held found)).bind_pure
    | _ => exact collects_pure _

end Relocation

namespace Conversion
namespace Setting
variable {setting : Setting} {document : Members Value}

/-- The entries that a whole conversion meets. -/
def metEntries (setting : Setting) (document : Members Value) : Members Value :=
  Visit.entries setting.limit (setting.visits document)

theorem layout_collects (formed : Formed (.obj document)) :
    Collects (setting.layout document) (setting.metEntries document) := by
  unfold layout metEntries visits
  rw [Visit.entries_append]
  have start : Formed (.obj (setting.opened document)) := opened_refers formed
  refine (paths_collect start _).bind fun walked returned => ?_
  have same : sharedSchemas document = sharedSchemas walked := by
    unfold sharedSchemas
    rw [get?_components_walked formed.distinct returned]
  rw [same]
  exact Relocation.components_collect (paths_formed start returned)

end Setting
end Conversion
end ApiDialect
