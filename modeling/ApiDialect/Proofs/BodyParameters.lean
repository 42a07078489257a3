import ApiDialect.Proofs.OlderDialect
import ApiDialect.Proofs.WriteOnly

/-! The parameter that a body becomes when it is no form. It is the last one of its operation and holds
the rewritten schema, and nothing that is done to the operation later takes it away. -/

namespace ApiDialect
open Rewriting Value Discriminator

theorem append_of_forall₂ {α β : Type} {related : α → β → Prop} {front back : List α} {results : List β}
    (each : List.Forall₂ related (front ++ back) results) :
    ∃ first last, results = first ++ last ∧ List.Forall₂ related front first ∧ List.Forall₂ related back last :=
  ⟨results.take front.length, results.drop front.length, (List.take_append_drop ..).symm,
    (List.forall₂_take_append _ _ _ each.flip).flip, (List.forall₂_drop_append _ _ _ each.flip).flip⟩

theorem forall₂_concat {α β : Type} {related : α → β → Prop} {items : List α} {item : α} {results : List β}
    (each : List.Forall₂ related (items ++ [item]) results) :
    ∃ front result, results = front ++ [result] ∧ related item result := by
  obtain ⟨front, last, rfl, _, behind⟩ := append_of_forall₂ each
  obtain ⟨result, _, held, none, rfl⟩ := List.forall₂_cons_left_iff.mp behind
  cases none
  exact ⟨front, result, rfl, held⟩

namespace Schema

/-- Bytes have nothing that has to be rewritten. -/
theorem rewrite_binary (limit : Nat) (direction : Direction) :
    Schema.rewrite limit direction RequestBody.binary = pure RequestBody.binary := rfl

end Schema

theorem Members.Distinct.reference?_erase {members : Members Value} {name : String} (distinct : Members.Distinct members)
    (other : name ≠ "$ref") : (Value.obj (Members.erase members name)).reference? = (Value.obj members).reference? :=
  congrArg (Option.bind · text?) (distinct.get?_erase_of_ne other)

namespace RequestBody
variable {resolver : Resolver} {root schema : Value} {parameter operation result : Members Value} {tags : List Tag}

/-- The body of an operation is written in JSON and has a schema. Its reference, if it is one, is
followed once, so what it leads to must not be a reference again. -/
def Asks (resolver : Resolver) (root : Value) (operation : Members Value) (schema : Value) : Prop :=
  ∃ node body content key, Members.get? operation "requestBody" = some node ∧
    resolver.resolve root node = .ok (.obj body) ∧ (Value.obj body).reference? = none ∧
    Members.get? body "content" = some (.obj content) ∧ MediaType.preferred? content = some (key, .json) ∧
    schemaAt? content key = some schema

/-- The content that stands for a body is no form, so the body becomes a single parameter with the schema
of that content. -/
def Carries (resolver : Resolver) (root : Value) (operation : Members Value) (schema : Value) : Prop :=
  ∃ node body content key kind, Members.get? operation "requestBody" = some node ∧
    resolver.resolve root node = .ok (.obj body) ∧ (Value.obj body).reference? = none ∧
    Members.get? body "content" = some (.obj content) ∧ MediaType.preferred? content = some (key, kind) ∧
    kind ≠ .form ∧ schemaAt? content key = some schema

theorem Asks.carries (asks : Asks resolver root operation schema) : Carries resolver root operation schema := by
  obtain ⟨node, body, content, key, asked, resolved, direct, contained, chosen, described⟩ := asks
  exact ⟨node, body, content, key, .json, asked, resolved, direct, contained, chosen, by decide, described⟩

/-- A parameter that was made of a whole body and goes into a place: all that the body says but its content,
under the name of a body. -/
structure Whole (place : String) (body : Members Value) (schema : Option Value) (parameter : Members Value) : Prop where
  name : Members.get? parameter "name" = some (.str "body")
  place : Members.get? parameter "in" = some (.str place)
  content : Members.get? parameter "content" = none
  schema : Members.get? parameter "schema" = schema
  others : ∀ key, key ∉ ["name", "in", "content", "schema"] → Members.get? parameter key = Members.get? body key

namespace Whole
variable {body : Members Value} {place : String} {held : Option Value}

theorem of_body (distinct : Members.Distinct body) (place : String) : Whole place body (Members.get? body "schema")
    (Members.insert (Members.erase (Setting.named (.obj body)) "content") "in" (.str place)) := by
  have named : Members.Distinct (Setting.named (.obj body)) := distinct.insert _ _
  have look (key : String) :
      Members.get? (Members.insert (Members.erase (Setting.named (.obj body)) "content") "in" (.str place)) key =
        if "in" = key then some (.str place) else if "content" = key then none
        else if "name" = key then some (.str "body") else Members.get? body key := by
    rw [Members.get?_insert, named.get?_erase, Setting.named, Members.get?_insert]
    rfl
  refine ⟨by simp [look], by simp [look], by simp [look], by simp [look], ?_⟩
  intro key apart
  simp only [List.mem_cons, List.not_mem_nil, or_false, not_or] at apart
  obtain ⟨one, two, three, _⟩ := apart
  rw [look, if_neg (Ne.symm two), if_neg (Ne.symm three), if_neg (Ne.symm one)]

theorem insert_schema (whole : Whole place body held parameter) (rewritten : Value) :
    Whole place body (some rewritten) (Members.insert parameter "schema" rewritten) := by
  have kept {key : String} (other : "schema" ≠ key) :
      Members.get? (Members.insert parameter "schema" rewritten) key = Members.get? parameter key :=
    Members.get?_insert_of_ne other rewritten
  refine ⟨(kept (by decide)).trans whole.name, (kept (by decide)).trans whole.place,
    (kept (by decide)).trans whole.content, Members.get?_insert_self .., ?_⟩
  intro key apart
  rw [kept fun same => apart (by simp [← same]), whole.others key apart]

theorem erase_type (whole : Whole place body held parameter) (own : Members.Distinct body)
    (distinct : Members.Distinct parameter) :
    Whole place (Members.erase body "type") held (Members.erase parameter "type") := by
  have kept {key : String} (other : "type" ≠ key) :
      Members.get? (Members.erase parameter "type") key = Members.get? parameter key :=
    distinct.get?_erase_of_ne other
  refine ⟨(kept (by decide)).trans whole.name, (kept (by decide)).trans whole.place,
    (kept (by decide)).trans whole.content, (kept (by decide)).trans whole.schema, ?_⟩
  intro key apart
  rw [distinct.get?_erase, own.get?_erase, whole.others key apart]

theorem reference? (whole : Whole place body held parameter) :
    (Value.obj parameter).reference? = (Value.obj body).reference? :=
  congrArg (Option.bind · text?) (whole.others "$ref" (by decide))

end Whole

/-- The parameter that stands for a whole body. -/
structure BodyParameter (parameter : Members Value) (schema : Value) : Prop where
  name : Members.get? parameter "name" = some (.str "body")
  place : Members.get? parameter "in" = some (.str "body")
  direct : (Value.obj parameter).reference? = none
  schema : Members.get? parameter "schema" = some schema

/-- The last parameter of an operation stands for its body. -/
def Sends (operation : Members Value) (schema : Value) : Prop :=
  ∃ others parameter, Members.get? operation "parameters" = some (.arr (others ++ [.obj parameter])) ∧
    BodyParameter parameter schema

namespace BodyParameter

theorem of_whole {own : Members Value} (whole : Whole "body" own (some schema) parameter)
    (direct : (Value.obj own).reference? = none) : BodyParameter parameter schema :=
  ⟨whole.name, whole.place, whole.reference?.trans direct, whole.schema⟩

theorem finished {location : Option Parameter.Location} (body : BodyParameter parameter schema)
    (formed : Formed (.obj parameter)) : BodyParameter (Parameter.finished location parameter) schema := by
  have kept : ∀ name, name ∉ ["collectionFormat", "style", "explode"] →
      Members.get? (Parameter.finished location parameter) name = Members.get? parameter name :=
    fun _ other => Parameter.get?_finished_of_ne formed other
  refine ⟨(kept _ (by decide)).trans body.name, (kept _ (by decide)).trans body.place, ?_,
    (kept _ (by decide)).trans body.schema⟩
  rw [Value.reference?, Value.get?, kept _ (by decide)]
  exact body.direct

/-- A body is no reference and has its schema already. -/
theorem rewriteNode {after : Value} (body : BodyParameter parameter schema) (formed : Formed (.obj parameter))
    (made : Parameter.rewriteNode resolver root (.obj parameter) = .ok after) :
    ∃ rewritten, after = .obj rewritten ∧ BodyParameter rewritten schema := by
  have alone : resolver.resolve root (.obj parameter) = .ok (.obj parameter) :=
    resolve_of_reference?_eq_none body.direct
  cases made.symm.trans (Parameter.rewriteNode_of_rewrite alone (Parameter.rewrite_of_body body.place))
  exact ⟨_, rfl, body.finished formed⟩

theorem references (body : BodyParameter parameter schema) :
    BodyParameter (Relocation.referencesOfMembers parameter) (Relocation.references schema) := by
  have kept : ∀ {name held}, name ≠ "$ref" → Members.get? parameter name = some held →
      Members.get? (Relocation.referencesOfMembers parameter) name = some (Relocation.references held) := by
    intro name held other seen
    rw [Relocation.get?_referencesOfMembers, seen, Option.map_some, Relocation.member_of_ne other]
  refine ⟨kept (by decide) body.name, kept (by decide) body.place, ?_, kept (by decide) body.schema⟩
  exact (Relocation.reference?_references (.obj parameter)).trans (congrArg _ body.direct)

theorem tagged {after : Value} (body : BodyParameter parameter schema) (tagged : Tagged tags (.obj parameter) after) :
    ∃ changed last, after = .obj changed ∧ Tagged tags schema last ∧ BodyParameter changed last := by
  obtain ⟨changed, rfl⟩ := tagged.obj
  have text : ∀ {name held}, ¬ isMark name → Members.get? parameter name = some (.str held) →
      Members.get? changed name = some (.str held) := by
    intro name held plain seen
    obtain ⟨last, here, rest⟩ := tagged.member seen plain
    rw [rest.eq_of_scalar rfl rfl] at here
    exact here
  obtain ⟨last, here, rest⟩ := tagged.member (show (Value.obj parameter).get? "schema" = some schema from body.schema) (by decide)
  refine ⟨changed, last, rfl, rest, text (by decide) body.name, text (by decide) body.place, ?_, here⟩
  rw [tagged.reference?, body.direct]

end BodyParameter

namespace Sends

theorem of_get?_eq (sends : Sends operation schema)
    (same : Members.get? result "parameters" = Members.get? operation "parameters") : Sends result schema := by
  obtain ⟨others, parameter, listed, body⟩ := sends
  exact ⟨others, parameter, same.trans listed, body⟩

theorem rewriteAll (sends : Sends operation schema) (formed : Formed (.obj operation))
    (made : Parameter.rewriteAll resolver root operation = .ok result) : Sends result schema := by
  obtain ⟨others, parameter, listed, body⟩ := sends
  obtain ⟨results, each, rfl⟩ := Parameter.rewriteAll_of_listed listed made
  obtain ⟨front, last, rfl, rest⟩ := forall₂_concat each
  have inside : Formed (.obj parameter) := (Sound.get? formed listed).item (by simp)
  obtain ⟨rewritten, rfl, still⟩ := body.rewriteNode inside rest
  exact ⟨front, rewritten, Members.get?_insert_self .., still⟩

theorem references (sends : Sends operation schema) :
    Sends (Relocation.referencesOfMembers operation) (Relocation.references schema) := by
  obtain ⟨others, parameter, listed, body⟩ := sends
  refine ⟨others.map Relocation.references, _, ?_, body.references⟩
  rw [Relocation.get?_referencesOfMembers, listed, Option.map_some, Relocation.member_of_ne (by decide),
    Relocation.references, Relocation.referencesOfItems_eq_map, List.map_append]
  rfl

theorem tagged {changed : Members Value} (sends : Sends operation schema)
    (tagged : Tagged tags (.obj operation) (.obj changed)) : ∃ last, Tagged tags schema last ∧ Sends changed last := by
  obtain ⟨others, parameter, listed, body⟩ := sends
  obtain ⟨nodes, here, inner⟩ := tagged.member (show (Value.obj operation).get? "parameters" = _ from listed) (by decide)
  obtain ⟨nodes, rfl, each⟩ := inner.arr
  obtain ⟨front, node, rfl, still⟩ := forall₂_concat each
  obtain ⟨parameter, last, rfl, rest, body⟩ := body.tagged still
  exact ⟨last, rest, front, parameter, here, body⟩

end Sends

namespace Setting
variable {setting : Setting} {body content : Members Value} {key : String} {generated : List Value}

theorem carries_formed {resolver : Resolver} {root : Value} (formed : Formed (.obj operation))
    (leads : resolver.Leads root (atReference fun _ => True)) (carries : Carries resolver root operation schema) :
    Formed schema := by
  obtain ⟨node, body, content, key, kind, asked, resolved, _, contained, _, _, described⟩ := carries
  have single : Formed (.obj body) := (Sound.get? formed asked).resolve leads resolved
  obtain ⟨media, listed, held⟩ := Option.bind_eq_some_iff.mp described
  exact (Sound.get? (Sound.get? single contained) listed).valueGet? held

/-- The schema of a parameter that was made of some content: the content's own, fetched and rewritten. Content
without a schema leaves another one. -/
def Sent (setting : Setting) (content : Members Value) (key : String) (otherwise schema : Option Value) : Prop :=
  (schemaAt? content key = none ∧ schema = otherwise) ∨
    ∃ declared target rewritten, schemaAt? content key = some declared ∧
      setting.resolver.inlineExternal setting.root declared = .ok target ∧
      Returns (Schema.rewrite setting.limit .request target) rewritten ∧ schema = some rewritten

theorem Sent.rewritten {declared fetched : Value} {otherwise held : Option Value}
    (sent : setting.Sent content key otherwise held) (described : schemaAt? content key = some declared)
    (found : setting.resolver.inlineExternal setting.root declared = .ok fetched) :
    ∃ rewritten, Returns (Schema.rewrite setting.limit .request fetched) rewritten ∧ held = some rewritten := by
  rcases sent with ⟨absent, _⟩ | ⟨_, _, rewritten, seen, led, changed, same⟩
  · cases absent.symm.trans described
  cases described.symm.trans seen
  cases led.symm.trans found
  exact ⟨rewritten, changed, same⟩

/-- JSON without a schema leaves the body as it is. -/
theorem parameters_of_json (distinct : Members.Distinct body)
    (returned : Returns (setting.parameters (Members.erase (named (.obj body)) "content") content key .json) generated) :
    ∃ schema parameter, generated = [.obj parameter] ∧ setting.Sent content key (Members.get? body "schema") schema ∧
      Whole "body" body schema parameter := by
  obtain ⟨inlined, attached, made⟩ := parameters_returns returned
  have whole := Whole.of_body distinct "body"
  rcases asJson_returns made with ⟨rfl, rfl⟩ | ⟨target, rewritten, rfl, changed, rfl⟩
  · rcases attached with ⟨absent, _⟩ | ⟨_, _, _, _, impossible⟩
    · exact ⟨_, _, rfl, Or.inl ⟨absent, rfl⟩, whole⟩
    · cases impossible
  · rcases attached with ⟨_, impossible⟩ | ⟨declared, _, seen, found, same⟩
    · cases impossible
    cases same
    exact ⟨_, _, rfl, Or.inr ⟨declared, target, rewritten, seen, found, changed, rfl⟩, whole.insert_schema rewritten⟩

/-- Content that is neither a form nor JSON is taken for bytes unless it says otherwise. -/
theorem parameters_of_other (distinct : Members.Distinct body)
    (returned : Returns (setting.parameters (Members.erase (named (.obj body)) "content") content key .other) generated) :
    ∃ schema parameter, generated = [.obj parameter] ∧ setting.Sent content key (some binary) schema ∧
      Whole "body" (Members.erase body "type") schema parameter := by
  obtain ⟨inlined, attached, made⟩ := parameters_returns returned
  obtain ⟨rewritten, changed, rfl⟩ := asBytes_returns made
  have single : Members.Distinct (Members.erase (named (.obj body)) "content") := (distinct.insert _ _).erase _
  have whole := ((Whole.of_body distinct "body").erase_type distinct (single.insert _ _)).insert_schema rewritten
  refine ⟨some rewritten, _, rfl, ?_, whole⟩
  rcases attached with ⟨absent, rfl⟩ | ⟨declared, target, seen, found, rfl⟩
  · rw [Option.getD_none, Schema.rewrite_binary] at changed
    exact Or.inl ⟨absent, congrArg some (returns_pure.mp changed)⟩
  · exact Or.inr ⟨declared, target, rewritten, seen, found, changed, rfl⟩

theorem append_sends {generated : Members Value} {nodes : List Value}
    (listed : Members.get? operation "parameters" = some (.arr nodes)) (body : BodyParameter generated schema) :
    Sends (append operation [.obj generated]) schema :=
  ⟨nodes, generated, get?_append_self listed, body⟩

/-- A body with a schema is put behind the parameters that are there. A schema that lies in another
document has been fetched before. -/
theorem replaceBody_sends {fetched : Value} (listed : ∃ nodes, Members.get? operation "parameters" = some (.arr nodes))
    (formed : Formed (.obj operation)) (leads : setting.resolver.Leads setting.root (atReference fun _ => True))
    (carries : Carries setting.resolver setting.root operation schema)
    (found : setting.resolver.inlineExternal setting.root schema = .ok fetched)
    (returned : Returns (setting.replaceBody operation) result) :
    ∃ rewritten, Returns (Schema.rewrite setting.limit .request fetched) rewritten ∧ Sends result rewritten := by
  obtain ⟨node, body, content, key, kind, asked, resolved, direct, contained, chosen, single, described⟩ := carries
  obtain ⟨nodes, listed⟩ := listed
  have distinct : Members.Distinct body := Sound.distinct ((Sound.get? formed asked).resolve leads resolved)
  have named : Members.get? (Members.insert body "name" (.str "body")) "content" = some (.obj content) :=
    (Members.get?_insert_of_ne (by decide) _).trans contained
  obtain ⟨generated, made, rfl⟩ := replaceBody_of_preferred asked resolved returned named chosen
  have still : Members.get? (Members.insert (Members.erase operation "requestBody") "consumes" (.arr (consumed content)))
      "parameters" = some (.arr nodes) := by
    rw [Members.get?_insert_of_ne (by decide), formed.distinct.get?_erase_of_ne (by decide), listed]
  cases kind with
  | form => exact absurd rfl single
  | json =>
    obtain ⟨held, parameter, rfl, sent, whole⟩ := parameters_of_json distinct made
    obtain ⟨rewritten, changed, rfl⟩ := sent.rewritten described found
    exact ⟨rewritten, changed, append_sends still (.of_whole whole direct)⟩
  | other =>
    obtain ⟨held, parameter, rfl, sent, whole⟩ := parameters_of_other distinct made
    obtain ⟨rewritten, changed, rfl⟩ := sent.rewritten described found
    exact ⟨rewritten, changed, append_sends still (.of_whole whole ((distinct.reference?_erase (by decide)).trans direct))⟩

end Setting
end RequestBody

namespace Conversion
namespace Setting
open RequestBody RequestBody.Setting
variable {setting : Setting} {root schema : Value} {members converted : Members Value}

theorem operation_sends {fetched : Value} (formed : Formed (.obj members))
    (leads : setting.resolver.Leads root (atReference fun _ => True)) (carries : Carries setting.resolver root members schema)
    (found : setting.resolver.inlineExternal root schema = .ok fetched)
    (returned : Returns (setting.operation root members) converted) :
    ∃ rewritten, Returns (Schema.rewrite setting.limit .request fetched) rewritten ∧ Sends converted rewritten := by
  obtain ⟨bodiless, first, last⟩ := operation_returns returned
  obtain ⟨replaced, body, listed⟩ := rewriteOperation_returns first
  have started : Formed (.obj (withParameters members)) := withParameters_refers formed
  have carried : Carries setting.resolver root (withParameters members) schema := by
    obtain ⟨node, held, content, key, kind, seen, rest⟩ := carries
    exact ⟨node, held, content, key, kind, (get?_withParameters (by decide)).trans seen, rest⟩
  obtain ⟨rewritten, made, sends⟩ := replaceBody_sends ⟨_, get?_withParameters_self members⟩ started leads carried found body
  have placed : Formed (.obj replaced) := replaceBody_refers textual_true.shallow leads body started
  refine ⟨rewritten, made, (sends.rewriteAll placed listed).of_get?_eq ?_⟩
  exact Response.Setting.get?_rewriteResponses last (by decide)

/-- An operation that has been converted already keeps its last parameter. -/
theorem operation_sends_again (formed : Formed (.obj members)) (sends : Sends members schema)
    (bodiless : Members.get? members "requestBody" = none) (returned : Returns (setting.operation root members) converted) :
    Sends converted schema := by
  obtain ⟨listed, first, last⟩ := operation_returns returned
  obtain ⟨replaced, body, made⟩ := rewriteOperation_returns first
  have same : withParameters members = members := by
    obtain ⟨others, parameter, seen, _⟩ := sends
    rw [withParameters]
    simp only [seen]
  rw [same] at body
  have kept : replaced = members := by
    rcases replaceBody_returns body with ⟨_, rfl⟩ | ⟨node, _, asked, _⟩
    · rfl
    · cases bodiless.symm.trans asked
  subst kept
  exact (sends.rewriteAll formed made).of_get?_eq (Response.Setting.get?_rewriteResponses last (by decide))

end Setting
end Conversion
end ApiDialect
