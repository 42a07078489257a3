import ApiDialect.Proofs.BodyParameters
import ApiDialect.Proofs.FlatParameters

/-! What a body leaves behind in its operation. The content types that it may have are listed by name, and
unless it is a form, one parameter with all that the body says comes after those that were there. -/

namespace ApiDialect
open Rewriting Value

namespace MediaType
variable {content : Members Value} {key : String}

theorem isRange_iff : isRange key ↔ '/' ∈ key.toList ∧ key.toList.head? ≠ some '/' := by
  unfold isRange
  cases key.toList with
  | nil => simp
  | cons first rest =>
    simp only [Bool.and_eq_true, decide_eq_true_eq, List.contains_iff_mem, List.mem_cons, List.head?_cons, ne_eq,
      Option.some.injEq]
    constructor
    · rintro ⟨other, inside⟩
      exact ⟨Or.inr inside, other⟩
    · rintro ⟨rfl | inside, other⟩
      · exact absurd rfl other
      · exact ⟨other, inside⟩

/-- Where no form is offered, JSON is preferred. -/
theorem preferred?_of_no_form (urlEncoded : urlEncodedForm ∉ content.names) (multipart : multipartForm ∉ content.names) :
    preferred? content = match content.names.find? isJson with
      | some key => some (key, .json)
      | none => (content.names.find? isRange).map (·, .other) := by
  unfold preferred? Members.has
  rw [Members.get?_eq_none_iff.mpr urlEncoded, Members.get?_eq_none_iff.mpr multipart]
  rfl

theorem isRange_of_form (form : key = urlEncodedForm ∨ key = multipartForm) : isRange key := by
  rcases form with rfl | rfl <;> decide +kernel

/-- Nothing is preferred exactly when there is nothing to send. -/
theorem preferred?_eq_none_iff :
    preferred? content = none ↔ ∀ key ∈ content.names, isRange key = false ∧ isJson key = false := by
  by_cases form : urlEncodedForm ∈ content.names ∨ multipartForm ∈ content.names
  · constructor
    · intro useless
      unfold preferred? Members.has at useless
      simp only [Members.get?_isSome_iff] at useless
      rcases form with urlEncoded | multipart
      · simp [urlEncoded] at useless
      · simp only [multipart, if_true] at useless
        split at useless <;> cases useless
    · intro useless
      -- forms are media ranges themselves
      rcases form with urlEncoded | multipart
      · exact absurd (isRange_of_form (Or.inl rfl)) (by rw [(useless _ urlEncoded).1]; exact Bool.false_ne_true)
      · exact absurd (isRange_of_form (Or.inr rfl)) (by rw [(useless _ multipart).1]; exact Bool.false_ne_true)
  · obtain ⟨urlEncoded, multipart⟩ := not_or.mp form
    rw [preferred?_of_no_form urlEncoded multipart]
    cases json : content.names.find? isJson with
    | some key =>
      constructor
      · rintro ⟨⟩
      · intro useless
        have found := List.find?_some json
        rw [(useless key (List.mem_of_find?_eq_some json)).2] at found
        cases found
    | none =>
      simp only [List.find?_eq_none, Bool.not_eq_true] at json
      simp only [Option.map_eq_none_iff, List.find?_eq_none, Bool.not_eq_true]
      constructor
      · exact fun useless key member => ⟨useless key member, json key member⟩
      · exact fun useless key member => (useless key member).1

end MediaType

namespace RequestBody
variable {resolver : Resolver} {root node : Value} {body content operation result parameter own : Members Value}
  {key : String} {kind : MediaType.BodyKind} {schema : Option Value} {generated : List Value}

/-- The parameter that stands for a body once it is rewritten: it has the schema and all that the body says for
itself, with its content left out and its style said in one word. -/
structure Carried (own : Members Value) (schema : Option Value) (last : Members Value) : Prop where
  name : Members.get? last "name" = some (.str "body")
  place : Members.get? last "in" = some (.str "body")
  content : Members.get? last "content" = none
  schema : Members.get? last "schema" = schema
  collected : Parameter.Collected (some .body) own last
  others : ∀ key, key ∉ ["name", "in", "content", "schema", "style", "explode", "collectionFormat"] →
    Members.get? last key = Members.get? own key

namespace Whole

theorem carried (whole : Whole "body" own schema parameter) (formed : Formed (.obj parameter)) :
    Carried own schema (Parameter.finished (some .body) parameter) := by
  have kept (key : String) (other : key ∉ ["collectionFormat", "style", "explode"]) :
      Members.get? (Parameter.finished (some .body) parameter) key = Members.get? parameter key :=
    Parameter.get?_finished_of_ne formed other
  refine ⟨(kept _ (by decide)).trans whole.name, (kept _ (by decide)).trans whole.place,
    (kept _ (by decide)).trans whole.content, (kept _ (by decide)).trans whole.schema,
    Parameter.finished_collected formed ?_, ?_⟩
  · intro key member
    have apart : ∀ key ∈ ["style", "explode", "collectionFormat"], key ∉ ["name", "in", "content", "schema"] := by decide
    exact whole.others key (apart key member)
  · intro key apart
    simp only [List.mem_cons, List.not_mem_nil, or_false, not_or] at apart
    rw [kept key (by simp [apart]), whole.others key (by simp [apart])]

/-- A parameter that stands for a body keeps its schema when the parameters are rewritten. -/
theorem rewritten {added : List Value} (whole : Whole "body" own schema parameter)
    (direct : (Value.obj own).reference? = none) (formed : Formed (.obj parameter))
    (each : List.Forall₂ (fun node after => Parameter.rewriteNode resolver root node = .ok after) [.obj parameter] added) :
    ∃ last, added = [.obj last] ∧ Carried own schema last := by
  have alone : resolver.resolve root (.obj parameter) = .ok (.obj parameter) :=
    resolve_of_reference?_eq_none (whole.reference?.trans direct)
  obtain ⟨_, _, made, none, rfl⟩ := List.forall₂_cons_left_iff.mp each
  cases none
  cases made.symm.trans (Parameter.rewriteNode_of_rewrite alone (Parameter.rewrite_of_body whole.place))
  exact ⟨_, rfl, whole.carried formed⟩

end Whole

namespace Setting
variable {setting : Setting}

/-- An operation has the parameters that it had, each rewritten in its place, and others behind them. -/
def Adds (setting : Setting) (operation result : Members Value) (added : List Value) : Prop :=
  ∃ kept, List.Forall₂ (fun node after => Parameter.rewriteNode setting.resolver setting.root node = .ok after)
      (listed operation) kept ∧
    Members.get? result "parameters" = some (.arr (kept ++ added))

section
variable (sound : Formed (.obj operation)) (leads : setting.resolver.Leads setting.root (atReference fun _ => True))
  (asked : Members.get? operation "requestBody" = some node)
  (resolved : setting.resolver.resolve setting.root node = .ok (.obj body))
  (returned : Returns (setting.rewriteOperation operation) result)

include sound asked resolved returned

/-- A body with nothing to send adds no parameter. -/
theorem rewriteOperation_of_useless
    (useless : ∀ content, Members.get? body "content" = some (.obj content) → MediaType.preferred? content = none) :
    setting.Adds operation result [] ∧ Members.get? result "consumes" = Members.get? operation "consumes" := by
  obtain ⟨replaced, replaces, rest⟩ := rewriteOperation_returns returned
  have distinct := withParameters_distinct sound.distinct
  have still : Members.get? (withParameters operation) "requestBody" = some node :=
    (get?_withParameters (by decide)).trans asked
  obtain rfl := replaceBody_of_useless still resolved replaces fun content inside =>
    useless content ((Members.get?_insert_of_ne (by decide) _).symm.trans inside)
  have nodes : Members.get? (Members.erase (withParameters operation) "requestBody") "parameters" =
      some (.arr (listed operation)) := by
    rw [distinct.get?_erase_of_ne (by decide), get?_withParameters_self]
  obtain ⟨kept, each, rfl⟩ := Parameter.rewriteAll_of_listed nodes rest
  refine ⟨⟨kept, each, by rw [Members.get?_insert_self, List.append_nil]⟩, ?_⟩
  rw [Members.get?_insert_of_ne (by decide), distinct.get?_erase_of_ne (by decide), get?_withParameters (by decide)]

include leads

/-- What the preferred content becomes is rewritten behind the parameters that were there. -/
theorem rewriteOperation_of_preferred (contained : Members.get? body "content" = some (.obj content))
    (chosen : MediaType.preferred? content = some (key, kind)) :
    Members.get? result "consumes" = some (.arr (consumed content)) ∧ ∃ generated added,
      Returns (setting.parameters (Members.erase (named (.obj body)) "content") content key kind) generated ∧
      (∀ parameter ∈ generated, Formed parameter) ∧
      List.Forall₂ (fun node after => Parameter.rewriteNode setting.resolver setting.root node = .ok after) generated added ∧
      setting.Adds operation result added := by
  obtain ⟨replaced, replaces, rest⟩ := rewriteOperation_returns returned
  have distinct := withParameters_distinct sound.distinct
  have still : Members.get? (withParameters operation) "requestBody" = some node :=
    (get?_withParameters (by decide)).trans asked
  have inside : Members.get? (named (.obj body)) "content" = some (.obj content) :=
    (Members.get?_insert_of_ne (by decide) _).trans contained
  obtain ⟨generated, made, rfl⟩ := replaceBody_of_preferred still resolved replaces inside chosen
  have nodes : Members.get? (Members.insert (Members.erase (withParameters operation) "requestBody") "consumes"
      (.arr (consumed content))) "parameters" = some (.arr (listed operation)) := by
    rw [Members.get?_insert_of_ne (by decide), distinct.get?_erase_of_ne (by decide), get?_withParameters_self]
  obtain ⟨results, each, rfl⟩ := Parameter.rewriteAll_of_listed (get?_append_self nodes) rest
  obtain ⟨kept, added, rfl, before, behind⟩ := append_of_forall₂ each
  have single : Formed (.obj body) := (Sound.get? sound asked).resolve leads resolved
  have forms : ∀ parameter ∈ generated, Formed parameter := parameters_refers textual_true.shallow leads made
    (Sound.erase (named_refers single) "content") (Sound.get? single contained)
  refine ⟨?_, generated, added, made, forms, behind, kept, before, Members.get?_insert_self ..⟩
  rw [Members.get?_insert_of_ne (by decide), get?_append (by decide), Members.get?_insert_self]

end

/-- Every media range without a wildcard may be sent. -/
theorem consumed_eq (content : Members Value) : consumed content = (content.names.filter fun key =>
    decide ('/' ∈ key.toList ∧ key.toList.head? ≠ some '/' ∧ '*' ∉ key.toList)).map .str := by
  have same : (fun key => MediaType.isRange key && !MediaType.isWildcard key) =
      fun key => decide ('/' ∈ key.toList ∧ key.toList.head? ≠ some '/' ∧ '*' ∉ key.toList) := by
    funext key
    rw [Bool.eq_iff_iff, decide_eq_true_iff, ← and_assoc, ← MediaType.isRange_iff]
    simp [MediaType.isWildcard]
  rw [consumed, same]

/-- What becomes of a body: one without content to send adds nothing. Otherwise the operation says what it takes, and unless
a form is among that, one parameter behind all others has what the body has, and a schema that is the one of the first
JSON content or, where there is none, of the first content at all. -/
theorem rewriteOperation_carries (whole : setting.root.WellFormed) (formed : (Value.obj operation).WellFormed)
    (asked : Members.get? operation "requestBody" = some node)
    (resolved : setting.resolver.resolve setting.root node = .ok (.obj body)) (direct : (Value.obj body).reference? = none)
    (returned : Returns (setting.rewriteOperation operation) result) :
    ((∀ content : Members Value, Members.get? body "content" = some (.obj content) →
        ∀ key ∈ content.names, MediaType.isRange key = false ∧ MediaType.isJson key = false) →
      setting.Adds operation result [] ∧ Members.get? result "consumes" = Members.get? operation "consumes") ∧
    ∀ content : Members Value, Members.get? body "content" = some (.obj content) →
      (∃ key ∈ content.names, MediaType.isRange key ∨ MediaType.isJson key) →
      Members.get? result "consumes" = some (.arr ((content.names.filter fun key =>
        decide ('/' ∈ key.toList ∧ key.toList.head? ≠ some '/' ∧ '*' ∉ key.toList)).map .str)) ∧
      (MediaType.urlEncodedForm ∉ content.names → MediaType.multipartForm ∉ content.names →
        ∃ last schema, setting.Adds operation result [.obj last] ∧
          ((∃ key, content.names.find? MediaType.isJson = some key ∧
              setting.Sent content key (Members.get? body "schema") schema ∧ Carried body schema last) ∨
            ∃ key, content.names.find? MediaType.isJson = none ∧ content.names.find? MediaType.isRange = some key ∧
              setting.Sent content key (some binary) schema ∧ Carried (Members.erase body "type") schema last)) := by
  have leads := setting.resolver.loads_formed.leads (formed_iff.mpr whole)
  have sound : Formed (.obj operation) := formed_iff.mpr formed
  have single : Formed (.obj body) := (Sound.get? sound asked).resolve leads resolved
  refine ⟨fun useless => ?_, fun content contained sendable => ?_⟩
  · exact rewriteOperation_of_useless sound asked resolved returned fun content contained =>
      MediaType.preferred?_eq_none_iff.mpr (useless content contained)
  obtain ⟨⟨key, kind⟩, chosen⟩ : ∃ choice, MediaType.preferred? content = some choice := by
    rw [← Option.ne_none_iff_exists', ne_eq, MediaType.preferred?_eq_none_iff]
    intro useless
    obtain ⟨key, member, fits⟩ := sendable
    simp [useless key member] at fits
  obtain ⟨consumes, generated, added, made, forms, rewritten, adds⟩ :=
    rewriteOperation_of_preferred sound leads asked resolved returned contained chosen
  refine ⟨by rw [consumes, consumed_eq], fun urlEncoded multipart => ?_⟩
  rw [MediaType.preferred?_of_no_form urlEncoded multipart] at chosen
  split at chosen
  next json found =>
    cases chosen
    obtain ⟨schema, parameter, rfl, sent, carries⟩ := parameters_of_json single.distinct made
    obtain ⟨last, rfl, carried⟩ := carries.rewritten direct (forms _ List.mem_cons_self) rewritten
    exact ⟨last, schema, adds, Or.inl ⟨key, found, sent, carried⟩⟩
  next absent =>
    obtain ⟨_, found, same⟩ := Option.map_eq_some_iff.mp chosen
    cases same
    obtain ⟨schema, parameter, rfl, sent, carries⟩ := parameters_of_other single.distinct made
    have still : (Value.obj (Members.erase body "type")).reference? = none :=
      (single.distinct.reference?_erase (by decide)).trans direct
    obtain ⟨last, rfl, carried⟩ := carries.rewritten still (forms _ List.mem_cons_self) rewritten
    exact ⟨last, schema, adds, Or.inr ⟨key, absent, found, sent, carried⟩⟩

/-- An order in a shop, as a text or in the shop's own format. -/
def order : Members Value :=
  [("description", .str "What to send"), ("required", .bool true),
    ("content", .obj [("text/plain", .obj []), ("*/*", .obj []),
      ("application/vnd.shop+json", .obj [("schema", .obj [("type", .str "string"), ("nullable", .bool true)])])])]

def shop : Value :=
  .obj [("components", .obj [("requestBodies", .obj [("Order", .obj order)])])]

/-- An order is placed, maybe only on trial. -/
def placement : Members Value :=
  [("parameters", .arr [.obj [("name", .str "trial"), ("in", .str "query"), ("schema", .obj [("type", .str "boolean")])]]),
    ("requestBody", .obj [("$ref", .str "#/components/requestBodies/Order")])]

def convertedPlacement : Members Value :=
  [("parameters", .arr [.obj [("name", .str "trial"), ("in", .str "query"), ("type", .str "boolean")],
      .obj [("description", .str "What to send"), ("required", .bool true), ("name", .str "body"), ("in", .str "body"),
        ("schema", .obj [("type", .str "string"), ("x-nullable", .bool true)])]]),
    ("consumes", .arr [.str "text/plain", .str "application/vnd.shop+json"])]

/-- The order comes after the trial, in the shop's own format, and says that it is required. -/
theorem placement_carries : shop.WellFormed ∧ (Value.obj placement).WellFormed ∧
    Returns (rewriteOperation ⟨⟨none, Files.none⟩, 0, shop⟩ placement) convertedPlacement ∧
    Members.get? convertedPlacement "consumes" = some (.arr [.str "text/plain", .str "application/vnd.shop+json"]) ∧
    ∃ last, Adds ⟨⟨none, Files.none⟩, 0, shop⟩ placement convertedPlacement [.obj last] ∧
      Members.get? last "required" = some (.bool true) ∧
      Members.get? last "schema" = some (.obj [("type", .str "string"), ("x-nullable", .bool true)]) := by
  have whole : shop.WellFormed := by decide
  have formed : (Value.obj placement).WellFormed := by decide
  have returned : Returns (rewriteOperation ⟨⟨none, Files.none⟩, 0, shop⟩ placement) convertedPlacement :=
    ⟨.empty, _, Prod.ext (by decide +kernel) rfl⟩
  have resolved : Resolver.resolve ⟨none, Files.none⟩ shop (.obj [("$ref", .str "#/components/requestBodies/Order")]) =
      .ok (.obj order) := by decide +kernel
  have ⟨_, sends⟩ := rewriteOperation_carries whole formed rfl resolved rfl returned
  obtain ⟨consumes, alone⟩ := sends _ rfl ⟨"text/plain", by decide, by decide +kernel⟩
  obtain ⟨last, schema, adds, ⟨key, found, sent, carried⟩ | ⟨key, absent, _⟩⟩ := alone (by decide) (by decide)
  · obtain rfl : key = "application/vnd.shop+json" := Option.some.inj (found.symm.trans (by decide +kernel))
    refine ⟨whole, formed, returned, consumes.trans (by decide +kernel), last, adds,
      carried.others "required" (by decide), ?_⟩
    rcases sent with ⟨undescribed, _⟩ | ⟨declared, target, rewritten, described, fetched, made, rfl⟩
    · cases undescribed
    cases described
    cases fetched
    exact carried.schema.trans (congrArg some (returns_pure.mp made))
  · have some : List.find? MediaType.isJson ["text/plain", "*/*", "application/vnd.shop+json"] ≠ none := by decide +kernel
    exact absurd absent some

end Setting
end RequestBody
end ApiDialect
