import ApiDialect.Proofs.BodyContents

/-! What a form becomes. Every property that can be written is a field of its own and takes over what the schema
of the property says. A form whose schema has no properties is a single field. -/

namespace ApiDialect
open Rewriting Value

theorem MediaType.preferred?_of_form {content : Members Value} {key : String}
    (form : key = urlEncodedForm ∨ key = multipartForm ∧ urlEncodedForm ∉ content.names) (member : key ∈ content.names) :
    preferred? content = some (key, .form) := by
  unfold preferred? Members.has
  simp only [Members.get?_isSome_iff]
  rcases form with rfl | ⟨rfl, other⟩
  · rw [if_pos member]
  · rw [if_neg other, if_pos member]

namespace Parameter
variable {resolver : Resolver} {root after : Value} {schema parameter : Members Value} {key : String}

/-- What is offered depends on nothing but what the parameter has under that key. -/
theorem offered?_congr {other : Members Value} (same : Members.get? parameter key = Members.get? other key) :
    offered? schema parameter key = offered? schema other key := by
  unfold offered? Members.has
  rw [same]

/-- A parameter that is no reference and no body becomes flat, and its schema was there. -/
theorem rewriteNode_describes (direct : (Value.obj parameter).reference? = none)
    (other : Members.get? parameter "in" ≠ some (.str "body"))
    (made : rewriteNode resolver root (.obj parameter) = .ok after) :
    ∃ schema, Describes resolver root parameter schema ∧
      rewrite resolver root parameter = .ok (flat (location? parameter) schema parameter) ∧
      after = .obj (flat (location? parameter) schema parameter) := by
  have alone : resolver.resolve root (.obj parameter) = .ok (.obj parameter) := resolve_of_reference?_eq_none direct
  obtain ⟨target, found, legible⟩ := rewriteNode_succeeds_iff.mp ⟨after, made⟩
  cases alone.symm.trans found
  obtain ⟨schema, describes⟩ := legible parameter rfl other
  have changed := rewrite_of_describes other describes
  cases made.symm.trans (rewriteNode_of_rewrite alone changed)
  exact ⟨schema, describes, changed, rfl⟩

end Parameter

namespace RequestBody
open Parameter
variable {resolver : Resolver} {root node after declared : Value}
  {body content operation result parameter schema : Members Value} {key : String} {names : List String}
  {entry : String × Value} {generated : List Value}

/-- A property of a form as a field: its name and place, whether it is required, and what its schema offers. -/
structure FormField (names : List String) (property : String) (schema field : Members Value) : Prop where
  name : Members.get? field "name" = some (.str property)
  place : Members.get? field "in" = some (.str "formData")
  required : Members.get? field "required" = if property ∈ names then some (.bool true) else none
  collected : Members.get? field "collectionFormat" =
    if textAt? field "type" = some "array" then some (.str "csv") else none
  others : ∀ key, key ∉ ["name", "in", "required", "collectionFormat"] → Members.get? field key = offered? schema [] key

/-- What a field has before it takes over its schema. -/
theorem get?_formParameter (same : formParameter names entry = .obj parameter) (key : String) :
    Members.get? parameter key =
      if key = "name" then some (.str entry.1) else if key = "in" then some (.str "formData")
      else if key = "schema" then some entry.2
      else if key = "required" ∧ entry.1 ∈ names then some (.bool true) else none := by
  cases same
  by_cases required : entry.1 ∈ names <;> simp [required, Members.get?, eq_comm]

/-- A field says nothing before but its name and its place, so all that its schema offers comes through. -/
theorem flat_formField (described : Formed (.obj schema)) (formed : Formed (.obj parameter))
    (same : formParameter names entry = .obj parameter) :
    FormField names entry.1 schema (flat (location? parameter) schema parameter) := by
  have look := get?_formParameter same
  have absent : ∀ key ∉ ["name", "in", "schema", "required"], Members.get? parameter key = none := by
    intro key other
    simp only [List.mem_cons, List.not_mem_nil, or_false, not_or] at other
    simp [look, other]
  have kept : ∀ key ∈ ["name", "in", "required"],
      Members.get? (flat (location? parameter) schema parameter) key = Members.get? parameter key := by
    have each : ∀ key ∈ ["name", "in", "required"], key ∈ own ∧ key ∉ dropped ∧ key ≠ "collectionFormat" ∧
        key ≠ "x-example" := by decide
    intro key member
    obtain ⟨alone, stays, format, hidden⟩ := each key member
    rw [get?_flat _ described formed key stays format, if_neg hidden, offered?_of_own alone, Option.none_or]
  have flattened := flat_flattened described formed
  have placed : location? parameter = some .formData := by
    rw [location?, textAt?, look]
    rfl
  refine ⟨?_, ?_, ?_, ?_, ?_⟩
  · simp [kept, look]
  · simp [kept, look]
  · simp [kept, look]
  · have collected := flattened.collected
    split
    next isArray =>
      -- a field names no style, so its place decides
      refine collected.known .simple isArray ?_
      rw [styleName, textAt?, absent "style" (by decide), placed]
      rfl
    next other => rw [collected.kept fun isArray => absurd isArray other, absent "collectionFormat" (by decide)]
  · intro key other
    simp only [List.mem_cons, List.not_mem_nil, or_false, not_or] at other
    obtain ⟨nameless, placeless, free, format⟩ := other
    by_cases member : key ∈ dropped
    · rw [flattened.bare key member, offered?_of_own (List.mem_append_right _ member)]
    · have missing : Members.get? parameter key = none := by
        apply absent key
        have schemaless : key ≠ "schema" := by
          rintro rfl
          exact member List.mem_cons_self
        simp [nameless, placeless, free, schemaless]
      rw [get?_flat _ described formed key member format, missing, absent "example" (by decide), Option.none_or,
        Option.or_none, ite_self]
      exact offered?_congr missing

/-- A field is made flat as soon as the schema of its property is at hand. -/
theorem formParameter_rewritten (declared : Formed entry.2) (leads : resolver.Leads root (atReference fun _ => True))
    (made : Parameter.rewriteNode resolver root (formParameter names entry) = .ok after) :
    ∃ target field, resolver.resolve root entry.2 = .ok target ∧ after = .obj field ∧
      FormField names entry.1 (target.members?.getD []) field := by
  have formed : Formed (formParameter names entry) := formParameter_refers declared
  obtain ⟨parameter, same⟩ : ∃ parameter, formParameter names entry = .obj parameter := ⟨_, rfl⟩
  have look := get?_formParameter same
  rw [same] at made formed
  have direct : (Value.obj parameter).reference? = none := by
    rw [reference?, Value.get?, look]
    rfl
  have other : Members.get? parameter "in" ≠ some (.str "body") := by simp [look]
  obtain ⟨schema, describes, _, rfl⟩ := rewriteNode_describes direct other made
  have field := flat_formField (describes.formed formed leads) formed same
  rcases describes with ⟨absent, _⟩ | ⟨node, target, seen, found, rfl⟩
  · rw [look] at absent
    cases absent
  · rw [look] at seen
    cases seen
    exact ⟨target, _, found, rfl, field⟩

namespace Setting
variable {setting : Setting}

/-- The fields of a form, before they are flat, or the form as a whole where its schema has no properties. -/
theorem parameters_of_form (distinct : Members.Distinct body) (described : schemaAt? content key = some declared)
    (returned : Returns (setting.parameters (Members.erase (named (.obj body)) "content") content key .form) generated) :
    ∃ fetched target rewritten, setting.resolver.inlineExternal setting.root declared = .ok fetched ∧
      setting.resolver.resolve setting.root fetched = .ok target ∧
      Returns (Schema.rewrite setting.limit .request target) rewritten ∧
      ((∃ members properties, Form rewritten members properties ∧
          generated = (properties.filter fun entry => !isReadOnly entry.2).map (formParameter (requiredNames members))) ∨
        (∀ members properties, ¬ Form rewritten members properties) ∧
          ∃ parameter, generated = [.obj parameter] ∧ Whole "formData" body (some rewritten) parameter) := by
  obtain ⟨inlined, attached, made⟩ := parameters_returns returned
  rcases attached with ⟨absent, _⟩ | ⟨_, fetched, seen, found, rfl⟩
  · cases absent.symm.trans described
  cases described.symm.trans seen
  rcases asForm_returns made with ⟨impossible, _⟩ | ⟨_, target, rewritten, same, led, changed, outcome⟩
  · cases impossible
  cases same
  refine ⟨fetched, target, rewritten, found, led, changed, ?_⟩
  rcases outcome with fields | ⟨none, rfl⟩
  · exact Or.inl (formParameters?_eq_some_iff.mp fields)
  · exact Or.inr ⟨formParameters?_eq_none_iff.mp none, _, rfl, (Whole.of_body distinct "formData").insert_schema rewritten⟩

/-- A form leaves one field behind for each property that can be written, in the order of the properties. Where the
schema has none, the form as a whole becomes flat like any parameter. -/
theorem rewriteOperation_explodes (whole : setting.root.WellFormed) (formed : (Value.obj operation).WellFormed)
    (asked : Members.get? operation "requestBody" = some node)
    (resolved : setting.resolver.resolve setting.root node = .ok (.obj body)) (direct : (Value.obj body).reference? = none)
    (contained : Members.get? body "content" = some (.obj content))
    (form : key = MediaType.urlEncodedForm ∨ key = MediaType.multipartForm ∧ MediaType.urlEncodedForm ∉ content.names)
    (described : schemaAt? content key = some declared) (returned : Returns (setting.rewriteOperation operation) result) :
    ∃ fetched target rewritten, setting.resolver.inlineExternal setting.root declared = .ok fetched ∧
      setting.resolver.resolve setting.root fetched = .ok target ∧
      Returns (Schema.rewrite setting.limit .request target) rewritten ∧
      ((∃ members properties fields, Form rewritten members properties ∧ setting.Adds operation result fields ∧
          List.Forall₂ (fun entry after => ∃ target field, setting.resolver.resolve setting.root entry.2 = .ok target ∧
            after = .obj field ∧ FormField (requiredNames members) entry.1 (target.members?.getD []) field)
          (properties.filter fun entry => !isReadOnly entry.2) fields) ∨
        (∀ members properties, ¬ Form rewritten members properties) ∧ ∃ parameter schema field,
          setting.Adds operation result [.obj field] ∧ Whole "formData" body (some rewritten) parameter ∧
          Parameter.rewrite setting.resolver setting.root parameter = .ok field ∧
          Describes setting.resolver setting.root parameter schema ∧ Flattened schema parameter field) := by
  have leads := setting.resolver.loads_formed.leads (formed_iff.mpr whole)
  have sound : Formed (.obj operation) := formed_iff.mpr formed
  have single : Formed (.obj body) := (Sound.get? sound asked).resolve leads resolved
  obtain ⟨media, listed, inside⟩ := Option.bind_eq_some_iff.mp described
  have chosen := MediaType.preferred?_of_form form (Members.mem_names_of_get? listed)
  obtain ⟨_, generated, added, made, forms, flattened, adds⟩ :=
    rewriteOperation_of_preferred sound leads asked resolved returned contained chosen
  obtain ⟨fetched, target, rewritten, found, led, changed, outcome⟩ := parameters_of_form single.distinct described made
  refine ⟨fetched, target, rewritten, found, led, changed, ?_⟩
  rcases outcome with ⟨members, properties, fields, rfl⟩ | ⟨whole, parameter, rfl, carries⟩
  · refine Or.inl ⟨members, properties, added, fields, adds, ?_⟩
    have start : Formed declared := (Sound.get? (Sound.get? single contained) listed).valueGet? inside
    have last : Formed rewritten :=
      Schema.rewrite_refers textual_true.shallow changed ((start.inlineExternal leads found).resolve leads led)
    obtain ⟨rfl, _, declares⟩ := fields
    have each : ∀ entry ∈ properties.filter fun entry => !isReadOnly entry.2, Formed entry.2 := fun entry member =>
      ((Sound.get? last declares).entry (List.mem_of_mem_filter member)).2
    refine ((List.forall₂_and_left _ _).mpr ⟨each, List.forall₂_map_left_iff.mp flattened⟩).imp ?_
    rintro entry after ⟨held, made⟩
    exact formParameter_rewritten held leads made
  · obtain ⟨after, _, made, none, rfl⟩ := List.forall₂_cons_left_iff.mp flattened
    cases none
    have other : Members.get? parameter "in" ≠ some (.str "body") := by simp [carries.place]
    obtain ⟨schema, describes, flat, rfl⟩ := rewriteNode_describes (carries.reference?.trans direct) other made
    have own := forms _ List.mem_cons_self
    exact Or.inr ⟨whole, parameter, schema, _, adds, carries, flat, describes,
      flat_flattened (describes.formed own leads) own⟩

/-- A photo is uploaded with its tags. Its number is given by the server. -/
def photo : Value :=
  .obj [("type", .str "object"), ("required", .arr [.str "file", .str "number"]),
    ("properties", .obj [("number", .obj [("type", .str "integer"), ("readOnly", .bool true)]),
      ("file", .obj [("type", .str "string"), ("format", .str "binary"), ("writeOnly", .bool true)]),
      ("tags", .obj [("$ref", .str "#/components/schemas/Tags")])])]

def album : Value :=
  .obj [("components", .obj [("schemas", .obj [("Photo", photo),
    ("Tags", .obj [("type", .str "array"), ("items", .obj [("type", .str "string")])])])])]

def upload : Members Value :=
  [("requestBody", .obj [("content", .obj [("application/json", .obj []),
    ("multipart/form-data", .obj [("schema", .obj [("$ref", .str "#/components/schemas/Photo")])])])])]

def convertedUpload : Members Value :=
  [("parameters", .arr [
      .obj [("name", .str "file"), ("in", .str "formData"), ("type", .str "string"), ("required", .bool true),
        ("format", .str "binary")],
      .obj [("name", .str "tags"), ("in", .str "formData"), ("items", .obj [("type", .str "string")]),
        ("type", .str "array"), ("collectionFormat", .str "csv")]]),
    ("consumes", .arr [.str "application/json", .str "multipart/form-data"])]

/-- The upload has two fields, and nobody is asked for a number. -/
theorem upload_explodes : album.WellFormed ∧ (Value.obj upload).WellFormed ∧
    Returns (rewriteOperation ⟨⟨none, Files.none⟩, 1, album⟩ upload) convertedUpload ∧
    ∃ file tags, Adds ⟨⟨none, Files.none⟩, 1, album⟩ upload convertedUpload [.obj file, .obj tags] ∧
      Members.get? file "required" = some (.bool true) ∧ Members.get? file "format" = some (.str "binary") ∧
      Members.get? tags "required" = none ∧ Members.get? tags "collectionFormat" = some (.str "csv") := by
  have whole : album.WellFormed := by decide
  have formed : (Value.obj upload).WellFormed := by decide
  have returned : Returns (rewriteOperation ⟨⟨none, Files.none⟩, 1, album⟩ upload) convertedUpload :=
    ⟨.empty, _, Prod.ext (by decide +kernel) rfl⟩
  have found : Resolver.resolve ⟨none, Files.none⟩ album (.obj [("$ref", .str "#/components/schemas/Photo")]) =
      .ok photo := by decide +kernel
  have labels : Resolver.resolve ⟨none, Files.none⟩ album (.obj [("$ref", .str "#/components/schemas/Tags")]) =
      .ok (.obj [("type", .str "array"), ("items", .obj [("type", .str "string")])]) := by decide +kernel
  have here : Resolver.inlineExternal ⟨none, Files.none⟩ album (.obj [("$ref", .str "#/components/schemas/Photo")]) =
      .ok (.obj [("$ref", .str "#/components/schemas/Photo")]) := by decide +kernel
  obtain ⟨fetched, target, rewritten, inlined, led, changed, outcome⟩ :=
    rewriteOperation_explodes whole formed rfl rfl rfl rfl (Or.inr ⟨rfl, by decide⟩) rfl returned
  cases inlined.symm.trans here
  cases led.symm.trans found
  obtain rfl := returns_pure.mp changed
  rcases outcome with ⟨members, properties, fields, ⟨same, _, declares⟩, adds, each⟩ | ⟨none, _⟩
  · cases same
    cases declares
    obtain ⟨_, _, ⟨_, file, own, rfl, first⟩, others, rfl⟩ := List.forall₂_cons_left_iff.mp each
    obtain ⟨_, _, ⟨_, tags, shared, rfl, second⟩, none, rfl⟩ := List.forall₂_cons_left_iff.mp others
    cases none
    cases own
    cases shared.symm.trans labels
    have isArray : Members.get? tags "type" = some (.str "array") := second.others "type" (by decide)
    refine ⟨whole, formed, returned, file, tags, adds, first.required, first.others "format" (by decide),
      second.required, ?_⟩
    exact second.collected.trans (if_pos (congrArg (Option.bind · text?) isArray))
  · exact absurd ⟨rfl, rfl, rfl⟩ (none _ _)

end Setting
end RequestBody
end ApiDialect
