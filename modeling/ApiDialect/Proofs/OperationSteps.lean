import ApiDialect.Proofs.SchemaSteps
import ApiDialect.RequestBody
import ApiDialect.Response

/-! What the steps of an operation's rewriting can do. As for schemas, each lemma accounts for
all of its step, including the references that the step has followed. -/

namespace ApiDialect
open Rewriting Value

theorem Value.members?_eq_none_iff {value : Value} : value.members? = none ↔ ∀ members, value ≠ .obj members := by
  cases value <;> simp [Value.members?]

namespace Parameter
variable {resolver : Resolver} {root : Value}

/-- What a schema that has been looked up hands on. -/
def hoistFrom (target : Value) (parameter : Members Value) : Members Value :=
  match target with
  | .obj schema => hoist schema parameter
  | _ => parameter

def stripped (parameter : Members Value) : Members Value :=
  renameExample (Members.erase (Members.erase parameter "schema") "allowReserved")

theorem flatten_eq_ok {parameter result : Members Value} :
    flatten resolver root parameter = .ok result ↔
      (Members.get? parameter "schema" = none ∧ result = stripped parameter) ∨
      ∃ node target, Members.get? parameter "schema" = some node ∧ resolver.resolve root node = .ok target ∧
        result = stripped (hoistFrom target parameter) := by
  unfold flatten
  simp only [bind_eq_ok, option_mapM_eq_ok, pure_eq_ok]
  constructor
  · rintro ⟨schema, ⟨absent, rfl⟩ | ⟨node, target, seen, found, rfl⟩, rfl⟩
    · exact Or.inl ⟨absent, rfl⟩
    · exact Or.inr ⟨node, target, seen, found, by cases target <;> rfl⟩
  · rintro (⟨absent, rfl⟩ | ⟨node, target, seen, found, rfl⟩)
    · exact ⟨none, Or.inl ⟨absent, rfl⟩, rfl⟩
    · exact ⟨some target, Or.inr ⟨node, target, seen, found, rfl⟩, by cases target <;> rfl⟩

/-- The end of a parameter's rewriting, which every parameter has in common. -/
def finished (location : Option Location) (parameter : Members Value) : Members Value :=
  Members.erase (Members.erase (formatCollection location parameter) "style") "explode"

theorem rewrite_eq_ok {parameter result : Members Value} :
    rewrite resolver root parameter = .ok result ↔
      (location? parameter = some .body ∧ result = finished (some .body) parameter) ∨
      (location? parameter ≠ some .body ∧ ∃ flat, flatten resolver root parameter = .ok flat ∧
        result = finished (location? parameter) flat) := by
  unfold rewrite finished
  by_cases body : location? parameter = some .body
  · simp [body, pure_eq_ok]
  · simp [body, map_eq_ok]

theorem rewriteNode_eq_ok {node result : Value} :
    rewriteNode resolver root node = .ok result ↔ ∃ target, resolver.resolve root node = .ok target ∧
      ((target.members? = none ∧ result = target) ∨
        ∃ parameter rewritten, target = .obj parameter ∧ rewrite resolver root parameter = .ok rewritten ∧
          result = .obj rewritten) := by
  unfold rewriteNode
  simp only [bind_eq_ok]
  refine exists_congr fun target => and_congr_right fun _ => ?_
  cases target <;> simp [map_eq_ok, pure_eq_ok, Value.members?]

/-- What a node leads to takes its place once it is rewritten. -/
theorem rewriteNode_of_rewrite {node : Value} {parameter rewritten : Members Value}
    (found : resolver.resolve root node = .ok (.obj parameter)) (made : rewrite resolver root parameter = .ok rewritten) :
    rewriteNode resolver root node = .ok (.obj rewritten) :=
  rewriteNode_eq_ok.mpr ⟨_, found, Or.inr ⟨parameter, rewritten, rfl, made, rfl⟩⟩

theorem rewriteAll_eq_ok {owner result : Members Value} :
    rewriteAll resolver root owner = .ok result ↔
      ((∀ nodes, Members.get? owner "parameters" ≠ some (.arr nodes)) ∧ result = owner) ∨
      ∃ nodes results, Members.get? owner "parameters" = some (.arr nodes) ∧
        List.Forall₂ (fun node result => rewriteNode resolver root node = .ok result) nodes results ∧
        result = Members.insert owner "parameters" (.arr results) := by
  unfold rewriteAll
  split
  next nodes seen => simp [map_eq_ok, mapM_eq_ok, seen]
  next other =>
    rw [pure_eq_ok]
    constructor
    · rintro rfl
      exact Or.inl ⟨other, rfl⟩
    · rintro (⟨_, rfl⟩ | ⟨nodes, _, seen, _⟩)
      · rfl
      · exact absurd seen (other nodes)

theorem rewriteAll_of_listed {owner result : Members Value} {nodes : List Value}
    (listed : Members.get? owner "parameters" = some (.arr nodes)) (made : rewriteAll resolver root owner = .ok result) :
    ∃ results, List.Forall₂ (fun node result => rewriteNode resolver root node = .ok result) nodes results ∧
      result = Members.insert owner "parameters" (.arr results) := by
  rcases rewriteAll_eq_ok.mp made with ⟨unlisted, _⟩ | ⟨_, results, seen, each, same⟩
  · exact absurd listed (unlisted nodes)
  cases listed.symm.trans seen
  exact ⟨results, each, same⟩

end Parameter

namespace RequestBody

/-- The names of the properties that an object schema requires. -/
def requiredNames (schema : Members Value) : List String :=
  (((Members.get? schema "required").bind items?).map texts).getD []

/-- A schema is that of a form: an object with properties. -/
structure Form (schema : Value) (members properties : Members Value) : Prop where
  same : schema = .obj members
  isObject : textAt? members "type" = some "object"
  declares : Members.get? members "properties" = some (.obj properties)

theorem formParameters?_eq_some_iff {schema : Value} {generated : List Value} :
    formParameters? schema = some generated ↔ ∃ members properties, Form schema members properties ∧
      generated = (properties.filter fun entry => !isReadOnly entry.2).map (formParameter (requiredNames members)) := by
  constructor
  · intro seen
    cases schema with
    | obj members =>
      simp only [formParameters?, members?, Option.bind_eq_bind, Option.bind_some] at seen
      split at seen
      next => cases seen
      next isObject =>
        obtain ⟨properties, found, rest⟩ := Option.bind_eq_some_iff.mp seen
        obtain ⟨held, inside, same⟩ := Option.bind_eq_some_iff.mp found
        cases held <;> cases same
        cases rest
        exact ⟨members, properties, ⟨rfl, not_not.mp isObject, inside⟩, rfl⟩
    | _ => cases seen
  · rintro ⟨members, properties, ⟨rfl, isObject, declares⟩, rfl⟩
    simp [formParameters?, members?, isObject, declares, requiredNames]

/-- Only forms have parameters for their properties. -/
theorem formParameters?_eq_none_iff {schema : Value} :
    formParameters? schema = none ↔ ∀ members properties, ¬ Form schema members properties := by
  constructor
  · intro absent members properties form
    cases absent.symm.trans (formParameters?_eq_some_iff.mpr ⟨members, properties, form, rfl⟩)
  · intro other
    rw [Option.eq_none_iff_forall_ne_some]
    intro generated seen
    obtain ⟨members, properties, form, _⟩ := formParameters?_eq_some_iff.mp seen
    exact other members properties form

namespace Setting
variable {setting : Setting} {parameter operation : Members Value} {schema : Option Value} {generated : List Value}

theorem asForm_returns (returned : Returns (setting.asForm parameter schema) generated) :
    (schema = none ∧ generated = [.obj (Members.insert parameter "in" (.str "formData"))]) ∨
    ∃ node target rewritten, schema = some node ∧ setting.resolver.resolve setting.root node = .ok target ∧
      Returns (Schema.rewrite setting.limit .request target) rewritten ∧
      (formParameters? rewritten = some generated ∨
        formParameters? rewritten = none ∧ generated = [.obj (Members.insert
          (Members.insert parameter "in" (.str "formData")) "schema" rewritten)]) := by
  unfold asForm at returned
  cases schema with
  | none => exact Or.inl ⟨rfl, returns_pure.mp returned⟩
  | some node =>
    obtain ⟨target, found, returned⟩ := returned.bind
    obtain ⟨rewritten, made, returned⟩ := returned.bind
    refine Or.inr ⟨node, target, rewritten, rfl, returns_lift.mp found, made, ?_⟩
    split at returned
    next seen => exact Or.inl (seen.trans (congrArg some (returns_pure.mp returned).symm))
    next seen => exact Or.inr ⟨seen, returns_pure.mp returned⟩

theorem asJson_returns (returned : Returns (setting.asJson parameter schema) generated) :
    (schema = none ∧ generated = [.obj (Members.insert parameter "in" (.str "body"))]) ∨
    ∃ node rewritten, schema = some node ∧ Returns (Schema.rewrite setting.limit .request node) rewritten ∧
      generated = [.obj (Members.insert (Members.insert parameter "in" (.str "body")) "schema" rewritten)] := by
  unfold asJson at returned
  cases schema with
  | none => exact Or.inl ⟨rfl, returns_pure.mp returned⟩
  | some node =>
    obtain ⟨rewritten, made, returned⟩ := returned.bind
    exact Or.inr ⟨node, rewritten, rfl, made, returns_pure.mp returned⟩

theorem asBytes_returns (returned : Returns (setting.asBytes parameter schema) generated) :
    ∃ rewritten, Returns (Schema.rewrite setting.limit .request (schema.getD binary)) rewritten ∧
      generated = [.obj (Members.insert (Members.erase (Members.insert parameter "in" (.str "body")) "type")
        "schema" rewritten)] := by
  unfold asBytes at returned
  obtain ⟨rewritten, made, returned⟩ := returned.bind
  exact ⟨rewritten, made, returns_pure.mp returned⟩

theorem lift_mapM_returns {item : Option Value} {change : Value → Except Error Value} {result : Option Value}
    (returned : Returns (item.mapM fun held => (liftM (change held) : Rewriting Value)) result) :
    (item = none ∧ result = none) ∨ ∃ held made, item = some held ∧ change held = .ok made ∧ result = some made := by
  cases item with
  | none => exact Or.inl ⟨rfl, returns_pure.mp returned⟩
  | some held =>
    rw [Option.mapM_some, map_eq_pure_bind] at returned
    obtain ⟨made, found, returned⟩ := returned.bind
    exact Or.inr ⟨held, made, rfl, returns_lift.mp found, returns_pure.mp returned⟩

/-- The schema of a body's content, fetched when it lies in another document. -/
def Inlined (setting : Setting) (content : Members Value) (key : String) (schema : Option Value) : Prop :=
  (schemaAt? content key = none ∧ schema = none) ∨
    ∃ node target, schemaAt? content key = some node ∧
      setting.resolver.inlineExternal setting.root node = .ok target ∧ schema = some target

theorem parameters_returns {body content : Members Value} {key : String} {kind : MediaType.BodyKind}
    (returned : Returns (setting.parameters body content key kind) generated) :
    ∃ schema, Inlined setting content key schema ∧
      match kind with
      | .form => Returns (setting.asForm body schema) generated
      | .json => Returns (setting.asJson body schema) generated
      | .other => Returns (setting.asBytes body schema) generated := by
  unfold parameters at returned
  obtain ⟨schema, found, returned⟩ := returned.bind
  refine ⟨schema, lift_mapM_returns found, ?_⟩
  cases kind <;> exact returned

/-- The members of a body with the name that its parameter goes by. -/
def named (target : Value) : Members Value :=
  Members.insert (target.members?.getD []) "name" (.str "body")

theorem replaceBody_returns {result : Members Value} (returned : Returns (setting.replaceBody operation) result) :
    (Members.get? operation "requestBody" = none ∧ result = operation) ∨
    ∃ node target, Members.get? operation "requestBody" = some node ∧
      setting.resolver.resolve setting.root node = .ok target ∧
      ((∀ content, Members.get? (named target) "content" = some (.obj content) → MediaType.preferred? content = none) ∧
          result = Members.erase operation "requestBody" ∨
        ∃ content key kind generated, Members.get? (named target) "content" = some (.obj content) ∧
          MediaType.preferred? content = some (key, kind) ∧
          Returns (setting.parameters (Members.erase (named target) "content") content key kind) generated ∧
          result = append (Members.insert (Members.erase operation "requestBody") "consumes"
            (.arr (consumed content))) generated) := by
  unfold replaceBody at returned
  split at returned
  next absent => exact Or.inl ⟨absent, returns_pure.mp returned⟩
  next node seen =>
    obtain ⟨target, found, returned⟩ := returned.bind
    refine Or.inr ⟨node, target, seen, returns_lift.mp found, ?_⟩
    dsimp only at returned
    split at returned
    next content inside =>
      split at returned
      next useless =>
        refine Or.inl ⟨fun other held => ?_, returns_pure.mp returned⟩
        cases inside.symm.trans held
        exact useless
      next key kind chosen =>
        obtain ⟨generated, made, returned⟩ := returned.bind
        exact Or.inr ⟨content, key, kind, generated, inside, chosen, made, returns_pure.mp returned⟩
    next empty => exact Or.inl ⟨fun content held => absurd held (empty content), returns_pure.mp returned⟩

section
variable {node target : Value} {content result : Members Value} {key : String} {kind : MediaType.BodyKind}
  (asked : Members.get? operation "requestBody" = some node)
  (resolved : setting.resolver.resolve setting.root node = .ok target)
  (returned : Returns (setting.replaceBody operation) result)

include asked resolved returned

/-- A body without content that can be sent is dropped. -/
theorem replaceBody_of_useless
    (useless : ∀ content, Members.get? (named target) "content" = some (.obj content) → MediaType.preferred? content = none) :
    result = Members.erase operation "requestBody" := by
  rcases replaceBody_returns returned with ⟨absent, _⟩ | ⟨_, _, seen, found, ⟨_, same⟩ | replaced⟩
  · cases absent.symm.trans asked
  · exact same
  · cases asked.symm.trans seen
    cases found.symm.trans resolved
    obtain ⟨content, _, _, _, contained, chosen, _⟩ := replaced
    cases chosen.symm.trans (useless content contained)

theorem replaceBody_of_preferred (contained : Members.get? (named target) "content" = some (.obj content))
    (chosen : MediaType.preferred? content = some (key, kind)) :
    ∃ generated, Returns (setting.parameters (Members.erase (named target) "content") content key kind) generated ∧
      result = append (Members.insert (Members.erase operation "requestBody") "consumes" (.arr (consumed content)))
        generated := by
  rcases replaceBody_returns returned with ⟨absent, _⟩ | ⟨_, _, seen, found, outcome⟩
  · cases absent.symm.trans asked
  cases asked.symm.trans seen
  cases found.symm.trans resolved
  rcases outcome with ⟨useless, _⟩ | ⟨_, _, _, generated, inside, taken, made, same⟩
  · cases chosen.symm.trans (useless content contained)
  · cases contained.symm.trans inside
    cases chosen.symm.trans taken
    exact ⟨generated, made, same⟩

end

theorem rewriteOperation_returns {result : Members Value}
    (returned : Returns (setting.rewriteOperation operation) result) :
    ∃ replaced, Returns (setting.replaceBody (withParameters operation)) replaced ∧
      Parameter.rewriteAll setting.resolver setting.root replaced = .ok result := by
  unfold rewriteOperation at returned
  obtain ⟨replaced, made, returned⟩ := returned.bind
  exact ⟨replaced, made, returns_lift.mp returned⟩

end Setting
end RequestBody

namespace Response
variable {resolver : Resolver} {root : Value}

theorem rewriteHeader_eq_ok {entry result : String × Value} :
    rewriteHeader resolver root entry = .ok result ↔ result.1 = entry.1 ∧ ∃ target,
      resolver.resolve root entry.2 = .ok target ∧
      ((target.members? = none ∧ result.2 = target) ∨
        ∃ header, target = .obj header ∧ result.2 = .obj (flattenHeader header)) := by
  unfold rewriteHeader
  obtain ⟨name, value⟩ := result
  simp only [bind_eq_ok]
  rw [← exists_and_left]
  refine exists_congr fun target => ?_
  cases target <;> simp [pure_eq_ok, Value.members?, and_left_comm]

theorem rewriteHeaders_eq_ok {response result : Members Value} :
    rewriteHeaders resolver root response = .ok result ↔
      ((∀ headers, Members.get? response "headers" ≠ some (.obj headers)) ∧ result = response) ∨
      ∃ headers results, Members.get? response "headers" = some (.obj headers) ∧
        List.Forall₂ (fun entry result => rewriteHeader resolver root entry = .ok result) headers results ∧
        result = Members.insert response "headers" (.obj results) := by
  unfold rewriteHeaders
  split
  next headers seen => simp [map_eq_ok, mapM_eq_ok, seen]
  next other =>
    rw [pure_eq_ok]
    constructor
    · rintro rfl
      exact Or.inl ⟨other, rfl⟩
    · rintro (⟨_, rfl⟩ | ⟨headers, _, seen, _⟩)
      · rfl
      · exact absurd seen (other headers)

/-- Everything that has been folded so far stands in an entry of the content. -/
structure FoldedFrom (content : Members Value) (folded : Folded) : Prop where
  first : ∀ schema, folded.first = some schema → ∃ entry ∈ content, entry.2.get? "schema" = some schema
  json : ∀ schema, folded.json = some schema → ∃ entry ∈ content, entry.2.get? "schema" = some schema
  shown : ∀ shown ∈ folded.shown, ∃ entry ∈ content, shown.1 = MediaType.produced entry.1 ∧
    entry.2.get? "example" = some shown.2

theorem presentAt?_eq_some {media held : Value} {name : String} (seen : presentAt? media name = some held) :
    media.get? name = some held :=
  (Option.filter_eq_some_iff.mp seen).1

theorem foldEntry_from {content : Members Value} {folded : Folded} {entry : String × Value}
    (source : FoldedFrom content folded) (member : entry ∈ content) : FoldedFrom content (foldEntry folded entry) := by
  refine ⟨fun schema seen => ?_, fun schema seen => ?_, fun shown inside => ?_⟩
  · rcases Option.or_eq_some_iff.mp seen with seen | ⟨_, seen⟩
    · exact source.first schema seen
    · exact ⟨entry, member, presentAt?_eq_some seen⟩
  · rcases Option.or_eq_some_iff.mp seen with seen | ⟨_, seen⟩
    · exact source.json schema seen
    · split at seen
      · exact ⟨entry, member, presentAt?_eq_some seen⟩
      · cases seen
  · rcases List.mem_append.mp inside with inside | inside
    · exact source.shown shown inside
    · obtain ⟨held, seen, rfl⟩ := Option.map_eq_some_iff.mp (Option.mem_toList.mp inside)
      exact ⟨entry, member, rfl, presentAt?_eq_some seen⟩

theorem foldContent_from (produced : List String) (content : Members Value) :
    FoldedFrom content (foldContent produced content) := by
  have grows : ∀ (entries : List (String × Value)) (folded : Folded), (∀ entry ∈ entries, entry ∈ content) →
      FoldedFrom content folded → FoldedFrom content (entries.foldl foldEntry folded) := by
    intro entries
    induction entries with
    | nil => exact fun _ _ source => source
    | cons entry rest ih =>
      intro folded inside source
      exact ih _ (fun entry member => inside entry (List.mem_cons_of_mem _ member))
        (foldEntry_from source (inside entry List.mem_cons_self))
  refine grows content _ (fun _ member => member) ⟨?_, ?_, ?_⟩
  · intro schema impossible
    cases impossible
  · intro schema impossible
    cases impossible
  · intro shown impossible
    cases impossible

theorem FoldedFrom.schema? {content : Members Value} {folded : Folded} (source : FoldedFrom content folded)
    {schema : Value} (seen : folded.schema? = some schema) : ∃ entry ∈ content, entry.2.get? "schema" = some schema := by
  rcases Option.or_eq_some_iff.mp seen with seen | ⟨_, seen⟩
  · exact source.json schema seen
  · exact source.first schema seen

namespace Setting
variable {setting : Setting} {produced : List String}

theorem setSchema_returns {response result : Members Value} {schema : Option Value}
    (returned : Returns (setting.setSchema response schema) result) :
    (schema = none ∧ result = response) ∨
    ∃ node target rewritten, schema = some node ∧
      setting.resolver.inlineExternal setting.root node = .ok target ∧
      Returns (Schema.rewrite setting.limit .response target) rewritten ∧
      result = Members.insert response "schema" rewritten := by
  unfold setSchema at returned
  cases schema with
  | none => exact Or.inl ⟨rfl, returns_pure.mp returned⟩
  | some node =>
    obtain ⟨target, found, returned⟩ := returned.bind
    obtain ⟨rewritten, made, returned⟩ := returned.bind
    exact Or.inr ⟨node, target, rewritten, rfl, returns_lift.mp found, made, returns_pure.mp returned⟩

/-- A response without its content and with the examples of that content. -/
def withExamples (produced : List String) (content response : Members Value) : Members Value :=
  (foldContent produced content).shown.foldl addExample (Members.erase response "content")

theorem foldInto_returns {response : Members Value} {result : List String × Members Value}
    (returned : Returns (setting.foldInto produced response) result) :
    (Members.get? response "content" = none ∧ result = (produced, response)) ∨
    (∃ content, Members.get? response "content" = some content ∧ content.members? = none ∧
      result = (produced, Members.erase response "content")) ∨
    ∃ content filled, Members.get? response "content" = some (.obj content) ∧
      Returns (setting.setSchema (withExamples produced content response)
        (foldContent produced content).schema?) filled ∧
      result = ((foldContent produced content).produced, filled) := by
  unfold foldInto at returned
  split at returned
  next absent => exact Or.inl ⟨absent, returns_pure.mp returned⟩
  next content seen =>
    cases content with
    | obj content =>
      obtain ⟨filled, made, returned⟩ := returned.bind
      exact Or.inr (Or.inr ⟨content, filled, seen, made, returns_pure.mp returned⟩)
    | _ => exact Or.inr (Or.inl ⟨_, seen, rfl, returns_pure.mp returned⟩)

theorem rewriteNode_returns {node : Value} {result : List String × Value}
    (returned : Returns (setting.rewriteNode produced node) result) :
    ∃ target, setting.resolver.resolve setting.root node = .ok target ∧
      ((target.members? = none ∧ result = (produced, target)) ∨
        ∃ response folded rewritten, target = .obj response ∧ Returns (setting.foldInto produced response) folded ∧
          rewriteHeaders setting.resolver setting.root folded.2 = .ok rewritten ∧
          result = (folded.1, .obj rewritten)) := by
  unfold rewriteNode at returned
  obtain ⟨target, found, returned⟩ := returned.bind
  refine ⟨target, returns_lift.mp found, ?_⟩
  cases target with
  | obj response =>
    obtain ⟨folded, made, returned⟩ := returned.bind
    obtain ⟨rewritten, headed, returned⟩ := returned.bind
    exact Or.inr ⟨response, folded, rewritten, rfl, made, returns_lift.mp headed, returns_pure.mp returned⟩
  | _ => exact Or.inl ⟨rfl, returns_pure.mp returned⟩

theorem rewriteEach_returns {responses results : List (String × Value)} {total : List String}
    (returned : Returns (setting.rewriteEach produced responses) (total, results)) :
    List.Forall₂ (fun entry result => result.1 = entry.1 ∧
      ∃ before after, Returns (setting.rewriteNode before entry.2) (after, result.2)) responses results := by
  induction responses generalizing produced total results with
  | nil =>
    cases returns_pure.mp returned
    exact .nil
  | cons entry rest ih =>
    obtain ⟨⟨after, response⟩, first, returned⟩ := returned.bind
    obtain ⟨⟨total, others⟩, last, returned⟩ := returned.bind
    cases returns_pure.mp returned
    exact .cons ⟨rfl, produced, after, first⟩ (ih last)

theorem rewriteResponses_returns {operation result : Members Value}
    (returned : Returns (setting.rewriteResponses operation) result) :
    ((∀ responses, Members.get? operation "responses" ≠ some (.obj responses)) ∧ result = operation) ∨
    ∃ responses total results, Members.get? operation "responses" = some (.obj responses) ∧
      Returns (setting.rewriteEach (declared operation) responses) (total, results) ∧
      result = if total.isEmpty then Members.insert operation "responses" (.obj results)
        else Members.insert (Members.insert operation "responses" (.obj results)) "produces"
          (.arr (total.map .str)) := by
  unfold rewriteResponses at returned
  split at returned
  next responses seen =>
    obtain ⟨⟨total, results⟩, each, returned⟩ := returned.bind
    refine Or.inr ⟨responses, total, results, seen, each, ?_⟩
    dsimp only at returned
    split at returned
    next quiet => exact (returns_pure.mp returned).trans (if_pos quiet).symm
    next heard => exact (returns_pure.mp returned).trans (if_neg heard).symm
  next other => exact Or.inl ⟨other, returns_pure.mp returned⟩

end Setting
end Response
end ApiDialect
