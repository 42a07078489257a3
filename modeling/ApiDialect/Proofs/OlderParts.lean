import ApiDialect.Proofs.OperationFrames
import ApiDialect.Proofs.SoundPaths

/-! The constructs that only the newer dialect has, and that the parts of a converted path item are
free of them. Removal is exact because names are distinct, also in what a reference brings in. -/

namespace ApiDialect
open Rewriting Value

namespace Parameter
variable {resolver : Resolver} {root node result : Value} {parameter rewritten : Members Value}

/-- A parameter says how it is written in one word, and only a body has a schema. -/
structure Flat (parameter : Members Value) : Prop where
  style : Members.get? parameter "style" = none
  explode : Members.get? parameter "explode" = none
  bare : Members.get? parameter "in" ≠ some (.str "body") → Members.get? parameter "schema" = none ∧
    Members.get? parameter "allowReserved" = none ∧ Members.get? parameter "example" = none

/-- Every parameter that an owner lists is flat. -/
def ListsFlat (owner : Members Value) : Prop :=
  ∀ nodes, Members.get? owner "parameters" = some (.arr nodes) → ∀ parameter, .obj parameter ∈ nodes → Flat parameter

theorem location?_eq_body_iff : location? parameter = some .body ↔ Members.get? parameter "in" = some (.str "body") := by
  unfold location? Value.textAt?
  cases Members.get? parameter "in" with
  | none => simp
  | some held =>
    cases held with
    | str text =>
      simp only [Option.bind_some, Value.text?, Option.some.injEq, Value.str.injEq]
      constructor
      · intro found
        have named := List.find?_some found
        exact (of_decide_eq_true named).symm
      · rintro rfl
        rfl
    | _ => simp [Value.text?]

theorem get?_formatCollection {location : Option Location} {name : String} (distinct : Members.Distinct parameter)
    (other : name ≠ "collectionFormat") :
    Members.get? (formatCollection location parameter) name = Members.get? parameter name := by
  have set : ∀ style : Style, Members.get? (setCollectionFormat style parameter) name = Members.get? parameter name := by
    intro style
    unfold setCollectionFormat
    dsimp only
    split
    next word _ => rw [Members.get?_insert_of_ne other.symm, distinct.get?_erase_of_ne other.symm]
    next => exact distinct.get?_erase_of_ne other.symm
  unfold formatCollection
  split
  next =>
    dsimp only
    split
    next style _ => exact set style
    next => rfl
  next => rfl

theorem get?_finished {location : Option Location} {name : String} (formed : Formed (.obj parameter))
    (other : name ≠ "collectionFormat") : Members.get? (finished location parameter) name =
      if name = "style" ∨ name = "explode" then none else Members.get? parameter name := by
  have formatted : Members.Distinct (formatCollection location parameter) := (formatCollection_refers formed).distinct
  unfold finished
  rw [(formatted.erase "style").get?_erase, formatted.get?_erase, get?_formatCollection formed.distinct other]
  by_cases one : name = "style" <;> by_cases two : name = "explode" <;> simp [one, two, eq_comm]

theorem get?_finished_of_ne {location : Option Location} {name : String} (formed : Formed (.obj parameter))
    (other : name ∉ ["collectionFormat", "style", "explode"]) :
    Members.get? (finished location parameter) name = Members.get? parameter name := by
  simp only [List.mem_cons, List.not_mem_nil, or_false, not_or] at other
  obtain ⟨format, style, explode⟩ := other
  rw [get?_finished formed format, if_neg (by simp [style, explode])]

/-- A parameter that stands for a body keeps its schema. -/
theorem rewrite_of_body (place : Members.get? parameter "in" = some (.str "body")) :
    rewrite resolver root parameter = .ok (finished (some .body) parameter) :=
  rewrite_eq_ok.mpr (Or.inl ⟨location?_eq_body_iff.mpr place, rfl⟩)

theorem get?_stripped {name : String} (distinct : Members.Distinct parameter) (other : name ≠ "x-example") :
    Members.get? (stripped parameter) name =
      if name = "schema" ∨ name = "allowReserved" ∨ name = "example" then none
      else Members.get? parameter name := by
  have bare := (distinct.erase "schema").erase "allowReserved"
  have seen : Members.get? (Members.erase (Members.erase parameter "schema") "allowReserved") name =
      if name = "schema" ∨ name = "allowReserved" then none else Members.get? parameter name := by
    rw [(distinct.erase "schema").get?_erase, distinct.get?_erase]
    by_cases one : name = "schema" <;> by_cases two : name = "allowReserved" <;> simp [one, two, eq_comm]
  unfold stripped renameExample
  split
  next shown _ =>
    rw [Members.get?_insert_of_ne other.symm, bare.get?_erase, seen]
    by_cases three : name = "example" <;> simp [three, eq_comm]
  next absent =>
    by_cases three : name = "example"
    · subst three
      simpa using absent
    · rw [seen]
      simp [three]

theorem finished_flat {location : Option Location} (formed : Formed (.obj parameter))
    (bare : Members.get? parameter "in" ≠ some (.str "body") → Members.get? parameter "schema" = none ∧
      Members.get? parameter "allowReserved" = none ∧ Members.get? parameter "example" = none) :
    Flat (finished location parameter) := by
  refine ⟨?_, ?_, fun place => ?_⟩
  · rw [get?_finished formed (by decide), if_pos (Or.inl rfl)]
  · rw [get?_finished formed (by decide), if_pos (Or.inr rfl)]
  · rw [get?_finished formed (by decide), if_neg (by decide)] at place
    rw [get?_finished formed (by decide), get?_finished formed (by decide), get?_finished formed (by decide),
      if_neg (by decide), if_neg (by decide), if_neg (by decide)]
    exact bare place

theorem flatten_formed (leads : resolver.Leads root (atReference fun _ => True))
    (made : flatten resolver root parameter = .ok rewritten) (formed : Formed (.obj parameter)) :
    ∃ whole, Formed (.obj whole) ∧ rewritten = stripped whole := by
  rcases flatten_eq_ok.mp made with ⟨_, rfl⟩ | ⟨node, target, seen, found, rfl⟩
  · exact ⟨parameter, formed, rfl⟩
  · refine ⟨hoistFrom target parameter, ?_, rfl⟩
    have declared := (Sound.get? formed seen).resolve leads found
    cases target with
    | obj schema => exact hoist_refers declared formed
    | _ => exact formed

theorem rewrite_flat (leads : resolver.Leads root (atReference fun _ => True))
    (made : rewrite resolver root parameter = .ok rewritten) (formed : Formed (.obj parameter)) : Flat rewritten := by
  rcases rewrite_eq_ok.mp made with ⟨body, rfl⟩ | ⟨_, flat, flattened, rfl⟩
  · exact finished_flat formed fun place => absurd (location?_eq_body_iff.mp body) place
  · obtain ⟨whole, sound, rfl⟩ := flatten_formed leads flattened formed
    refine finished_flat (stripped_refers sound) fun _ => ?_
    rw [get?_stripped sound.distinct (by decide), get?_stripped sound.distinct (by decide),
      get?_stripped sound.distinct (by decide)]
    exact ⟨if_pos (Or.inl rfl), if_pos (Or.inr (Or.inl rfl)), if_pos (Or.inr (Or.inr rfl))⟩

theorem rewriteNode_flat (leads : resolver.Leads root (atReference fun _ => True))
    (made : rewriteNode resolver root node = .ok (.obj rewritten)) (formed : Formed node) : Flat rewritten := by
  obtain ⟨target, found, ⟨plain, rfl⟩ | ⟨parameter, flat, rfl, changed, same⟩⟩ := rewriteNode_eq_ok.mp made
  · cases plain
  · cases same
    exact rewrite_flat leads changed (formed.resolve leads found)

theorem rewriteAll_flat {owner listed : Members Value} (leads : resolver.Leads root (atReference fun _ => True))
    (made : rewriteAll resolver root owner = .ok listed) (formed : Formed (.obj owner)) : ListsFlat listed := by
  intro nodes seen parameter member
  rcases rewriteAll_eq_ok.mp made with ⟨unlisted, rfl⟩ | ⟨sources, results, found, each, rfl⟩
  · exact absurd seen (unlisted nodes)
  · rw [Members.get?_insert_self] at seen
    cases seen
    obtain ⟨node, inside, changed⟩ := exists_of_forall₂_mem each member
    exact rewriteNode_flat leads changed ((Sound.get? formed found).item inside)

end Parameter

namespace Response
variable {resolver : Resolver} {root node : Value} {response result header : Members Value} {produced : List String}

/-- A response has its schema beside its description, and its headers have no schema at all. -/
structure Older (response : Members Value) : Prop where
  content : Members.get? response "content" = none
  headers : ∀ headers, Members.get? response "headers" = some (.obj headers) →
    ∀ name header, Members.get? headers name = some (.obj header) → Members.get? header "schema" = none

/-- What a header takes from its schema is not the schema. -/
theorem get?_takeKey {schema : Value} {key : String} (other : key ≠ "schema") :
    Members.get? (match schema.get? key with
      | some value => Members.insert header key value
      | none => header) "schema" = Members.get? header "schema" := by
  split
  next => exact Members.get?_insert_of_ne other _
  next => rfl

theorem flattenHeader_schema (distinct : Members.Distinct header) :
    Members.get? (flattenHeader header) "schema" = none := by
  unfold flattenHeader
  split
  next absent => exact absent
  next schema seen =>
    refine (get?_takeKey (by decide)).trans ((get?_takeKey (by decide)).trans ?_)
    rw [((distinct.erase "schema").erase "type").get?_erase_of_ne (by decide),
      (distinct.erase "schema").get?_erase_of_ne (by decide)]
    exact distinct.get?_erase_self "schema"

theorem rewriteHeaders_schemaless (leads : resolver.Leads root (atReference fun _ => True))
    (made : rewriteHeaders resolver root response = .ok result) (formed : Formed (.obj response))
    {headers : Members Value} (seen : Members.get? result "headers" = some (.obj headers)) {name : String}
    (held : Members.get? headers name = some (.obj header)) : Members.get? header "schema" = none := by
  rcases rewriteHeaders_eq_ok.mp made with ⟨bare, rfl⟩ | ⟨sources, results, found, each, rfl⟩
  · exact absurd seen (bare headers)
  · rw [Members.get?_insert_self] at seen
    cases seen
    obtain ⟨entry, inside, changed⟩ := exists_of_forall₂_mem each (Members.mem_of_get? held)
    obtain ⟨_, target, resolved, ⟨plain, same⟩ | ⟨source, rfl, same⟩⟩ := rewriteHeader_eq_ok.mp changed
    · dsimp only at same
      rw [← same] at plain
      cases plain
    · cases same
      have sound : Formed (.obj source) := (((Sound.get? formed found).entry inside).2).resolve leads resolved
      exact flattenHeader_schema sound.distinct

namespace Setting
variable {setting : Setting} {operation : Members Value}

theorem rewriteNode_older {after : List String} (leads : setting.resolver.Leads setting.root (atReference fun _ => True))
    (returned : Returns (setting.rewriteNode produced node) (after, .obj result)) (formed : Formed node) :
    Older result := by
  obtain ⟨target, found, ⟨plain, same⟩ | ⟨response, folded, rewritten, rfl, made, headed, same⟩⟩ :=
    rewriteNode_returns returned
  · cases same
    cases plain
  · cases same
    have resolved : Formed (.obj response) := formed.resolve leads found
    refine ⟨?_, fun headers seen name header held => ?_⟩
    · rw [get?_rewriteHeaders headed (by decide), get?_foldInto resolved.distinct made (by decide), if_pos rfl]
    · exact rewriteHeaders_schemaless leads headed (foldInto_refers textual_true leads made resolved) seen held

/-- The responses of an operation are older, whatever else it holds. -/
def AnswersOlder (operation : Members Value) : Prop :=
  ∀ responses, Members.get? operation "responses" = some (.obj responses) →
    ∀ status response, Members.get? responses status = some (.obj response) → Older response

theorem rewriteResponses_older (leads : setting.resolver.Leads setting.root (atReference fun _ => True))
    (returned : Returns (setting.rewriteResponses operation) result) (formed : Formed (.obj operation)) :
    AnswersOlder result := by
  intro answers seen status response held
  rcases rewriteResponses_returns returned with ⟨bare, rfl⟩ | ⟨responses, total, results, found, each, rfl⟩
  · exact absurd seen (bare answers)
  · have placed : answers = results := by
      split at seen
      next => rw [Members.get?_insert_self] at seen; cases seen; rfl
      next =>
        rw [Members.get?_insert_of_ne (by decide), Members.get?_insert_self] at seen
        cases seen
        rfl
    subst placed
    obtain ⟨entry, inside, _, before, after, made⟩ :=
      exists_of_forall₂_mem (rewriteEach_returns each) (Members.mem_of_get? held)
    exact rewriteNode_older leads made ((Sound.get? formed found).entry inside).2

end Setting
end Response

namespace RequestBody
namespace Setting
variable {setting : Setting} {operation result : Members Value}

theorem withParameters_listed (operation : Members Value) :
    ∃ nodes, Members.get? (withParameters operation) "parameters" = some (.arr nodes) := by
  unfold withParameters
  split
  next nodes seen => exact ⟨nodes, seen⟩
  next => exact ⟨[], Members.get?_insert_self ..⟩

theorem append_listed {nodes generated : List Value} (seen : Members.get? operation "parameters" = some (.arr nodes)) :
    append operation generated = Members.insert operation "parameters" (.arr (nodes ++ generated)) := by
  unfold append
  rw [seen]

/-- The body is gone, and the list of parameters is still there. -/
theorem replaceBody_bodiless {nodes : List Value} (distinct : Members.Distinct operation)
    (listed : Members.get? operation "parameters" = some (.arr nodes))
    (returned : Returns (setting.replaceBody operation) result) :
    Members.get? result "requestBody" = none ∧ ∃ nodes, Members.get? result "parameters" = some (.arr nodes) := by
  have gone : Members.get? (Members.erase operation "requestBody") "requestBody" = none :=
    distinct.get?_erase_self "requestBody"
  have kept : Members.get? (Members.erase operation "requestBody") "parameters" = some (.arr nodes) := by
    rw [distinct.get?_erase_of_ne (by decide), listed]
  rcases replaceBody_returns returned with ⟨absent, rfl⟩ | ⟨node, target, _, _, ⟨_, rfl⟩ | replaced⟩
  · exact ⟨absent, nodes, listed⟩
  · exact ⟨gone, nodes, kept⟩
  · obtain ⟨content, key, kind, generated, _, _, _, rfl⟩ := replaced
    have consumed : ∀ types, Members.get? (Members.insert (Members.erase operation "requestBody") "consumes" types)
        "parameters" = some (.arr nodes) := by
      intro types
      rw [Members.get?_insert_of_ne (by decide), kept]
    rw [append_listed (consumed _)]
    refine ⟨?_, _, Members.get?_insert_self ..⟩
    rw [Members.get?_insert_of_ne (by decide), Members.get?_insert_of_ne (by decide), gone]

theorem rewriteOperation_older (leads : setting.resolver.Leads setting.root (atReference fun _ => True))
    (returned : Returns (setting.rewriteOperation operation) result) (formed : Formed (.obj operation)) :
    (∃ nodes, Members.get? result "parameters" = some (.arr nodes)) ∧ Parameter.ListsFlat result ∧
      Members.get? result "requestBody" = none := by
  obtain ⟨replaced, made, listed⟩ := rewriteOperation_returns returned
  have started := withParameters_refers formed
  obtain ⟨nodes, seen⟩ := withParameters_listed operation
  obtain ⟨gone, others, found⟩ := replaceBody_bodiless started.distinct seen made
  have sound := replaceBody_refers textual_true.shallow leads made started
  refine ⟨?_, Parameter.rewriteAll_flat leads listed sound, ?_⟩
  · obtain ⟨results, _, rfl⟩ := Parameter.rewriteAll_of_listed found listed
    exact ⟨results, Members.get?_insert_self ..⟩
  · rw [Parameter.get?_rewriteAll listed (by decide), gone]

end Setting
end RequestBody
end ApiDialect
