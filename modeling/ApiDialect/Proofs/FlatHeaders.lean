import ApiDialect.Proofs.FoldedContents

/-! Headers give up their schemas as parameters do, and both take type and format from it. A parameter follows its schema
first when that is a reference. A header does not, and then it has no type. -/

namespace ApiDialect
open Rewriting Value

/-- The keys that a header takes from its schema. -/
def typeKeys : List String := ["type", "format"]

/-- Two objects say the same about their type, or neither says anything. -/
def SameType (first second : Members Value) : Prop :=
  ∀ key ∈ typeKeys, Members.get? first key = Members.get? second key

namespace Response
variable {resolver : Resolver} {root schema node : Value} {header response result headers : Members Value} {name : String}

/-- A header that says nothing but its schema. -/
def bareHeader (schema : Value) : Value :=
  .obj [("schema", schema)]

theorem get?_takeKeys (keys : List String) (schema : Value) (header : Members Value) (name : String) :
    Members.get? (keys.foldl (fun header key => match schema.get? key with
      | some value => Members.insert header key value
      | none => header) header) name =
      if name ∈ keys then (schema.get? name).or (Members.get? header name) else Members.get? header name := by
  induction keys generalizing header with
  | nil => simp
  | cons key rest ih =>
    rw [List.foldl_cons, ih]
    by_cases same : key = name
    · subst same
      cases seen : schema.get? key <;> simp
    · cases schema.get? key <;> simp [Ne.symm same, Members.get?_insert_of_ne same]

/-- A header with a schema has the type of its schema and no other. -/
theorem get?_flattenHeader (distinct : Members.Distinct header) (described : Members.get? header "schema" = some schema)
    (key : String) : Members.get? (flattenHeader header) key =
      if key ∈ typeKeys then schema.get? key else if key = "schema" then none else Members.get? header key := by
  have bare : Members.get? (Members.erase (Members.erase (Members.erase header "schema") "type") "format") key =
      if key ∈ typeKeys ∨ key = "schema" then none else Members.get? header key := by
    rw [((distinct.erase "schema").erase "type").get?_erase, (distinct.erase "schema").get?_erase, distinct.get?_erase]
    by_cases one : key = "format" <;> by_cases two : key = "type" <;> simp [typeKeys, one, two, eq_comm]
  unfold flattenHeader
  rw [described]
  refine (get?_takeKeys typeKeys schema _ key).trans ?_
  rw [bare]
  by_cases typed : key ∈ typeKeys
  · rw [if_pos typed, if_pos typed, if_pos (Or.inl typed), Option.or_none]
  · rw [if_neg typed, if_neg typed]
    simp only [typed, false_or]

theorem rewriteHeader_of_bare {after : String × Value} (made : rewriteHeader resolver root (name, bareHeader schema) = .ok after) :
    ∃ header, after = (name, .obj header) ∧ ∀ key ∈ typeKeys, Members.get? header key = schema.get? key := by
  obtain ⟨same, target, found, ⟨scalar, _⟩ | ⟨header, rfl, rest⟩⟩ := rewriteHeader_eq_ok.mp made
  · cases (resolve_of_reference?_eq_none rfl).symm.trans found
    cases scalar
  · cases (resolve_of_reference?_eq_none rfl).symm.trans found
    refine ⟨flattenHeader [("schema", schema)], Prod.ext same rest, ?_⟩
    intro key typed
    have distinct : Members.Distinct [("schema", schema)] := List.nodup_singleton _
    rw [get?_flattenHeader distinct rfl, if_pos typed]

namespace Setting
variable {setting : Setting} {operation responses : Members Value} {status : String}

/-- An operation has a header in one of its responses, which is looked up first. -/
def Heads (setting : Setting) (operation : Members Value) (status name : String) (header : Value) : Prop :=
  ∃ responses node response headers, Members.get? operation "responses" = some (.obj responses) ∧
    Members.get? responses status = some node ∧ setting.resolver.resolve setting.root node = .ok (.obj response) ∧
    Members.get? response "headers" = some (.obj headers) ∧ Members.get? headers name = some header

/-- The headers of a response stay under their names. -/
theorem rewriteResponses_heads {header : Value} (whole : setting.root.WellFormed) (formed : (Value.obj operation).WellFormed)
    (heads : setting.Heads operation status name header) (returned : Returns (setting.rewriteResponses operation) result) :
    ∃ after, rewriteHeader setting.resolver setting.root (name, header) = .ok (name, after) ∧
      (Value.obj result).walk? ["responses", status, "headers", name] = some after := by
  obtain ⟨responses, node, response, headers, listed, seen, resolved, headed, inside⟩ := heads
  obtain ⟨answers, there, each⟩ := rewriteResponses_answer whole formed listed returned
  obtain ⟨_, folded, answer, here, single, folds, changed⟩ := each status node response seen resolved
  have still : Members.get? folded.2 "headers" = some (.obj headers) := by
    rw [get?_foldInto single.distinct folds (by decide), if_neg (by decide), headed]
  rcases rewriteHeaders_eq_ok.mp changed with ⟨none, _⟩ | ⟨_, results, again, rows, rfl⟩
  · exact absurd still (none headers)
  cases still.symm.trans again
  have kept : List.Forall₂ (fun entry result => result.1 = entry.1 ∧
      rewriteHeader setting.resolver setting.root entry = .ok result) headers results :=
    rows.imp fun entry result made => ⟨(rewriteHeader_eq_ok.mp made).1, made⟩
  obtain ⟨last, final, done⟩ := Members.get?_of_forall₂ kept inside
  refine ⟨last, done, ?_⟩
  simp only [walk?, child?, there, here, final, Members.get?_insert_self, Option.bind_some]

end Setting
end Response

namespace Parameter
variable {resolver : Resolver} {root schema target : Value} {described parameter owner result : Members Value}
  {nodes : List Value} {index : Nat} {key name : String} {location : Option Location}

/-- A parameter of a query that says nothing but its name and its schema. -/
def bareQuery (name : String) (schema : Value) : Members Value :=
  [("name", .str name), ("in", .str "query"), ("schema", schema)]

/-- The type of the schema goes before that of the parameter. -/
theorem get?_flat_of_typed (sound : Formed (.obj described)) (formed : Formed (.obj parameter)) (typed : key ∈ typeKeys) :
    Members.get? (flat location described parameter) key = (Members.get? described key).or (Members.get? parameter key) := by
  have each : ∀ key ∈ typeKeys, key ∈ hoisted ∧ key ≠ "additionalProperties" := by decide
  obtain ⟨keyword, other⟩ := each key typed
  obtain ⟨stays, format, hidden⟩ := apart_of_hoisted keyword
  have taken : isHoisted key = fun _ => true := by
    funext value
    simp [isHoisted, other]
  rw [get?_flat location sound formed key stays format, if_neg hidden, offered?, if_pos keyword, taken]
  cases Members.get? described key <;> rfl

/-- A parameter that was bare has the type of what its schema leads to. -/
theorem rewriteAll_bareQuery (whole : root.WellFormed) (formed : (Value.obj owner).WellFormed)
    (listed : Members.get? owner "parameters" = some (.arr nodes)) (inside : nodes[index]? = some (.obj (bareQuery name schema)))
    (found : resolver.resolve root schema = .ok target) (made : rewriteAll resolver root owner = .ok result) :
    ∃ results after, Members.get? result "parameters" = some (.arr results) ∧ results[index]? = some (.obj after) ∧
      ∀ key ∈ typeKeys, Members.get? after key = target.get? key := by
  obtain ⟨results, each, rfl⟩ := rewriteAll_of_listed listed made
  obtain ⟨changed, there, one⟩ := getElem?_of_forall₂ each inside
  have alone : resolver.resolve root (.obj (bareQuery name schema)) = .ok (.obj (bareQuery name schema)) :=
    resolve_of_reference?_eq_none rfl
  have describes : Describes resolver root (bareQuery name schema) (target.members?.getD []) :=
    Or.inr ⟨schema, target, rfl, found, rfl⟩
  cases one.symm.trans (rewriteNode_of_rewrite alone (rewrite_of_describes (by simp [bareQuery, Members.get?]) describes))
  have leads := resolver.loads_formed.leads (formed_iff.mpr whole)
  have single : Formed (.obj (bareQuery name schema)) :=
    (Sound.get? (formed_iff.mpr formed) listed).item (List.mem_of_getElem? inside)
  refine ⟨results, _, Members.get?_insert_self .., there, ?_⟩
  intro key typed
  rw [get?_flat_of_typed (describes.formed single leads) single typed]
  have absent : ∀ key ∈ typeKeys, Members.get? (bareQuery name schema) key = none := by
    simp [typeKeys, bareQuery, Members.get?]
  rw [absent key typed, Option.or_none]
  cases target <;> rfl

end Parameter

namespace Response
namespace Setting
variable {setting : Setting} {operation result owner changed : Members Value} {status name label : String}
  {schema target : Value} {nodes : List Value} {index : Nat}

/-- A header and a parameter that are nothing but their schema say the same about their type exactly when the schema says
what it leads to. So they do when the schema is no reference. -/
theorem flattens_alike_iff (whole : setting.root.WellFormed)
    (formed : (Value.obj operation).WellFormed ∧ (Value.obj owner).WellFormed)
    (found : setting.resolver.resolve setting.root schema = .ok target)
    (heads : setting.Heads operation status name (bareHeader schema))
    (returned : Returns (setting.rewriteResponses operation) result)
    (listed : Members.get? owner "parameters" = some (.arr nodes))
    (inside : nodes[index]? = some (.obj (Parameter.bareQuery label schema)))
    (made : Parameter.rewriteAll setting.resolver setting.root owner = .ok changed) :
    ∃ header parameters parameter, (Value.obj result).walk? ["responses", status, "headers", name] = some (.obj header) ∧
      Members.get? changed "parameters" = some (.arr parameters) ∧ parameters[index]? = some (.obj parameter) ∧
      (schema.reference? = none → SameType header parameter) ∧
      (SameType header parameter ↔ ∀ key ∈ typeKeys, schema.get? key = target.get? key) := by
  obtain ⟨after, flattened, here⟩ := rewriteResponses_heads whole formed.1 heads returned
  obtain ⟨header, same, typed⟩ := rewriteHeader_of_bare flattened
  cases same
  obtain ⟨parameters, parameter, all, there, other⟩ := Parameter.rewriteAll_bareQuery whole formed.2 listed inside found made
  have alike : SameType header parameter ↔ ∀ key ∈ typeKeys, schema.get? key = target.get? key := by
    refine forall₂_congr fun key member => ?_
    rw [typed key member, other key member]
  refine ⟨header, parameters, parameter, here, all, there, ?_, alike⟩
  intro direct
  cases (resolve_of_reference?_eq_none direct).symm.trans found
  exact alike.mpr fun _ _ => rfl

/-- A ferry says how many seats are left and is asked for that many. -/
def ferry : Value :=
  .obj [("components", .obj [("schemas", .obj [("Seats", .obj [("type", .str "integer"), ("format", .str "int32")])])])]

def departure (header : Value) : Members Value :=
  [("responses", .obj [("200", .obj [("headers", .obj [("X-Seats", header)])])])]

def booking (parameter : Members Value) : Members Value :=
  [("parameters", .arr [.obj parameter])]

/-- A number of seats as it stands in a schema of its own, and as a reference to that schema. -/
def number : Value := .obj [("type", .str "integer"), ("format", .null), ("minimum", .num (.int 1))]

def seats : Value := .obj [("$ref", .str "#/components/schemas/Seats")]

/-- A number that is written out is a number on both sides, and has no format on both. -/
theorem ferry_alike : ferry.WellFormed ∧ (Value.obj (departure (bareHeader number))).WellFormed ∧
    (Value.obj (booking (Parameter.bareQuery "seats" number))).WellFormed ∧
    ∃ result changed header parameters parameter,
      Returns (rewriteResponses ⟨⟨none, Files.none⟩, 0, ferry⟩ (departure (bareHeader number))) result ∧
      Parameter.rewriteAll ⟨none, Files.none⟩ ferry (booking (Parameter.bareQuery "seats" number)) = .ok changed ∧
      (Value.obj result).walk? ["responses", "200", "headers", "X-Seats"] = some (.obj header) ∧
      Members.get? changed "parameters" = some (.arr parameters) ∧ parameters[0]? = some (.obj parameter) ∧
      SameType header parameter := by
  have whole : ferry.WellFormed := by decide
  have formed : (Value.obj (departure (bareHeader number))).WellFormed ∧
      (Value.obj (booking (Parameter.bareQuery "seats" number))).WellFormed := by decide
  have returned : Returns (rewriteResponses ⟨⟨none, Files.none⟩, 0, ferry⟩ (departure (bareHeader number)))
      (departure (.obj [("type", .str "integer"), ("format", .null)])) := ⟨.empty, _, Prod.ext (by decide +kernel) rfl⟩
  have made : Parameter.rewriteAll ⟨none, Files.none⟩ ferry (booking (Parameter.bareQuery "seats" number)) =
      .ok (booking [("name", .str "seats"), ("in", .str "query"), ("type", .str "integer"), ("format", .null),
        ("minimum", .num (.int 1))]) := by decide +kernel
  have heads : Heads ⟨⟨none, Files.none⟩, 0, ferry⟩ (departure (bareHeader number)) "200" "X-Seats" (bareHeader number) :=
    ⟨_, _, _, _, rfl, rfl, rfl, rfl, rfl⟩
  have inside : [Value.obj (Parameter.bareQuery "seats" number)][0]? = some (.obj (Parameter.bareQuery "seats" number)) := rfl
  obtain ⟨header, parameters, parameter, here, all, there, alike, _⟩ :=
    flattens_alike_iff whole formed rfl heads returned rfl inside made
  exact ⟨whole, formed.1, formed.2, _, _, header, parameters, parameter, returned, made, here, all, there, alike rfl⟩

/-- Behind a reference the parameter finds a number, and the header is left with nothing. -/
theorem departure_untyped : ferry.WellFormed ∧
    Resolver.resolve ⟨none, Files.none⟩ ferry seats = .ok (.obj [("type", .str "integer"), ("format", .str "int32")]) ∧
    Returns (rewriteResponses ⟨⟨none, Files.none⟩, 0, ferry⟩ (departure (bareHeader seats))) (departure (.obj [])) ∧
    Parameter.rewriteAll ⟨none, Files.none⟩ ferry (booking (Parameter.bareQuery "seats" seats)) =
      .ok (booking [("name", .str "seats"), ("in", .str "query"), ("type", .str "integer"), ("format", .str "int32")]) ∧
    ¬ SameType [] [("name", .str "seats"), ("in", .str "query"), ("type", .str "integer"), ("format", .str "int32")] := by
  refine ⟨by decide, by decide +kernel, ⟨.empty, _, Prod.ext (by decide +kernel) rfl⟩, by decide +kernel, ?_⟩
  intro same
  exact absurd (same "type" (by decide)) (by decide)

end Setting
end Response
end ApiDialect
