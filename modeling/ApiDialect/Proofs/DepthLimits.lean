import ApiDialect.Proofs.Layout

/-! Conversions of one document under two limits run in step until the lower limit is exceeded. So a
limit decides whether a document is converted, and never what it is converted into. -/

namespace ApiDialect
open Rewriting

namespace Rewriting
variable {α β : Type} {stops : Error → Prop} {first second : Rewriting α}

/-- The second run ends as the first one does, unless the first is stopped. -/
def Follows (stops : Error → Prop) (first second : Rewriting α) : Prop :=
  ∀ before, (∃ error after, first.run.run before = (.error error, after) ∧ stops error) ∨
    second.run.run before = first.run.run before

namespace Follows

theorem refl (stops : Error → Prop) (rewriting : Rewriting α) : Follows stops rewriting rewriting :=
  fun _ => Or.inr rfl

theorem throw {error : Error} (stopped : stops error) (second : Rewriting α) :
    Follows stops (MonadExcept.throw error) second :=
  fun before => Or.inl ⟨error, before, rfl, stopped⟩

theorem bind {next rest : α → Rewriting β} (follows : Follows stops first second)
    (following : ∀ value, Follows stops (next value) (rest value)) : Follows stops (first >>= next) (second >>= rest) := by
  intro before
  rw [run_bind, run_bind]
  rcases follows before with ⟨error, after, stopped, held⟩ | same
  · rw [stopped]
    exact Or.inl ⟨error, after, rfl, held⟩
  · rw [same]
    rcases first.run.run before with ⟨error | value, after⟩
    · exact Or.inr rfl
    · exact following value after

/-- What comes first is the same on both sides. -/
theorem behind {next rest : α → Rewriting β} (first : Rewriting α)
    (following : ∀ value, Follows stops (next value) (rest value)) : Follows stops (first >>= next) (first >>= rest) :=
  (refl stops first).bind following

/-- What comes last is the same on both sides. -/
theorem before (follows : Follows stops first second) (next : α → Rewriting β) :
    Follows stops (first >>= next) (second >>= next) :=
  follows.bind fun value => refl stops (next value)

theorem mapM {change other : α → Rewriting β} (each : ∀ item, Follows stops (change item) (other item)) (items : List α) :
    Follows stops (items.mapM change) (items.mapM other) := by
  induction items with
  | nil => exact refl stops _
  | cons item rest ih =>
    rw [List.mapM_cons, List.mapM_cons]
    exact (each item).bind fun result => ih.before _

theorem foldlM {step other : β → α → Rewriting β} (each : ∀ state item, Follows stops (step state item) (other state item))
    (items : List α) (state : β) : Follows stops (items.foldlM step state) (items.foldlM other state) := by
  induction items generalizing state with
  | nil => exact refl stops _
  | cons item rest ih =>
    rw [List.foldlM_cons, List.foldlM_cons]
    exact (each state item).bind ih

end Follows
end Rewriting

/-- What is said when a schema is nested too deeply. -/
def Error.Exceeded (error : Error) : Prop :=
  ∃ path limit, error = .nestingExceeded path limit

namespace Schema
variable {rewrite other : String → Value → Rewriting Value} {path : String} {limit wider : Nat}

theorem eachItem_follows (each : ∀ path value, Follows Error.Exceeded (rewrite path value) (other path value))
    (index : Nat) (items : List Value) :
    Follows Error.Exceeded (eachItem rewrite path index items) (eachItem other path index items) := by
  induction items generalizing index with
  | nil => exact .refl _ _
  | cons item rest ih => exact (each _ item).bind fun _ => (ih (index + 1)).before _

theorem eachProperty_follows (each : ∀ path value, Follows Error.Exceeded (rewrite path value) (other path value))
    (properties : List (String × Value)) :
    Follows Error.Exceeded (eachProperty rewrite path properties) (eachProperty other path properties) := by
  induction properties with
  | nil => exact .refl _ _
  | cons entry rest ih => exact (each _ entry.2).bind fun _ => ih.before _

theorem inParts_follows (each : ∀ path value, Follows Error.Exceeded (rewrite path value) (other path value))
    (members : Members Value) : Follows Error.Exceeded (inParts rewrite path members) (inParts other path members) := by
  unfold inParts
  split
  next parts _ => exact (eachItem_follows each 0 parts).before _
  next => exact .refl _ _

theorem inContent_follows (each : ∀ path value, Follows Error.Exceeded (rewrite path value) (other path value))
    (direction : Direction) (members : Members Value) :
    Follows Error.Exceeded (inContent rewrite direction path members) (inContent other direction path members) := by
  unfold inContent
  split
  next =>
    split
    next properties _ => exact (eachProperty_follows each _).before _
    next => exact .refl _ _
  next =>
    split
    next items _ => exact (each _ items).before _
    next => exact .refl _ _
  next => exact .refl _ _

/-- The induction is on the levels that are left under the lower limit. -/
theorem rewriteWithin_follows {levels more : Nat} (enough : levels ≤ more) (direction : Direction) (path : String)
    (value : Value) : Follows Error.Exceeded (rewriteWithin limit direction levels path value)
      (rewriteWithin wider direction more path value) := by
  induction levels generalizing more path value with
  | zero => exact .throw ⟨path, limit, rfl⟩ _
  | succ levels ih =>
    obtain ⟨more, rfl⟩ := Nat.exists_eq_add_of_lt enough
    have below := fun path value => ih (Nat.le_add_right levels more) path value
    cases value with
    | obj members =>
      refine (inParts_follows below _).bind fun parted => ?_
      refine .behind (collapseDiscriminator parted) fun whole => ?_
      exact (inContent_follows below direction whole).before _
    | _ => exact .refl _ _

theorem rewrite_follows (less : limit ≤ wider) (direction : Direction) (schema : Value) :
    Follows Error.Exceeded (Schema.rewrite limit direction schema) (Schema.rewrite wider direction schema) :=
  rewriteWithin_follows (Nat.succ_le_succ less) direction "#" schema

end Schema

section Operations
variable {resolver : Resolver} {limit wider : Nat} {root : Value}

namespace RequestBody.Setting

theorem asForm_follows (less : limit ≤ wider) (parameter : Members Value) (schema : Option Value) :
    Follows Error.Exceeded (asForm ⟨resolver, limit, root⟩ parameter schema) (asForm ⟨resolver, wider, root⟩ parameter schema) := by
  cases schema with
  | none => exact .refl _ _
  | some schema => exact .behind _ fun target => (Schema.rewrite_follows less .request target).before _

theorem asJson_follows (less : limit ≤ wider) (parameter : Members Value) (schema : Option Value) :
    Follows Error.Exceeded (asJson ⟨resolver, limit, root⟩ parameter schema) (asJson ⟨resolver, wider, root⟩ parameter schema) := by
  cases schema with
  | none => exact .refl _ _
  | some schema => exact (Schema.rewrite_follows less .request schema).before _

theorem asBytes_follows (less : limit ≤ wider) (parameter : Members Value) (schema : Option Value) :
    Follows Error.Exceeded (asBytes ⟨resolver, limit, root⟩ parameter schema) (asBytes ⟨resolver, wider, root⟩ parameter schema) :=
  (Schema.rewrite_follows less .request (schema.getD binary)).before _

theorem parameters_follows (less : limit ≤ wider) (body content : Members Value) (key : String) (kind : MediaType.BodyKind) :
    Follows Error.Exceeded (parameters ⟨resolver, limit, root⟩ body content key kind)
      (parameters ⟨resolver, wider, root⟩ body content key kind) := by
  refine .behind _ fun schema => ?_
  cases kind with
  | form => exact asForm_follows less _ _
  | json => exact asJson_follows less _ _
  | other => exact asBytes_follows less _ _

theorem replaceBody_follows (less : limit ≤ wider) (operation : Members Value) :
    Follows Error.Exceeded (replaceBody ⟨resolver, limit, root⟩ operation) (replaceBody ⟨resolver, wider, root⟩ operation) := by
  unfold replaceBody
  split
  next => exact .refl _ _
  next node _ =>
    refine .behind _ fun target => ?_
    dsimp only
    split
    next content _ =>
      split
      next => exact .refl _ _
      next key kind _ => exact (parameters_follows less _ content key kind).before _
    next => exact .refl _ _

theorem rewriteOperation_follows (less : limit ≤ wider) (operation : Members Value) :
    Follows Error.Exceeded (rewriteOperation ⟨resolver, limit, root⟩ operation)
      (rewriteOperation ⟨resolver, wider, root⟩ operation) :=
  (replaceBody_follows less (withParameters operation)).before _

end RequestBody.Setting

namespace Response.Setting

theorem setSchema_follows (less : limit ≤ wider) (response : Members Value) (schema : Option Value) :
    Follows Error.Exceeded (setSchema ⟨resolver, limit, root⟩ response schema)
      (setSchema ⟨resolver, wider, root⟩ response schema) := by
  cases schema with
  | none => exact .refl _ _
  | some schema => exact .behind _ fun target => (Schema.rewrite_follows less .response target).before _

theorem foldInto_follows (less : limit ≤ wider) (produced : List String) (response : Members Value) :
    Follows Error.Exceeded (foldInto ⟨resolver, limit, root⟩ produced response)
      (foldInto ⟨resolver, wider, root⟩ produced response) := by
  unfold foldInto
  split
  next => exact .refl _ _
  next content _ =>
    cases content with
    | obj content => exact (setSchema_follows less _ _).before _
    | _ => exact .refl _ _

theorem rewriteNode_follows (less : limit ≤ wider) (produced : List String) (node : Value) :
    Follows Error.Exceeded (rewriteNode ⟨resolver, limit, root⟩ produced node)
      (rewriteNode ⟨resolver, wider, root⟩ produced node) := by
  refine .behind _ fun target => ?_
  cases target with
  | obj response => exact (foldInto_follows less produced response).before _
  | _ => exact .refl _ _

theorem rewriteEach_follows (less : limit ≤ wider) (produced : List String) (responses : List (String × Value)) :
    Follows Error.Exceeded (rewriteEach ⟨resolver, limit, root⟩ produced responses)
      (rewriteEach ⟨resolver, wider, root⟩ produced responses) := by
  induction responses generalizing produced with
  | nil => exact .refl _ _
  | cons entry rest ih => exact (rewriteNode_follows less produced entry.2).bind fun answered => (ih answered.1).before _

theorem rewriteResponses_follows (less : limit ≤ wider) (operation : Members Value) :
    Follows Error.Exceeded (rewriteResponses ⟨resolver, limit, root⟩ operation)
      (rewriteResponses ⟨resolver, wider, root⟩ operation) := by
  unfold rewriteResponses
  split
  next responses _ => exact (rewriteEach_follows less _ responses).before _
  next => exact .refl _ _

end Response.Setting

namespace Conversion.Setting

theorem operation_follows (less : limit ≤ wider) (members : Members Value) :
    Follows Error.Exceeded (operation ⟨resolver, limit⟩ root members) (operation ⟨resolver, wider⟩ root members) :=
  (RequestBody.Setting.rewriteOperation_follows less members).bind fun bodiless =>
    Response.Setting.rewriteResponses_follows less bodiless

theorem operationNode_follows (less : limit ≤ wider) (node : Value) :
    Follows Error.Exceeded (operationNode ⟨resolver, limit⟩ root node) (operationNode ⟨resolver, wider⟩ root node) := by
  refine .behind _ fun target => ?_
  cases target with
  | obj members => exact (operation_follows less members).before _
  | _ => exact .refl _ _

theorem method_follows (less : limit ≤ wider) (item : Members Value) (method : Method) :
    Follows Error.Exceeded (Setting.method ⟨resolver, limit⟩ root item method)
      (Setting.method ⟨resolver, wider⟩ root item method) := by
  unfold Setting.method
  split
  next => exact .refl _ _
  next node _ => exact (operationNode_follows less node).before _

theorem pathItem_follows (less : limit ≤ wider) (node : Value) :
    Follows Error.Exceeded (pathItem ⟨resolver, limit⟩ root node) (pathItem ⟨resolver, wider⟩ root node) := by
  refine .behind _ fun target => ?_
  cases target with
  | obj item =>
    refine .behind _ fun listed => ?_
    exact (Follows.foldlM (method_follows less) Method.all listed).before _
  | _ => exact .refl _ _

/-- Both runs have made the same of the document when they come to a path. -/
theorem path_follows (less : limit ≤ wider) (document : Members Value) (path : String) :
    Follows Error.Exceeded (Setting.path ⟨resolver, limit⟩ document path) (Setting.path ⟨resolver, wider⟩ document path) := by
  unfold Setting.path
  split
  next => exact .refl _ _
  next node _ => exact (pathItem_follows less node).before _

theorem paths_follows (less : limit ≤ wider) (document : Members Value) :
    Follows Error.Exceeded (paths ⟨resolver, limit⟩ document) (paths ⟨resolver, wider⟩ document) :=
  .foldlM (path_follows less) _ document

end Conversion.Setting
end Operations

namespace Relocation
variable {limit wider : Nat}

theorem definitions_follows (less : limit ≤ wider) (schemas : Value) :
    Follows Error.Exceeded (definitions limit schemas) (definitions wider schemas) := by
  cases schemas with
  | obj schemas =>
    refine (Follows.mapM (fun entry => ?_) schemas).before _
    exact (Schema.rewrite_follows less .response entry.2).before _
  | _ => exact .refl _ _

theorem moveSchemas_follows (less : limit ≤ wider) (document components : Members Value) :
    Follows Error.Exceeded (moveSchemas limit document components) (moveSchemas wider document components) := by
  unfold moveSchemas
  split
  next schemas _ => exact (definitions_follows less schemas).before _
  next => exact .refl _ _

theorem components_follows (less : limit ≤ wider) (document : Members Value) :
    Follows Error.Exceeded (components limit document) (components wider document) := by
  unfold components
  split
  next => exact .refl _ _
  next mapping _ => exact (moveSchemas_follows less _ mapping).before _
  next => exact .refl _ _

end Relocation

namespace Conversion
namespace Setting
variable {resolver : Resolver} {limit wider : Nat}

theorem layout_follows (less : limit ≤ wider) (document : Members Value) :
    Follows Error.Exceeded (layout ⟨resolver, limit⟩ document) (layout ⟨resolver, wider⟩ document) :=
  (paths_follows less _).bind fun laid => Relocation.components_follows less laid

/-- A higher limit gives the same document with the same warnings, and the same error unless that was
about the limit. -/
theorem convert_within (less : limit ≤ wider) (document : Value) :
    (∀ converted, convert ⟨resolver, limit⟩ document = .ok converted → convert ⟨resolver, wider⟩ document = .ok converted) ∧
    ∀ error, convert ⟨resolver, limit⟩ document = .error error → ¬ error.Exceeded →
      convert ⟨resolver, wider⟩ document = .error error := by
  have same : (∃ error, convert ⟨resolver, limit⟩ document = .error error ∧ error.Exceeded) ∨
      convert ⟨resolver, wider⟩ document = convert ⟨resolver, limit⟩ document := by
    cases document with
    | obj members =>
      unfold convert
      dsimp only
      rcases layout_follows less members .empty with ⟨error, queue, stopped, held⟩ | same
      · rw [stopped]
        exact Or.inl ⟨error, rfl, held⟩
      · rw [same]
        exact Or.inr rfl
    | _ => exact Or.inr rfl
  rcases same with ⟨error, stopped, held⟩ | same
  · constructor
    · intro converted made
      cases stopped.symm.trans made
    · intro other failed unlike
      cases stopped.symm.trans failed
      exact absurd held unlike
  · rw [same]
    exact ⟨fun _ made => made, fun _ failed _ => failed⟩

/-- What a nest of a roost is, three levels deep. -/
def roost : Value :=
  .obj [("openapi", .str "3.0.0"), ("components", .obj [("schemas", .obj [("Nest", .obj [("type", .str "object"),
    ("properties", .obj [("eggs", .obj [("type", .str "array"), ("items", .obj [("type", .str "string")])])])])])])]

def convertedRoost : Value :=
  .obj [("swagger", .str "2.0"), ("definitions", .obj [("Nest", .obj [("type", .str "object"),
    ("properties", .obj [("eggs", .obj [("type", .str "array"), ("items", .obj [("type", .str "string")])])])])]),
    ("x-components", .obj [])]

/-- The only path leads nowhere. -/
def strayRoost : Value :=
  .obj [("openapi", .str "3.0.0"), ("paths", .obj [("/nests", .obj [("$ref", .str "#/nests")])])]

/-- A lower limit than two keeps the nest from being converted, and a higher one changes nothing. -/
theorem roost_within :
    2 ≤ 9 ∧ convert ⟨⟨none, Files.none⟩, 1⟩ roost = .error (.nestingExceeded "#/properties/eggs/items" 1) ∧
      convert ⟨⟨none, Files.none⟩, 2⟩ roost = .ok ⟨convertedRoost, []⟩ ∧
      convert ⟨⟨none, Files.none⟩, 9⟩ roost = .ok ⟨convertedRoost, []⟩ ∧
      convert ⟨⟨none, Files.none⟩, 9⟩ strayRoost = .error (.unresolvedReference "#/nests") := by
  have less : 2 ≤ 9 := by decide
  have made : convert ⟨⟨none, Files.none⟩, 2⟩ roost = .ok ⟨convertedRoost, []⟩ := by decide +kernel
  refine ⟨less, by decide +kernel, made, (convert_within less roost).1 _ made, ?_⟩
  exact (convert_within less strayRoost).2 _ (by decide +kernel) (fun ⟨_, _, other⟩ => nomatch other)

end Setting
end Conversion
end ApiDialect
