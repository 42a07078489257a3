import ApiDialect.Proofs.KeptPlaces
import ApiDialect.Proofs.OlderParts
import ApiDialect.Proofs.Reading

/-! A parameter and its schema become one flat parameter. Where both have something to say, the schema decides
on constraints and the parameter on everything else, and one word says how the parameter writes an array. -/

namespace ApiDialect
open Value

theorem exists_forall₂ {α β : Type} {related : α → β → Prop} {items : List α}
    (each : ∀ item ∈ items, ∃ result, related item result) : ∃ results, List.Forall₂ related items results := by
  induction items with
  | nil => exact ⟨[], .nil⟩
  | cons item rest ih =>
    obtain ⟨result, held⟩ := each item List.mem_cons_self
    obtain ⟨results, others⟩ := ih fun other member => each other (List.mem_cons_of_mem _ member)
    exact ⟨result :: results, .cons held others⟩

namespace Parameter
variable {resolver : Resolver} {root : Value} {location : Option Location} {schema parameter whole owner : Members Value}
  {nodes : List Value} {key : String}

/-- What a schema offers to a parameter under a key. -/
def offered? (schema parameter : Members Value) (key : String) : Option Value :=
  if key ∈ hoisted then (Members.get? schema key).filter (isHoisted key)
  else if key.startsWith "x-" then if Members.has parameter key then none else Members.get? schema key
  else if key = "description" ∧ isPresentText (Members.get? parameter key) = false then
    (Members.get? schema key).filter fun held => isPresentText (some held)
  else none

theorem get?_hoistKey (schema parameter : Members Value) (key name : String) :
    Members.get? (hoistKey schema parameter key) name =
      if key = name then ((Members.get? schema name).filter (isHoisted name)).or (Members.get? parameter name)
      else Members.get? parameter name := by
  unfold hoistKey
  by_cases same : key = name
  · subst same
    cases seen : Members.get? schema key with
    | none => simp
    | some value => by_cases taken : isHoisted key value <;> simp [Option.filter_some, taken]
  · split
    next value _ => by_cases taken : isHoisted key value <;> simp [taken, same, Members.get?_insert_of_ne]
    next => simp [same]

/-- Constraints that the schema has replace those of the parameter. -/
theorem get?_hoistKeys (keys : List String) (schema parameter : Members Value) (name : String) :
    Members.get? (keys.foldl (hoistKey schema) parameter) name =
      if name ∈ keys then ((Members.get? schema name).filter (isHoisted name)).or (Members.get? parameter name)
      else Members.get? parameter name := by
  induction keys generalizing parameter with
  | nil => simp
  | cons key rest ih =>
    rw [List.foldl_cons, ih, get?_hoistKey]
    by_cases same : key = name
    · subst same
      cases (Members.get? schema key).filter (isHoisted key) <;> simp
    · simp [same, Ne.symm same]

theorem get?_hoistExtension (parameter : Members Value) (entry : String × Value) (name : String) :
    Members.get? (hoistExtension parameter entry) name =
      if entry.1 = name ∧ name.startsWith "x-" then (Members.get? parameter name).or (some entry.2)
      else Members.get? parameter name := by
  unfold hoistExtension
  by_cases same : entry.1 = name
  · subst same
    by_cases extension : entry.1.startsWith "x-"
    · rw [if_pos extension, Members.get?_insertIfAbsent]
      cases Members.get? parameter entry.1 <;> simp [extension]
    · simp [extension]
  · split
    next => rw [Members.get?_insertIfAbsent]; simp [same]
    next => simp [same]

/-- Extensions that the parameter has stay. -/
theorem get?_hoistExtensions (schema parameter : Members Value) (name : String) :
    Members.get? (schema.foldl hoistExtension parameter) name =
      if name.startsWith "x-" then (Members.get? parameter name).or (Members.get? schema name)
      else Members.get? parameter name := by
  induction schema generalizing parameter with
  | nil => simp
  | cons entry rest ih =>
    obtain ⟨first, held⟩ := entry
    rw [List.foldl_cons, ih, get?_hoistExtension, Members.get?_cons]
    by_cases extension : name.startsWith "x-"
    · by_cases same : first = name <;> simp [extension, same]
    · simp [extension]

theorem get?_hoistDescription (schema parameter : Members Value) (name : String) :
    Members.get? (hoistDescription schema parameter) name =
      if name = "description" ∧ isPresentText (Members.get? parameter name) = false then
        ((Members.get? schema name).filter fun held => isPresentText (some held)).or (Members.get? parameter name)
      else Members.get? parameter name := by
  unfold hoistDescription
  by_cases same : name = "description"
  · subst same
    by_cases present : isPresentText (Members.get? parameter "description")
    · simp [present]
    · cases seen : Members.get? schema "description" with
      | none => simp [present]
      | some held => by_cases offered : isPresentText (some held) <;> simp [Option.filter_some, present, offered]
  · split
    next => simp [same]
    next =>
      split
      next held _ =>
        by_cases offered : isPresentText (some held) <;> simp [offered, same, Members.get?_insert_of_ne (Ne.symm same)]
      next => simp [same]

/-- No keyword that is taken over looks like an extension. -/
theorem not_extension_of_hoisted (keyword : key ∈ hoisted) : key.startsWith "x-" = false := by
  have each : ∀ key ∈ hoisted, key.startsWith "x-" = false := by decide +kernel
  exact each key keyword

/-- What the schema offers is taken. -/
theorem get?_hoist (schema parameter : Members Value) (key : String) :
    Members.get? (hoist schema parameter) key = (offered? schema parameter key).or (Members.get? parameter key) := by
  have plain : "description" ∉ hoisted ∧ "description".startsWith "x-" = false := by decide +kernel
  unfold hoist
  dsimp only
  rw [get?_hoistDescription, get?_hoistExtensions, get?_hoistKeys]
  unfold offered?
  by_cases keyword : key ∈ hoisted
  · have other : key ≠ "description" := fun same => plain.1 (same ▸ keyword)
    simp [keyword, other, not_extension_of_hoisted keyword]
  · by_cases extension : key.startsWith "x-"
    · have other : key ≠ "description" := by
        rintro rfl
        rw [plain.2] at extension
        cases extension
      cases seen : Members.get? parameter key <;> simp [keyword, extension, other, Members.has, seen]
    · simp only [keyword, extension, if_false, Bool.false_eq_true]
      split <;> rfl

theorem hoist_nil (parameter : Members Value) : hoist [] parameter = parameter := by
  have keys : ∀ keys : List String, keys.foldl (hoistKey []) parameter = parameter := by
    intro keys
    induction keys with
    | nil => rfl
    | cons key rest ih => exact ih
  unfold hoist hoistDescription
  simp [keys]

/-- A schema without members offers nothing. -/
theorem hoistFrom_eq (target : Value) (parameter : Members Value) :
    hoistFrom target parameter = hoist (target.members?.getD []) parameter := by
  cases target with
  | obj members => rfl
  | _ => exact (hoist_nil parameter).symm

/-- The example of a parameter goes before its extension of that name. -/
theorem get?_stripped_shown (distinct : Members.Distinct parameter) :
    Members.get? (stripped parameter) "x-example" =
      (Members.get? parameter "example").or (Members.get? parameter "x-example") := by
  have bare := (distinct.erase "schema").get?_erase "allowReserved"
  have kept {name : String} (one : "schema" ≠ name) (other : "allowReserved" ≠ name) :
      Members.get? (Members.erase (Members.erase parameter "schema") "allowReserved") name = Members.get? parameter name := by
    rw [bare, if_neg other, distinct.get?_erase_of_ne one]
  unfold stripped renameExample
  rw [kept (by decide) (by decide)]
  cases Members.get? parameter "example" with
  | none => exact kept (by decide) (by decide)
  | some shown => exact Members.get?_insert_self ..

/-- The name of the style in which a parameter at a location is written. -/
def styleName (location : Option Location) (parameter : Members Value) : String :=
  (textAt? parameter "style").getD (Style.atLocation location).name

/-- A parameter says in one word how arrays are written, where another said it by its style. What is no array
or has a style that nobody knows keeps the word that it had. -/
structure Collected (location : Option Location) (parameter flat : Members Value) : Prop where
  style : Members.get? flat "style" = none
  explode : Members.get? flat "explode" = none
  known : ∀ style, textAt? flat "type" = some "array" → Style.ofName? (styleName location parameter) = some style →
    Members.get? flat "collectionFormat" =
      (style.collectionFormat? ((Members.get? parameter "explode").bind bool?)).map .str
  kept : (textAt? flat "type" = some "array" → Style.ofName? (styleName location parameter) = none) →
    Members.get? flat "collectionFormat" = Members.get? parameter "collectionFormat"

theorem Style.ofName?_name (style : Style) : Style.ofName? style.name = some style := by
  cases style <;> rfl

theorem get?_setCollectionFormat (distinct : Members.Distinct parameter) (style : Style) :
    Members.get? (setCollectionFormat style parameter) "collectionFormat" =
      (style.collectionFormat? ((Members.get? parameter "explode").bind bool?)).map .str := by
  unfold setCollectionFormat
  dsimp only
  split
  next word found => rw [Members.get?_insert_self, found]; rfl
  next absent => rw [distinct.get?_erase_self, absent]; rfl

theorem formatCollection_of_array (isArray : textAt? parameter "type" = some "array") :
    formatCollection location parameter =
      match Style.ofName? (styleName location parameter) with
      | some style => setCollectionFormat style parameter
      | none => parameter := by
  unfold formatCollection styleName
  rw [if_pos isArray]
  cases textAt? parameter "style" with
  | none => simp only [Option.getD_none, Style.ofName?_name]
  | some name => rfl

/-- The end of a rewriting sees the style of the parameter that it started with. -/
theorem finished_collected (formed : Formed (.obj whole))
    (same : ∀ name ∈ ["style", "explode", "collectionFormat"], Members.get? whole name = Members.get? parameter name) :
    Collected location parameter (finished location whole) := by
  have distinct : Members.Distinct (formatCollection location whole) := (formatCollection_refers formed).distinct
  have word : Members.get? (finished location whole) "collectionFormat" =
      Members.get? (formatCollection location whole) "collectionFormat" := by
    unfold finished
    rw [(distinct.erase _).get?_erase_of_ne (by decide), distinct.get?_erase_of_ne (by decide)]
  have typed : textAt? (finished location whole) "type" = textAt? whole "type" := by
    rw [textAt?, get?_finished formed (by decide), if_neg (by decide), ← textAt?]
  have styled : styleName location whole = styleName location parameter := by
    rw [styleName, textAt?, same _ (by decide), ← textAt?, ← styleName]
  refine ⟨?_, ?_, ?_, ?_⟩
  · rw [get?_finished formed (by decide), if_pos (Or.inl rfl)]
  · rw [get?_finished formed (by decide), if_pos (Or.inr rfl)]
  · intro style isArray named
    rw [typed] at isArray
    rw [word, formatCollection_of_array isArray, styled, named]
    dsimp only
    rw [get?_setCollectionFormat formed.distinct, same _ (by decide)]
  · intro unknown
    rw [typed] at unknown
    rw [word, ← same _ (by decide)]
    by_cases isArray : textAt? whole "type" = some "array"
    · rw [formatCollection_of_array isArray, styled, unknown isArray]
    · rw [formatCollection, if_neg isArray]

/-- The keys that a flat parameter does not have. -/
def dropped : List String :=
  ["schema", "allowReserved", "example", "style", "explode"]

/-- A parameter and the members of its schema as one flat parameter, key by key. -/
structure Flattened (schema parameter flat : Members Value) : Prop where
  constraint : ∀ key value, key ∈ hoisted → Members.get? schema key = some value → isHoisted key value →
    Members.get? flat key = some value
  extension : ∀ key value, key.startsWith "x-" → Members.get? schema key = some value → Members.get? parameter key = none →
    (key = "x-example" → Members.get? parameter "example" = none) → Members.get? flat key = some value
  shown : ∀ value, Members.get? parameter "example" = some value → Members.get? flat "x-example" = some value
  described : isPresentText (Members.get? parameter "description") = false → isPresentText (Members.get? schema "description") →
    Members.get? flat "description" = Members.get? schema "description"
  bare : ∀ key ∈ dropped, Members.get? flat key = none
  collected : Collected (location? parameter) parameter flat
  others : ∀ key, key ∉ dropped → key ≠ "collectionFormat" →
    (∀ value, key ∈ hoisted → Members.get? schema key = some value → isHoisted key value = false) →
    (key.startsWith "x-" → Members.get? schema key = none ∨ (Members.get? parameter key).isSome) →
    (key = "x-example" → Members.get? parameter "example" = none) →
    (key = "description" → isPresentText (Members.get? parameter key) ∨ isPresentText (Members.get? schema key) = false) →
    Members.get? flat key = Members.get? parameter key

/-- A parameter that takes over what its schema offers. -/
def flat (location : Option Location) (schema parameter : Members Value) : Members Value :=
  finished location (stripped (hoist schema parameter))

/-- The keys that a parameter has for itself, whatever its schema says. -/
def own : List String :=
  ["name", "in", "required", "collectionFormat"] ++ dropped

theorem offered?_of_own (member : key ∈ own) : offered? schema parameter key = none := by
  have each : ∀ key ∈ own, key ∉ hoisted ∧ key.startsWith "x-" = false ∧ key ≠ "description" := by decide +kernel
  obtain ⟨other, plain, apart⟩ := each key member
  simp [offered?, other, plain, apart]

/-- Nothing is offered that the schema does not have, and nothing but a constraint that the parameter has itself. -/
theorem offered?_eq_none
    (constraint : ∀ value, key ∈ hoisted → Members.get? schema key = some value → isHoisted key value = false)
    (extension : key.startsWith "x-" → Members.get? schema key = none ∨ (Members.get? parameter key).isSome)
    (described : key = "description" → isPresentText (Members.get? parameter key) ∨
      isPresentText (Members.get? schema key) = false) : offered? schema parameter key = none := by
  have none_of_some (test : Value → Bool) (fails : ∀ value, Members.get? schema key = some value → test value = false) :
      (Members.get? schema key).filter test = none := by
    cases seen : Members.get? schema key with
    | none => rfl
    | some value => rw [Option.filter_some, fails value seen, if_neg Bool.false_ne_true]
  unfold offered?
  split
  next keyword => exact none_of_some _ fun value => constraint value keyword
  next =>
    split
    next isExtension => rcases extension isExtension with absent | present <;> simp [Members.has, *]
    next =>
      split
      next missing =>
        apply none_of_some
        intro value seen
        rcases described missing.1 with present | empty
        · rw [missing.2] at present
          cases present
        · rw [← seen, empty]
      next => rfl

/-- Key by key, what is offered goes before what is there. -/
theorem get?_flat (location : Option Location) (described : Formed (.obj schema)) (formed : Formed (.obj parameter))
    (key : String) (stays : key ∉ dropped) (other : key ≠ "collectionFormat") :
    Members.get? (flat location schema parameter) key =
      if key = "x-example" then
        (Members.get? parameter "example").or ((offered? schema parameter key).or (Members.get? parameter key))
      else (offered? schema parameter key).or (Members.get? parameter key) := by
  have whole : Formed (.obj (hoist schema parameter)) := hoist_refers described formed
  simp only [dropped, List.mem_cons, List.not_mem_nil, or_false, not_or] at stays
  obtain ⟨one, two, three, four, five⟩ := stays
  rw [flat, get?_finished (stripped_refers whole) other, if_neg (by simp [four, five])]
  split
  next same =>
    subst same
    have absent : offered? schema parameter "example" = none := offered?_of_own (by decide)
    rw [get?_stripped_shown whole.distinct, get?_hoist, get?_hoist, absent, Option.none_or]
  next apart => rw [get?_stripped whole.distinct apart, if_neg (by simp [one, two, three]), get?_hoist]

/-- A keyword is none of the keys that a parameter is known by. -/
theorem apart_of_hoisted (keyword : key ∈ hoisted) : key ∉ dropped ∧ key ≠ "collectionFormat" ∧ key ≠ "x-example" := by
  have each : ∀ key ∈ hoisted, key ∉ dropped ∧ key ≠ "collectionFormat" ∧ key ≠ "x-example" := by decide
  exact each key keyword

/-- An extension is no keyword. -/
theorem apart_of_extension (extension : key.startsWith "x-") : key ∉ dropped ∧ key ≠ "collectionFormat" ∧ key ∉ hoisted := by
  have plain : ∀ other ∈ "collectionFormat" :: dropped, other.startsWith "x-" = false := by decide +kernel
  have apart : ∀ other ∈ "collectionFormat" :: dropped, key ≠ other := by
    rintro _ member rfl
    rw [plain _ member] at extension
    cases extension
  refine ⟨fun member => ?_, apart _ List.mem_cons_self, fun keyword => ?_⟩
  · exact apart _ (List.mem_cons_of_mem _ member) rfl
  · rw [not_extension_of_hoisted keyword] at extension
    cases extension

theorem flat_flattened (described : Formed (.obj schema)) (formed : Formed (.obj parameter)) :
    Flattened schema parameter (flat (location? parameter) schema parameter) := by
  have whole : Formed (.obj (hoist schema parameter)) := hoist_refers described formed
  have look := get?_flat (location? parameter) described formed
  -- the style is looked at after the schema has been taken over, which leaves it alone
  have untouched : ∀ name ∈ ["style", "explode", "collectionFormat"],
      Members.get? (stripped (hoist schema parameter)) name = Members.get? parameter name := by
    have each : ∀ name ∈ ["style", "explode", "collectionFormat"], name ≠ "x-example" ∧
        ¬ (name = "schema" ∨ name = "allowReserved" ∨ name = "example") ∧ name ∈ own := by decide
    intro name member
    obtain ⟨hidden, stays, alone⟩ := each name member
    rw [get?_stripped whole.distinct hidden, if_neg stays, get?_hoist, offered?_of_own alone, Option.none_or]
  refine ⟨?_, ?_, ?_, ?_, ?_, finished_collected (stripped_refers whole) untouched, ?_⟩
  · intro key value keyword seen taken
    obtain ⟨stays, other, apart⟩ := apart_of_hoisted keyword
    rw [look key stays other, if_neg apart, offered?, if_pos keyword, seen, Option.filter_some, if_pos taken, Option.some_or]
  · intro key value extension seen absent hidden
    obtain ⟨stays, other, apart⟩ := apart_of_extension extension
    have offers : offered? schema parameter key = some value := by
      simp [offered?, apart, extension, Members.has, absent, seen]
    rw [look key stays other, offers]
    split
    next same => rw [hidden same]; rfl
    next => rfl
  · intro value seen
    rw [look "x-example" (by decide) (by decide), if_pos rfl, seen, Option.some_or]
  · intro missing present
    rw [look "description" (by decide) (by decide), if_neg (by decide), offered?, if_neg (by decide),
      if_neg (by decide +kernel), if_pos ⟨rfl, missing⟩]
    cases seen : Members.get? schema "description" with
    | none => rw [seen] at present; cases present
    | some held => rw [Option.filter_some, if_pos (seen ▸ present), Option.some_or]
  · intro key member
    obtain ⟨other, apart⟩ : key ≠ "collectionFormat" ∧ key ≠ "x-example" := by
      have each : ∀ key ∈ dropped, key ≠ "collectionFormat" ∧ key ≠ "x-example" := by decide
      exact each key member
    rw [flat, get?_finished (stripped_refers whole) other, get?_stripped whole.distinct apart]
    simp only [dropped, List.mem_cons, List.not_mem_nil, or_false] at member
    rcases member with rfl | rfl | rfl | rfl | rfl <;> rfl
  · intro key stays other constraint extension shown described
    rw [look key stays other, offered?_eq_none constraint extension described, Option.none_or]
    split
    next same => rw [shown same, Option.none_or]
    next => rfl

/-- The members of a parameter's schema, which is looked up in one step. No schema and one that is no object
have none. -/
def Describes (resolver : Resolver) (root : Value) (parameter schema : Members Value) : Prop :=
  (Members.get? parameter "schema" = none ∧ schema = []) ∨
    ∃ node target, Members.get? parameter "schema" = some node ∧ resolver.resolve root node = .ok target ∧
      schema = target.members?.getD []

theorem Describes.formed (describes : Describes resolver root parameter schema) (formed : Formed (.obj parameter))
    (leads : resolver.Leads root (atReference fun _ => True)) : Formed (.obj schema) := by
  rcases describes with ⟨_, rfl⟩ | ⟨node, target, seen, found, rfl⟩
  · exact sound_empty
  · have declared := (Sound.get? formed seen).resolve leads found
    cases target with
    | obj members => exact declared
    | _ => exact sound_empty

/-- With its schema at hand, every parameter but a body can be made flat. -/
theorem rewrite_of_describes (other : Members.get? parameter "in" ≠ some (.str "body"))
    (describes : Describes resolver root parameter schema) :
    rewrite resolver root parameter = .ok (flat (location? parameter) schema parameter) := by
  refine rewrite_eq_ok.mpr (Or.inr ⟨mt location?_eq_body_iff.mp other, stripped (hoist schema parameter), ?_, rfl⟩)
  rcases describes with ⟨absent, rfl⟩ | ⟨node, target, seen, found, rfl⟩
  · exact flatten_eq_ok.mpr (Or.inl ⟨absent, by rw [hoist_nil]⟩)
  · exact flatten_eq_ok.mpr (Or.inr ⟨node, target, seen, found, by rw [hoistFrom_eq]⟩)

/-- All that has to be looked up for a parameter is there: what it refers to and, unless that is a body, its schema. -/
def Legible (resolver : Resolver) (root node : Value) : Prop :=
  ∃ target, resolver.resolve root node = .ok target ∧ ∀ parameter, target = .obj parameter →
    Members.get? parameter "in" ≠ some (.str "body") → ∃ schema, Describes resolver root parameter schema

theorem rewriteNode_succeeds_iff {node : Value} :
    (∃ result, rewriteNode resolver root node = .ok result) ↔ Legible resolver root node := by
  constructor
  · rintro ⟨result, made⟩
    obtain ⟨target, found, outcome⟩ := rewriteNode_eq_ok.mp made
    refine ⟨target, found, ?_⟩
    rintro parameter rfl other
    rcases outcome with ⟨scalar, _⟩ | ⟨_, rewritten, same, changed, _⟩
    · cases scalar
    cases same
    rcases rewrite_eq_ok.mp changed with ⟨body, _⟩ | ⟨_, flattened, made, _⟩
    · exact absurd (location?_eq_body_iff.mp body) other
    · rcases flatten_eq_ok.mp made with ⟨absent, _⟩ | ⟨held, described, seen, led, _⟩
      · exact ⟨[], Or.inl ⟨absent, rfl⟩⟩
      · exact ⟨_, Or.inr ⟨held, described, seen, led, rfl⟩⟩
  · rintro ⟨target, found, legible⟩
    cases target with
    | obj parameter =>
      by_cases body : Members.get? parameter "in" = some (.str "body")
      · exact ⟨_, rewriteNode_of_rewrite found (rewrite_of_body body)⟩
      · obtain ⟨schema, describes⟩ := legible parameter rfl body
        exact ⟨_, rewriteNode_of_rewrite found (rewrite_of_describes body describes)⟩
    | _ => exact ⟨_, rewriteNode_eq_ok.mpr ⟨_, found, Or.inl ⟨rfl, rfl⟩⟩⟩

theorem rewriteAll_succeeds_iff (listed : Members.get? owner "parameters" = some (.arr nodes)) :
    (∃ result, rewriteAll resolver root owner = .ok result) ↔ ∀ node ∈ nodes, Legible resolver root node := by
  constructor
  · rintro ⟨result, made⟩ node member
    obtain ⟨results, each, _⟩ := rewriteAll_of_listed listed made
    obtain ⟨index, inside⟩ := List.getElem?_of_mem member
    obtain ⟨changed, _, made⟩ := getElem?_of_forall₂ each inside
    exact rewriteNode_succeeds_iff.mp ⟨changed, made⟩
  · intro legible
    obtain ⟨results, each⟩ := exists_forall₂ fun node member => rewriteNode_succeeds_iff.mpr (legible node member)
    exact ⟨_, rewriteAll_eq_ok.mpr (Or.inr ⟨nodes, results, listed, each, rfl⟩)⟩

/-- Parameters are made flat exactly when all that they refer to is there. Each stays in its place and becomes
one with its schema, key by key. -/
theorem rewriteAll_flattens (resolver : Resolver) (whole : root.WellFormed) (formed : (Value.obj owner).WellFormed)
    (listed : Members.get? owner "parameters" = some (.arr nodes)) :
    ((∃ result, rewriteAll resolver root owner = .ok result) ↔ ∀ node ∈ nodes, Legible resolver root node) ∧
    ∀ result, rewriteAll resolver root owner = .ok result → ∃ results, Members.get? result "parameters" = some (.arr results) ∧
      results.length = nodes.length ∧ ∀ (index : Nat) node parameter schema, nodes[index]? = some node →
        resolver.resolve root node = .ok (.obj parameter) → Members.get? parameter "in" ≠ some (.str "body") →
        Describes resolver root parameter schema →
          ∃ flat, results[index]? = some (.obj flat) ∧ Flattened schema parameter flat := by
  have leads := resolver.loads_formed.leads (formed_iff.mpr whole)
  refine ⟨rewriteAll_succeeds_iff listed, ?_⟩
  intro result made
  obtain ⟨results, each, rfl⟩ := rewriteAll_of_listed listed made
  refine ⟨results, Members.get?_insert_self .., each.length_eq.symm, ?_⟩
  intro index node parameter schema inside found other describes
  have held : Formed node := (Sound.get? (formed_iff.mpr formed) listed).item (List.mem_of_getElem? inside)
  have single : Formed (.obj parameter) := held.resolve leads found
  obtain ⟨changed, there, one⟩ := getElem?_of_forall₂ each inside
  cases one.symm.trans (rewriteNode_of_rewrite found (rewrite_of_describes other describes))
  exact ⟨_, there, flat_flattened (describes.formed single leads) single⟩

/-- Shelves of a library are named by a pipe between them. The schema has more to say about them. -/
def shelves : Members Value :=
  [("name", .str "shelves"), ("in", .str "query"), ("style", .str "pipeDelimited"), ("description", .str ""),
    ("example", .str "a|b"), ("x-rank", .str "first"), ("collectionFormat", .str "csv"),
    ("schema", .obj [("$ref", .str "#/components/schemas/Shelves")])]

def shelvesSchema : Members Value :=
  [("type", .str "array"), ("items", .obj [("type", .str "string")]), ("description", .str "Where to look"),
    ("x-rank", .str "last"), ("x-example", .str "c"), ("x-unit", .str "shelf"), ("additionalProperties", .bool true)]

def library : Value :=
  .obj [("components", .obj [("parameters", .obj [("Shelves", .obj shelves)]),
    ("schemas", .obj [("Shelves", .obj shelvesSchema)])])]

def search : Members Value :=
  [("parameters", .arr [.obj [("in", .str "body"), ("name", .str "body")],
    .obj [("$ref", .str "#/components/parameters/Shelves")]])]

/-- The shelves come out flat: one word says that they are divided by pipes, the description and the unit are the
schema's, and the rank and the example are their own. -/
theorem search_flattens : library.WellFormed ∧ (Value.obj search).WellFormed ∧
    ∃ result results flat, rewriteAll ⟨none, Files.none⟩ library search = .ok result ∧
      Members.get? result "parameters" = some (.arr results) ∧ results[1]? = some (.obj flat) ∧
      Flattened shelvesSchema shelves flat ∧ Members.get? flat "collectionFormat" = some (.str "pipes") ∧
      Members.get? flat "x-unit" = some (.str "shelf") ∧ Members.get? flat "x-example" = some (.str "a|b") ∧
      Members.get? flat "description" = some (.str "Where to look") := by
  have whole : library.WellFormed := by decide
  have formed : (Value.obj search).WellFormed := by decide
  have describes : Describes ⟨none, Files.none⟩ library shelves shelvesSchema :=
    Or.inr ⟨_, .obj shelvesSchema, rfl, by decide +kernel, rfl⟩
  have found : Resolver.resolve ⟨none, Files.none⟩ library (.obj [("$ref", .str "#/components/parameters/Shelves")]) =
      .ok (.obj shelves) := by decide +kernel
  obtain ⟨succeeds, each⟩ := rewriteAll_flattens ⟨none, Files.none⟩ whole formed rfl
  obtain ⟨result, made⟩ : ∃ result, rewriteAll ⟨none, Files.none⟩ library search = .ok result := by
    apply succeeds.mpr
    intro node member
    rcases List.mem_cons.mp member with rfl | member
    · exact ⟨_, rfl, by rintro _ ⟨⟩ other; exact absurd rfl other⟩
    · rw [List.mem_singleton.mp member]
      exact ⟨_, found, by rintro _ ⟨⟩ _; exact ⟨_, describes⟩⟩
  obtain ⟨results, listed, _, places⟩ := each result made
  obtain ⟨flat, there, flattened⟩ := places 1 _ shelves shelvesSchema rfl found (by decide) describes
  have isArray : Members.get? flat "type" = some (.str "array") := flattened.constraint "type" _ (by decide) rfl rfl
  refine ⟨whole, formed, result, results, flat, made, listed, there, flattened, ?_, ?_, ?_, ?_⟩
  · exact flattened.collected.known .pipeDelimited (by rw [textAt?, isArray]; rfl) rfl
  · exact flattened.extension "x-unit" _ (by decide +kernel) rfl rfl (fun _ => by contradiction)
  · exact flattened.shown _ rfl
  · exact flattened.described rfl rfl

end Parameter
end ApiDialect
