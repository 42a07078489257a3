import ApiDialect.Proofs.Alike
import ApiDialect.Proofs.SchemaNodes

/-! What only requests have leaves no trace in responses. A schema is rewritten for responses as if its
write-only properties had never been there; for requests every object keeps the properties it has. -/

namespace ApiDialect
open Rewriting Value

namespace Rewriting
variable {α β : Type}

theorem bind_congr_of_returns {first : Rewriting α} {next other : α → Rewriting β}
    (same : ∀ value, Returns first value → next value = other value) : first >>= next = first >>= other := by
  apply ExceptT.ext
  apply StateT.ext
  intro before
  rw [run_bind, run_bind]
  rcases seen : first.run.run before with ⟨error | value, after⟩
  · rfl
  · dsimp only
    rw [same value ⟨before, after, seen⟩]

end Rewriting

namespace Schema

/-- What the rewriting takes the value of a member for. -/
inductive Role where
  | schema
  | parts
  | properties
  | other
  deriving DecidableEq

/-- What a member that depends on the type of its schema is taken for. -/
def Role.ofContent (type : Option String) (name : String) : Role :=
  if type = some "object" ∧ name = "properties" then .properties
  else if type = some "array" ∧ name = "items" then .schema
  else .other

def Role.ofMember (type : Option String) (name : String) : Role :=
  if name = "allOf" then .parts else Role.ofContent type name

mutual
/-- Without the write-only properties of any object that can be reached. -/
def strip : Role → Value → Value
  | .schema, .obj members => .obj (stripMembers (textAt? members "type") members)
  | .parts, .arr items => .arr (stripItems items)
  | .properties, .obj properties => .obj (stripProperties properties)
  | _, value => value
termination_by structural _ value => value

def stripMembers (type : Option String) : List (String × Value) → List (String × Value)
  | [] => []
  | (name, value) :: rest => (name, strip (Role.ofMember type name) value) :: stripMembers type rest
termination_by structural members => members

def stripItems : List Value → List Value
  | [] => []
  | item :: rest => strip .schema item :: stripItems rest
termination_by structural items => items

def stripProperties : List (String × Value) → List (String × Value)
  | [] => []
  | (name, value) :: rest =>
    if isWriteOnly value then stripProperties rest else (name, strip .schema value) :: stripProperties rest
termination_by structural properties => properties
end

/-- The members of a schema whose parts have been stripped before. -/
def stripContent (type : Option String) (members : Members Value) : Members Value :=
  Members.mapValues (fun name => strip (Role.ofContent type name)) members

variable {limit levels : Nat} {direction : Direction} {path name : String} {type : Option String}
  {members properties : Members Value} {schema after : Value} {route : Route} {rewrite : String → Value → Rewriting Value}

theorem stripMembers_eq (type : Option String) (members : Members Value) :
    stripMembers type members = Members.mapValues (fun name => strip (Role.ofMember type name)) members := by
  induction members with
  | nil => rfl
  | cons entry rest ih =>
    rw [stripMembers, ih]
    rfl

theorem stripItems_eq (items : List Value) : stripItems items = items.map (strip .schema) := by
  induction items with
  | nil => rfl
  | cons item rest ih => rw [stripItems, ih, List.map_cons]

theorem stripProperties_eq (properties : Members Value) :
    stripProperties properties = (keepProperties .response properties).map fun entry => (entry.1, strip .schema entry.2) := by
  induction properties with
  | nil => rfl
  | cons entry rest ih =>
    unfold keepProperties at ih ⊢
    dsimp only at ih ⊢
    rw [stripProperties, ih, List.filter_cons]
    cases isWriteOnly entry.2 <;> rfl

theorem strip_other (value : Value) : strip .other value = value := by
  cases value <;> rfl

theorem Role.ofMember_of_ne (other : name ≠ "allOf") : Role.ofMember type name = Role.ofContent type name := by
  rw [Role.ofMember, if_neg other]

theorem Role.ofContent_of_notMem (other : name ∉ ["properties", "items"]) : Role.ofContent type name = .other := by
  simp only [List.mem_cons, List.not_mem_nil, or_false, not_or] at other
  simp [Role.ofContent, other]

theorem Role.ofContent_object (other : name ≠ "properties") : Role.ofContent (some "object") name = .other := by
  simp [Role.ofContent, other]

theorem Role.ofContent_array (other : name ≠ "items") : Role.ofContent (some "array") name = .other := by
  simp [Role.ofContent, other]

theorem Role.ofContent_of_ne (object : type ≠ some "object") (array : type ≠ some "array") (name : String) :
    Role.ofContent type name = .other := by
  rw [Role.ofContent, if_neg (fun both => object both.1), if_neg (fun both => array both.1)]

theorem get?_stripContent (other : name ∉ ["properties", "items"]) :
    Members.get? (stripContent type members) name = Members.get? members name := by
  rw [stripContent, Members.get?_mapValues, Role.ofContent_of_notMem other]
  cases Members.get? members name with
  | none => rfl
  | some value => rw [Option.map_some, strip_other]

theorem get?_stripMembers (type : Option String) (members : Members Value) (name : String) :
    Members.get? (stripMembers type members) name = (Members.get? members name).map (strip (Role.ofMember type name)) := by
  rw [stripMembers_eq, Members.get?_mapValues]

theorem get?_stripMembers_of_notMem (other : name ∉ ["allOf", "properties", "items"]) :
    Members.get? (stripMembers type members) name = Members.get? members name := by
  obtain ⟨apart, other⟩ := List.ne_and_not_mem_of_not_mem_cons other
  rw [get?_stripMembers, Role.ofMember_of_ne apart, Role.ofContent_of_notMem other]
  cases Members.get? members name with
  | none => rfl
  | some value => rw [Option.map_some, strip_other]

/-- A schema that is stripped is still write-only if it was. -/
theorem isWriteOnly_strip (value : Value) : isWriteOnly (strip .schema value) = isWriteOnly value := by
  cases value with
  | obj members => rw [strip, isWriteOnly, isWriteOnly, Value.get?, Value.get?, get?_stripMembers_of_notMem (by decide)]
  | _ => rfl

/-- What is stripped already has no write-only properties left. -/
theorem keepProperties_stripProperties (properties : Members Value) :
    keepProperties .response (stripProperties properties) = stripProperties properties := by
  rw [stripProperties_eq]
  apply List.filter_eq_self.mpr
  intro entry member
  obtain ⟨before, inside, rfl⟩ := List.mem_map.mp member
  dsimp only
  rw [isWriteOnly_strip]
  exact (List.mem_filter.mp inside).2

theorem parts_stripMembers (type : Option String) (members : Members Value) :
    parts (stripMembers type members) = (parts members).map (strip .schema) := by
  have seen := get?_stripMembers type members "allOf"
  cases found : Members.get? members "allOf" with
  | none =>
    rw [found] at seen
    simp only [parts, seen, found, Option.map_none, List.map_nil]
  | some held =>
    rw [found] at seen
    cases held with
    | arr items => rw [parts_of_listed found, parts_of_listed seen, stripItems_eq]
    | _ => simp only [parts, seen, found, Option.map_some, strip, Role.ofMember, if_true, List.map_nil]

theorem contentBranches_stripMembers (members : Members Value) :
    contentBranches .request (stripMembers (textAt? members "type") members) =
      (contentBranches .response members).map fun below => (below.1, strip .schema below.2) := by
  have typed : textAt? (stripMembers (textAt? members "type") members) "type" = textAt? members "type" := by
    rw [textAt?, get?_stripMembers_of_notMem (by decide), ← textAt?]
  unfold contentBranches
  rw [typed, get?_stripMembers, get?_stripMembers, Role.ofMember_of_ne (by decide), Role.ofMember_of_ne (by decide)]
  generalize textAt? members "type" = type
  split
  next =>
    cases Members.get? members "properties" with
    | none => rfl
    | some held =>
      cases held with
      | obj properties =>
        change (stripProperties properties).map _ = _
        rw [stripProperties_eq, List.map_map, List.map_map]
        rfl
      | _ => rfl
  next => cases Members.get? members "items" <;> rfl
  next => rfl

/-- Below a stripped node stands what responses have there, stripped. -/
theorem branches_stripMembers (members : Members Value) :
    branches .request (stripMembers (textAt? members "type") members) =
      (branches .response members).map fun below => (below.1, strip .schema below.2) := by
  rw [branches, branches, List.map_append, contentBranches_stripMembers, partBranches, parts_stripMembers, partBranches]
  congr 1
  rw [List.zipIdx_map, List.map_map, List.map_map]
  rfl

/-- Stripping takes away what responses do not have, and nothing else. -/
theorem reaches_strip_iff {node : Value} : Reaches .request (strip .schema schema) route node ↔
    ∃ before, Reaches .response schema route before ∧ node = strip .schema before := by
  induction route generalizing schema with
  | nil => simp only [reaches_nil_iff, exists_eq_left]
  | cons branch rest ih =>
    rw [reaches_cons_iff]
    cases schema with
    | obj members =>
      constructor
      · rintro ⟨_, child, same, stands, deeper⟩
        cases same
        rw [branches_stripMembers] at stands
        obtain ⟨⟨_, below⟩, inside, same⟩ := List.mem_map.mp stands
        cases same
        obtain ⟨before, found, stripped⟩ := ih.mp deeper
        exact ⟨before, .down inside found, stripped⟩
      · rintro ⟨before, reaches, rfl⟩
        obtain ⟨_, child, same, inside, deeper⟩ := reaches_cons_iff.mp reaches
        cases same
        refine ⟨_, strip .schema child, rfl, ?_, ih.mpr ⟨before, deeper, rfl⟩⟩
        rw [branches_stripMembers]
        exact List.mem_map.mpr ⟨(branch, child), inside, rfl⟩
    | _ =>
      constructor
      · rintro ⟨_, _, impossible, _⟩
        cases impossible
      · rintro ⟨_, reaches, _⟩
        obtain ⟨_, _, impossible, _⟩ := reaches_cons_iff.mp reaches
        cases impossible

theorem dropAlternatives_mapValues (change : String → Value → Value) (members : Members Value) :
    dropAlternatives (Members.mapValues change members) = Members.mapValues change (dropAlternatives members) := by
  have same (name : String) : Members.has (Members.mapValues change members) name = Members.has members name := by
    rw [Members.has, Members.get?_mapValues, Option.isSome_map, Members.has]
  simp only [dropAlternatives, same, Members.erase_mapValues, apply_ite (Members.mapValues change)]

theorem eachItem_map {change : Value → Value} {items : List Value}
    (same : ∀ item ∈ items, ∀ path, rewrite path (change item) = rewrite path item) (index : Nat) :
    eachItem rewrite path index (items.map change) = eachItem rewrite path index items := by
  induction items generalizing index with
  | nil => rfl
  | cons item rest ih =>
    obtain ⟨first, later⟩ := List.forall_mem_cons.mp same
    rw [List.map_cons, eachItem, eachItem, first, ih later]

theorem eachProperty_map {change : Value → Value}
    (same : ∀ entry ∈ properties, ∀ path, rewrite path (change entry.2) = rewrite path entry.2) :
    eachProperty rewrite path (properties.map fun entry => (entry.1, change entry.2)) = eachProperty rewrite path properties := by
  induction properties with
  | nil => rfl
  | cons entry rest ih =>
    obtain ⟨first, later⟩ := List.forall_mem_cons.mp same
    rw [List.map_cons, eachProperty, eachProperty, first, ih later]

/-- Where there is no list of parts, only what depends on the type is stripped. -/
theorem stripParts_of_bare (distinct : Members.Distinct members)
    (plain : ∀ items, Members.get? members "allOf" ≠ some (.arr items)) :
    Members.mapValues (fun name => strip (Role.ofMember type name)) members = stripContent type members := by
  apply Members.mapValues_congr
  intro name value member
  by_cases part : name = "allOf"
  · subst part
    have seen := distinct.get?_of_mem member
    rw [Role.ofMember, if_pos rfl, Role.ofContent_of_notMem (by decide), strip_other]
    cases value with
    | arr items => exact absurd seen (plain items)
    | _ => rfl
  · rw [Role.ofMember_of_ne part]

/-- The parts come out as they do from the schema itself; what depends on the type is still stripped. -/
theorem inParts_stripped (formed : Formed (.obj members))
    (same : ∀ path value, Formed value → rewrite path (strip .schema value) = rewrite path value) :
    inParts rewrite path (Members.mapValues (fun name => strip (Role.ofMember type name)) members) =
      stripContent type <$> inParts rewrite path members := by
  cases listed : (Members.get? members "allOf").bind items? with
  | none =>
    have plain : ∀ items, Members.get? members "allOf" ≠ some (.arr items) := by
      intro items seen
      rw [seen] at listed
      cases listed
    have left (stripped : Members Value) (same : Members.get? stripped "allOf" = Members.get? members "allOf") :
        inParts rewrite path stripped = pure stripped := by
      unfold inParts
      rw [same]
      split
      next items seen => exact absurd seen (plain items)
      next => rfl
    rw [stripParts_of_bare formed.distinct plain, left _ (get?_stripContent (by decide)), left _ rfl, map_pure]
  | some parts =>
    obtain ⟨held, seen, isArray⟩ := Option.bind_eq_some_iff.mp listed
    cases held <;> cases isArray
    have stripped : Members.get? (Members.mapValues (fun name => strip (Role.ofMember type name)) members) "allOf" =
        some (.arr (stripItems parts)) := by
      rw [Members.get?_mapValues, seen]
      rfl
    have each : ∀ part ∈ parts, ∀ path, rewrite path (strip .schema part) = rewrite path part := by
      intro part member path
      exact same path part ((formed.get? seen).item member)
    have inserted (results : List Value) :
        Members.insert (Members.mapValues (fun name => strip (Role.ofMember type name)) members) "allOf" (.arr results) =
          stripContent type (Members.insert members "allOf" (.arr results)) := by
      rw [stripContent, Members.insert_mapValues_congr formed.distinct fun name other => by rw [Role.ofMember_of_ne other],
        ← Members.insert_mapValues, Role.ofContent_of_notMem (by decide), strip_other]
    simp only [inParts, stripped, seen, stripItems_eq, eachItem_map each, inserted, map_bind, map_pure]

theorem collapseDiscriminator_stripContent (type : Option String) (members : Members Value) :
    collapseDiscriminator (stripContent type members) = stripContent type <$> collapseDiscriminator members := by
  have inserted (name : Value) : Members.insert (stripContent type members) "discriminator" name =
      stripContent type (Members.insert members "discriminator" name) := by
    rw [stripContent, stripContent, ← Members.insert_mapValues, Role.ofContent_of_notMem (by decide), strip_other]
  have erased : Members.erase (stripContent type members) "discriminator" =
      stripContent type (Members.erase members "discriminator") := Members.erase_mapValues _ members _
  unfold collapseDiscriminator
  rw [get?_stripContent (by decide)]
  split
  next discriminator seen =>
    simp only [erased, inserted]
    split <;> split <;> simp only [map_bind, map_pure]
  next => exact (map_pure _ _).symm

/-- Where every other member is left alone, a member that is given a value is as good as one that is not stripped. -/
theorem insert_stripContent (distinct : Members.Distinct members)
    (others : ∀ other, other ≠ name → Role.ofContent type other = .other) (value : Value) :
    Members.insert (stripContent type members) name value = Members.insert members name value := by
  have same : Members.insert (stripContent type members) name value =
      Members.insert (Members.mapValues (fun _ value => value) members) name value := by
    apply Members.insert_mapValues_congr distinct
    intro other apart
    funext value
    rw [others other apart, strip_other]
  exact same.trans (congrArg (Members.insert · name value) (List.map_id members))

theorem stripContent_of_get? (distinct : Members.Distinct members)
    (others : ∀ other, other ≠ name → Role.ofContent type other = .other)
    (bare : ∀ value, Members.get? members name = some value → strip (Role.ofContent type name) value = value) :
    stripContent type members = members := by
  have same : stripContent type members = Members.mapValues (fun _ value => value) members := by
    apply Members.mapValues_congr
    intro other value member
    by_cases here : other = name
    · subst here
      exact bare value (distinct.get?_of_mem member)
    · rw [others other here, strip_other]
  exact same.trans (List.map_id members)

theorem inContent_stripContent (distinct : Members.Distinct members) (typed : textAt? members "type" = type)
    (formed : ∀ name ∈ ["properties", "items"], ∀ value, Members.get? members name = some value → Formed value)
    (same : ∀ path value, Formed value → rewrite path (strip .schema value) = rewrite path value) :
    inContent rewrite .response path (stripContent type members) = inContent rewrite .response path members := by
  have kept : textAt? (stripContent type members) "type" = type := by
    rw [textAt?, get?_stripContent (by decide), ← textAt?, typed]
  unfold inContent
  rw [kept, typed]
  split
  next =>
    have inserted := insert_stripContent distinct fun _ => Role.ofContent_object
    cases listed : (Members.get? members "properties").bind members? with
    | none =>
      rw [stripContent_of_get? distinct fun _ => Role.ofContent_object]
      intro value seen
      rw [seen, Option.bind_some] at listed
      cases value <;> cases listed <;> rfl
    | some properties =>
      obtain ⟨held, seen, isMapping⟩ := Option.bind_eq_some_iff.mp listed
      cases held <;> cases isMapping
      have stripped : Members.get? (stripContent (some "object") members) "properties" =
          some (.obj (stripProperties properties)) := by
        rw [stripContent, Members.get?_mapValues, seen]
        rfl
      have each : ∀ entry ∈ keepProperties .response properties, ∀ path,
          rewrite path (strip .schema entry.2) = rewrite path entry.2 := by
        intro entry member path
        have whole : Formed (.obj properties) := formed "properties" (by decide) _ seen
        exact same path _ (Sound.entry whole (mem_of_mem_keepProperties member)).2
      simp only [stripped, seen, keepProperties_stripProperties, inserted]
      rw [stripProperties_eq, eachProperty_map each]
  next =>
    have inserted := insert_stripContent distinct fun _ => Role.ofContent_array
    cases seen : Members.get? members "items" with
    | none =>
      rw [stripContent_of_get? distinct fun _ => Role.ofContent_array]
      · simp only [seen]
      · intro value found
        rw [seen] at found
        cases found
    | some items =>
      have stripped : Members.get? (stripContent (some "array") members) "items" = some (strip .schema items) := by
        rw [stripContent, Members.get?_mapValues, seen]
        rfl
      simp only [stripped, same _ items (formed "items" (by decide) items seen), inserted]
  next object array =>
    rw [stripContent_of_get? distinct (fun other _ => Role.ofContent_of_ne object array other)]
    intro value seen
    rw [Role.ofContent_of_ne object array "type", strip_other]

/-- The induction is on the levels that are left. -/
theorem rewriteWithin_strip (limit levels : Nat) (path : String) (value : Value) (formed : Formed value) :
    rewriteWithin limit .response levels path (strip .schema value) = rewriteWithin limit .response levels path value := by
  induction levels generalizing path value with
  | zero => simp only [rewriteWithin]
  | succ levels ih =>
    cases value with
    | obj members =>
      rw [strip, stripMembers_eq]
      unfold rewriteWithin
      dsimp only
      -- What is still to be stripped is handed on from step to step, and the content is the last that has any of it.
      rw [dropAlternatives_mapValues, inParts_stripped (dropAlternatives_sound formed) ih]
      simp only [bind_map_left]
      apply bind_congr_of_returns
      intro parted parts
      have ready := prepared formed parts
      rw [collapseDiscriminator_stripContent]
      simp only [bind_map_left]
      apply bind_congr_of_returns
      intro whole collapsing
      obtain rfl := collapseDiscriminator_returns collapsing
      rw [inContent_stripContent ready.distinct _ _ ih]
      · rw [textAt?, ready.others _ (by decide), textAt?]
      · intro name content value seen
        have apart : ∀ name ∈ ["properties", "items"], name ∉ ["oneOf", "anyOf", "discriminator", "allOf"] := by decide
        rw [ready.others name (apart name content)] at seen
        exact formed.get? seen
    | _ => rfl

/-- The names of the properties of an object, in order. -/
def propertyNames (members : Members Value) : Option (List String) :=
  ((Members.get? members "properties").bind members?).map Members.names

/-- The way to a node takes at most its mark from it. -/
theorem Route.trim_obj (distinct : Members.Distinct members) (route : Route) :
    ∃ kept, route.trim (.obj members) = .obj kept ∧
      ∀ name, name ≠ "writeOnly" → Members.get? kept name = Members.get? members name := by
  unfold Route.trim
  split
  next branch _ =>
    cases branch with
    | property name =>
      refine ⟨Members.erase members "writeOnly", rfl, ?_⟩
      intro name other
      exact distinct.get?_erase_of_ne (Ne.symm other)
    | _ => exact ⟨members, rfl, fun _ _ => rfl⟩
  next => exact ⟨members, rfl, fun _ _ => rfl⟩

/-- Rewriting for requests keeps the properties that an object has. -/
theorem rewriteWithin_propertyNames (formed : Formed (.obj members)) (isObject : textAt? members "type" = some "object")
    (returned : Returns (rewriteWithin limit .request levels path (.obj members)) after) :
    ∃ kept, after = .obj kept ∧ propertyNames kept = propertyNames members := by
  rcases rewriteWithin_returns returned with ⟨impossible, _⟩ | ⟨below, _, parted, filled, _, same, parts, content, rfl⟩
  · cases impossible
  cases same
  refine ⟨renameMarks filled, rfl, ?_⟩
  have ready := prepared formed parts
  have before : propertyNames (collapsed parted) = propertyNames members := by
    rw [propertyNames, ready.others "properties" (by decide), propertyNames]
  have typed : textAt? (collapsed parted) "type" = some "object" := by
    rw [textAt?, ready.others "type" (by decide), ← textAt?, isObject]
  rw [propertyNames, get?_renameMarks (inContent_distinct ready.distinct content) (by decide), ← propertyNames, ← before]
  rcases inContent_returns content with rfl | ⟨properties, results, _, seen, each, rfl⟩ | ⟨_, _, isArray, _, _, rfl⟩
  · rfl
  · have names : Members.names results = Members.names properties := Members.names_of_forall₂ each
    rw [propertyNames, propertyNames, Members.get?_insert_self, seen]
    exact congrArg some names
  · exact absurd (typed.symm.trans isArray) (by decide)

/-- What is write-only makes no difference to responses, and requests lose none of their properties. Stripping takes no node away
that responses have, and leaves none that they do not. -/
theorem rewrite_traceless (formed : schema.WellFormed) (limit : Nat) :
    (∀ route node, Reaches .request (strip .schema schema) route node ↔
      ∃ before, Reaches .response schema route before ∧ node = strip .schema before) ∧
    (∀ before, (Schema.rewrite limit .response schema).run.run before =
      (Schema.rewrite limit .response (strip .schema schema)).run.run before) ∧
    (∀ other : Value, other.WellFormed → strip .schema other = strip .schema schema → ∀ before,
      (Schema.rewrite limit .response schema).run.run before = (Schema.rewrite limit .response other).run.run before) ∧
    ∀ after, Returns (Schema.rewrite limit .request schema) after → ∀ route members,
      Reaches .request schema route (.obj members) → textAt? members "type" = some "object" →
        ∃ kept, route.node? after = some (.obj kept) ∧ propertyNames kept = propertyNames members := by
  have same (value : Value) (formed : value.WellFormed) :
      Schema.rewrite limit .response (strip .schema value) = Schema.rewrite limit .response value :=
    rewriteWithin_strip limit (limit + 1) "#" value (formed_iff.mpr formed)
  refine ⟨fun route node => reaches_strip_iff, ?_, ?_, ?_⟩
  · intro before
    rw [same schema formed]
  · intro other whole alike before
    rw [← same schema formed, ← alike, same other whole]
  · intro after returned route members reaches isObject
    have whole : Formed schema := formed_iff.mpr formed
    have inner : Formed (.obj members) := reaches.sound whole
    obtain ⟨below, path, result, made, found⟩ := reaches.rewritten whole returned
    have sound : Formed result := rewriteWithin_refers textual_true.shallow made inner
    obtain ⟨rewritten, rfl, names⟩ := rewriteWithin_propertyNames inner isObject made
    obtain ⟨kept, trimmed, others⟩ := Route.trim_obj (Sound.distinct sound) route
    refine ⟨kept, found.trans (congrArg some trimmed), ?_⟩
    rw [propertyNames, others "properties" (by decide), ← propertyNames, names]

/-- An address whose pin is a secret. -/
def address : Members Value :=
  [("type", .str "object"), ("writeOnly", .bool false),
    ("properties", .obj [("pin", .obj [("writeOnly", .bool true)]), ("street", .obj [("nullable", .bool true)])])]

/-- An account with a password that goes deeper than everything else. -/
def account : Value :=
  .obj [("type", .str "object"),
    ("properties", .obj [
      ("password", .obj [("writeOnly", .bool true), ("allOf", .arr [.obj [("allOf", .arr [.null])]]),
        ("discriminator", .obj [("mapping", .obj [("weak", .null), ("strong", .str "Strong")])])]),
      ("address", .obj address),
      ("name", .obj [("oneOf", .arr [.null])])])]

/-- What others see of the account. -/
def publicAccount : Value :=
  .obj [("type", .str "object"),
    ("properties", .obj [
      ("address", .obj [("type", .str "object"), ("writeOnly", .bool false),
        ("properties", .obj [("street", .obj [("nullable", .bool true)])])]),
      ("name", .obj [("oneOf", .arr [.null])])])]

/-- The account as requests have it. -/
def requestedAccount : Value :=
  .obj [("type", .str "object"),
    ("properties", .obj [
      ("password", .obj [("allOf", .arr [.obj [("allOf", .arr [.null])]])]),
      ("address", .obj [("type", .str "object"),
        ("properties", .obj [("pin", .obj []), ("street", .obj [("x-nullable", .bool true)])])]),
      ("name", .obj [])])]

/-- The password is too deep for the limit of the responses and has mappings to queue, and they show
nothing of it. Requests still ask for the pin. -/
theorem account_traceless : account.WellFormed ∧
    (Schema.rewrite 2 .response account).run.run .empty = (Schema.rewrite 2 .response publicAccount).run.run .empty ∧
    Returns (Schema.rewrite 3 .request account) requestedAccount ∧
    ∃ kept, Route.node? [.property "address"] requestedAccount = some (.obj kept) ∧
      propertyNames kept = some ["pin", "street"] := by
  have formed : account.WellFormed := by decide
  have visible : strip .schema publicAccount = strip .schema account := by decide +kernel
  have returned : Returns (Schema.rewrite 3 .request account) requestedAccount :=
    ⟨.empty, ⟨[⟨"strong", "Strong"⟩], [.invalidMapping "weak"]⟩, rfl⟩
  have reaches : Reaches .request account [.property "address"] (.obj address) := by
    refine .down ?_ (.here _)
    decide +kernel
  refine ⟨formed, ?_, returned, ?_⟩
  · exact (rewrite_traceless formed 2).2.2.1 publicAccount (by decide) visible .empty
  · exact (rewrite_traceless formed 3).2.2.2 requestedAccount returned _ address reaches rfl

end Schema
end ApiDialect
