import ApiDialect.Proofs.BodyParameters
import ApiDialect.Proofs.ComponentReferences
import ApiDialect.Proofs.Interchange
import ApiDialect.Proofs.Untagged

/-! What becomes of the write-only properties of a request. A schema that stands in the request itself
keeps them. A shared schema is rewritten once, as that of a response, so a request that refers to it
finds them gone. -/

namespace ApiDialect
open Rewriting Value Discriminator

namespace Conversion
namespace Setting
open RequestBody RequestBody.Setting
variable {setting : Setting} {document before walked operation : Members Value} {path : String} {method : Method}

/-- The document as it stands when a path is visited: the paths before it have been converted. -/
def standing (setting : Setting) (document : Members Value) (path : String) : Except Error (Members Value) :=
  ((((pathsOf document).names.takeWhile (· ≠ path)).foldlM setting.path (setting.opened document)).run.run .empty).1

/-- A path has an operation under a method when it is visited. References are followed in the document
as it stands then. -/
structure Reached (setting : Setting) (document : Members Value) (path : String) (method : Method)
    (before operation : Members Value) : Prop where
  standing : setting.standing document path = .ok before
  operation : ∃ node item found, Members.get? (pathsOf document) path = some node ∧
    setting.resolver.resolve (.obj before) node = .ok (.obj item) ∧ Members.get? item method.key = some found ∧
    setting.resolver.resolve (.obj before) found = .ok (.obj operation)

/-- An operation, in the document it was first reached in, that a path's method stems from. A path or a
method that refers to what has been converted already shares the operation that was converted there. -/
inductive Stems (setting : Setting) (document : Members Value) :
    String → Method → Members Value → Members Value → Prop where
  | reached {path : String} {method : Method} {before operation : Members Value}
      (reached : setting.Reached document path method before operation) :
      Stems setting document path method before operation
  | shared {path other : String} {method source : Method} {before operation item root origin : Members Value}
      (reached : setting.Reached document path method before operation)
      (earlier : other ∈ (pathsOf document).names.takeWhile (· ≠ path))
      (converted : Members.get? (pathsOf before) other = some (.obj item))
      (same : Members.get? item source.key = some (.obj operation))
      (stems : Stems setting document other source root origin) : Stems setting document path method root origin

theorem pathsOf_opened_eq (distinct : Members.Distinct document) : pathsOf (setting.opened document) = pathsOf document := by
  unfold pathsOf
  rw [get?_opened distinct (by decide), if_neg (by decide), if_neg (by decide)]

/-- The loop ends in the same way whatever was queued before it. -/
theorem paths_agree_self {todo : List String} (formed : Formed (.obj document)) :
    Agrees (fun _ => True) (todo.foldlM setting.path document) (todo.foldlM setting.path document) :=
  paths_agree textual_true setting.resolver.loads_formed (fun _ _ _ => rfl) formed

theorem standing_returns (standing : setting.standing document path = .ok before) :
    Returns (((pathsOf document).names.takeWhile (· ≠ path)).foldlM setting.path (setting.opened document)) before := by
  unfold Setting.standing at standing
  exact ⟨.empty, _, Prod.ext standing rfl⟩

/-- The names up to a path, the path, and the rest. -/
theorem exists_takeWhile {names : List String} (member : path ∈ names) :
    ∃ later, names = names.takeWhile (· ≠ path) ++ path :: later := by
  induction names with
  | nil => cases member
  | cons name rest ih =>
    by_cases same : name = path
    · subst same
      exact ⟨rest, by simp⟩
    · obtain ⟨later, parts⟩ := ih ((List.mem_cons.mp member).resolve_left fun here => same here.symm)
      refine ⟨later, ?_⟩
      rw [List.takeWhile_cons_of_pos (by simpa using same), List.cons_append, ← parts]

/-- An operation that is reached is converted, and the outcome stays where it is put. -/
theorem Reached.converted (formed : Formed (.obj document))
    (ran : Returns ((pathsOf (setting.opened document)).names.foldlM setting.path (setting.opened document)) walked)
    (reached : setting.Reached document path method before operation) :
    ∃ item converted, Members.get? (pathsOf walked) path = some (.obj item) ∧
      Members.get? item method.key = some (.obj converted) ∧
      Returns (setting.operation (.obj before) operation) converted ∧
      Formed (.obj before) ∧ Formed (.obj operation) := by
  obtain ⟨standing, node, item, found, start, leadsToItem, held, leadsToOperation⟩ := reached
  have started : Formed (.obj (setting.opened document)) := opened_refers formed
  rw [pathsOf_opened_eq formed.distinct] at ran
  obtain ⟨later, parts⟩ := exists_takeWhile (Members.mem_names_of_get? start)
  have distinct : (pathsOf document).names.Nodup := (pathsOf_refers formed).distinct
  rw [parts] at ran distinct
  rw [← pathsOf_opened_eq formed.distinct] at start
  obtain ⟨state, after, visited⟩ := paths_visited distinct start ran
  obtain rfl := (paths_agree_self started).returns_unique visited.ran (standing_returns standing)
  have sound : Formed (.obj state) := paths_formed started visited.ran
  have leads := setting.resolver.loads_formed.leads sound
  obtain ⟨target, resolved, outcome⟩ := pathItem_returns visited.made
  cases resolved.symm.trans leadsToItem
  rcases outcome with ⟨scalar, _⟩ | ⟨_, listed, methods, same, made, all, rfl⟩
  · cases scalar
  cases same
  have inner : Formed (.obj item) := Sound.resolve (Sound.get? (pathsOf_refers started) start) leads resolved
  obtain ⟨turned, _⟩ := methods_turned Method.nodup_all all
  rcases turned method (Method.mem_all method) with ⟨absent, _⟩ | ⟨node, result, here, run, stop⟩
  · rw [Parameter.get?_rewriteAll made (Method.key_ne_parameters method), held] at absent
    cases absent
  rw [Parameter.get?_rewriteAll made (Method.key_ne_parameters method), held] at here
  cases here
  obtain ⟨target, led, ⟨scalar, _⟩ | ⟨_, converted, same, changed, rfl⟩⟩ := operationNode_returns run
  · cases led.symm.trans leadsToOperation
    cases scalar
  · cases led.symm.trans leadsToOperation
    cases same
    exact ⟨methods, converted, visited.stop, stop, changed, sound, Sound.resolve (Sound.get? inner held) leads led⟩

/-- A path that was visited before has got its item for good. -/
theorem standing_item {other : String} (formed : Formed (.obj document))
    (ran : Returns ((pathsOf (setting.opened document)).names.foldlM setting.path (setting.opened document)) walked)
    (standing : setting.standing document path = .ok before) (member : path ∈ (pathsOf document).names)
    (earlier : other ∈ (pathsOf document).names.takeWhile (· ≠ path)) :
    Members.get? (pathsOf walked) other = Members.get? (pathsOf before) other := by
  rw [pathsOf_opened_eq formed.distinct] at ran
  obtain ⟨later, parts⟩ := exists_takeWhile member
  have distinct : (pathsOf document).names.Nodup := (pathsOf_refers formed).distinct
  rw [parts] at ran distinct
  rw [List.foldlM_append] at ran
  obtain ⟨state, first, last⟩ := ran.bind
  obtain rfl := (paths_agree_self (opened_refers formed)).returns_unique first (standing_returns standing)
  apply (paths_framed last).items
  exact fun again => (List.nodup_append.mp distinct).2.2 other earlier other again rfl

/-- The schema of the body that an operation stems from is what the converted operation sends. -/
theorem stems_sends {schema : Value} (formed : Formed (.obj document))
    (ran : Returns ((pathsOf (setting.opened document)).names.foldlM setting.path (setting.opened document)) walked)
    (stems : setting.Stems document path method before operation)
    (asks : Asks setting.resolver (.obj before) operation schema) (inside : schema.isExternalReference = false) :
    ∃ item converted rewritten, Members.get? (pathsOf walked) path = some (.obj item) ∧
      Members.get? item method.key = some (.obj converted) ∧
      Formed schema ∧ Returns (Schema.rewrite setting.limit .request schema) rewritten ∧ Sends converted rewritten := by
  have found (root : Value) : setting.resolver.inlineExternal root schema = .ok schema := by
    rw [Resolver.inlineExternal, inside, if_neg Bool.false_ne_true]
  induction stems with
  | reached reached =>
    obtain ⟨item, converted, stop, held, made, sound, inner⟩ := reached.converted formed ran
    have leads := setting.resolver.loads_formed.leads sound
    obtain ⟨rewritten, changed, sends⟩ := operation_sends inner leads asks.carries (found _) made
    exact ⟨item, converted, rewritten, stop, held, carries_formed inner leads asks.carries, changed, sends⟩
  | shared reached earlier converted same _ ih =>
    obtain ⟨_, _, rewritten, stop, held, sound, changed, sends⟩ := ih asks
    obtain ⟨_, _, _, start, _⟩ := reached.operation
    have settled := (standing_item formed ran reached.standing (Members.mem_names_of_get? start) earlier).trans converted
    cases stop.symm.trans settled
    cases same.symm.trans held
    -- What was converted before is of the older dialect, so there is no body left to be replaced.
    have bodiless := ((paths_older (opened_refers formed) ran settled).operations _ _ same).bodiless
    obtain ⟨item, after, stop, held, made, _, inner⟩ := reached.converted formed ran
    exact ⟨item, after, rewritten, stop, held, sound, changed, operation_sends_again inner sends bodiless made⟩

/-- A schema or a part of one at the end of a conversion, when references have been put right. -/
def readdressedSchema (relocated : Bool) (schema : Value) : Value :=
  if relocated then Relocation.references schema else schema

variable {relocated : Bool} {schema rewritten : Value} {laid items item : Members Value} {tags : List Tag} {final : Value}

theorem sends_readdressed (sends : Sends operation schema) :
    Sends (readdressed relocated operation) (readdressedSchema relocated schema) := by
  cases relocated with
  | false => exact sends
  | true => exact sends.references

theorem declares_readdressed {name : String} (declares : Schema.Declares schema name) :
    Schema.Declares (readdressedSchema relocated schema) name := by
  cases relocated with
  | false => exact declares
  | true => exact declares.references

/-- An operation is where it was, unless a tag has been written over its path. -/
theorem sends_tagged (tagged : Tagged tags (.obj (readdressed relocated laid)) final)
    (paths : Members.get? laid "paths" = some (.obj items)) (stop : Members.get? items path = some (.obj item))
    (held : Members.get? item method.key = some (.obj operation)) (sends : Sends operation schema)
    (stays : ∀ text, final.walk? ["paths", path] ≠ some (.str text)) :
    ∃ after last, final.walk? ["paths", path, method.key] = some (.obj after) ∧ Sends after last ∧
      Tagged tags (readdressedSchema relocated schema) last := by
  obtain ⟨listed, one, whole⟩ := tagged.member (get?_readdressed_obj paths) (by decide)
  obtain ⟨listed, rfl⟩ := whole.obj
  obtain ⟨entry, two, inner | ⟨_, text, rfl⟩⟩ := whole.get? (get?_readdressed_obj stop)
  · obtain ⟨entry, rfl⟩ := inner.obj
    obtain ⟨after, three, rest⟩ := inner.member (get?_readdressed_obj held) (by cases method <;> decide)
    obtain ⟨after, rfl⟩ := rest.obj
    obtain ⟨last, written, sends⟩ := (sends_readdressed sends).tagged rest
    refine ⟨after, last, ?_, sends, written⟩
    rw [walk?_of_get? one, walk?_of_get? (show (Value.obj listed).get? path = _ from two), walk?_of_get? three]
    rfl
  · refine absurd ?_ (stays text)
    rw [walk?_of_get? one, walk?_of_get? (show (Value.obj listed).get? path = _ from two)]
    rfl

/-- A schema that is shared under a name in a document of the newer dialect. -/
def sharedSchema? (document : Members Value) (name : String) : Option Value :=
  ((Members.get? document "components").bind (·.get? "schemas")).bind (·.get? name)

/-- A definition of a document of the older dialect. -/
def definition? (document : Value) (name : String) : Option Value :=
  (document.get? "definitions").bind (·.get? name)

/-- A shared schema, rewritten, is the definition of its name. -/
theorem definition_laid {shared : Value} {token : String} (formed : Formed (.obj document))
    (ran : Returns ((pathsOf (setting.opened document)).names.foldlM setting.path (setting.opened document)) walked)
    (moved : Returns (Relocation.components setting.limit walked) (laid, relocated))
    (found : sharedSchema? document token = some shared) :
    relocated = true ∧ Formed shared ∧ ∃ definitions rewritten, Members.get? laid "definitions" = some (.obj definitions) ∧
      Members.get? definitions token = some rewritten ∧ Returns (Schema.rewrite setting.limit .response shared) rewritten := by
  obtain ⟨schemas, listed, held⟩ := Option.bind_eq_some_iff.mp found
  obtain ⟨mapping, here, listed⟩ := Option.bind_eq_some_iff.mp listed
  obtain ⟨mapping, rfl⟩ := obj_of_get? listed
  obtain ⟨schemas, rfl⟩ := obj_of_get? held
  have visited : Formed (.obj walked) := paths_formed (opened_refers formed) ran
  have inner : Formed (.obj mapping) := Sound.get? formed here
  obtain ⟨rfl, places⟩ := Relocation.components_relocated visited.distinct
    ((get?_components_walked formed.distinct ran).trans here) inner.distinct moved
  obtain ⟨definitions, each, placed⟩ := places.definitions listed
  obtain ⟨rewritten, seen, made⟩ := Members.get?_of_forall₂ each held
  exact ⟨rfl, Sound.get? (Sound.get? inner listed) held, definitions, rewritten, placed, seen, made⟩

/-- A shared schema becomes a definition without its write-only properties. -/
theorem definition_loses {shared : Value} {token name : String} (formed : Formed (.obj document))
    (ran : Returns ((pathsOf (setting.opened document)).names.foldlM setting.path (setting.opened document)) walked)
    (moved : Returns (Relocation.components setting.limit walked) (laid, relocated))
    (tagged : Tagged tags (.obj (readdressed relocated laid)) final)
    (found : sharedSchema? document token = some shared) (writes : Schema.WritesOnly shared name) :
    relocated = true ∧ ∃ definition, definition? final token = some definition ∧
      (isMark name ∨ Schema.property? definition name = none) := by
  obtain ⟨rfl, sound, definitions, definition, placed, seen, made⟩ := definition_laid formed ran moved found
  cases shared with
  | obj shared =>
    have gone := Schema.rewrite_response sound writes made
    obtain ⟨_, _, filled, rfl, _⟩ := Schema.rewrite_stages sound made
    refine ⟨rfl, ?_⟩
    obtain ⟨definitions, one, whole⟩ := tagged.member (get?_readdressed_obj placed) (by decide)
    obtain ⟨definitions, rfl⟩ := whole.obj
    obtain ⟨last, two, rest⟩ := whole.get? (get?_readdressed_obj seen)
    refine ⟨last, by rw [definition?, one]; exact two, ?_⟩
    rcases rest with rest | ⟨_, text, rfl⟩
    · refine or_iff_not_imp_left.mpr fun plain => Schema.property?_tagged rest ?_ plain
      exact (Schema.property?_references (.obj (Schema.renameMarks filled)) name).trans (congrArg _ gone)
    · exact Or.inr rfl
  | _ => cases writes.isObject

/-- Unless a tag has been written over the path, the operation sends a schema. A schema that stood in
the request still has its write-only properties, without their mark. A reference to a shared schema has
become one to a definition, and the definition has them no longer, since shared schemas are rewritten
as those of responses. -/
theorem writeOnly_settles {converted : Converted} (formed : (Value.obj document).WellFormed)
    (made : setting.convert (.obj document) = .ok converted) (stems : setting.Stems document path method before operation)
    (asks : Asks setting.resolver (.obj before) operation schema) (name : String)
    (stays : ∀ text, converted.document.walk? ["paths", path] ≠ some (.str text)) :
    (schema.reference? = none → Schema.WritesOnly schema name →
      ∃ after last, converted.document.walk? ["paths", path, method.key] = some (.obj after) ∧ Sends after last ∧
        Schema.Declares last name) ∧
    ∀ token shared, '/' ∉ token.toList → schema.reference? = some (Reference.toComponent "schemas" token) →
      sharedSchema? document (Pointer.unescape token) = some shared → Schema.WritesOnly shared name →
      ∃ after last definition, converted.document.walk? ["paths", path, method.key] = some (.obj after) ∧
        Sends after last ∧ last.reference? = some ("#/definitions/" ++ token) ∧
        definition? converted.document (Pointer.unescape token) = some definition ∧
        (isMark name ∨ Schema.property? definition name = none) := by
  have sound : Formed (.obj document) := formed_iff.mpr formed
  obtain ⟨walked, laid, relocated, ran, moved, _, tagged⟩ := convert_tagged made
  have sent : schema.isExternalReference = false → ∃ rewritten after last, Formed schema ∧
      Returns (Schema.rewrite setting.limit .request schema) rewritten ∧
      converted.document.walk? ["paths", path, method.key] = some (.obj after) ∧ Sends after last ∧
      Tagged (setting.queued document) (readdressedSchema relocated rewritten) last := by
    intro inside
    obtain ⟨item, operation, rewritten, stop, held, inner, changed, sends⟩ := stems_sends sound ran stems asks inside
    have paths : Members.get? laid "paths" = some (.obj (pathsOf walked)) := by
      rw [Relocation.get?_components (paths_formed (opened_refers sound) ran) moved (by decide)]
      exact get?_paths_of_mem stop
    obtain ⟨after, last, seen, sends, written⟩ := sends_tagged tagged paths stop held sends stays
    exact ⟨rewritten, after, last, inner, changed, seen, sends, written⟩
  constructor
  · intro inline writes
    obtain ⟨rewritten, after, last, inner, changed, seen, sends, written⟩ := sent (by rw [isExternalReference, inline]; rfl)
    have declares := Schema.rewrite_request inner writes changed
    exact ⟨after, last, seen, sends, (declares_readdressed declares).tagged written⟩
  · intro token shared clean refers found writes
    obtain ⟨rfl, definition, defined, gone⟩ := definition_loses sound ran moved tagged found writes
    obtain ⟨rewritten, after, last, inner, changed, seen, sends, written⟩ := sent (by
      rw [isExternalReference, refers, Option.any_some, Reference.isLocal_toComponent]
      rfl)
    refine ⟨after, last, definition, seen, sends, ?_, defined, gone⟩
    rw [written.reference?, readdressedSchema, if_pos rfl, Relocation.reference?_references,
      Schema.rewrite_reference? inner changed, refers, Option.map_some, Relocation.reference_schemas clean]
    exact congrArg some (String.toList_inj.mp (by simp [String.toList_append]))

/-- An account has a password, which nobody is told. -/
def account : Value :=
  .obj [("type", .str "object"), ("properties", .obj [("name", .obj [("type", .str "string")]),
    ("password", .obj [("type", .str "string"), ("writeOnly", .bool true)])])]

def asking (schema : Value) : Members Value :=
  [("requestBody", .obj [("content", .obj [("application/json", .obj [("schema", schema)])])]), ("responses", .obj [])]

def sending (schema : Value) : Members Value :=
  [("parameters", .arr [.obj [("name", .str "body"), ("in", .str "body"), ("schema", schema)]]), ("responses", .obj []),
    ("consumes", .arr [.str "application/json"])]

/-- Accounts are made from a shared schema and changed with one of their own, under two names. -/
def signup : Members Value :=
  [("openapi", .str "3.0.0"),
    ("paths", .obj [
      ("/users", .obj [("post", .obj (asking (.obj [("$ref", .str "#/components/schemas/Account")]))),
        ("put", .obj (asking account))]),
      ("/members", .obj [("$ref", .str "#/paths/~1users")])]),
    ("components", .obj [("schemas", .obj [("Account", account)])])]

def keptAccount : Value :=
  .obj [("type", .str "object"), ("properties", .obj [("name", .obj [("type", .str "string")]),
    ("password", .obj [("type", .str "string")])])]

def lostAccount : Value :=
  .obj [("type", .str "object"), ("properties", .obj [("name", .obj [("type", .str "string")])])]

def convertedUsers (account : String) : Members Value :=
  [("post", .obj (sending (.obj [("$ref", .str account)]))), ("put", .obj (sending keptAccount))]

/-- The document between its two paths. -/
def halfSignup : Members Value :=
  [("swagger", .str "2.0"),
    ("paths", .obj [("/users", .obj (convertedUsers "#/components/schemas/Account")),
      ("/members", .obj [("$ref", .str "#/paths/~1users")])]),
    ("components", .obj [("schemas", .obj [("Account", account)])])]

def convertedSignup : Value :=
  .obj [("swagger", .str "2.0"),
    ("paths", .obj [("/users", .obj (convertedUsers "#/definitions/Account")),
      ("/members", .obj (convertedUsers "#/definitions/Account"))]),
    ("definitions", .obj [("Account", lostAccount)]), ("x-components", .obj [])]

theorem signup_converts : Setting.convert ⟨⟨none, Files.none⟩, 10⟩ (.obj signup) = .ok ⟨convertedSignup, []⟩ := by
  decide +kernel

theorem signup_posts : Stems ⟨⟨none, Files.none⟩, 10⟩ signup "/users" .post (opened ⟨⟨none, Files.none⟩, 10⟩ signup)
    (asking (.obj [("$ref", .str "#/components/schemas/Account")])) :=
  .reached ⟨rfl, _, _, _, rfl, rfl, rfl, rfl⟩

theorem signup_puts :
    Stems ⟨⟨none, Files.none⟩, 10⟩ signup "/users" .put (opened ⟨⟨none, Files.none⟩, 10⟩ signup) (asking account) :=
  .reached ⟨rfl, _, _, _, rfl, rfl, rfl, rfl⟩

theorem members_put :
    Stems ⟨⟨none, Files.none⟩, 10⟩ signup "/members" .put (opened ⟨⟨none, Files.none⟩, 10⟩ signup) (asking account) := by
  have reached : Reached ⟨⟨none, Files.none⟩, 10⟩ signup "/members" .put halfSignup (sending keptAccount) :=
    ⟨by decide +kernel, _, convertedUsers "#/components/schemas/Account", _, rfl, by decide +kernel, rfl, rfl⟩
  exact .shared reached (by decide) rfl rfl signup_puts

theorem account_writesOnly : Schema.WritesOnly account "password" := ⟨rfl, _, rfl, rfl⟩

theorem signup_asks : Asks ⟨none, Files.none⟩ (.obj (opened ⟨⟨none, Files.none⟩, 10⟩ signup))
    (asking (.obj [("$ref", .str "#/components/schemas/Account")])) (.obj [("$ref", .str "#/components/schemas/Account")]) :=
  ⟨_, _, _, "application/json", rfl, rfl, rfl, rfl, by decide +kernel, rfl⟩

theorem signup_settles :
    (∃ after last, convertedSignup.walk? ["paths", "/members", "put"] = some (.obj after) ∧ Sends after last ∧
      Schema.Declares last "password") ∧
    ∃ after last definition, convertedSignup.walk? ["paths", "/users", "post"] = some (.obj after) ∧ Sends after last ∧
      last.reference? = some "#/definitions/Account" ∧ definition? convertedSignup "Account" = some definition ∧
      (isMark "password" ∨ Schema.property? definition "password" = none) := by
  have formed : (Value.obj signup).WellFormed := by decide
  have asks : Asks ⟨none, Files.none⟩ (.obj (opened ⟨⟨none, Files.none⟩, 10⟩ signup)) (asking account) account :=
    ⟨_, _, _, "application/json", rfl, rfl, rfl, rfl, by decide +kernel, rfl⟩
  constructor
  · refine (writeOnly_settles formed signup_converts members_put asks "password" ?_).1 rfl account_writesOnly
    rintro _ ⟨⟩
  · refine (writeOnly_settles formed signup_converts signup_posts signup_asks "password" ?_).2 "Account" account
      (by decide) rfl (by decide +kernel) account_writesOnly
    rintro _ ⟨⟩

/-- Whoever makes an account cannot say its password. -/
theorem signup_loses : (Value.obj signup).WellFormed ∧
    Setting.convert ⟨⟨none, Files.none⟩, 10⟩ (.obj signup) = .ok ⟨convertedSignup, []⟩ ∧
    Stems ⟨⟨none, Files.none⟩, 10⟩ signup "/users" .post (opened ⟨⟨none, Files.none⟩, 10⟩ signup)
      (asking (.obj [("$ref", .str "#/components/schemas/Account")])) ∧
    Asks ⟨none, Files.none⟩ (.obj (opened ⟨⟨none, Files.none⟩, 10⟩ signup))
      (asking (.obj [("$ref", .str "#/components/schemas/Account")])) (.obj [("$ref", .str "#/components/schemas/Account")]) ∧
    sharedSchema? signup "Account" = some account ∧ Schema.WritesOnly account "password" ∧
    convertedSignup.walk? ["paths", "/users", "post", "parameters", "0", "schema"] =
      some (.obj [("$ref", .str "#/definitions/Account")]) ∧
    definition? convertedSignup "Account" = some lostAccount ∧ ¬ Schema.Declares lostAccount "password" := by
  refine ⟨by decide, signup_converts, signup_posts, signup_asks, rfl, account_writesOnly, by decide +kernel, rfl, ?_⟩
  rintro ⟨property, found, _⟩
  cases found

end Setting
end Conversion
end ApiDialect
