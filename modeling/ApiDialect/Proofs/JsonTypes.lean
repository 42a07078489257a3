import ApiDialect.Proofs.Addresses
import ApiDialect.Proofs.FoldedContents
import ApiDialect.Proofs.FormFields

/-! Which media types are JSON. They are told by their names: `application/json` itself and whatever has the suffix of JSON, with
blanks and parameters behind it. A request is taken as JSON by the first such key of its content, and the schema of a response is
that of the first such key without a wildcard. -/

namespace ApiDialect
open Rewriting Value

/-- An element with a property, and none before it has it. -/
def FirstOf {α : Type} (holds : α → Prop) (items : List α) (item : α) : Prop :=
  ∃ before behind, items = before ++ item :: behind ∧ holds item ∧ ∀ other ∈ before, ¬ holds other

theorem find?_eq_some_iff_firstOf {α : Type} {test : α → Bool} {holds : α → Prop} {items : List α} {item : α}
    (same : ∀ item ∈ items, (test item = true ↔ holds item)) : items.find? test = some item ↔ FirstOf holds items item := by
  rw [List.find?_eq_some_iff_append]
  constructor
  · rintro ⟨passed, before, behind, rfl, failed⟩
    refine ⟨before, behind, rfl, (same item (by simp)).mp passed, ?_⟩
    intro other member own
    have fails := failed other member
    rw [(same other (List.mem_append_left _ member)).mpr own] at fails
    cases fails
  · rintro ⟨before, behind, rfl, own, others⟩
    refine ⟨(same item (by simp)).mpr own, before, behind, rfl, ?_⟩
    intro other member
    rw [Bool.not_eq_true', Bool.eq_false_iff, ne_eq, same other (List.mem_append_left _ member)]
    exact others other member

namespace MediaType
variable {name top sub suffix : List Char} {mediaType key : String} {content : Members Value}

/-- A character of a type or a subtype. -/
def Plain (char : Char) : Prop :=
  char ≠ ';' ∧ char ≠ '/' ∧ char ≠ ' ' ∧ char ≠ '\t'

/-- The names of JSON: its own, and that of any subtype which ends with its suffix. Case does not matter. -/
inductive JsonName : List Char → Prop where
  | own {name : List Char} (same : name.map Char.toLower = "application/json".toList) : JsonName name
  | suffixed {top sub suffix : List Char} (topFilled : top ≠ []) (topPlain : ∀ char ∈ top, Plain char) (subFilled : sub ≠ [])
      (subPlain : ∀ char ∈ sub, Plain char) (same : suffix.map Char.toLower = "+json".toList) :
      JsonName (top ++ '/' :: (sub ++ suffix))

/-- A name of JSON, perhaps with blanks and then parameters behind it. -/
def JsonType (mediaType : String) : Prop :=
  ∃ name blanks parameters, Cut mediaType.toList name blanks parameters ∧ JsonName name

/-- What no text has in lower case stands in no spelling of the text. -/
theorem not_mem_of_lower {text lower : List Char} {char : Char} (same : text.map Char.toLower = lower)
    (absent : char.toLower ∉ lower) : char ∉ text := by
  intro member
  apply absent
  rw [← same]
  exact List.mem_map_of_mem member

theorem JsonName.solid (named : JsonName name) : Solid name := by
  intro char member
  cases named with
  | own same =>
    refine ⟨?_, ?_, ?_⟩ <;> rintro rfl <;> exact not_mem_of_lower same (by decide) member
  | suffixed _ topPlain _ subPlain same =>
    rcases List.mem_append.mp member with inside | member
    · obtain ⟨semicolon, _, blanks⟩ := topPlain char inside
      exact ⟨semicolon, blanks⟩
    rcases List.mem_cons.mp member with rfl | member
    · decide
    rcases List.mem_append.mp member with inside | last
    · obtain ⟨semicolon, _, blanks⟩ := subPlain char inside
      exact ⟨semicolon, blanks⟩
    · refine ⟨?_, ?_, ?_⟩ <;> rintro rfl <;> exact not_mem_of_lower same (by decide) last

/-- The suffix of a solid name is what its subtype ends with. -/
theorem jsonName_of_split (solid : Solid name) (cut : Text.splitChars '/' name = [top, sub]) (filled : top ≠ [])
    (long : 5 < sub.length) (same : (sub.drop (sub.length - 5)).map Char.toLower = "+json".toList) : JsonName name := by
  obtain ⟨_, clean, joined⟩ := Text.splitChars_eq_iff.mp cut
  have whole : name = top ++ '/' :: sub := by
    rw [← joined]
    simp
  have plain : ∀ piece ∈ [top, sub], ∀ char ∈ piece, Plain char := by
    intro piece member char inside
    have here : char ∈ name := (Text.infix_of_mem_splitChars (cut ▸ member)).subset inside
    obtain ⟨semicolon, blanks⟩ := solid char here
    exact ⟨semicolon, fun slash => clean piece member (slash ▸ inside), blanks⟩
  have parts : sub.take (sub.length - 5) ++ sub.drop (sub.length - 5) = sub := List.take_append_drop ..
  rw [whole, ← parts]
  refine .suffixed filled (plain top (by simp)) ?_ ?_ same
  · intro none
    have short := congrArg List.length none
    rw [List.length_take, List.length_nil] at short
    omega
  · intro char inside
    exact plain sub (by simp) char (List.mem_of_mem_take inside)

theorem splitChars_of_suffixed (topPlain : ∀ char ∈ top, Plain char) (subPlain : ∀ char ∈ sub, Plain char)
    (same : suffix.map Char.toLower = "+json".toList) :
    Text.splitChars '/' (top ++ '/' :: (sub ++ suffix)) = [top, sub ++ suffix] := by
  have first : '/' ∉ top := fun slash => (topPlain '/' slash).2.1 rfl
  have second : '/' ∉ sub ++ suffix := by
    intro slash
    rcases List.mem_append.mp slash with inside | last
    · exact (subPlain '/' inside).2.1 rfl
    · exact not_mem_of_lower same (by decide) last
  rw [Text.splitChars_append first, Text.splitChars_of_not_mem second]

/-- Without a long s, the media types that are taken for JSON are those with a name of JSON. -/
theorem isJson_iff (short : 'ſ' ∉ mediaType.toList) : isJson mediaType = true ↔ JsonType mediaType := by
  rw [isJson_eq_true_iff]
  constructor
  · intro ⟨name, blanks, parameters, cut, solid, named⟩
    refine ⟨name, blanks, parameters, cut, ?_⟩
    have inside : 'ſ' ∉ name := by
      intro long
      apply short
      rw [← cut.joined, List.append_assoc]
      exact List.mem_append_left _ long
    obtain own | ⟨top, sub, split, filled, long, suffix⟩ := named
    · exact .own ((sameLetters_iff inside).mp own)
    · have last : 'ſ' ∉ sub.drop (sub.length - 5) := by
        intro long
        have piece : sub ∈ Text.splitChars '/' name := by simp [split]
        exact inside ((Text.infix_of_mem_splitChars piece).subset (List.mem_of_mem_drop long))
      exact jsonName_of_split solid split filled long ((sameLetters_iff last).mp suffix)
  · intro ⟨name, blanks, parameters, cut, named⟩
    refine ⟨name, blanks, parameters, cut, named.solid, ?_⟩
    cases named with
    | own same => exact Or.inl ((sameLetters_iff (not_mem_of_lower same (by decide))).mpr same)
    | @suffixed top sub suffix topFilled topPlain subFilled subPlain same =>
      have length : suffix.length = 5 := by
        have five := congrArg List.length same
        rwa [List.length_map] at five
      have behind : (sub ++ suffix).drop ((sub ++ suffix).length - 5) = suffix := by
        rw [List.length_append, length, Nat.add_sub_cancel, List.drop_left]
      refine Or.inr ⟨top, sub ++ suffix, splitChars_of_suffixed topPlain subPlain same, topFilled, ?_, ?_⟩
      · have filled := List.length_pos_iff.mpr subFilled
        rw [List.length_append]
        omega
      · rw [behind]
        exact (sameLetters_iff (not_mem_of_lower same (by decide))).mpr same

/-- A body is taken for JSON by its first key that is JSON, unless a form is among the keys. -/
theorem preferred?_json_iff (short : ∀ key ∈ content.names, 'ſ' ∉ key.toList) : preferred? content = some (key, .json) ↔
    (urlEncodedForm ∉ content.names ∧ multipartForm ∉ content.names) ∧ FirstOf JsonType content.names key := by
  by_cases formless : urlEncodedForm ∉ content.names ∧ multipartForm ∉ content.names
  · rw [and_iff_right formless, preferred?_of_no_form formless.1 formless.2,
      ← find?_eq_some_iff_firstOf fun key member => isJson_iff (short key member)]
    cases content.names.find? isJson with
    | some first => simp
    | none => simp
  · obtain ⟨form, chosen⟩ : ∃ form, preferred? content = some (form, .form) := by
      by_cases urlEncoded : urlEncodedForm ∈ content.names
      · exact ⟨_, preferred?_of_form (Or.inl rfl) urlEncoded⟩
      · have multipart : multipartForm ∈ content.names := by
          by_contra absent
          exact formless ⟨urlEncoded, absent⟩
        exact ⟨_, preferred?_of_form (Or.inr ⟨rfl, urlEncoded⟩) multipart⟩
    rw [chosen]
    exact iff_of_false (by simp) fun json => formless json.1

/-- A media range or a JSON type is all that a body needs to be sent. -/
theorem exists_preferred? (short : ∀ key ∈ content.names, 'ſ' ∉ key.toList)
    (sendable : ∃ key ∈ content.names, isRange key = true ∨ JsonType key) : ∃ key kind, preferred? content = some (key, kind) := by
  obtain ⟨⟨key, kind⟩, chosen⟩ : ∃ choice, preferred? content = some choice := by
    rw [← Option.ne_none_iff_exists', ne_eq, preferred?_eq_none_iff]
    intro useless
    obtain ⟨key, member, range | json⟩ := sendable
    · exact Bool.false_ne_true ((useless key member).1.symm.trans range)
    · exact Bool.false_ne_true ((useless key member).2.symm.trans ((isJson_iff (short key member)).mpr json))
  exact ⟨key, kind, chosen⟩

theorem kind_eq_json_iff (short : ∀ key ∈ content.names, 'ſ' ∉ key.toList) {kind : BodyKind}
    (chosen : preferred? content = some (key, kind)) :
    kind = .json ↔ (urlEncodedForm ∉ content.names ∧ multipartForm ∉ content.names) ∧ ∃ key ∈ content.names, JsonType key := by
  constructor
  · rintro rfl
    obtain ⟨formless, before, behind, same, json, _⟩ := (preferred?_json_iff short).mp chosen
    exact ⟨formless, key, by simp [same], json⟩
  · intro ⟨formless, name, member, json⟩
    have passes := (isJson_iff (short name member)).mpr json
    obtain ⟨first, found⟩ := Option.isSome_iff_exists.mp (List.find?_isSome.mpr ⟨name, member, passes⟩)
    rw [preferred?_of_no_form formless.1 formless.2, found] at chosen
    cases chosen
    rfl

/-- A wildcard stands for bytes, whatever it is a wildcard of. -/
theorem isJson_produced_iff (short : 'ſ' ∉ key.toList) : isJson (produced key) = true ↔ JsonType key ∧ '*' ∉ key.toList := by
  have wild : isWildcard key = true ↔ '*' ∈ key.toList := by simp [isWildcard]
  rw [produced]
  by_cases star : '*' ∈ key.toList
  · rw [if_pos (wild.mpr star)]
    exact iff_of_false (by decide +kernel) fun json => json.2 star
  · rw [if_neg (mt wild.mp star), isJson_iff short, and_iff_left star]

end MediaType

namespace RequestBody.Setting

/-- Behind the parameters of an operation stand those that an entry of its body's content becomes, taken for what it is. -/
def Takes (setting : Setting) (operation body content result : Members Value) (key : String) (kind : MediaType.BodyKind) : Prop :=
  ∃ generated added, Returns (setting.parameters (Members.erase (named (.obj body)) "content") content key kind) generated ∧
    List.Forall₂ (fun node after => Parameter.rewriteNode setting.resolver setting.root node = .ok after) generated added ∧
    setting.Adds operation result added

variable {setting : Setting} {operation body content result : Members Value} {node : Value} {key : String} {kind : MediaType.BodyKind}

theorem rewriteOperation_takes (whole : setting.root.WellFormed) (formed : (Value.obj operation).WellFormed)
    (asked : Members.get? operation "requestBody" = some node)
    (resolved : setting.resolver.resolve setting.root node = .ok (.obj body))
    (contained : Members.get? body "content" = some (.obj content)) (chosen : MediaType.preferred? content = some (key, kind))
    (returned : Returns (setting.rewriteOperation operation) result) : setting.Takes operation body content result key kind := by
  have leads := setting.resolver.loads_formed.leads (formed_iff.mpr whole)
  obtain ⟨_, generated, added, made, _, rewritten, adds⟩ :=
    rewriteOperation_of_preferred (formed_iff.mpr formed) leads asked resolved returned contained chosen
  exact ⟨generated, added, made, rewritten, adds⟩

end RequestBody.Setting

namespace Response
variable {content : Members Value} {entry : String × Value}

/-- An entry in JSON that has a schema. A wildcard does not count. -/
def InJson (entry : String × Value) : Prop :=
  describes entry = true ∧ MediaType.JsonType entry.1 ∧ '*' ∉ entry.1.toList

/-- The first entry in JSON serves for the whole content, or else the first one with a schema. -/
inductive Serves (content : Members Value) (entry : String × Value) : Prop where
  | json (first : FirstOf InJson content entry)
  | other (none : ∀ entry ∈ content, ¬ InJson entry) (first : FirstOf (fun entry => describes entry = true) content entry)

theorem serving?_eq_some_iff (short : ∀ key ∈ content.names, 'ſ' ∉ key.toList) :
    serving? content = some entry ↔ Serves content entry := by
  have inJson : ∀ entry ∈ content,
      ((describes entry && MediaType.isJson (MediaType.produced entry.1)) = true ↔ InJson entry) := by
    intro entry member
    rw [Bool.and_eq_true, MediaType.isJson_produced_iff (short entry.1 (List.mem_map_of_mem member)), InJson]
  have absent : (content.find? fun entry => describes entry && MediaType.isJson (MediaType.produced entry.1)) = none ↔
      ∀ entry ∈ content, ¬ InJson entry := by
    rw [List.find?_eq_none]
    exact forall₂_congr fun entry member => not_congr (inJson entry member)
  rw [serving?, Option.or_eq_some_iff, absent, find?_eq_some_iff_firstOf inJson, find?_eq_some_iff_firstOf fun _ _ => Iff.rfl]
  constructor
  · rintro (first | ⟨none, first⟩)
    · exact .json first
    · exact .other none first
  · rintro (first | ⟨none, first⟩)
    · exact Or.inl first
    · exact Or.inr ⟨none, first⟩

/-- A response has the schema of an entry of its content, fetched where it lies in another document and rewritten. -/
def Setting.Takes (setting : Setting) (entry : String × Value) (answer : Members Value) : Prop :=
  ∃ declared target rewritten, entry.2.get? "schema" = some declared ∧
    setting.resolver.inlineExternal setting.root declared = .ok target ∧
    Returns (Schema.rewrite setting.limit .response target) rewritten ∧ Members.get? answer "schema" = some rewritten

theorem Folds.takes {setting : Setting} {response answer : Members Value} (folds : Folds setting content response answer)
    (serves : serving? content = some entry) : setting.Takes entry answer := by
  obtain ⟨declared, target, rewritten, described, _, fetched, made, held⟩ := folds.schema entry serves
  exact ⟨declared, target, rewritten, described, inlineExternal_eq_ok.mpr fetched, made, held⟩

theorem Setting.rewriteResponses_takes {setting : Setting} {operation responses result : Members Value}
    (whole : setting.root.WellFormed) (formed : (Value.obj operation).WellFormed)
    (listed : Members.get? operation "responses" = some (.obj responses))
    (returned : Returns (setting.rewriteResponses operation) result) :
    ∃ answers, Members.get? result "responses" = some (.obj answers) ∧
      ∀ (status : String) (node : Value) (response content : Members Value), Members.get? responses status = some node →
        setting.resolver.resolve setting.root node = .ok (.obj response) →
        Members.get? response "content" = some (.obj content) → (∀ key ∈ content.names, 'ſ' ∉ key.toList) →
          ∃ answer, Members.get? answers status = some (.obj answer) ∧ ∀ entry, Serves content entry → setting.Takes entry answer := by
  obtain ⟨answers, there, each⟩ := rewriteResponses_answer whole formed listed returned
  refine ⟨answers, there, ?_⟩
  intro status node response content seen resolved contained short
  obtain ⟨_, _, answer, here, single, folds, heads⟩ := each status node response seen resolved
  have folded : Folds setting content response answer := by
    refine (foldInto_folds single.distinct contained folds).of_get?_eq ?_
    intro key member
    apply get?_rewriteHeaders heads
    rintro rfl
    simp at member
  refine ⟨answer, here, ?_⟩
  intro entry serves
  exact folded.takes ((serving?_eq_some_iff short).mpr serves)

end Response

namespace MediaType
open RequestBody.Setting Response.Setting

/-- Media types are JSON by their names alone. A body is taken for JSON exactly when no form is among its keys and one of them is
JSON, and then by the first that is. The schema of a response is that of its first entry in JSON, wildcards left out, or else its
first schema of all. -/
theorem prefers_json :
    (∀ mediaType : String, 'ſ' ∉ mediaType.toList → (isJson mediaType = true ↔ JsonType mediaType)) ∧
    (∀ (setting : RequestBody.Setting) (operation body content result : Members Value) (node : Value),
      setting.root.WellFormed → (Value.obj operation).WellFormed → Members.get? operation "requestBody" = some node →
      setting.resolver.resolve setting.root node = .ok (.obj body) → Members.get? body "content" = some (.obj content) →
      (∀ key ∈ content.names, 'ſ' ∉ key.toList) → (∃ key ∈ content.names, isRange key = true ∨ JsonType key) →
      Returns (setting.rewriteOperation operation) result →
        ∃ key kind, setting.Takes operation body content result key kind ∧
          (kind = .json ↔ (urlEncodedForm ∉ content.names ∧ multipartForm ∉ content.names) ∧ ∃ key ∈ content.names, JsonType key) ∧
          (kind = .json → FirstOf JsonType content.names key)) ∧
    ∀ (setting : Response.Setting) (operation responses result : Members Value),
      setting.root.WellFormed → (Value.obj operation).WellFormed → Members.get? operation "responses" = some (.obj responses) →
      Returns (setting.rewriteResponses operation) result →
        ∃ answers, Members.get? result "responses" = some (.obj answers) ∧
          ∀ (status : String) (node : Value) (response content : Members Value), Members.get? responses status = some node →
            setting.resolver.resolve setting.root node = .ok (.obj response) →
            Members.get? response "content" = some (.obj content) → (∀ key ∈ content.names, 'ſ' ∉ key.toList) →
              ∃ answer, Members.get? answers status = some (.obj answer) ∧
                ∀ entry, Response.Serves content entry → setting.Takes entry answer := by
  refine ⟨fun mediaType short => isJson_iff short, ?_, ?_⟩
  · intro setting operation body content result node whole formed asked resolved contained short sendable returned
    obtain ⟨key, kind, chosen⟩ := exists_preferred? short sendable
    refine ⟨key, kind, rewriteOperation_takes whole formed asked resolved contained chosen returned, kind_eq_json_iff short chosen, ?_⟩
    rintro rfl
    exact ((preferred?_json_iff short).mp chosen).2
  · intro setting operation responses result whole formed listed returned
    exact rewriteResponses_takes whole formed listed returned

/-- A kiosk takes its orders as a text or in two formats, of which the first is its own. -/
def order : Members Value :=
  [("text/plain", .obj []), ("Application/Vnd.Kiosk+JSON ; v=1", .obj [("schema", .obj [("type", .str "string")])]),
    ("application/json", .obj [("schema", .obj [("type", .str "integer")])])]

def slip : String × Value :=
  ("text/slip+xml+json\t", .obj [("schema", .obj [("type", .str "object")])])

/-- What it answers with comes in any format, or as a slip. -/
def receipt : Members Value :=
  [("application/*+json", .obj [("schema", .obj [("type", .str "boolean")])]), slip]

def sale : Members Value :=
  [("requestBody", .obj [("content", .obj order)]), ("responses", .obj [("200", .obj [("content", .obj receipt)])])]

def orderedSale : Members Value :=
  [("parameters", .arr [.obj [("name", .str "body"), ("in", .str "body"), ("schema", .obj [("type", .str "string")])]]),
    ("responses", .obj [("200", .obj [("content", .obj receipt)])]),
    ("consumes", .arr [.str "text/plain", .str "Application/Vnd.Kiosk+JSON ; v=1", .str "application/json"])]

def answeredSale : Members Value :=
  [("requestBody", .obj [("content", .obj order)]),
    ("responses", .obj [("200", .obj [("schema", .obj [("type", .str "object")])])]),
    ("produces", .arr [.str "application/octet-stream", .str "text/slip+xml+json\t"])]

/-- An order is sent in the kiosk's own format, and the slip serves as the answer. -/
theorem sale_prefers_json :
    'ſ' ∉ slip.1.toList ∧ JsonType slip.1 ∧ Value.WellFormed (.obj []) ∧ (Value.obj sale).WellFormed ∧
    Returns (rewriteOperation ⟨⟨none, Files.none⟩, 1, .obj []⟩ sale) orderedSale ∧
    RequestBody.Setting.Takes ⟨⟨none, Files.none⟩, 1, .obj []⟩ sale [("content", .obj order)] order orderedSale
      "Application/Vnd.Kiosk+JSON ; v=1" .json ∧
    Returns (rewriteResponses ⟨⟨none, Files.none⟩, 1, .obj []⟩ sale) answeredSale ∧
    ∃ answers answer, Members.get? answeredSale "responses" = some (.obj answers) ∧ Members.get? answers "200" = some (.obj answer) ∧
      Response.Setting.Takes ⟨⟨none, Files.none⟩, 1, .obj []⟩ slip answer := by
  obtain ⟨recognized, requests, responses⟩ := prefers_json
  have short : 'ſ' ∉ slip.1.toList := by decide
  have json : JsonType slip.1 := (recognized _ short).mp (by decide +kernel)
  have whole : Value.WellFormed (.obj []) := by decide
  have formed : (Value.obj sale).WellFormed := by decide
  have ordered : Returns (rewriteOperation ⟨⟨none, Files.none⟩, 1, .obj []⟩ sale) orderedSale :=
    ⟨.empty, _, Prod.ext (by decide +kernel) rfl⟩
  have answered : Returns (rewriteResponses ⟨⟨none, Files.none⟩, 1, .obj []⟩ sale) answeredSale :=
    ⟨.empty, _, Prod.ext (by decide +kernel) rfl⟩
  have plainOrder : ∀ key ∈ order.names, 'ſ' ∉ key.toList := by decide
  have plainReceipt : ∀ key ∈ receipt.names, 'ſ' ∉ key.toList := by decide
  have kiosk : JsonType "Application/Vnd.Kiosk+JSON ; v=1" := (recognized _ (by decide)).mp (by decide +kernel)
  obtain ⟨key, kind, takes, preferred, first⟩ := requests ⟨⟨none, Files.none⟩, 1, .obj []⟩ sale [("content", .obj order)] order
    orderedSale (.obj [("content", .obj order)]) whole formed rfl rfl rfl plainOrder ⟨_, by decide, Or.inr kiosk⟩ ordered
  obtain rfl := preferred.mpr ⟨⟨by decide, by decide⟩, _, by decide, kiosk⟩
  have chosen := (find?_eq_some_iff_firstOf fun key member => isJson_iff (plainOrder key member)).mpr (first rfl)
  obtain rfl : key = "Application/Vnd.Kiosk+JSON ; v=1" := Option.some.inj (chosen.symm.trans (by decide +kernel))
  obtain ⟨answers, there, each⟩ := responses ⟨⟨none, Files.none⟩, 1, .obj []⟩ sale _ answeredSale whole formed rfl answered
  obtain ⟨answer, here, serving⟩ := each "200" _ [("content", .obj receipt)] receipt rfl rfl rfl plainReceipt
  have serves : Response.Serves receipt slip := (Response.serving?_eq_some_iff plainReceipt).mp (by decide +kernel)
  exact ⟨short, json, whole, formed, ordered, takes, answered, answers, answer, there, here, serving slip serves⟩

/-- A picnic is announced as a text, and in any format that is JSON. -/
def picnic : Members Value :=
  [("text/plain", .obj [("schema", .obj [("type", .str "string")])]),
    ("application/*+json", .obj [("schema", .obj [("type", .str "object")])])]

def announcement : Members Value :=
  [("responses", .obj [("200", .obj [("content", .obj picnic)])])]

def convertedAnnouncement : Members Value :=
  [("responses", .obj [("200", .obj [("schema", .obj [("type", .str "string")])])]),
    ("produces", .arr [.str "text/plain", .str "application/octet-stream"])]

/-- The first key in JSON has a wildcard, so the response goes by the text instead. -/
theorem announcement_passes_over :
    (∀ key ∈ picnic.names, 'ſ' ∉ key.toList) ∧
    FirstOf (fun entry : String × Value => Response.describes entry = true ∧ JsonType entry.1) picnic
      ("application/*+json", .obj [("schema", .obj [("type", .str "object")])]) ∧
    Returns (rewriteResponses ⟨⟨none, Files.none⟩, 64, .obj []⟩ announcement) convertedAnnouncement ∧
    ∃ answers answer, Members.get? convertedAnnouncement "responses" = some (.obj answers) ∧
      Members.get? answers "200" = some (.obj answer) ∧
      ¬ Response.Setting.Takes ⟨⟨none, Files.none⟩, 64, .obj []⟩
        ("application/*+json", .obj [("schema", .obj [("type", .str "object")])]) answer := by
  have short : ∀ key ∈ picnic.names, 'ſ' ∉ key.toList := by decide
  have inJson (entry : String × Value) (member : entry ∈ picnic) :
      (Response.describes entry && isJson entry.1) = true ↔ Response.describes entry = true ∧ JsonType entry.1 := by
    rw [Bool.and_eq_true, isJson_iff (short entry.1 (List.mem_map_of_mem member))]
  refine ⟨short, (find?_eq_some_iff_firstOf inJson).mp (by decide +kernel), ⟨.empty, _, Prod.ext (by decide +kernel) rfl⟩,
    _, _, rfl, rfl, ?_⟩
  intro ⟨declared, target, rewritten, described, fetched, made, held⟩
  cases described
  cases fetched
  cases returns_pure.mp made
  exact absurd held (by decide)

end MediaType
end ApiDialect
