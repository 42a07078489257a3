import ApiDialect.Proofs.FlatParameters

/-! What the content of a response adds up to. One of its schemas serves for all of it, and its examples go into a
table by media type, where a later one takes the place of an earlier one. -/

namespace ApiDialect
open Rewriting Value

namespace Response
variable {content response : Members Value} {entry : String × Value} {produced : List String} {mediaType : String}

/-- An entry that says how its values look. -/
def describes (entry : String × Value) : Bool :=
  (presentAt? entry.2 "schema").isSome

/-- The entry whose schema serves for the whole content: the first one in JSON, or else the first one of all. -/
def serving? (content : Members Value) : Option (String × Value) :=
  (content.find? fun entry => describes entry && MediaType.isJson (MediaType.produced entry.1)).or (content.find? describes)

/-- The examples that a content has for a media type. -/
def examplesFor (content : Members Value) (mediaType : String) : List Value :=
  content.filterMap fun entry => if MediaType.produced entry.1 = mediaType then presentAt? entry.2 "example" else none

/-- The example that a response has for a media type. -/
def example? (response : Members Value) (mediaType : String) : Option Value :=
  (Members.get? response "examples").bind (·.get? mediaType)

/-- A response that has a table of examples or could be given one. -/
def Tabular (response : Members Value) : Prop :=
  ∀ held, Members.get? response "examples" = some held → ∃ table, held = .obj table

theorem findSome?_ite_eq_bind {α β : Type} (items : List α) (test : α → Bool) (change : α → Option β) :
    items.findSome? (fun item => if test item then change item else none) =
      (items.find? fun item => (change item).isSome && test item).bind change := by
  induction items with
  | nil => rfl
  | cons item rest ih =>
    rw [List.findSome?_cons, List.find?_cons, ih]
    cases passed : test item with
    | false => simp
    | true => cases made : change item <;> simp [made]

theorem findSome?_eq_bind {α β : Type} (items : List α) (change : α → Option β) :
    items.findSome? change = (items.find? fun item => (change item).isSome).bind change := by
  simpa using findSome?_ite_eq_bind items (fun _ => true) change

/-- What every entry adds: whatever is found first stays, and all else goes to the end. -/
theorem foldl_foldEntry (entries : Members Value) (folded : Folded) :
    entries.foldl foldEntry folded =
      { produced := (entries.names.map MediaType.produced).foldl addNew folded.produced
        first := folded.first.or (entries.findSome? fun entry => presentAt? entry.2 "schema")
        json := folded.json.or (entries.findSome? fun entry =>
          if MediaType.isJson (MediaType.produced entry.1) then presentAt? entry.2 "schema" else none)
        shown := folded.shown ++ entries.filterMap fun entry =>
          (presentAt? entry.2 "example").map (MediaType.produced entry.1, ·) } := by
  induction entries generalizing folded with
  | nil => simp [Members.names]
  | cons entry rest ih =>
    rw [List.foldl_cons, ih]
    simp only [foldEntry, Members.names, List.map_cons, List.foldl_cons, List.findSome?_cons, List.filterMap_cons]
    congr 1
    · rw [Option.or_assoc]
      cases presentAt? entry.2 "schema" <;> rfl
    · rw [Option.or_assoc]
      cases (if MediaType.isJson (MediaType.produced entry.1) then presentAt? entry.2 "schema" else none) <;> rfl
    · rw [List.append_assoc]
      cases presentAt? entry.2 "example" <;> rfl

theorem foldContent_produced (produced : List String) (content : Members Value) :
    (foldContent produced content).produced = (content.names.map MediaType.produced).foldl addNew produced := by
  rw [foldContent, foldl_foldEntry]

theorem describes_of_serving (serves : serving? content = some entry) : describes entry := by
  rcases Option.or_eq_some_iff.mp serves with json | ⟨_, first⟩
  · have both := List.find?_some json
    exact (Bool.and_eq_true_iff.mp both).1
  · exact List.find?_some first

/-- The schema that is taken is that of the entry that serves. -/
theorem foldContent_serves (produced : List String) (content : Members Value) :
    (foldContent produced content).schema? = (serving? content).bind fun entry => presentAt? entry.2 "schema" := by
  have first : (content.findSome? fun entry => presentAt? entry.2 "schema") =
      (content.find? describes).bind fun entry => presentAt? entry.2 "schema" := findSome?_eq_bind content _
  have json : (content.findSome? fun entry =>
      if MediaType.isJson (MediaType.produced entry.1) then presentAt? entry.2 "schema" else none) =
      (content.find? fun entry => describes entry && MediaType.isJson (MediaType.produced entry.1)).bind
        fun entry => presentAt? entry.2 "schema" := findSome?_ite_eq_bind content _ _
  rw [foldContent, foldl_foldEntry, Folded.schema?, Option.none_or, Option.none_or, first, json, serving?]
  cases chosen : content.find? fun entry => describes entry && MediaType.isJson (MediaType.produced entry.1) with
  | none => rfl
  | some entry =>
    have own : describes entry := describes_of_serving (by rw [serving?, chosen, Option.some_or])
    obtain ⟨schema, seen⟩ := Option.isSome_iff_exists.mp own
    simp only [Option.some_or, Option.bind_some, seen]

theorem foldContent_shown (produced : List String) (content : Members Value) :
    (foldContent produced content).shown = content.filterMap fun entry =>
      (presentAt? entry.2 "example").map (MediaType.produced entry.1, ·) := by
  rw [foldContent, foldl_foldEntry, List.nil_append]

theorem examplesFor_eq (produced : List String) (content : Members Value) (mediaType : String) :
    examplesFor content mediaType =
      (foldContent produced content).shown.filterMap fun shown => if shown.1 = mediaType then some shown.2 else none := by
  rw [foldContent_shown, List.filterMap_filterMap, examplesFor]
  apply List.filterMap_congr
  intro entry _
  cases presentAt? entry.2 "example" <;> simp

theorem addExample_of_tabular (tabular : Tabular response) (entry : String × Value) :
    ∃ table, Members.get? (addExample response entry) "examples" = some (.obj table) ∧
      ∀ mediaType, Members.get? table mediaType = if entry.1 = mediaType then some entry.2 else example? response mediaType := by
  obtain ⟨table, held, same⟩ : ∃ table, (Members.get? response "examples").getD (.obj []) = .obj table ∧
      ∀ mediaType, Members.get? table mediaType = example? response mediaType := by
    unfold example?
    cases seen : Members.get? response "examples" with
    | none => exact ⟨[], rfl, fun _ => rfl⟩
    | some held =>
      obtain ⟨table, rfl⟩ := tabular held seen
      exact ⟨table, rfl, fun _ => rfl⟩
  have started : Members.get? (Members.insertIfAbsent response "examples" (.obj [])) "examples" = some (.obj table) := by
    rw [Members.get?_insertIfAbsent, if_pos rfl, held]
  refine ⟨Members.insert table entry.1 entry.2, ?_, ?_⟩
  · unfold addExample
    simp only [started]
    exact Members.get?_insert_self ..
  · intro mediaType
    rw [Members.get?_insert, same]

/-- An example that is added goes before the one that was there. -/
theorem example?_addExample (tabular : Tabular response) (entry : String × Value) (mediaType : String) :
    example? (addExample response entry) mediaType =
      if entry.1 = mediaType then some entry.2 else example? response mediaType := by
  obtain ⟨table, seen, look⟩ := addExample_of_tabular tabular entry
  rw [example?, seen]
  exact look mediaType

theorem Tabular.addExample (tabular : Tabular response) (entry : String × Value) : Tabular (addExample response entry) := by
  obtain ⟨table, seen, _⟩ := addExample_of_tabular tabular entry
  intro held again
  cases seen.symm.trans again
  exact ⟨table, rfl⟩

/-- What is no table stays what it is. -/
theorem addExample_of_not_tabular (other : ¬ Tabular response) (entry : String × Value) : addExample response entry = response := by
  obtain ⟨held, seen, none⟩ : ∃ held, Members.get? response "examples" = some held ∧ ∀ table, held ≠ .obj table := by
    simpa [Tabular] using other
  unfold Response.addExample
  simp only [Members.insertIfAbsent_of_get? seen, seen]
  cases held with
  | obj table => exact absurd rfl (none table)
  | _ => rfl

/-- The last of the examples that are added for a media type stays. -/
theorem example?_addExamples (tabular : Tabular response) (shown : List (String × Value)) (mediaType : String) :
    example? (shown.foldl addExample response) mediaType =
      (shown.filterMap fun shown => if shown.1 = mediaType then some shown.2 else none).getLast?.or
        (example? response mediaType) := by
  induction shown generalizing response with
  | nil => rfl
  | cons entry rest ih =>
    rw [List.foldl_cons, ih (tabular.addExample entry), example?_addExample tabular, List.filterMap_cons]
    by_cases same : entry.1 = mediaType
    · simp only [same, if_true, List.getLast?_cons]
      cases (rest.filterMap fun shown => if shown.1 = mediaType then some shown.2 else none).getLast? <;> rfl
    · simp only [same, if_false]

theorem foldl_addExample_of_not_tabular (other : ¬ Tabular response) (shown : List (String × Value)) :
    shown.foldl addExample response = response := by
  induction shown with
  | nil => rfl
  | cons entry rest ih => rw [List.foldl_cons, addExample_of_not_tabular other, ih]

theorem inlineExternal_eq_ok {resolver : Resolver} {root node target : Value} :
    resolver.inlineExternal root node = .ok target ↔
      if node.isExternalReference then resolver.resolve root node = .ok target else target = node := by
  unfold Resolver.inlineExternal
  split
  next => rfl
  next => exact ⟨fun same => (Except.ok.inj same).symm, fun same => congrArg Except.ok same.symm⟩

/-- A response as the content that it came with leaves it. One schema serves, fetched when it lies in another document,
and the examples join those that were there. -/
structure Folds (setting : Setting) (content response answer : Members Value) : Prop where
  schema : ∀ entry, serving? content = some entry → ∃ declared target rewritten,
    entry.2.get? "schema" = some declared ∧ declared ≠ .null ∧
    (if declared.isExternalReference then setting.resolver.resolve setting.root declared = .ok target else target = declared) ∧
    Returns (Schema.rewrite setting.limit .response target) rewritten ∧ Members.get? answer "schema" = some rewritten
  own : serving? content = none → Members.get? answer "schema" = Members.get? response "schema"
  shown : Tabular response → ∀ mediaType,
    example? answer mediaType = (examplesFor content mediaType).getLast?.or (example? response mediaType)
  quiet : (∀ entry ∈ content, presentAt? entry.2 "example" = none) →
    Members.get? answer "examples" = Members.get? response "examples"
  other : ¬ Tabular response → Members.get? answer "examples" = Members.get? response "examples"

namespace Folds
variable {setting : Setting} {answer headed : Members Value}

/-- Only the schema and the examples are looked at. -/
theorem of_get?_eq (folds : Folds setting content response answer)
    (same : ∀ key ∈ ["schema", "examples"], Members.get? headed key = Members.get? answer key) :
    Folds setting content response headed := by
  have schema : Members.get? headed "schema" = Members.get? answer "schema" := same _ (by simp)
  have examples : Members.get? headed "examples" = Members.get? answer "examples" := same _ (by simp)
  refine ⟨?_, ?_, ?_, ?_, ?_⟩
  · rw [schema]
    exact folds.schema
  · rw [schema]
    exact folds.own
  · unfold example?
    rw [examples]
    exact folds.shown
  · rw [examples]
    exact folds.quiet
  · rw [examples]
    exact folds.other

end Folds

namespace Setting
variable {setting : Setting} {operation result responses : Members Value}

section
variable (distinct : Members.Distinct response)

include distinct

theorem withExamples_shown (tabular : Tabular response) (produced : List String) (content : Members Value)
    (mediaType : String) : example? (withExamples produced content response) mediaType =
      (examplesFor content mediaType).getLast?.or (example? response mediaType) := by
  have kept : Members.get? (Members.erase response "content") "examples" = Members.get? response "examples" :=
    distinct.get?_erase_of_ne (by decide)
  have still : Tabular (Members.erase response "content") := by
    unfold Tabular
    rw [kept]
    exact tabular
  rw [withExamples, example?_addExamples still, examplesFor_eq produced]
  unfold example?
  rw [kept]

theorem withExamples_quiet (produced : List String) (quiet : ∀ entry ∈ content, presentAt? entry.2 "example" = none) :
    Members.get? (withExamples produced content response) "examples" = Members.get? response "examples" := by
  have nothing : (foldContent produced content).shown = [] := by
    rw [foldContent_shown, List.filterMap_eq_nil_iff]
    intro entry member
    rw [quiet entry member]
    rfl
  rw [withExamples, nothing]
  exact distinct.get?_erase_of_ne (by decide)

theorem withExamples_other (other : ¬ Tabular response) (produced : List String) (content : Members Value) :
    Members.get? (withExamples produced content response) "examples" = Members.get? response "examples" := by
  have kept : Members.get? (Members.erase response "content") "examples" = Members.get? response "examples" :=
    distinct.get?_erase_of_ne (by decide)
  have still : ¬ Tabular (Members.erase response "content") := by
    unfold Tabular
    rw [kept]
    exact other
  rw [withExamples, foldl_addExample_of_not_tabular still, kept]

theorem foldInto_folds {folded : List String × Members Value} (contained : Members.get? response "content" = some (.obj content))
    (returned : Returns (setting.foldInto produced response) folded) : Folds setting content response folded.2 := by
  rcases foldInto_returns returned with ⟨absent, _⟩ | ⟨_, other, plain, _⟩ | ⟨_, filled, seen, set, rfl⟩
  · cases absent.symm.trans contained
  · cases other.symm.trans contained
    cases plain
  cases contained.symm.trans seen
  rw [foldContent_serves] at set
  have examples : Members.get? filled "examples" = Members.get? (withExamples produced content response) "examples" := by
    rcases setSchema_returns set with ⟨_, rfl⟩ | ⟨_, _, rewritten, _, _, _, rfl⟩
    · rfl
    · exact Members.get?_insert_of_ne (by decide) rewritten
  refine ⟨?_, ?_, ?_, ?_, ?_⟩
  · intro entry serves
    rw [serves, Option.bind_some] at set
    rcases setSchema_returns set with ⟨absent, _⟩ | ⟨declared, target, rewritten, described, fetched, made, rfl⟩
    · have own := describes_of_serving serves
      rw [describes, absent] at own
      cases own
    · obtain ⟨there, present⟩ := Option.filter_eq_some_iff.mp described
      refine ⟨declared, target, rewritten, there, ?_, inlineExternal_eq_ok.mp fetched, made, Members.get?_insert_self ..⟩
      rintro rfl
      cases present
  · intro none
    rw [none, Option.bind_none] at set
    rcases setSchema_returns set with ⟨_, rfl⟩ | ⟨_, _, _, impossible, _⟩
    · rw [get?_withExamples _ _ (by decide), distinct.get?_erase_of_ne (by decide)]
    · cases impossible
  · intro tabular mediaType
    rw [example?, examples]
    exact withExamples_shown distinct tabular produced content mediaType
  · intro quiet
    rw [examples]
    exact withExamples_quiet distinct produced quiet
  · intro other
    rw [examples]
    exact withExamples_other distinct other produced content

end

/-- A response stays under its status, with its content folded into it and its headers rewritten. -/
theorem rewriteResponses_answer (whole : setting.root.WellFormed) (formed : (Value.obj operation).WellFormed)
    (listed : Members.get? operation "responses" = some (.obj responses))
    (returned : Returns (setting.rewriteResponses operation) result) :
    ∃ answers, Members.get? result "responses" = some (.obj answers) ∧
      ∀ status node response, Members.get? responses status = some node →
        setting.resolver.resolve setting.root node = .ok (.obj response) →
          ∃ before folded answer, Members.get? answers status = some (.obj answer) ∧ Formed (.obj response) ∧
            Returns (setting.foldInto before response) folded ∧
            rewriteHeaders setting.resolver setting.root folded.2 = .ok answer := by
  obtain ⟨answers, there, each⟩ := rewriteResponses_answers returned listed
  refine ⟨answers, there, ?_⟩
  intro status node response seen resolved
  have leads := setting.resolver.loads_formed.leads (formed_iff.mpr whole)
  have held : Formed node := Sound.get? (Sound.get? (formed_iff.mpr formed) listed) seen
  obtain ⟨after, here, before, produced, made⟩ := Members.get?_of_forall₂ each seen
  obtain ⟨target, found, ⟨scalar, _⟩ | ⟨_, folded, answer, same, folds, heads, rest⟩⟩ := rewriteNode_returns made
  · cases found.symm.trans resolved
    cases scalar
  cases found.symm.trans resolved
  cases same
  obtain rfl : after = .obj answer := congrArg Prod.snd rest
  exact ⟨before, folded, answer, here, held.resolve leads resolved, folds, heads⟩

/-- Every response that came with a content has the schema of one of its entries, the first in JSON or the first of all, and
the last example for each media type. Without a schema or an example it keeps those that it had. -/
theorem rewriteResponses_folds (whole : setting.root.WellFormed) (formed : (Value.obj operation).WellFormed)
    (listed : Members.get? operation "responses" = some (.obj responses))
    (returned : Returns (setting.rewriteResponses operation) result) :
    ∃ answers, Members.get? result "responses" = some (.obj answers) ∧
      ∀ status node response content, Members.get? responses status = some node →
        setting.resolver.resolve setting.root node = .ok (.obj response) →
        Members.get? response "content" = some (.obj content) →
          ∃ answer, Members.get? answers status = some (.obj answer) ∧ Folds setting content response answer := by
  obtain ⟨answers, there, each⟩ := rewriteResponses_answer whole formed listed returned
  refine ⟨answers, there, ?_⟩
  intro status node response content seen resolved contained
  obtain ⟨_, _, answer, here, single, folds, heads⟩ := each status node response seen resolved
  refine ⟨answer, here, (foldInto_folds single.distinct contained folds).of_get?_eq ?_⟩
  intro key member
  apply get?_rewriteHeaders heads
  rintro rfl
  simp at member

/-- What has been found comes as a picture of any kind, as a page or in two formats of the office. -/
def found : Members Value :=
  [("description", .str "All hats"), ("examples", .obj [("text/plain", .str "A hat"), ("application/octet-stream", .str "?")]),
    ("content", .obj [("image/*", .obj [("schema", .obj [("type", .str "string")]), ("example", .str "hat.png")]),
      ("*/*", .obj [("example", .str "hat.gif")]), ("text/html", .obj [("example", .null)]),
      ("application/vnd.office+json", .obj [("schema", .obj [("type", .str "object"), ("nullable", .bool true)])]),
      ("application/json", .obj [("schema", .obj [("type", .str "integer")])])])]

def lostProperty : Value :=
  .obj [("components", .obj [("responses", .obj [("Found", .obj found)])])]

def inquiry : Members Value :=
  [("responses", .obj [("200", .obj [("$ref", .str "#/components/responses/Found")])])]

def convertedInquiry : Members Value :=
  [("responses", .obj [("200", .obj [("description", .str "All hats"),
      ("examples", .obj [("text/plain", .str "A hat"), ("application/octet-stream", .str "hat.gif")]),
      ("schema", .obj [("type", .str "object"), ("x-nullable", .bool true)])])]),
    ("produces", .arr [.str "application/octet-stream", .str "text/html", .str "application/vnd.office+json",
      .str "application/json"])]

/-- The office's own format serves, and of the two pictures the second stays beside the text. -/
theorem inquiry_folds : lostProperty.WellFormed ∧ (Value.obj inquiry).WellFormed ∧
    Returns (rewriteResponses ⟨⟨none, Files.none⟩, 0, lostProperty⟩ inquiry) convertedInquiry ∧
    ∃ answers answer, Members.get? convertedInquiry "responses" = some (.obj answers) ∧
      Members.get? answers "200" = some (.obj answer) ∧
      Members.get? answer "schema" = some (.obj [("type", .str "object"), ("x-nullable", .bool true)]) ∧
      example? answer "application/octet-stream" = some (.str "hat.gif") ∧
      example? answer "text/plain" = some (.str "A hat") ∧ example? answer "text/html" = none := by
  have whole : lostProperty.WellFormed := by decide
  have formed : (Value.obj inquiry).WellFormed := by decide
  have returned : Returns (rewriteResponses ⟨⟨none, Files.none⟩, 0, lostProperty⟩ inquiry) convertedInquiry :=
    ⟨.empty, _, Prod.ext (by decide +kernel) rfl⟩
  have resolved : Resolver.resolve ⟨none, Files.none⟩ lostProperty (.obj [("$ref", .str "#/components/responses/Found")]) =
      .ok (.obj found) := by decide +kernel
  obtain ⟨answers, there, each⟩ := rewriteResponses_folds whole formed rfl returned
  obtain ⟨answer, here, folds⟩ := each "200" _ found _ rfl resolved rfl
  have tabular : Tabular found := by
    intro held seen
    cases seen
    exact ⟨_, rfl⟩
  refine ⟨whole, formed, returned, answers, answer, there, here, ?_, ?_, ?_, ?_⟩
  · obtain ⟨declared, target, rewritten, described, _, fetched, made, same⟩ := folds.schema
      ("application/vnd.office+json", .obj [("schema", .obj [("type", .str "object"), ("nullable", .bool true)])])
      (by decide +kernel)
    cases described
    rw [if_neg (by decide)] at fetched
    cases fetched
    exact same.trans (congrArg some (returns_pure.mp made))
  · exact (folds.shown tabular _).trans (by decide +kernel)
  · exact (folds.shown tabular _).trans (by decide +kernel)
  · exact (folds.shown tabular _).trans (by decide +kernel)

end Setting
end Response
end ApiDialect
