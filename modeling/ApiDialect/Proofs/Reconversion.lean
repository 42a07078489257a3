import ApiDialect.Proofs.Alike
import ApiDialect.Proofs.OlderDialect

/-! What a second conversion makes of a path item. Where no reference is left to be followed there
is nothing to do, with one exception: the style of a parameter has been dropped, so an array is
taken for one that never had a style. -/

namespace ApiDialect
open Rewriting Value

namespace Parameter
variable {resolver : Resolver} {root node again : Value} {parameter owner result : Members Value}

/-- A parameter whose style has been forgotten. -/
def restyled (parameter : Members Value) : Members Value :=
  if textAt? parameter "type" = some "array" then
    Members.insert (Members.erase parameter "collectionFormat") "collectionFormat" (.str "csv")
  else parameter

def restyledNode : Value → Value
  | .obj parameter => .obj (restyled parameter)
  | node => node

def restyledList : Value → Value
  | .arr nodes => .arr (nodes.map restyledNode)
  | value => value

/-- No parameter of the list is a reference. -/
def ListsSettled (owner : Members Value) : Prop :=
  ∀ nodes, Members.get? owner "parameters" = some (.arr nodes) → ∀ node ∈ nodes, node.reference? = none

theorem formatCollection_of_flat {location : Option Location} (flat : Flat parameter) :
    formatCollection location parameter = restyled parameter := by
  have word : (Style.atLocation location).collectionFormat? none = some "csv" := by
    rcases location with _ | location
    · rfl
    · cases location <;> rfl
  have style : textAt? parameter "style" = none := by
    rw [textAt?, flat.style]
    rfl
  have explode : (Members.get? parameter "explode").bind Value.bool? = none := by
    rw [flat.explode]
    rfl
  unfold formatCollection restyled
  rw [style]
  dsimp only [setCollectionFormat]
  rw [explode, word]

theorem finished_of_flat {location : Option Location} (distinct : Members.Distinct parameter) (flat : Flat parameter) :
    finished location parameter = restyled parameter := by
  have style : Members.get? (formatCollection location parameter) "style" = none := by
    rw [get?_formatCollection distinct (by decide), flat.style]
  have explode : Members.get? (formatCollection location parameter) "explode" = none := by
    rw [get?_formatCollection distinct (by decide), flat.explode]
  unfold finished
  rw [Members.erase_of_get?_eq_none style, Members.erase_of_get?_eq_none explode, formatCollection_of_flat flat]

theorem stripped_of_absent (schema : Members.get? parameter "schema" = none)
    (reserved : Members.get? parameter "allowReserved" = none) (shown : Members.get? parameter "example" = none) :
    stripped parameter = parameter := by
  unfold stripped renameExample
  rw [Members.erase_of_get?_eq_none schema, Members.erase_of_get?_eq_none reserved, shown]

theorem rewrite_again (distinct : Members.Distinct parameter) (flat : Flat parameter)
    (made : rewrite resolver root parameter = .ok result) : result = restyled parameter := by
  rcases rewrite_eq_ok.mp made with ⟨_, rfl⟩ | ⟨other, flattened, kept, rfl⟩
  · exact finished_of_flat distinct flat
  · obtain ⟨schema, reserved, shown⟩ := flat.bare fun body => other (location?_eq_body_iff.mpr body)
    rcases flatten_eq_ok.mp kept with ⟨_, rfl⟩ | ⟨node, _, seen, _⟩
    · rw [stripped_of_absent schema reserved shown]
      exact finished_of_flat distinct flat
    · cases schema.symm.trans seen

theorem rewriteNode_again (settled : node.reference? = none) (formed : Formed node)
    (flat : ∀ parameter, node = .obj parameter → Flat parameter)
    (made : rewriteNode resolver root node = .ok again) : again = restyledNode node := by
  obtain ⟨target, found, rest⟩ := rewriteNode_eq_ok.mp made
  cases (resolve_of_reference?_eq_none settled).symm.trans found
  rcases rest with ⟨plain, rfl⟩ | ⟨parameter, rewritten, rfl, changed, rfl⟩
  · cases again with
    | obj parameter => cases plain
    | _ => rfl
  · rw [rewrite_again formed.distinct (flat parameter rfl) changed]
    rfl

theorem rewriteAll_again (formed : Formed (.obj owner)) (settled : ListsSettled owner) (flat : ListsFlat owner)
    (made : rewriteAll resolver root owner = .ok result) : result = Members.modify owner "parameters" restyledList := by
  rcases rewriteAll_eq_ok.mp made with ⟨unlisted, rfl⟩ | ⟨nodes, results, seen, each, rfl⟩
  · refine (Members.modify_of_forall fun value seen => ?_).symm
    cases value with
    | arr nodes => exact absurd seen (unlisted nodes)
    | _ => rfl
  · have same : results = nodes.map restyledNode := by
      refine eq_map_of_forall₂ each fun node member again made => ?_
      refine rewriteNode_again (settled nodes seen node member) ((Sound.get? formed seen).item member) ?_ made
      rintro parameter rfl
      exact flat nodes seen parameter member
    rw [Members.modify_eq_insert seen, same]
    rfl

end Parameter

namespace Response
variable {resolver : Resolver} {root node : Value} {response result : Members Value} {produced total : List String}

/-- None of the headers is a reference. -/
def HeadersSettled (response : Members Value) : Prop :=
  ∀ headers, Members.get? response "headers" = some (.obj headers) → ∀ entry ∈ headers, entry.2.reference? = none

theorem rewriteHeader_again {entry again : String × Value} (settled : entry.2.reference? = none)
    (bare : ∀ header, entry.2 = .obj header → Members.get? header "schema" = none)
    (made : rewriteHeader resolver root entry = .ok again) : again = entry := by
  obtain ⟨name, target, found, rest⟩ := rewriteHeader_eq_ok.mp made
  cases (resolve_of_reference?_eq_none settled).symm.trans found
  refine Prod.ext name ?_
  rcases rest with ⟨_, same⟩ | ⟨header, held, same⟩
  · exact same
  · rw [same, held, flattenHeader, bare header held]

theorem rewriteHeaders_again (distinct : ∀ headers, Members.get? response "headers" = some (.obj headers) → Members.Distinct headers)
    (settled : HeadersSettled response) (older : Older response)
    (made : rewriteHeaders resolver root response = .ok result) : result = response := by
  rcases rewriteHeaders_eq_ok.mp made with ⟨_, rfl⟩ | ⟨headers, results, seen, each, rfl⟩
  · rfl
  · have same : results = headers.map id := by
      refine eq_map_of_forall₂ each fun entry member again changed => ?_
      refine rewriteHeader_again (settled headers seen entry member) (fun header held => ?_) changed
      refine older.headers headers seen entry.1 header ((distinct headers seen).get?_of_mem ?_)
      rw [← held]
      exact member
    rw [same, List.map_id, Members.insert_of_get? seen]

/-- A list of media types with some more at its end, still without repetitions. -/
structure Gathers (before after : List String) : Prop where
  nodup : before.Nodup → after.Nodup
  kept : before ⊆ after

theorem Gathers.refl (types : List String) : Gathers types types := ⟨id, fun _ member => member⟩

theorem Gathers.trans {first second third : List String} (one : Gathers first second) (other : Gathers second third) :
    Gathers first third :=
  ⟨fun distinct => other.nodup (one.nodup distinct), fun _ member => other.kept (one.kept member)⟩

theorem addNew_gathers (types : List String) (element : String) : Gathers types (addNew types element) := by
  unfold addNew
  split
  next => exact .refl types
  next fresh =>
    refine ⟨fun distinct => ?_, fun _ member => List.mem_append_left _ member⟩
    exact List.nodup_append.mpr ⟨distinct, List.nodup_singleton element, fun first member last single same => by
      rw [List.mem_singleton.mp single] at same
      exact fresh (same ▸ member)⟩

theorem foldl_addNew_gathers (elements types : List String) : Gathers types (elements.foldl addNew types) := by
  induction elements generalizing types with
  | nil => exact .refl types
  | cons element rest ih => exact (addNew_gathers types element).trans (ih _)

theorem foldContent_gathers (produced : List String) (content : Members Value) :
    Gathers produced (foldContent produced content).produced := by
  have grows : ∀ (entries : List (String × Value)) (folded : Folded),
      Gathers folded.produced (entries.foldl foldEntry folded).produced := by
    intro entries
    induction entries with
    | nil => exact fun folded => .refl folded.produced
    | cons entry rest ih => exact fun folded => (addNew_gathers folded.produced _).trans (ih (foldEntry folded entry))
  exact grows content ⟨produced, none, none, []⟩

theorem foldl_addNew_of_nodup {types : List String} (distinct : types.Nodup) : types.foldl addNew [] = types := by
  have grows : ∀ rest before : List String, (before ++ rest).Nodup → rest.foldl addNew before = before ++ rest := by
    intro rest
    induction rest with
    | nil => simp
    | cons element rest ih =>
      intro before distinct
      have fresh : element ∉ before := fun member =>
        (List.nodup_append.mp distinct).2.2 element member element List.mem_cons_self rfl
      rw [List.foldl_cons, addNew, if_neg fresh, ih _ (by simpa using distinct)]
      simp
  exact grows types [] distinct

namespace Setting
variable {setting : Setting} {operation : Members Value}

/-- No response is a reference, nor is any of the headers. -/
def AnswersSettled (operation : Members Value) : Prop :=
  ∀ responses, Members.get? operation "responses" = some (.obj responses) → ∀ entry ∈ responses,
    entry.2.reference? = none ∧ ∀ response, entry.2 = .obj response → HeadersSettled response

theorem rewriteNode_again {outcome : List String × Value} (formed : Formed node) (settled : node.reference? = none)
    (headers : ∀ response, node = .obj response → HeadersSettled response)
    (older : ∀ response, node = .obj response → Older response)
    (returned : Returns (setting.rewriteNode produced node) outcome) : outcome = (produced, node) := by
  obtain ⟨target, found, rest⟩ := rewriteNode_returns returned
  cases (resolve_of_reference?_eq_none settled).symm.trans found
  rcases rest with ⟨_, rfl⟩ | ⟨response, folded, rewritten, rfl, made, headed, rfl⟩
  · rfl
  · rcases foldInto_returns made with ⟨_, rfl⟩ | ⟨_, seen, _⟩ | ⟨_, _, seen, _⟩
    · rw [rewriteHeaders_again (fun headers seen => Sound.distinct (Sound.get? formed seen)) (headers response rfl)
        (older response rfl) headed]
    · cases (older response rfl).content.symm.trans seen
    · cases (older response rfl).content.symm.trans seen

theorem rewriteEach_again {responses results : List (String × Value)}
    (each : ∀ entry ∈ responses, Formed entry.2 ∧ entry.2.reference? = none ∧
      ∀ response, entry.2 = .obj response → HeadersSettled response ∧ Older response)
    (returned : Returns (setting.rewriteEach produced responses) (total, results)) :
    total = produced ∧ results = responses := by
  induction responses generalizing produced total results with
  | nil =>
    cases returns_pure.mp returned
    exact ⟨rfl, rfl⟩
  | cons entry rest ih =>
    obtain ⟨⟨after, response⟩, first, returned⟩ := returned.bind
    obtain ⟨⟨total, others⟩, last, returned⟩ := returned.bind
    cases returns_pure.mp returned
    obtain ⟨formed, settled, inner⟩ := each entry List.mem_cons_self
    cases rewriteNode_again formed settled (fun response held => (inner response held).1)
      (fun response held => (inner response held).2) first
    obtain ⟨rfl, rfl⟩ := ih (fun entry member => each entry (List.mem_cons_of_mem _ member)) last
    exact ⟨rfl, rfl⟩

/-- What an operation produces is listed once, or nothing is. -/
def Tallied (operation : Members Value) : Prop :=
  ∀ responses, Members.get? operation "responses" = some (.obj responses) → declared operation = [] ∨
    Members.get? operation "produces" = some (.arr ((declared operation).map .str))

theorem foldInto_gathers {folded : List String × Members Value} (returned : Returns (setting.foldInto produced response) folded) :
    Gathers produced folded.1 := by
  rcases foldInto_returns returned with ⟨_, rfl⟩ | ⟨_, _, _, rfl⟩ | ⟨content, _, _, _, rfl⟩
  · exact .refl produced
  · exact .refl produced
  · exact foldContent_gathers produced content

theorem rewriteNode_gathers {outcome : List String × Value} (returned : Returns (setting.rewriteNode produced node) outcome) :
    Gathers produced outcome.1 := by
  obtain ⟨_, _, ⟨_, rfl⟩ | ⟨_, _, _, _, made, _, rfl⟩⟩ := rewriteNode_returns returned
  · exact .refl produced
  · exact foldInto_gathers made

theorem rewriteEach_gathers {responses results : List (String × Value)}
    (returned : Returns (setting.rewriteEach produced responses) (total, results)) : Gathers produced total := by
  induction responses generalizing produced total results with
  | nil =>
    cases returns_pure.mp returned
    exact .refl produced
  | cons entry rest ih =>
    obtain ⟨⟨after, response⟩, first, returned⟩ := returned.bind
    obtain ⟨⟨total, others⟩, last, returned⟩ := returned.bind
    cases returns_pure.mp returned
    exact (rewriteNode_gathers first).trans (ih last)

theorem declared_of_produces {types : List String} (distinct : types.Nodup)
    (seen : Members.get? operation "produces" = some (.arr (types.map .str))) : declared operation = types := by
  have texts : Value.texts (types.map .str) = types := by
    rw [Value.texts, List.filterMap_map]
    exact List.filterMap_some
  unfold declared
  rw [seen]
  dsimp only
  rw [texts]
  exact foldl_addNew_of_nodup distinct

theorem declared_nodup (operation : Members Value) : (declared operation).Nodup := by
  unfold declared
  split
  next types _ => exact (foldl_addNew_gathers _ _).nodup List.nodup_nil
  next => exact List.nodup_nil

theorem rewriteResponses_tallied (returned : Returns (setting.rewriteResponses operation) result) : Tallied result := by
  rcases rewriteResponses_returns returned with ⟨bare, rfl⟩ | ⟨responses, total, results, _, each, rfl⟩
  · exact fun responses seen => absurd seen (bare responses)
  have gathers := rewriteEach_gathers each
  intro _ _
  split
  next none =>
    left
    have nothing : declared operation = [] := by
      rw [List.isEmpty_iff.mp none] at gathers
      exact List.subset_nil.mp gathers.kept
    unfold declared at nothing ⊢
    rwa [Members.get?_insert_of_ne (by decide)]
  next =>
    right
    have listed : ∀ before : Members Value, Members.get? (Members.insert before "produces" (.arr (total.map .str)))
        "produces" = some (.arr (total.map .str)) := fun _ => Members.get?_insert_self ..
    rw [declared_of_produces (gathers.nodup (declared_nodup operation)) (listed _), listed]

theorem rewriteResponses_again (formed : ∀ responses, Members.get? operation "responses" = some responses → Formed responses)
    (settled : AnswersSettled operation)
    (older : AnswersOlder operation) (tallied : Tallied operation)
    (returned : Returns (setting.rewriteResponses operation) result) : result = operation := by
  rcases rewriteResponses_returns returned with ⟨_, rfl⟩ | ⟨responses, total, results, seen, each, rfl⟩
  · rfl
  have held := formed _ seen
  have same := rewriteEach_again (fun entry member => by
    obtain ⟨plain, headers⟩ := settled responses seen entry member
    refine ⟨(held.entry member).2, plain, fun response is => ⟨headers response is, ?_⟩⟩
    refine older responses seen entry.1 response (held.distinct.get?_of_mem ?_)
    rw [← is]
    exact member) each
  obtain ⟨rfl, rfl⟩ := same
  rw [Members.insert_of_get? seen]
  split
  next => rfl
  next some =>
    rcases tallied results seen with empty | listed
    · rw [empty] at some
      exact absurd rfl some
    · rw [Members.insert_of_get? listed]

end Setting
end Response

namespace RequestBody
namespace Setting
variable {setting : Setting} {operation result : Members Value}

theorem rewriteOperation_again (formed : Formed (.obj operation)) (settled : Parameter.ListsSettled operation)
    (flat : Parameter.ListsFlat operation) (listed : ∃ nodes, Members.get? operation "parameters" = some (.arr nodes))
    (bodiless : Members.get? operation "requestBody" = none)
    (returned : Returns (setting.rewriteOperation operation) result) :
    result = Members.modify operation "parameters" Parameter.restyledList := by
  obtain ⟨replaced, made, rewritten⟩ := rewriteOperation_returns returned
  obtain ⟨nodes, seen⟩ := listed
  have started : withParameters operation = operation := by
    unfold withParameters
    rw [seen]
  rw [started] at made
  rcases replaceBody_returns made with ⟨_, rfl⟩ | ⟨_, _, body, _⟩
  · exact Parameter.rewriteAll_again formed settled flat rewritten
  · cases bodiless.symm.trans body

end Setting
end RequestBody

namespace Conversion
variable {setting : Setting} {root node again : Value} {item operation : Members Value}

structure SettledOperation (operation : Members Value) : Prop where
  listed : Parameter.ListsSettled operation
  answers : Response.Setting.AnswersSettled operation

/-- No reference is left in any place where the conversion would follow one. -/
structure SettledItem (item : Members Value) : Prop where
  listed : Parameter.ListsSettled item
  operations : ∀ method : Method, ∀ node, Members.get? item method.key = some node → node.reference? = none ∧
    ∀ operation, node = .obj operation → SettledOperation operation

def restyledOperation : Value → Value
  | .obj operation => .obj (Members.modify operation "parameters" Parameter.restyledList)
  | node => node

/-- Where an item lists parameters. -/
def restylings (methods : List Method) : Members (Value → Value) :=
  methods.map fun method => (method.key, restyledOperation)

def restyledItem (item : Members Value) : Members Value :=
  Members.modifyEach (("parameters", Parameter.restyledList) :: restylings Method.all) item

namespace Setting

/-- All that a second conversion has to know of an operation. -/
structure Ready (operation : Members Value) : Prop where
  formed : Formed (.obj operation)
  older : OlderOperation operation
  tallied : Response.Setting.Tallied operation

theorem operation_again {result : Members Value} (ready : Ready operation) (settled : SettledOperation operation)
    (returned : Returns (setting.operation root operation) result) :
    result = Members.modify operation "parameters" Parameter.restyledList := by
  obtain ⟨bodiless, first, last⟩ := operation_returns returned
  have restyled := RequestBody.Setting.rewriteOperation_again ready.formed settled.listed ready.older.flat
    ready.older.listed ready.older.bodiless first
  have others : ∀ name, name ≠ "parameters" → Members.get? bodiless name = Members.get? operation name := by
    intro name other
    rw [restyled, Members.get?_modify, if_neg other.symm]
  rw [← restyled]
  refine Response.Setting.rewriteResponses_again (fun responses seen => ?_) ?_ ?_ ?_ last
  · rw [others "responses" (by decide)] at seen
    exact Sound.get? ready.formed seen
  · intro responses seen
    rw [others "responses" (by decide)] at seen
    exact settled.answers responses seen
  · intro responses seen
    rw [others "responses" (by decide)] at seen
    exact ready.older.answers responses seen
  · intro responses seen
    have declared : Response.Setting.declared bodiless = Response.Setting.declared operation := by
      unfold Response.Setting.declared
      rw [others "produces" (by decide)]
    rw [others "responses" (by decide)] at seen
    rw [declared, others "produces" (by decide)]
    exact ready.tallied responses seen

theorem operationNode_again (settled : node.reference? = none)
    (inner : ∀ operation, node = .obj operation → Ready operation ∧ SettledOperation operation)
    (returned : Returns (setting.operationNode root node) again) : again = restyledOperation node := by
  obtain ⟨target, found, rest⟩ := operationNode_returns returned
  cases (resolve_of_reference?_eq_none settled).symm.trans found
  rcases rest with ⟨plain, rfl⟩ | ⟨members, converted, rfl, made, rfl⟩
  · cases again with
    | obj members => cases plain
    | _ => rfl
  · obtain ⟨ready, held⟩ := inner members rfl
    rw [operation_again ready held made]
    rfl

/-- A method still finds what the item came with, because the methods before it have other keys. -/
theorem methods_again {methods : List Method} {result : Members Value} (distinct : methods.Nodup)
    (inner : ∀ method ∈ methods, ∀ node, Members.get? item method.key = some node → node.reference? = none ∧
      ∀ operation, node = .obj operation → Ready operation ∧ SettledOperation operation)
    (returned : Returns (methods.foldlM (setting.method root) item) result) :
    result = Members.modifyEach (restylings methods) item := by
  induction methods generalizing item with
  | nil => exact returns_pure.mp returned
  | cons method rest ih =>
    obtain ⟨middle, first, last⟩ := returned.foldlM_cons
    obtain ⟨fresh, others⟩ := List.nodup_cons.mp distinct
    have step : middle = Members.modify item method.key restyledOperation := by
      rcases method_returns first with ⟨absent, rfl⟩ | ⟨node, operation, seen, made, rfl⟩
      · refine (Members.modify_of_forall fun value seen => ?_).symm
        cases absent.symm.trans seen
      · obtain ⟨plain, held⟩ := inner method List.mem_cons_self node seen
        rw [operationNode_again plain held made, Members.modify_eq_insert seen]
    subst step
    refine ih others (fun later member node seen => ?_) last
    rw [Members.get?_modify, if_neg] at seen
    · exact inner later (List.mem_cons_of_mem _ member) node seen
    · exact fun same => fresh (Method.key_injective same ▸ member)

/-- A converted item with no reference left comes out as it is, but for the way its arrays are written. -/
theorem pathItem_again (formed : Formed (.obj item)) (older : OlderItem item) (settled : SettledItem item)
    (tallied : ∀ method : Method, ∀ operation, Members.get? item method.key = some (.obj operation) →
      Response.Setting.Tallied operation)
    (found : setting.resolver.resolve root node = .ok (.obj item))
    (returned : Returns (setting.pathItem root node) again) : again = .obj (restyledItem item) := by
  obtain ⟨target, reached, rest⟩ := pathItem_returns returned
  cases found.symm.trans reached
  rcases rest with ⟨plain, _⟩ | ⟨_, listed, converted, same, made, all, rfl⟩
  · cases plain
  cases same
  have restyled := Parameter.rewriteAll_again formed settled.listed older.flat made
  rw [restyled] at all
  rw [methods_again Method.nodup_all (fun method _ node seen => ?_) all]
  · rfl
  rw [Members.get?_modify, if_neg (Method.key_ne_parameters method).symm] at seen
  obtain ⟨plain, held⟩ := settled.operations method node seen
  refine ⟨plain, fun operation is => ⟨⟨?_, ?_, ?_⟩, held operation is⟩⟩
  · subst is
    exact Sound.get? formed seen
  · subst is
    exact older.operations method operation seen
  · subst is
    exact tallied method operation seen

theorem pathItem_tallied {converted : Members Value} (returned : Returns (setting.pathItem root node) (.obj converted))
    {method : Method} (seen : Members.get? converted method.key = some (.obj operation)) :
    Response.Setting.Tallied operation := by
  obtain ⟨_, _, ⟨plain, same⟩ | ⟨item, listed, methods, _, _, all, same⟩⟩ := pathItem_returns returned
  · cases same
    cases plain
  cases same
  rcases (methods_turned Method.nodup_all all).1 method (Method.mem_all method) with ⟨_, absent⟩ | ⟨held, after, _, made, same⟩
  · cases absent.symm.trans seen
  · cases same.symm.trans seen
    obtain ⟨_, _, ⟨plain, same⟩ | ⟨members, changed, _, run, same⟩⟩ := operationNode_returns made
    · cases same
      cases plain
    · cases same
      obtain ⟨_, _, last⟩ := operation_returns run
      exact Response.Setting.rewriteResponses_tallied last

end Setting
end Conversion
end ApiDialect
