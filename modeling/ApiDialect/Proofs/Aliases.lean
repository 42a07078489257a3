import ApiDialect.Proofs.Interchange
import ApiDialect.Proofs.Restyling
import ApiDialect.Proofs.Texts
import ApiDialect.Proofs.Untagged

/-! Items that refer to other items. Items are written back into the document that references are
resolved against, so an alias before its target is converted like it, and an alias behind its target
is given what that has become and converts it again. -/

namespace ApiDialect
open Rewriting Value Discriminator

/-- The pair stands in the list in this order. -/
theorem split_of_sublist {α : Type} {items : List α} {first second : α} (order : [first, second].Sublist items) :
    ∃ earlier middle later, items = (earlier ++ first :: middle) ++ second :: later := by
  obtain ⟨front, back, rfl, inside, rest⟩ := List.cons_sublist_iff.mp order
  obtain ⟨earlier, between, rfl⟩ := List.append_of_mem inside
  obtain ⟨middle, later, rfl⟩ := List.append_of_mem (List.singleton_sublist.mp rest)
  exact ⟨earlier, between ++ middle, later, by simp⟩

theorem sublist_or_sublist {α : Type} {items : List α} {first second : α} (other : first ≠ second) (one : first ∈ items)
    (two : second ∈ items) : [first, second].Sublist items ∨ [second, first].Sublist items := by
  obtain ⟨earlier, later, rfl⟩ := List.append_of_mem one
  rcases List.mem_append.mp two with inside | inside
  · exact Or.inr (.append (List.singleton_sublist.mpr inside) (List.singleton_sublist.mpr List.mem_cons_self))
  · rcases List.mem_cons.mp inside with same | inside
    · exact absurd same.symm other
    · exact Or.inl (((List.singleton_sublist.mpr inside).cons_cons first).trans (List.sublist_append_right ..))

/-- A reference leads to a file or to a place that is not among the paths. -/
def Outside (value : Value) : Prop :=
  ∀ text fragment, value = .str text → Text.strip? "#" text = some fragment →
    ∃ head rest, Pointer.ofFragment fragment = head :: rest ∧ head ≠ "paths"

/-- All references of a document are outside, those of its paths apart. -/
def OthersOutside (document : Members Value) : Prop :=
  ∀ entry ∈ document, entry.1 ≠ "paths" → Refers Outside entry.2

theorem shallow_outside : Shallow Outside := by
  intro first second _ text fragment same
  cases same

namespace OthersOutside
variable {document : Members Value} {name : String} {value : Value} (outside : OthersOutside document)
include outside

theorem insert (held : Refers Outside value) : OthersOutside (Members.insert document name value) := by
  intro entry member other
  rcases Members.mem_of_mem_insert member with rfl | member
  · exact held
  · exact outside entry member other

theorem erase (name : String) : OthersOutside (Members.erase document name) :=
  fun entry member => outside entry (Members.mem_of_mem_erase member)

theorem setOrErase {held : Option Value} (inside : ∀ value, held = some value → Refers Outside value) :
    OthersOutside (Server.setOrErase document name held) := by
  cases held with
  | none => exact outside.erase name
  | some value => exact outside.insert (inside value rfl)

theorem place (location : Server.Location) : OthersOutside (Server.place document location) := by
  have hosted : OthersOutside (Server.setOrErase document "host" (location.host.map .str)) := by
    refine outside.setOrErase fun value same => ?_
    obtain ⟨text, _, rfl⟩ := Option.map_eq_some_iff.mp same
    exact sound_str text
  have set : OthersOutside (Server.setOrErase (Server.setOrErase document "host" (location.host.map .str)) "schemes"
      (location.scheme.map fun scheme => .arr [.str scheme])) := by
    refine hosted.setOrErase fun value same => ?_
    obtain ⟨text, _, rfl⟩ := Option.map_eq_some_iff.mp same
    exact sound_texts [text]
  unfold Server.place
  dsimp only
  split
  next path _ => exact set.insert (sound_str path)
  next => exact set

theorem opened (setting : Conversion.Setting) : OthersOutside (setting.opened document) := by
  have named : OthersOutside (Members.insert document "swagger" (.str "2.0")) := outside.insert (sound_str "2.0")
  unfold Conversion.Setting.opened
  obtain ⟨placed, rfl | ⟨location, rfl⟩, same⟩ := Server.rewrite_eq setting.hostNames (Members.insert document "swagger" (.str "2.0"))
  · rw [same]
    exact (named.erase "servers").erase "openapi"
  · rw [same]
    exact ((named.place location).erase "servers").erase "openapi"

end OthersOutside

/-- While references stay outside, two states of the loop may stand for each other. -/
theorem interchangeable_of_outside {resolver : Resolver} {document first second : Members Value}
    (outside : OthersOutside document) (files : resolver.Loads (atReference Outside))
    (one : ∀ name, name ≠ "paths" → Members.get? first name = Members.get? document name)
    (other : ∀ name, name ≠ "paths" → Members.get? second name = Members.get? document name) :
    Interchangeable resolver resolver (.obj first) (.obj second) (atReference Outside) Outside fun _ => True where
  shallow := shallow_outside
  refers := fun _ _ held => held
  leads := by
    intro reference target held found
    unfold Resolver.follow at found
    split at found
    next fragment here =>
      obtain ⟨head, rest, pointer, apart⟩ := held reference fragment rfl here
      have walked := Resolver.walk_eq_ok.mp found
      rw [pointer] at walked
      obtain ⟨value, seen, walked⟩ := Option.bind_eq_some_iff.mp walked
      rw [child?, one head apart] at seen
      exact (outside _ (Members.mem_of_get? seen) apart).walk? walked
    next apart =>
      split at found
      next file fragment _ =>
        obtain ⟨loaded, read, walked⟩ := bind_eq_ok.mp found
        exact (files reference file loaded (fun _ => held) apart read).walk? (Resolver.walk_eq_ok.mp walked)
      next => exact files reference reference target (fun _ => held) apart found
  agree := by
    intro reference held
    unfold Resolver.follow
    split
    next fragment here =>
      obtain ⟨head, rest, pointer, apart⟩ := held reference fragment rfl here
      unfold Resolver.walk
      rw [pointer, walk?, walk?, child?, child?, one head apart, other head apart]
    next => rfl
  may := queues_true _

namespace Conversion

/-- A node that refers to the item under a path. -/
def aliasOf (path : String) : Value := .obj [("$ref", .str ("#/paths/" ++ Pointer.escape path))]

namespace Setting
variable {setting : Setting} {document result before between item : Members Value} {first second target name : String}
  {node one other : Value}

theorem resolve_aliasOf {resolver : Resolver} (seen : Members.get? (pathsOf document) target = some node) :
    resolver.resolve (.obj document) (aliasOf target) = .ok node := by
  have joined : "#/paths/" ++ Pointer.escape target = "#" ++ ("/" ++ ("paths" ++ "/" ++ Pointer.escape target)) := by
    apply String.toList_inj.mp
    simp [String.toList_append]
  have pointer : Pointer.ofFragment ("/" ++ ("paths" ++ "/" ++ Pointer.escape target)) = ["paths", target] := by
    rw [Pointer.ofFragment_slash, Text.split_append (by decide), Text.split_of_not_mem (Pointer.slash_not_mem_escape target),
      List.map_cons, List.map_cons, List.map_nil, Pointer.unescape_escape]
    rfl
  change resolver.follow (.obj document) ("#/paths/" ++ Pointer.escape target) = _
  unfold Resolver.follow
  rw [joined, Text.strip?_append]
  refine Resolver.walk_eq_ok.mpr ?_
  rw [pointer, walk?, child?, get?_paths_of_mem seen, Option.bind_some, walk?, child?, seen]
  rfl

/-- Two items have been converted, one before the other. -/
structure VisitedBoth (setting : Setting) (document result : Members Value) (first second : String) (held node : Value)
    (before between : Members Value) (one other : Value) : Prop where
  start : ∃ todo : List String, Returns (todo.foldlM setting.path document) before
  waiting : Members.get? (pathsOf before) second = some node
  madeFirst : Returns (setting.pathItem (.obj before) held) one
  middle : ∃ todo : List String, Returns (todo.foldlM setting.path document) between
  there : Members.get? (pathsOf between) first = some one
  madeSecond : Returns (setting.pathItem (.obj between) node) other
  stopFirst : Members.get? (pathsOf result) first = some one
  stopSecond : Members.get? (pathsOf result) second = some other

theorem paths_visitedBoth {held : Value} (distinct : Members.Distinct (pathsOf document))
    (order : [first, second].Sublist (pathsOf document).names)
    (startFirst : Members.get? (pathsOf document) first = some held)
    (startSecond : Members.get? (pathsOf document) second = some node)
    (returned : Returns ((pathsOf document).names.foldlM setting.path document) result) :
    ∃ before between one other, VisitedBoth setting document result first second held node before between one other := by
  obtain ⟨earlier, middle, later, parts⟩ := split_of_sublist order
  have distinct : (pathsOf document).names.Nodup := distinct
  rw [parts] at returned distinct
  rw [List.foldlM_append] at returned
  obtain ⟨between, ran, rest⟩ := returned.bind
  obtain ⟨front, back, apart⟩ := List.nodup_append.mp distinct
  have inside : first ∈ earlier ++ first :: middle := List.mem_append_right _ List.mem_cons_self
  have fresh : first ∉ second :: later := fun member => apart first inside first member rfl
  have ahead : second ∉ earlier ++ first :: middle := fun member => apart second member second List.mem_cons_self rfl
  obtain ⟨before, one, visited⟩ := paths_visited front startFirst ran
  have waiting : Members.get? (pathsOf between) second = some node := by
    rw [(paths_framed ran).items second ahead, startSecond]
  have onward : ([] ++ second :: later).Nodup := back
  obtain ⟨still, other, last⟩ := paths_visited onward waiting rest
  cases returns_pure.mp last.ran
  refine ⟨before, between, one, other, ⟨earlier, visited.ran⟩, ?_, visited.made, ⟨_, ran⟩, visited.stop, last.made, ?_,
    last.stop⟩
  · rw [(paths_framed visited.ran).items second fun member => ahead (List.mem_append_left _ member), startSecond]
  · rw [(paths_framed rest).items first fresh, visited.stop]

/-- What is made of an object is one. -/
theorem pathItem_obj {root again : Value} (found : setting.resolver.resolve root node = .ok (.obj item))
    (returned : Returns (setting.pathItem root node) again) : ∃ converted, again = .obj converted := by
  obtain ⟨_, reached, ⟨plain, _⟩ | ⟨_, _, converted, _, _, _, same⟩⟩ := pathItem_returns returned
  · cases found.symm.trans reached
    cases plain
  · exact ⟨converted, same⟩

theorem resolve_plain {resolver : Resolver} {root : Value} (plain : Members.get? item "$ref" = none) :
    resolver.resolve root (.obj item) = .ok (.obj item) := by
  apply resolve_of_reference?_eq_none
  change (Members.get? item "$ref").bind Value.text? = none
  rw [plain]
  rfl

/-- An alias behind its target converts what its target has become. -/
theorem alias_behind (formed : Formed (.obj document)) (seen : Members.get? (pathsOf document) target = some (.obj item))
    (plain : Members.get? item "$ref" = none)
    (visited : VisitedBoth setting document result target name (.obj item) (aliasOf target) before between one other) :
    ∃ converted again, one = .obj converted ∧ other = .obj again ∧ Formed (.obj converted) ∧
      (SettledItem converted → again = restyledItem converted) := by
  obtain ⟨start, ran⟩ := visited.start
  have leads := setting.resolver.loads_formed.leads (paths_formed formed ran)
  have held : Formed (.obj item) := Sound.get? (pathsOf_refers formed) seen
  obtain ⟨converted, rfl⟩ := pathItem_obj (resolve_plain plain) visited.madeFirst
  have found : setting.resolver.resolve (.obj between) (aliasOf target) = .ok (.obj converted) := resolve_aliasOf visited.there
  obtain ⟨again, rfl⟩ := pathItem_obj found visited.madeSecond
  have entry : SoundEntry (atReference fun _ => True) (target, .obj item) := ⟨fun _ => trivial, held⟩
  have whole : Formed (.obj converted) := (pathItem_sound textual_true leads visited.madeFirst entry).2
  refine ⟨converted, again, rfl, rfl, whole, fun settled => ?_⟩
  have same := pathItem_again whole (pathItem_older leads visited.madeFirst held) settled
    (fun method operation inside => pathItem_tallied visited.madeFirst inside) found visited.madeSecond
  exact Value.obj.inj same

/-- An alias before its target converts what its target is converted from. -/
theorem alias_before (plain : Members.get? item "$ref" = none)
    (visited : VisitedBoth setting document result name target (aliasOf target) (.obj item) before between one other) :
    ∃ converted again, one = .obj converted ∧ other = .obj again ∧
      (Refers Outside (.obj item) → OthersOutside document → setting.resolver.Loads (atReference Outside) →
        converted = again) := by
  obtain ⟨_, ran⟩ := visited.start
  obtain ⟨_, more⟩ := visited.middle
  have found : setting.resolver.resolve (.obj before) (aliasOf target) = .ok (.obj item) := resolve_aliasOf visited.waiting
  obtain ⟨converted, rfl⟩ := pathItem_obj found visited.madeFirst
  obtain ⟨again, rfl⟩ := pathItem_obj (resolve_plain plain) visited.madeSecond
  refine ⟨converted, again, rfl, rfl, fun inside outside files => ?_⟩
  have same := interchangeable_of_outside outside files (paths_framed ran).others (paths_framed more).others
  have direct : Returns (setting.pathItem (.obj before) (.obj item)) (.obj converted) := by
    have made := visited.madeFirst
    unfold pathItem at made ⊢
    rw [found] at made
    rw [resolve_plain plain]
    exact made
  exact Value.obj.inj ((pathItem_agrees same inside).returns_unique direct visited.madeSecond)

theorem settledItem_of_readdressed {relocated : Bool} (settled : SettledItem (readdressed relocated item)) :
    SettledItem item := by
  cases relocated with
  | false => exact settled
  | true => exact Relocation.settledItem settled

theorem restyledItem_readdressed (relocated : Bool) (item : Members Value) :
    restyledItem (readdressed relocated item) = readdressed relocated (restyledItem item) := by
  cases relocated with
  | false => rfl
  | true => exact restyledItem_referencesOfMembers item

/-- Both items are objects in the end, whichever of them came first. -/
theorem alias_stops {walked : Members Value} (formed : Formed (.obj document))
    (seen : Members.get? (pathsOf document) target = some (.obj item)) (plain : Members.get? item "$ref" = none)
    (points : Members.get? (pathsOf document) name = some (aliasOf target))
    (ran : Returns ((pathsOf document).names.foldlM setting.path document) walked) :
    ∃ one other, Members.get? (pathsOf walked) target = some (.obj one) ∧
      Members.get? (pathsOf walked) name = some (.obj other) := by
  have distinct : Members.Distinct (pathsOf document) := (pathsOf_refers formed).distinct
  have apart : target ≠ name := by
    rintro rfl
    cases seen.symm.trans points
    cases plain
  rcases sublist_or_sublist apart (Members.mem_names_of_get? seen) (Members.mem_names_of_get? points) with order | order
  · obtain ⟨_, _, _, _, visited⟩ := paths_visitedBoth distinct order seen points ran
    obtain ⟨one, other, rfl, rfl, _⟩ := alias_behind formed seen plain visited
    exact ⟨one, other, visited.stopFirst, visited.stopSecond⟩
  · obtain ⟨_, _, _, _, visited⟩ := paths_visitedBoth distinct order points seen ran
    obtain ⟨other, one, rfl, rfl, _⟩ := alias_before plain visited
    exact ⟨one, other, visited.stopSecond, visited.stopFirst⟩

/-- An alias and its target after a conversion, tags apart. Behind its target an alias differs just
when the target has an array that is not written with commas; before its target it does not differ,
as long as no reference that is followed leads to an item. -/
theorem aliases_alike_iff {paths : Members Value} {converted : Converted} (formed : (Value.obj document).WellFormed)
    (here : Members.get? document "paths" = some (.obj paths)) (seen : Members.get? paths target = some (.obj item))
    (plain : Members.get? item "$ref" = none) (points : Members.get? paths name = some (aliasOf target))
    (made : setting.convert (.obj document) = .ok converted) :
    ∃ unmarked one other, setting.untagged document = .ok unmarked ∧ Marked unmarked converted.document ∧
      unmarked.walk? ["paths", target] = some (.obj one) ∧ unmarked.walk? ["paths", name] = some (.obj other) ∧
      ([target, name].Sublist paths.names → SettledItem one → (Alike (.obj one) (.obj other) ↔ CommasItem one)) ∧
      ([name, target].Sublist paths.names → (Value.obj item).EveryReference Outside →
        (∀ entry ∈ document, entry.1 ≠ "paths" → entry.2.EveryReference Outside) →
        (∀ reference file loaded, setting.resolver.load reference file = .ok loaded → loaded.EveryReference Outside) →
        one = other) := by
  obtain ⟨walked, result, relocated, ran, placed, untagged, marked⟩ := convert_untagged made
  have whole : Formed (.obj document) := formed_iff.mpr formed
  have start : Formed (.obj (setting.opened document)) := opened_refers whole
  have listed : pathsOf (setting.opened document) = paths := pathsOf_opened whole.distinct here
  have distinct : Members.Distinct (pathsOf (setting.opened document)) := (pathsOf_refers start).distinct
  rw [← listed] at seen points ⊢
  obtain ⟨one, other, stopOne, stopOther⟩ := alias_stops start seen plain points ran
  have kept : Members.get? result "paths" = some (.obj (pathsOf walked)) := by
    rw [Relocation.get?_components (paths_formed start ran) placed (by decide)]
    exact get?_paths_of_mem stopOne
  refine ⟨_, readdressed relocated one, readdressed relocated other, untagged, marked,
    walk?_readdressed kept stopOne, walk?_readdressed kept stopOther, fun order settled => ?_, fun order inside outside files => ?_⟩
  · obtain ⟨_, _, _, _, visited⟩ := paths_visitedBoth distinct order seen points ran
    obtain ⟨made, again, rfl, rfl, formed, restyles⟩ := alias_behind start seen plain visited
    cases visited.stopFirst.symm.trans stopOne
    cases visited.stopSecond.symm.trans stopOther
    rw [restyles (settledItem_of_readdressed settled), ← restyledItem_readdressed]
    exact alike_restyledItem_iff (readdressed_formed formed)
  · obtain ⟨_, _, _, _, visited⟩ := paths_visitedBoth distinct order points seen ran
    obtain ⟨again, made, rfl, rfl, same⟩ := alias_before plain visited
    cases visited.stopFirst.symm.trans stopOther
    cases visited.stopSecond.symm.trans stopOne
    have held : Formed (.obj item) := Sound.get? (pathsOf_refers start) seen
    have others : OthersOutside document := fun entry member other =>
      ⟨(whole.entry member).2.wellFormed, outside entry member other⟩
    have loads : setting.resolver.Loads (atReference Outside) := fun reference file loaded _ _ read =>
      ⟨Resolver.load_wellFormed read, files reference file loaded read⟩
    rw [same ⟨held.wellFormed, inside⟩ (others.opened setting) loads]

def pipedListing : Value :=
  .obj [("get", .obj [("parameters", .arr [.obj [("name", .str "ids"), ("in", .str "query"),
    ("style", .str "pipeDelimited"), ("schema", .obj [("type", .str "array"), ("items", .obj [("type", .str "string")])])]]),
    ("responses", .obj [])])]

def aliasBehind : Members Value :=
  [("openapi", .str "3.0.0"), ("paths", .obj [("/p", pipedListing), ("/q", aliasOf "/p")])]

def aliasAhead : Members Value :=
  [("openapi", .str "3.0.0"), ("paths", .obj [("/q", aliasOf "/p"), ("/p", pipedListing)])]

def convertedListing (parameter : Members Value) : Members Value :=
  [("get", .obj [("parameters", .arr [.obj parameter]), ("responses", .obj [])])]

def pipedIds : Members Value :=
  [("name", .str "ids"), ("in", .str "query"), ("collectionFormat", .str "pipes"),
    ("items", .obj [("type", .str "string")]), ("type", .str "array")]

def commaIds : Members Value :=
  [("name", .str "ids"), ("in", .str "query"), ("type", .str "array"), ("items", .obj [("type", .str "string")]),
    ("collectionFormat", .str "csv")]

def convertedBehind : Value :=
  .obj [("swagger", .str "2.0"),
    ("paths", .obj [("/p", .obj (convertedListing pipedIds)), ("/q", .obj (convertedListing commaIds))])]

def convertedAhead : Value :=
  .obj [("swagger", .str "2.0"),
    ("paths", .obj [("/q", .obj (convertedListing pipedIds)), ("/p", .obj (convertedListing pipedIds))])]

theorem convertedListing_settled : SettledItem (convertedListing pipedIds) := by
  refine ⟨fun nodes seen => (by cases seen), fun method node seen => ?_⟩
  cases method with
  | get =>
    cases seen
    refine ⟨rfl, ?_⟩
    rintro operation ⟨⟩
    refine ⟨?_, ?_⟩
    · rintro nodes ⟨⟩ node member
      rw [List.mem_singleton.mp member]
      rfl
    · rintro responses ⟨⟩ entry member
      cases member
  | _ => cases seen

theorem not_commasItem_convertedListing : ¬ CommasItem (convertedListing pipedIds) := by
  intro commas
  have comma := commas.operations .get _ rfl _ rfl _ List.mem_cons_self pipedIds rfl (by decide)
  exact absurd comma (by decide)

theorem aliasBehind_converts : Setting.convert ⟨⟨none, Files.none⟩, 10⟩ (.obj aliasBehind) = .ok ⟨convertedBehind, []⟩ := by
  decide +kernel

theorem aliasAhead_converts : Setting.convert ⟨⟨none, Files.none⟩, 10⟩ (.obj aliasAhead) = .ok ⟨convertedAhead, []⟩ := by
  decide +kernel

theorem pipedListing_alike_iff :
    (∃ one other, convertedBehind.walk? ["paths", "/p"] = some (.obj one) ∧
      convertedBehind.walk? ["paths", "/q"] = some (.obj other) ∧ ¬ Alike (.obj one) (.obj other)) ∧
    ∃ one, convertedAhead.walk? ["paths", "/p"] = some (.obj one) ∧ convertedAhead.walk? ["paths", "/q"] = some (.obj one) := by
  constructor
  · have untagged : Setting.untagged ⟨⟨none, Files.none⟩, 10⟩ aliasBehind = .ok convertedBehind := by decide +kernel
    have seen : Members.get? [("/p", pipedListing), ("/q", aliasOf "/p")] "/p" = some pipedListing := rfl
    have points : Members.get? [("/p", pipedListing), ("/q", aliasOf "/p")] "/q" = some (aliasOf "/p") := rfl
    obtain ⟨unmarked, one, other, same, _, here, there, behind, _⟩ :=
      aliases_alike_iff (by decide +kernel) rfl seen rfl points aliasBehind_converts
    cases same.symm.trans untagged
    cases here
    have alike := behind (by decide) convertedListing_settled
    exact ⟨_, other, rfl, there, fun equal => not_commasItem_convertedListing (alike.mp equal)⟩
  · have untagged : Setting.untagged ⟨⟨none, Files.none⟩, 10⟩ aliasAhead = .ok convertedAhead := by decide +kernel
    have seen : Members.get? [("/q", aliasOf "/p"), ("/p", pipedListing)] "/p" = some pipedListing := rfl
    have points : Members.get? [("/q", aliasOf "/p"), ("/p", pipedListing)] "/q" = some (aliasOf "/p") := rfl
    obtain ⟨unmarked, one, other, same, _, here, there, _, ahead⟩ :=
      aliases_alike_iff (by decide +kernel) rfl seen rfl points aliasAhead_converts
    cases same.symm.trans untagged
    have equal : one = other := by
      refine ahead (by decide) ?_ ?_ ?_
      · simp [EveryReference, EveryMember, EveryMemberOfMembers, EveryMemberOfItems, atReference]
      · simp [aliasAhead, EveryReference, EveryMember]
      · exact fun reference file loaded read => absurd read (Resolver.load_of_directory_none reference file loaded)
    exact ⟨one, here, equal ▸ there⟩

/-- The alias gets another word for the same list. -/
theorem aliasBehind_differs : (Value.obj aliasBehind).WellFormed ∧
    Setting.convert ⟨⟨none, Files.none⟩, 10⟩ (.obj aliasBehind) = .ok ⟨convertedBehind, []⟩ ∧
    convertedBehind.walk? ["paths", "/p"] = some (.obj (convertedListing pipedIds)) ∧
    convertedBehind.walk? ["paths", "/q"] = some (.obj (convertedListing commaIds)) ∧
    ¬ Alike (.obj (convertedListing pipedIds)) (.obj (convertedListing commaIds)) := by
  refine ⟨by decide, aliasBehind_converts, rfl, rfl, fun alike => ?_⟩
  obtain ⟨_, ⟨⟩, operation⟩ := alike.get? (show Members.get? (convertedListing pipedIds) "get" = some _ from rfl)
  obtain ⟨_, ⟨⟩, listed⟩ := operation.get? (show Members.get? _ "parameters" = some _ from rfl)
  obtain ⟨parameter, _⟩ := List.forall₂_cons.mp (alike_arr_iff.mp listed)
  obtain ⟨_, ⟨⟩, word⟩ := parameter.get? (show Members.get? pipedIds "collectionFormat" = some _ from rfl)
  exact absurd word.eq_str (by decide)

end Setting
end Conversion
end ApiDialect
