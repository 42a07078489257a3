import ApiDialect.Proofs.Interchange
import ApiDialect.Proofs.Layout
import ApiDialect.Proofs.Reading
import ApiDialect.Proofs.Texts

/-! Path items that only refer to components are converted independently of each other. The loop
leaves the components alone until all items are done, and without mappings nothing is queued, so an
item becomes the same in every document with these components. -/

namespace ApiDialect
open Rewriting Value

/-- A reference leads to a component, and a discriminator has no mapping. -/
def Separate (name : String) (value : Value) : Prop :=
  (name = "$ref" → ∀ text, value = .str text → text.startsWith "#/components/") ∧
    (name = "discriminator" → value.get? "mapping" = none)

namespace Separate

/-- What is left of the demand once an item is being converted. -/
def Fine (value : Value) : Prop := ∀ text, value = .str text → text.startsWith "#/components/"

theorem shallow_fine : Shallow Fine := by
  intro first second _ text same
  cases same

theorem of_plain {name : String} {value : Value} (one : name ≠ "$ref") (other : name ≠ "discriminator") :
    Separate name value :=
  ⟨fun same => absurd same one, fun same => absurd same other⟩

theorem queues : Queues Separate (· = .empty) where
  closed := closed_empty
  tags := by
    intro discriminator mapping separate seen
    have bare : Members.get? discriminator "mapping" = none := separate.2 rfl
    cases bare.symm.trans seen

/-- A reference into the components is followed from the components on. -/
theorem follow_eq {text : String} (starts : text.startsWith "#/components/") (resolver : Resolver) :
    ∃ pointer, ∀ members, resolver.follow (.obj members) text =
      match (Members.get? members "components").bind fun components => components.walk? pointer with
      | some target => .ok target
      | none => .error (.unresolvedReference text) := by
  obtain ⟨rest, same⟩ := String.startsWith_string_iff.mp starts
  have joined : text = "#" ++ ("/" ++ ("components" ++ "/" ++ String.ofList rest)) := by
    apply String.toList_inj.mp
    rw [← same]
    simp [String.toList_append]
  have pointer : Pointer.ofFragment ("/" ++ ("components" ++ "/" ++ String.ofList rest)) =
      "components" :: (Text.split '/' (String.ofList rest)).map Pointer.unescape := by
    rw [Pointer.ofFragment_slash, Text.split_append (by decide), List.map_cons]
    rfl
  refine ⟨(Text.split '/' (String.ofList rest)).map Pointer.unescape, fun members => ?_⟩
  unfold Resolver.follow
  conv => lhs; arg 2; rw [joined, Text.strip?_append]
  dsimp only
  rw [Resolver.walk, pointer]
  rfl

variable {first second : Members Value} {components : Option Value}

/-- Two documents with the same components may stand for each other. -/
theorem interchangeable (resolver : Resolver) (one : Members.get? first "components" = components)
    (other : Members.get? second "components" = components)
    (sound : ∀ value, components = some value → Sound Separate value) :
    Interchangeable resolver resolver (.obj first) (.obj second) Separate Fine (· = .empty) where
  shallow := shallow_fine
  refers := fun _ _ separate => separate.1
  leads := by
    intro text target fine found
    obtain ⟨pointer, follows⟩ := follow_eq (fine text rfl) resolver
    rw [follows, one] at found
    cases held : components with
    | none => rw [held] at found; cases found
    | some value =>
      rw [held, Option.bind_some] at found
      cases walked : value.walk? pointer with
      | none => rw [walked] at found; cases found
      | some reached =>
        rw [walked] at found
        cases found
        exact (sound value held).walk? walked
  agree := by
    intro text fine
    obtain ⟨pointer, follows⟩ := follow_eq (fine text rfl) resolver
    rw [follows, follows, one, other]
  may := queues

end Separate

namespace Relocation
variable {limit : Nat} {first second result : Members Value} {relocated : Bool}

theorem definitions_agrees {value : Value} {good : String → Value → Prop} {queues : Queue → Prop}
    (may : Queues good queues) (sound : Sound good value) :
    Agrees queues (definitions limit value) (definitions limit value) := by
  cases value with
  | obj schemas =>
    refine .bind may.closed (.mapM may.closed fun entry member => ?_) fun _ _ => .pure may.closed _
    exact .bind may.closed (Schema.rewrite_agrees may (sound.entry member).2) fun _ _ => .pure may.closed _
  | _ => exact .pure may.closed _

theorem moveSchemas_yields {document mapping : Members Value} (sound : Sound Separate (.obj mapping))
    {pair : Members Value × Members Value} (returned : Returns (moveSchemas limit document mapping) pair)
    (other : Members Value) : ∃ changed, Yields (moveSchemas limit other mapping) (changed, pair.2) := by
  unfold moveSchemas
  rcases moveSchemas_returns returned with ⟨absent, rfl⟩ | ⟨schemas, moved, seen, made, rfl⟩
  · rw [absent]
    exact ⟨_, yields_pure _⟩
  · rw [seen]
    exact ⟨_, Yields.bind ((definitions_agrees Separate.queues (sound.get? seen)).yields made) (yields_pure _)⟩

/-- Whether components can be moved is seen in the components, whatever else the document holds. -/
theorem components_yields (same : Members.get? first "components" = Members.get? second "components")
    (sound : ∀ value, Members.get? first "components" = some value → Sound Separate value)
    (returned : Returns (components limit first) (result, relocated)) :
    ∃ moved, Yields (components limit second) (moved, relocated) := by
  unfold components
  rcases components_returns returned with ⟨absent, rfl, rfl⟩ | ⟨other, seen, plain, rfl, rfl⟩ |
    ⟨mapping, schemed, secured, seen, one, two, rfl, rfl⟩
  · rw [← same, absent]
    exact ⟨_, yields_pure _⟩
  · rw [← same, seen]
    cases other with
    | obj mapping => cases plain
    | _ => exact ⟨_, yields_pure _⟩
  · rw [← same, seen]
    obtain ⟨changed, schemas⟩ := moveSchemas_yields (sound _ seen) one (Members.erase second "components")
    have security : ∃ final, moveSecurity changed schemed.2 = .ok (final, secured.2) := by
      rcases moveSecurity_eq_ok.mp two with ⟨absent, same⟩ | ⟨schemes, moved, found, made, same⟩
      · exact ⟨changed, moveSecurity_eq_ok.mpr (Or.inl ⟨absent, by rw [same]⟩)⟩
      · exact ⟨_, moveSecurity_eq_ok.mpr (Or.inr ⟨schemes, moved, found, made, by rw [same]⟩)⟩
    obtain ⟨final, guarded⟩ := security
    exact ⟨_, schemas.bind ((yields_lift guarded).bind (yields_pure _))⟩

end Relocation
namespace Conversion
namespace Setting
variable {setting : Setting} {document paths items : Members Value} {path : String} {node item : Value}

theorem get?_components_opened (formed : Formed (.obj document)) :
    Members.get? (setting.opened document) "components" = Members.get? document "components" := by
  rw [get?_opened formed.distinct (by decide), if_neg (by decide), if_neg (by decide)]

/-- A document whose items may be converted one by one. -/
structure Apart (document paths : Members Value) : Prop where
  sound : Sound Separate (.obj document)
  here : Members.get? document "paths" = some (.obj paths)

namespace Apart
variable (apart : Apart document paths)
include apart

theorem formed : Formed (.obj document) := formed_iff.mpr apart.sound.wellFormed

theorem pathsOf_eq : pathsOf (setting.opened document) = paths := pathsOf_opened apart.formed.distinct apart.here

theorem distinct : Members.Distinct paths := (apart.sound.get? apart.here).distinct

theorem components {value : Value} (seen : Members.get? (setting.opened document) "components" = some value) :
    Sound Separate value := by
  rw [get?_components_opened apart.formed] at seen
  exact apart.sound.get? seen

theorem sound_node (seen : Members.get? paths path = some node) : Sound Separate node :=
  Sound.get? (apart.sound.get? apart.here) seen

/-- An item becomes the same in every document that has the same components. -/
theorem pathItem_yields {other : Members Value} (seen : Members.get? paths path = some node)
    (same : Members.get? other "components" = Members.get? (setting.opened document) "components")
    (returned : Returns (setting.pathItem (.obj (setting.opened document)) node) item) :
    Yields (setting.pathItem (.obj other) node) item := by
  have interchangeable := Separate.interchangeable setting.resolver rfl same fun value held => apart.components held
  exact (pathItem_agrees interchangeable (apart.sound_node seen)).yields returned

theorem pathItem_returns_from {other : Members Value} (seen : Members.get? paths path = some node)
    (same : Members.get? other "components" = Members.get? (setting.opened document) "components")
    (returned : Returns (setting.pathItem (.obj other) node) item) :
    Returns (setting.pathItem (.obj (setting.opened document)) node) item := by
  have interchangeable := Separate.interchangeable setting.resolver rfl same.symm fun value held =>
    apart.components (same.symm.trans held)
  exact (pathItem_agrees interchangeable (apart.sound_node seen)).returns returned

/-- If every item can be converted on its own, the loop gets through. -/
theorem paths_yield {todo : List String} {current : Members Value} (distinct : todo.Nodup)
    (same : Members.get? current "components" = Members.get? (setting.opened document) "components")
    (waiting : ∀ path ∈ todo, ∃ node item, Members.get? paths path = some node ∧
      Members.get? (pathsOf current) path = some node ∧ Returns (setting.pathItem (.obj (setting.opened document)) node) item) :
    ∃ converted, Yields (todo.foldlM setting.path current) converted := by
  induction todo generalizing current with
  | nil => exact ⟨current, yields_pure _⟩
  | cons path rest ih =>
    obtain ⟨node, item, seen, held, made⟩ := waiting path List.mem_cons_self
    obtain ⟨fresh, others⟩ := List.nodup_cons.mp distinct
    have step : Yields (setting.path current path) (withItem current path item) := by
      unfold Setting.path
      rw [held]
      exact (apart.pathItem_yields seen same made).bind (yields_pure _)
    have still : Members.get? (withItem current path item) "components" = Members.get? (setting.opened document) "components" :=
      (get?_withItem_of_ne (by decide)).trans same
    obtain ⟨converted, remaining⟩ := ih others still fun later member => by
      obtain ⟨other, goal, known, left, turned⟩ := waiting later (List.mem_cons_of_mem _ member)
      refine ⟨other, goal, known, ?_, turned⟩
      rw [pathsOf_withItem held, Members.get?_insert_of_ne]
      · exact left
      · rintro rfl
        exact fresh member
    exact ⟨converted, step.bind remaining⟩

/-- What the loop has made of the items, one by one. -/
theorem paths_items {converted : Members Value}
    (walked : Returns ((pathsOf (setting.opened document)).names.foldlM setting.path (setting.opened document)) converted) :
    (pathsOf converted).names = paths.names ∧ ∀ path node, Members.get? paths path = some node →
      ∃ item, Returns (setting.pathItem (.obj (setting.opened document)) node) item ∧
        Members.get? (pathsOf converted) path = some item := by
  have names : (pathsOf converted).names = paths.names := by rw [(paths_framed walked).paths, apart.pathsOf_eq]
  refine ⟨names, fun path node seen => ?_⟩
  rw [apart.pathsOf_eq] at walked
  obtain ⟨earlier, later, parts⟩ := List.append_of_mem (Members.mem_names_of_get? seen)
  have distinct : paths.names.Nodup := apart.distinct
  rw [parts] at walked distinct
  have start : Members.get? (pathsOf (setting.opened document)) path = some node := by rw [apart.pathsOf_eq, seen]
  obtain ⟨before, item, visited⟩ := paths_visited distinct start walked
  refine ⟨item, apart.pathItem_returns_from seen ?_ visited.made, visited.stop⟩
  exact (paths_framed visited.ran).others "components" (by decide)

/-- The layout depends on nothing but the outcome of each item and of the relocation. -/
theorem layout_yields {moved : Members Value} {relocated : Bool}
    (each : ∀ path node, Members.get? paths path = some node →
      ∃ item, Returns (setting.pathItem (.obj (setting.opened document)) node) item)
    (relocates : Returns (Relocation.components setting.limit (setting.opened document)) (moved, relocated)) :
    ∃ converted result, Yields ((pathsOf (setting.opened document)).names.foldlM setting.path (setting.opened document)) converted ∧
      Yields (Relocation.components setting.limit converted) (result, relocated) ∧
      Yields (setting.layout document) (result, relocated) := by
  have distinct : (pathsOf (setting.opened document)).names.Nodup := by
    rw [apart.pathsOf_eq]
    exact apart.distinct
  obtain ⟨converted, walked⟩ := apart.paths_yield distinct rfl fun path member => by
    rw [apart.pathsOf_eq] at member ⊢
    obtain ⟨node, seen⟩ := Members.exists_get?_of_mem member
    obtain ⟨item, made⟩ := each path node seen
    exact ⟨node, item, seen, seen, made⟩
  have same := (paths_framed walked.returns).others "components" (by decide)
  obtain ⟨result, placed⟩ := Relocation.components_yields same.symm (fun value seen => apart.components seen) relocates
  exact ⟨converted, result, walked, placed, walked.bind placed⟩

end Apart

/-- The paths of a conversion with nothing queued. -/
theorem get?_paths_finish {result : Members Value} {relocated : Bool}
    (seen : Members.get? result "paths" = some (.obj items)) :
    (setting.finish result relocated .empty).document.get? "paths" = some (.obj (readdressed relocated items)) := by
  rw [finish_empty]
  exact get?_readdressed_obj seen

/-- What has become of every item, and whether the components have moved. -/
structure Outcome (setting : Setting) (document paths : Members Value) (relocated : Bool) (items : Members Value) : Prop where
  names : items.names = paths.names
  each : ∀ path node, Members.get? paths path = some node →
    ∃ item, Returns (setting.pathItem (.obj (setting.opened document)) node) item ∧ Members.get? items path = some item
  relocates : ∃ moved, Returns (Relocation.components setting.limit (setting.opened document)) (moved, relocated)

theorem Outcome.converts {relocated : Bool} (outcome : Outcome setting document paths relocated items)
    (seen : Members.get? paths path = some node) :
    ∃ item, Returns (setting.pathItem (.obj (setting.opened document)) node) item := by
  obtain ⟨item, turned, _⟩ := outcome.each path node seen
  exact ⟨item, turned⟩

theorem Apart.convert_of_outcome (apart : Apart document paths) (nonempty : paths ≠ []) {relocated : Bool}
    {moved : Members Value} (each : ∀ path node, Members.get? paths path = some node →
      ∃ item, Returns (setting.pathItem (.obj (setting.opened document)) node) item)
    (relocates : Returns (Relocation.components setting.limit (setting.opened document)) (moved, relocated)) :
    ∃ converted items, setting.convert (.obj document) = .ok converted ∧ Outcome setting document paths relocated items ∧
      converted.document.get? "paths" = some (.obj (readdressed relocated items)) := by
  obtain ⟨walked, result, through, placed, laid⟩ := apart.layout_yields each relocates
  obtain ⟨names, items⟩ := apart.paths_items through.returns
  refine ⟨setting.finish result relocated .empty, pathsOf walked, ?_, ⟨names, items, moved, relocates⟩, ?_⟩
  · unfold convert
    dsimp only
    rw [show (setting.layout document).run.run .empty = (.ok (result, relocated), .empty) from laid]
  · have formed : Formed (.obj walked) := paths_formed (opened_refers apart.formed) through.returns
    apply get?_paths_finish
    rw [Relocation.get?_components formed placed.returns (by decide)]
    obtain ⟨entry, rest, rfl⟩ := List.exists_cons_of_ne_nil nonempty
    obtain ⟨item, _, seen⟩ := items entry.1 entry.2 (by rw [Members.get?_cons, if_pos rfl])
    exact get?_paths_of_mem seen

theorem Apart.outcome_of_convert (apart : Apart document paths) (nonempty : paths ≠ []) {converted : Converted}
    (made : setting.convert (.obj document) = .ok converted) : ∃ relocated items,
      Outcome setting document paths relocated items ∧
        converted.document.get? "paths" = some (.obj (readdressed relocated items)) := by
  obtain ⟨members, walked, result, relocated, queue, same, through, placed, _⟩ := convert_stages made
  cases same
  obtain ⟨_, items⟩ := apart.paths_items through
  have still := (paths_framed through).others "components" (by decide)
  obtain ⟨moved, relocates⟩ := Relocation.components_yields still
    (fun value seen => apart.components (still.symm.trans seen)) placed
  have each : ∀ path node, Members.get? paths path = some node →
      ∃ item, Returns (setting.pathItem (.obj (setting.opened document)) node) item := by
    intro path node seen
    obtain ⟨item, turned, _⟩ := items path node seen
    exact ⟨item, turned⟩
  obtain ⟨again, items, remade, outcome, seen⟩ := apart.convert_of_outcome nonempty each relocates.returns
  cases made.symm.trans remade
  exact ⟨relocated, items, outcome, seen⟩

/-- The document with other items. -/
def withPaths (document other : Members Value) : Members Value := Members.insert document "paths" (.obj other)

/-- The document with one item alone. -/
def onlyPath (document : Members Value) (path : String) (node : Value) : Members Value :=
  withPaths document [(path, node)]

theorem get?_of_only (seen : Members.get? paths path = some node) {name : String} {value : Value}
    (held : Members.get? [(path, node)] name = some value) : Members.get? paths name = some value := by
  cases List.mem_singleton.mp (Members.mem_of_get? held)
  exact seen

namespace Apart
variable {other : Members Value} {relocated : Bool} (apart : Apart document paths)
include apart

theorem withPaths (sound : Sound Separate (.obj other)) : Apart (withPaths document other) other where
  sound := apart.sound.insert (Separate.of_plain (by decide) (by decide)) sound
  here := Members.get?_insert_self ..

theorem get?_components_withPaths (sound : Sound Separate (.obj other)) :
    Members.get? (setting.opened (Setting.withPaths document other)) "components" =
      Members.get? (setting.opened document) "components" := by
  rw [get?_components_opened (apart.withPaths sound).formed, get?_components_opened apart.formed]
  exact Members.get?_insert_of_ne (by decide) _

theorem sound_only (seen : Members.get? paths path = some node) : Sound Separate (.obj [(path, node)]) := by
  have held : Sound Separate (.obj paths) := apart.sound.get? apart.here
  refine sound_obj_iff.mpr ⟨List.nodup_singleton path, fun entry member => ?_⟩
  rw [List.mem_singleton.mp member]
  exact held.entry (Members.mem_of_get? seen)

theorem sound_perm (same : paths.Perm other) : Sound Separate (.obj other) := by
  have held : Sound Separate (.obj paths) := apart.sound.get? apart.here
  exact sound_obj_iff.mpr ⟨apart.distinct.perm same, fun entry member => held.entry (same.mem_iff.mpr member)⟩

theorem item_unique {goal : Value} (seen : Members.get? paths path = some node)
    (one : Returns (setting.pathItem (.obj (setting.opened document)) node) item)
    (two : Returns (setting.pathItem (.obj (setting.opened document)) node) goal) : item = goal := by
  have held {value : Value} (seen : Members.get? (setting.opened document) "components" = some value) : Sound Separate value :=
    apart.components seen
  have interchangeable := Separate.interchangeable setting.resolver rfl rfl fun value seen => held seen
  exact (pathItem_agrees interchangeable (apart.sound_node seen)).returns_unique one two

/-- A document with some of the items is converted too, and each of them becomes what it was. -/
theorem convert_withPaths (sound : Sound Separate (.obj other)) (nonempty : other ≠ [])
    (among : ∀ {path node}, Members.get? other path = some node → Members.get? paths path = some node)
    (each : ∀ path node, Members.get? other path = some node →
      ∃ item, Returns (setting.pathItem (.obj (setting.opened document)) node) item)
    (relocates : ∃ moved, Returns (Relocation.components setting.limit (setting.opened document)) (moved, relocated)) :
    ∃ converted changed, setting.convert (.obj (Setting.withPaths document other)) = .ok converted ∧
      converted.document.get? "paths" = some (.obj (readdressed relocated changed)) ∧ changed.names = other.names ∧
      ∀ path node item, Members.get? other path = some node →
        Returns (setting.pathItem (.obj (setting.opened document)) node) item → Members.get? changed path = some item := by
  have same : Members.get? (setting.opened (Setting.withPaths document other)) "components" =
      Members.get? (setting.opened document) "components" := apart.get?_components_withPaths sound
  obtain ⟨moved, relocates⟩ := relocates
  obtain ⟨result, relocating⟩ := Relocation.components_yields same.symm (fun value seen => apart.components seen) relocates
  obtain ⟨converted, changed, made, outcome, seen⟩ := (apart.withPaths sound).convert_of_outcome nonempty
    (fun path node inside => by
      obtain ⟨item, turned⟩ := each path node inside
      exact ⟨item, (apart.pathItem_yields (among inside) same turned).returns⟩) relocating.returns
  refine ⟨converted, changed, made, seen, outcome.names, fun path node item inside turned => ?_⟩
  obtain ⟨goal, turnedThere, held⟩ := outcome.each path node inside
  have turnedHere := apart.pathItem_returns_from (among inside) same turnedThere
  rw [held, apart.item_unique (among inside) turned turnedHere]

theorem outcome_of_only (seen : Members.get? paths path = some node) {single : Converted}
    (made : setting.convert (.obj (onlyPath document path node)) = .ok single) :
    (∃ item, Returns (setting.pathItem (.obj (setting.opened document)) node) item) ∧
      ∃ relocated moved, Returns (Relocation.components setting.limit (setting.opened document)) (moved, relocated) := by
  have sound := apart.sound_only seen
  have same : Members.get? (setting.opened (onlyPath document path node)) "components" =
      Members.get? (setting.opened document) "components" := apart.get?_components_withPaths sound
  obtain ⟨relocated, items, outcome, _⟩ := (apart.withPaths sound).outcome_of_convert (List.cons_ne_nil _ _) made
  obtain ⟨item, turned, _⟩ := outcome.each path node (by rw [Members.get?_cons, if_pos rfl])
  obtain ⟨moved, relocates⟩ := outcome.relocates
  obtain ⟨result, relocating⟩ := Relocation.components_yields same
    (fun value held => apart.components (same.symm.trans held)) relocates
  exact ⟨⟨item, apart.pathItem_returns_from seen same turned⟩, relocated, result, relocating.returns⟩

end Apart

theorem Apart.convert_only (apart : Apart document paths) {relocated : Bool}
    (outcome : Outcome setting document paths relocated items) (inside : Members.get? paths path = some node) :
    ∃ single changed, setting.convert (.obj (onlyPath document path node)) = .ok single ∧
      single.document.get? "paths" = some (.obj (readdressed relocated changed)) ∧
      Members.get? changed path = Members.get? items path := by
  obtain ⟨single, changed, made, found, _, become⟩ := apart.convert_withPaths (apart.sound_only inside)
    (List.cons_ne_nil _ _) (get?_of_only inside)
    (fun name value held => outcome.converts (get?_of_only inside held)) outcome.relocates
  obtain ⟨item, turned, stands⟩ := outcome.each path node inside
  have first : Members.get? [(path, node)] path = some node := by rw [Members.get?_cons, if_pos rfl]
  exact ⟨single, changed, made, found, (become path node item first turned).trans stands.symm⟩

theorem Apart.converts_iff (apart : Apart document paths) (nonempty : paths ≠ []) :
    (∃ converted, setting.convert (.obj document) = .ok converted) ↔
      ∀ path node, Members.get? paths path = some node →
        ∃ single, setting.convert (.obj (onlyPath document path node)) = .ok single := by
  constructor
  · rintro ⟨converted, made⟩ path node seen
    obtain ⟨relocated, items, outcome, _⟩ := apart.outcome_of_convert nonempty made
    obtain ⟨single, _, remade, _⟩ := apart.convert_only outcome seen
    exact ⟨single, remade⟩
  · intro singles
    have each : ∀ path node, Members.get? paths path = some node →
        ∃ item, Returns (setting.pathItem (.obj (setting.opened document)) node) item := by
      intro path node seen
      obtain ⟨single, made⟩ := singles path node seen
      exact (apart.outcome_of_only seen made).1
    obtain ⟨⟨path, node⟩, rest, rfl⟩ := List.exists_cons_of_ne_nil nonempty
    have seen : Members.get? ((path, node) :: rest) path = some node := by rw [Members.get?_cons, if_pos rfl]
    obtain ⟨single, made⟩ := singles path node seen
    obtain ⟨_, relocated, moved, relocates⟩ := apart.outcome_of_only seen made
    obtain ⟨converted, _, remade, _⟩ := apart.convert_of_outcome nonempty each relocates
    exact ⟨converted, remade⟩

/-- An item becomes what it becomes on its own. -/
theorem Apart.walk?_only (apart : Apart document paths) {relocated : Bool} (outcome : Outcome setting document paths relocated items)
    (inside : Members.get? paths path = some node) {single : Converted}
    (alone : setting.convert (.obj (onlyPath document path node)) = .ok single) :
    ∃ item, single.document.walk? ["paths", path] = some item ∧ Members.get? (readdressed relocated items) path = some item := by
  obtain ⟨again, changed, remade, found, same⟩ := apart.convert_only outcome inside
  cases alone.symm.trans remade
  have same : Members.get? (readdressed relocated changed) path = Members.get? (readdressed relocated items) path :=
    get?_readdressed same
  obtain ⟨item, _, held⟩ := outcome.each path node inside
  have named : path ∈ (readdressed relocated items).names := by
    rw [names_readdressed]
    exact Members.mem_names_of_get? held
  obtain ⟨final, stands⟩ := Members.exists_get?_of_mem named
  refine ⟨final, ?_, stands⟩
  rw [walk?_of_get? found, Value.walk?, Value.child?, same, stands]
  rfl

/-- Other items in another order, and every item is the same. -/
theorem Apart.convert_perm (apart : Apart document paths) (nonempty : paths ≠ []) {relocated : Bool}
    (outcome : Outcome setting document paths relocated items) {other : Members Value} (same : paths.Perm other) :
    ∃ (permuted : Converted) (rearranged : Members Value),
      setting.convert (.obj (Setting.withPaths document other)) = .ok permuted ∧
      permuted.document.get? "paths" = some (.obj rearranged) ∧ rearranged.names = other.names ∧
      (readdressed relocated items).Perm rearranged := by
  have seen := fun name => apart.distinct.get?_perm same name
  have filled : other ≠ [] := by
    rintro rfl
    exact nonempty same.eq_nil
  obtain ⟨permuted, rearranged, remade, found, names, become⟩ := apart.convert_withPaths (apart.sound_perm same) filled
    (fun {name _} held => (seen name).trans held) (fun name value held => outcome.converts ((seen name).trans held))
    outcome.relocates
  refine ⟨permuted, readdressed relocated rearranged, remade, found, (names_readdressed _ _).trans names, ?_⟩
  have distinct : Members.Distinct (readdressed relocated items) :=
    readdressed_distinct (outcome.names ▸ apart.distinct : items.names.Nodup)
  have single : Members.Distinct (readdressed relocated rearranged) :=
    readdressed_distinct (names ▸ apart.distinct.perm same : rearranged.names.Nodup)
  refine distinct.perm_of_get? single fun name => get?_readdressed ?_
  cases held : Members.get? paths name with
  | none =>
    have one : Members.get? items name = none := by
      rw [Members.get?_eq_none_iff, outcome.names, ← Members.get?_eq_none_iff, held]
    have two : Members.get? rearranged name = none := by
      rw [Members.get?_eq_none_iff, names, ← Members.get?_eq_none_iff, ← seen, held]
    rw [one, two]
  | some node =>
    obtain ⟨item, turned, stands⟩ := outcome.each name node held
    rw [stands, become name node item ((seen name).symm.trans held) turned]

/-- Path items that only refer to components are converted independently: all can be converted when
each of them can on its own, each becomes what it becomes on its own, and their order does not matter. -/
theorem convert_independent (formed : (Value.obj document).WellFormed)
    (separate : (Value.obj document).EveryMember Separate) (here : Members.get? document "paths" = some (.obj paths))
    (nonempty : paths ≠ []) :
    ((∃ converted, setting.convert (.obj document) = .ok converted) ↔
      ∀ path node, Members.get? paths path = some node →
        ∃ single, setting.convert (.obj (onlyPath document path node)) = .ok single) ∧
    ∀ converted, setting.convert (.obj document) = .ok converted → ∃ items : Members Value,
      converted.document.get? "paths" = some (.obj items) ∧ items.names = paths.names ∧
      (∀ path node single, Members.get? paths path = some node →
        setting.convert (.obj (onlyPath document path node)) = .ok single →
        ∃ item, single.document.walk? ["paths", path] = some item ∧ Members.get? items path = some item) ∧
      ∀ other : Members Value, paths.Perm other → ∃ (permuted : Converted) (rearranged : Members Value),
        setting.convert (.obj (withPaths document other)) = .ok permuted ∧
        permuted.document.get? "paths" = some (.obj rearranged) ∧ rearranged.names = other.names ∧
        items.Perm rearranged := by
  have apart : Apart document paths := ⟨⟨formed, separate⟩, here⟩
  refine ⟨apart.converts_iff nonempty, fun converted made => ?_⟩
  obtain ⟨relocated, items, outcome, seen⟩ := apart.outcome_of_convert nonempty made
  refine ⟨readdressed relocated items, seen, (names_readdressed _ _).trans outcome.names, ?_, ?_⟩
  · intro path node single inside alone
    exact apart.walk?_only outcome inside alone
  · intro other same
    exact apart.convert_perm nonempty outcome same

def limitReference : Value := .obj [("$ref", .str "#/components/parameters/Limit")]

def browsed : Value :=
  .obj [("get", .obj [("parameters", .arr [limitReference]), ("responses", .obj [])])]

def ordered : Value :=
  .obj [("parameters", .arr [limitReference]), ("post", .obj [("responses", .obj [
    ("200", .obj [("$ref", .str "#/components/responses/Done")])])])]

def twoDesks : Members Value :=
  [("openapi", .str "3.0.0"), ("paths", .obj [("/browse", browsed), ("/order", ordered)]),
    ("components", .obj [
      ("parameters", .obj [("Limit", .obj [("name", .str "limit"), ("in", .str "query"),
        ("schema", .obj [("type", .str "integer")])])]),
      ("responses", .obj [("Done", .obj [("description", .str "done")])])])]

theorem twoDesks_separate : (Value.obj twoDesks).EveryMember Separate := by
  have every : ∀ fine : String → Value → Prop, (∀ name value, name ≠ "$ref" → name ≠ "discriminator" → fine name value) →
      fine "$ref" (.str "#/components/parameters/Limit") → fine "$ref" (.str "#/components/responses/Done") →
      (Value.obj twoDesks).EveryMember fine := by
    intro fine plain limit done
    simp [twoDesks, browsed, ordered, limitReference, EveryMember, EveryMemberOfMembers, EveryMemberOfItems, limit, done,
      plain]
  refine every _ (fun _ _ => Separate.of_plain) ⟨?_, fun impossible => absurd impossible (by decide)⟩
    ⟨?_, fun impossible => absurd impossible (by decide)⟩
  · rintro _ text ⟨⟩
    decide +kernel
  · rintro _ text ⟨⟩
    decide +kernel

def limitParameter : Value :=
  .obj [("name", .str "limit"), ("in", .str "query"), ("type", .str "integer")]

def convertedDesks : Members Value :=
  [("/browse", .obj [("get", .obj [("parameters", .arr [limitParameter]), ("responses", .obj [])])]),
    ("/order", .obj [("parameters", .arr [limitParameter]), ("post", .obj [
      ("responses", .obj [("200", .obj [("description", .str "done")])]), ("parameters", .arr [])])])]

def convertedTwoDesks : Value :=
  .obj [("swagger", .str "2.0"), ("paths", .obj convertedDesks), ("x-components", .obj [
    ("parameters", .obj [("Limit", .obj [("name", .str "limit"), ("in", .str "query"),
      ("schema", .obj [("type", .str "integer")])])]),
    ("responses", .obj [("Done", .obj [("description", .str "done")])])])]

theorem twoDesks_converts :
    Setting.convert ⟨⟨none, Files.none⟩, 10⟩ (.obj twoDesks) = .ok ⟨convertedTwoDesks, []⟩ := by
  decide +kernel

theorem twoDesks_independent :
    (∃ single, Setting.convert ⟨⟨none, Files.none⟩, 10⟩ (.obj (onlyPath twoDesks "/order" ordered)) = .ok single ∧
      single.document.walk? ["paths", "/order"] = Members.get? convertedDesks "/order") ∧
    ∃ (permuted : Converted) (rearranged : Members Value),
      Setting.convert ⟨⟨none, Files.none⟩, 10⟩
        (.obj (withPaths twoDesks [("/order", ordered), ("/browse", browsed)])) = .ok permuted ∧
      permuted.document.get? "paths" = some (.obj rearranged) ∧ rearranged.names = ["/order", "/browse"] ∧
      convertedDesks.Perm rearranged := by
  obtain ⟨converts, independent⟩ := convert_independent (by decide) twoDesks_separate rfl (List.cons_ne_nil _ _)
  obtain ⟨items, seen, names, singles, permuted⟩ := independent _ twoDesks_converts
  cases seen
  obtain ⟨single, alone⟩ := converts.mp ⟨_, twoDesks_converts⟩ "/order" ordered rfl
  obtain ⟨item, found, stands⟩ := singles "/order" ordered single rfl alone
  exact ⟨⟨single, alone, found.trans stands.symm⟩, permuted _ (List.Perm.swap _ _ _)⟩

end Setting
end Conversion
end ApiDialect
