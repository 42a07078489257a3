import ApiDialect.Conversion
import ApiDialect.Proofs.OperationSteps
import ApiDialect.Proofs.Members

/-! What the conversion of a path item can do, and what the loop over all path items makes of the
document: one entry after another is replaced, and nothing outside the paths changes. -/

namespace ApiDialect
namespace Conversion
open Rewriting

namespace Method

theorem key_injective : Function.Injective key := by
  intro first second same
  cases first <;> cases second <;> first | rfl | exact absurd same (by decide)

theorem mem_all (method : Method) : method ∈ all := by
  cases method <;> decide

theorem nodup_all : all.Nodup := by decide

theorem key_ne_parameters (method : Method) : method.key ≠ "parameters" := by
  cases method <;> decide

theorem key_ne_ref (method : Method) : method.key ≠ "$ref" := by
  cases method <;> decide

end Method

namespace Setting
variable {setting : Setting} {root node result : Value} {item document : Members Value}

theorem operation_returns {members converted : Members Value}
    (returned : Returns (setting.operation root members) converted) :
    ∃ bodiless, Returns (RequestBody.Setting.rewriteOperation ⟨setting.resolver, setting.limit, root⟩ members)
        bodiless ∧
      Returns (Response.Setting.rewriteResponses ⟨setting.resolver, setting.limit, root⟩ bodiless) converted := by
  unfold operation at returned
  exact returned.bind

theorem operationNode_returns (returned : Returns (setting.operationNode root node) result) :
    ∃ target, setting.resolver.resolve root node = .ok target ∧
      ((target.members? = none ∧ result = target) ∨
        ∃ members converted, target = .obj members ∧ Returns (setting.operation root members) converted ∧
          result = .obj converted) := by
  unfold operationNode at returned
  obtain ⟨target, found, returned⟩ := returned.bind
  refine ⟨target, returns_lift.mp found, ?_⟩
  cases target with
  | obj members =>
    obtain ⟨converted, made, returned⟩ := returned.bind
    exact Or.inr ⟨members, converted, rfl, made, returns_pure.mp returned⟩
  | _ => exact Or.inl ⟨rfl, returns_pure.mp returned⟩

theorem method_returns {method : Method} {converted : Members Value}
    (returned : Returns (setting.method root item method) converted) :
    (Members.get? item method.key = none ∧ converted = item) ∨
    ∃ node operation, Members.get? item method.key = some node ∧
      Returns (setting.operationNode root node) operation ∧
      converted = Members.insert item method.key operation := by
  unfold Setting.method at returned
  split at returned
  next absent => exact Or.inl ⟨absent, returns_pure.mp returned⟩
  next node seen =>
    obtain ⟨operation, made, returned⟩ := returned.bind
    exact Or.inr ⟨node, operation, seen, made, returns_pure.mp returned⟩

/-- A method's entry before and after its conversion. -/
def Turned (setting : Setting) (root : Value) (before after : Option Value) : Prop :=
  (before = none ∧ after = none) ∨
    ∃ node operation, before = some node ∧ Returns (setting.operationNode root node) operation ∧
      after = some operation

theorem method_turned {method : Method} {converted : Members Value}
    (returned : Returns (setting.method root item method) converted) :
    Turned setting root (Members.get? item method.key) (Members.get? converted method.key) ∧
      ∀ name, name ≠ method.key → Members.get? converted name = Members.get? item name := by
  rcases method_returns returned with ⟨absent, rfl⟩ | ⟨node, operation, seen, made, rfl⟩
  · exact ⟨Or.inl ⟨absent, absent⟩, fun _ _ => rfl⟩
  · refine ⟨Or.inr ⟨node, operation, seen, made, Members.get?_insert_self ..⟩, fun name other => ?_⟩
    exact Members.get?_insert_of_ne other.symm _

/-- Every method is converted on its own: a step changes one entry, and no two methods share one. -/
theorem methods_turned {methods : List Method} {converted : Members Value} (distinct : methods.Nodup)
    (returned : Returns (methods.foldlM (setting.method root) item) converted) :
    (∀ method ∈ methods,
      Turned setting root (Members.get? item method.key) (Members.get? converted method.key)) ∧
    ∀ name, (∀ method ∈ methods, name ≠ method.key) → Members.get? converted name = Members.get? item name := by
  induction methods generalizing item with
  | nil =>
    cases returns_pure.mp returned
    exact ⟨fun _ member => (by cases member), fun _ _ => rfl⟩
  | cons method rest ih =>
    obtain ⟨middle, first, last⟩ := returned.foldlM_cons
    obtain ⟨fresh, others⟩ := List.nodup_cons.mp distinct
    obtain ⟨turned, frame⟩ := method_turned first
    obtain ⟨each, outer⟩ := ih others last
    have apart : ∀ other ∈ rest, other.key ≠ method.key := fun other member same =>
      fresh (Method.key_injective same ▸ member)
    refine ⟨fun other member => ?_, fun name outside => ?_⟩
    · rcases List.mem_cons.mp member with rfl | member
      · rwa [outer _ fun other member => (apart other member).symm]
      · rw [← frame _ (apart other member)]
        exact each other member
    · rw [outer name fun other member => outside other (List.mem_cons_of_mem _ member),
        frame name (outside method List.mem_cons_self)]

theorem pathItem_returns (returned : Returns (setting.pathItem root node) result) :
    ∃ target, setting.resolver.resolve root node = .ok target ∧
      ((target.members? = none ∧ result = target) ∨
        ∃ item listed converted, target = .obj item ∧
          Parameter.rewriteAll setting.resolver root item = .ok listed ∧
          Returns (Method.all.foldlM (setting.method root) listed) converted ∧ result = .obj converted) := by
  unfold pathItem at returned
  obtain ⟨target, found, returned⟩ := returned.bind
  refine ⟨target, returns_lift.mp found, ?_⟩
  cases target with
  | obj item =>
    obtain ⟨listed, made, returned⟩ := returned.bind
    obtain ⟨converted, all, returned⟩ := returned.bind
    exact Or.inr ⟨item, listed, converted, rfl, returns_lift.mp made, all, returns_pure.mp returned⟩
  | _ => exact Or.inl ⟨rfl, returns_pure.mp returned⟩

/-- The document with another item under a path. -/
def withItem (document : Members Value) (path : String) (item : Value) : Members Value :=
  Members.modify document "paths" fun _ => .obj (Members.insert (pathsOf document) path item)

theorem path_returns {path : String} {result : Members Value} (returned : Returns (setting.path document path) result) :
    (Members.get? (pathsOf document) path = none ∧ result = document) ∨
    ∃ node item, Members.get? (pathsOf document) path = some node ∧
      Returns (setting.pathItem (.obj document) node) item ∧ result = withItem document path item := by
  unfold Setting.path at returned
  split at returned
  next absent => exact Or.inl ⟨absent, returns_pure.mp returned⟩
  next node seen =>
    obtain ⟨item, made, returned⟩ := returned.bind
    exact Or.inr ⟨node, item, seen, made, returns_pure.mp returned⟩

/-- Only an object has paths. -/
theorem get?_paths_of_mem {path : String} {item : Value} (seen : Members.get? (pathsOf document) path = some item) :
    Members.get? document "paths" = some (.obj (pathsOf document)) := by
  unfold pathsOf at seen ⊢
  split
  next paths same => exact same
  next other =>
    split at seen
    next paths same => exact absurd same (other paths)
    next => cases seen

theorem pathsOf_withItem {path : String} {item old : Value} (seen : Members.get? (pathsOf document) path = some old) :
    pathsOf (withItem document path item) = Members.insert (pathsOf document) path item := by
  have whole : Members.get? (withItem document path item) "paths" =
      some (.obj (Members.insert (pathsOf document) path item)) := by
    rw [withItem, Members.get?_modify, if_pos rfl, get?_paths_of_mem seen, Option.map_some]
  generalize Members.insert (pathsOf document) path item = changed at whole
  unfold pathsOf
  rw [whole]

theorem get?_withItem_of_ne {path name : String} {item : Value} (other : name ≠ "paths") :
    Members.get? (withItem document path item) name = Members.get? document name := by
  rw [withItem, Members.get?_modify, if_neg other.symm]

/-- What a run over some of the paths leaves alone. -/
structure Framed (todo : List String) (document result : Members Value) : Prop where
  names : result.names = document.names
  others : ∀ name, name ≠ "paths" → Members.get? result name = Members.get? document name
  paths : (pathsOf result).names = (pathsOf document).names
  items : ∀ path, path ∉ todo → Members.get? (pathsOf result) path = Members.get? (pathsOf document) path

theorem Framed.refl (todo : List String) (document : Members Value) : Framed todo document document :=
  ⟨rfl, fun _ _ => rfl, rfl, fun _ _ => rfl⟩

theorem Framed.trans {todo : List String} {first second third : Members Value}
    (one : Framed todo first second) (other : Framed todo second third) : Framed todo first third :=
  ⟨other.names.trans one.names, fun name apart => (other.others name apart).trans (one.others name apart),
    other.paths.trans one.paths, fun path outside => (other.items path outside).trans (one.items path outside)⟩

theorem path_framed {path : String} {result : Members Value} {todo : List String} (inside : path ∈ todo)
    (returned : Returns (setting.path document path) result) : Framed todo document result := by
  rcases path_returns returned with ⟨_, rfl⟩ | ⟨node, item, seen, _, rfl⟩
  · exact .refl _ _
  · refine ⟨Members.names_modify .., fun name other => get?_withItem_of_ne other, ?_, fun path' outside => ?_⟩
    · rw [pathsOf_withItem seen, Members.names_insert, if_pos (Members.mem_names_of_get? seen)]
    · rw [pathsOf_withItem seen, Members.get?_insert_of_ne]
      rintro rfl
      exact outside inside

theorem paths_framed {todo : List String} {result : Members Value}
    (returned : Returns (todo.foldlM setting.path document) result) : Framed todo document result :=
  returned.foldlM_keeps (Framed todo document)
    (fun _ _ _ inside framed step => framed.trans (path_framed inside step)) (.refl _ _)

/-- How a path got its item: from what stood there at the start, in a document in which the paths
before it have been converted. -/
structure Visited (setting : Setting) (earlier : List String) (document result : Members Value) (path : String)
    (before : Members Value) (node item : Value) : Prop where
  ran : Returns (earlier.foldlM setting.path document) before
  start : Members.get? (pathsOf document) path = some node
  made : Returns (setting.pathItem (.obj before) node) item
  stop : Members.get? (pathsOf result) path = some item

theorem paths_visited {earlier later : List String} {path : String} {result : Members Value} {node : Value}
    (distinct : (earlier ++ path :: later).Nodup) (start : Members.get? (pathsOf document) path = some node)
    (returned : Returns ((earlier ++ path :: later).foldlM setting.path document) result) :
    ∃ before item, Visited setting earlier document result path before node item := by
  rw [List.foldlM_append] at returned
  obtain ⟨before, ran, returned⟩ := returned.bind
  obtain ⟨after, step, last⟩ := returned.foldlM_cons
  obtain ⟨_, tail, apart⟩ := List.nodup_append.mp distinct
  have fresh : path ∉ earlier := fun member => apart path member path List.mem_cons_self rfl
  have still : Members.get? (pathsOf before) path = some node := ((paths_framed ran).items path fresh).trans start
  rcases path_returns step with ⟨absent, _⟩ | ⟨held, item, seen, made, rfl⟩
  · cases absent.symm.trans still
  · cases seen.symm.trans still
    refine ⟨before, item, ran, start, made, ?_⟩
    rw [(paths_framed last).items path (List.nodup_cons.mp tail).1, pathsOf_withItem seen,
      Members.get?_insert_self]

end Setting
end Conversion
end ApiDialect
