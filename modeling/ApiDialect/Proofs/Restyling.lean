import ApiDialect.Proofs.Reconversion

/-! Items are compared in the finished document, where references have been put right. That hides no
difference and leaves every place settled that was; what is left to compare is how arrays are written. -/

namespace ApiDialect
open Value

namespace Parameter
open Relocation
variable {node : Value} {parameter owner : Members Value}

theorem textAt?_referencesOfMembers {name : String} (other : name ≠ "$ref") (members : Members Value) :
    textAt? (referencesOfMembers members) name = textAt? members name := by
  unfold textAt?
  rw [get?_referencesOfMembers]
  cases Members.get? members name with
  | none => rfl
  | some value =>
    rw [Option.map_some, Option.bind_some, Option.bind_some, member_of_ne other]
    cases value <;> rfl

theorem restyledNode_commutes : Commutes restyledNode := by
  intro node
  cases node with
  | obj parameter =>
    refine congrArg Value.obj ?_
    unfold restyled
    rw [textAt?_referencesOfMembers (by decide)]
    split
    next => rw [erase_referencesOfMembers, ← insert_referencesOfMembers (by decide)]; rfl
    next => rfl
  | _ => rfl

theorem restyledList_commutes : Commutes restyledList := by
  intro value
  cases value with
  | arr nodes =>
    refine congrArg Value.arr ?_
    rw [referencesOfItems_eq_map, referencesOfItems_eq_map, List.map_map, List.map_map]
    exact List.map_congr_left fun node _ => restyledNode_commutes node
  | _ => rfl

/-- A parameter that is an array says that it is written with commas. -/
def Commas (node : Value) : Prop :=
  ∀ parameter, node = .obj parameter → textAt? parameter "type" = some "array" →
    Members.get? parameter "collectionFormat" = some (.str "csv")

def ListsCommas (owner : Members Value) : Prop :=
  ∀ nodes, Members.get? owner "parameters" = some (.arr nodes) → ∀ node ∈ nodes, Commas node

theorem alike_restyledNode_iff (formed : Formed node) : Alike node (restyledNode node) ↔ Commas node := by
  cases node with
  | obj parameter =>
    have distinct : Members.Distinct parameter := formed.distinct
    rw [restyledNode, alike_obj_iff]
    unfold restyled
    constructor
    · rintro each _ ⟨⟩ array
      have alike := each "collectionFormat"
      rw [if_pos array, Members.get?_insert_self] at alike
      generalize Members.get? parameter "collectionFormat" = held at alike
      cases alike with
      | some alike => rw [alike.eq_str]
    · intro commas name
      split
      next array =>
        by_cases same : "collectionFormat" = name
        · subst same
          rw [commas parameter rfl array, Members.get?_insert_self]
          exact .some (.refl _)
        · rw [Members.get?_insert_of_ne same, distinct.get?_erase_of_ne same]
          exact alike_obj_iff.mp (.refl _) name
      next => exact alike_obj_iff.mp (.refl _) name
  | _ => exact ⟨fun _ _ impossible => (by cases impossible), fun _ => .refl _⟩

theorem alike_restyledList_iff {value : Value} (formed : Formed value) :
    Alike value (restyledList value) ↔ ∀ nodes, value = .arr nodes → ∀ node ∈ nodes, Commas node := by
  cases value with
  | arr nodes =>
    rw [restyledList, alike_map_iff]
    constructor
    · rintro each _ ⟨⟩ node member
      exact (alike_restyledNode_iff (Sound.item formed member)).mp (each node member)
    · exact fun each node member => (alike_restyledNode_iff (Sound.item formed member)).mpr (each nodes rfl node member)
  | _ => exact ⟨fun _ _ impossible => (by cases impossible), fun _ => .refl _⟩

end Parameter

namespace Conversion
open Relocation
variable {item : Members Value}

theorem restyledOperation_commutes : Commutes restyledOperation := by
  intro node
  cases node with
  | obj operation =>
    exact congrArg Value.obj (modify_referencesOfMembers (by decide) Parameter.restyledList_commutes operation)
  | _ => rfl

theorem restyledItem_referencesOfMembers (item : Members Value) :
    restyledItem (referencesOfMembers item) = referencesOfMembers (restyledItem item) := by
  refine modifyEach_referencesOfMembers (fun change member => ?_) item
  rcases List.mem_cons.mp member with rfl | member
  · exact ⟨by decide, Parameter.restyledList_commutes⟩
  · obtain ⟨method, _, rfl⟩ := List.mem_map.mp member
    exact ⟨Method.key_ne_ref method, restyledOperation_commutes⟩

/-- All arrays among the parameters of an item say that they are written with commas. -/
structure CommasItem (item : Members Value) : Prop where
  listed : Parameter.ListsCommas item
  operations : ∀ method : Method, ∀ operation, Members.get? item method.key = some (.obj operation) →
    Parameter.ListsCommas operation

theorem alike_restyledOperation_iff {node : Value} (formed : Formed node) : Alike node (restyledOperation node) ↔
    ∀ operation, node = .obj operation → Parameter.ListsCommas operation := by
  cases node with
  | obj operation =>
    have single : Members.Distinct [("parameters", Parameter.restyledList)] := List.nodup_singleton _
    refine (alike_modifyEach_iff single).trans ?_
    constructor
    · rintro each _ ⟨⟩ nodes seen
      exact (Parameter.alike_restyledList_iff (Sound.get? formed seen)).mp (each "parameters" _ rfl _ seen) nodes rfl
    · intro commas name change held child seen
      cases List.mem_singleton.mp (Members.mem_of_get? held)
      refine (Parameter.alike_restyledList_iff (Sound.get? formed seen)).mpr ?_
      rintro nodes rfl
      exact commas operation rfl nodes seen
  | _ => exact ⟨fun _ _ impossible => (by cases impossible), fun _ => .refl _⟩

theorem alike_restyledItem_iff (formed : Formed (.obj item)) :
    Alike (.obj item) (.obj (restyledItem item)) ↔ CommasItem item := by
  have distinct : Members.Distinct (("parameters", Parameter.restyledList) :: restylings Method.all) := by
    unfold Members.Distinct
    decide
  refine (alike_modifyEach_iff distinct).trans ?_
  constructor
  · refine fun each => ⟨fun nodes seen => ?_, fun method operation seen => ?_⟩
    · exact (Parameter.alike_restyledList_iff (Sound.get? formed seen)).mp (each "parameters" _ rfl _ seen) nodes rfl
    · have held : Members.get? (("parameters", Parameter.restyledList) :: restylings Method.all) method.key =
          some restyledOperation := distinct.get?_of_mem (List.mem_cons_of_mem _ (List.mem_map_of_mem (Method.mem_all method)))
      exact (alike_restyledOperation_iff (Sound.get? formed seen)).mp (each _ _ held _ seen) operation rfl
  · intro commas name change held child seen
    rcases List.mem_cons.mp (Members.mem_of_get? held) with same | member
    · cases same
      refine (Parameter.alike_restyledList_iff (Sound.get? formed seen)).mpr ?_
      rintro nodes rfl
      exact commas.listed nodes seen
    · obtain ⟨method, _, same⟩ := List.mem_map.mp member
      cases same
      refine (alike_restyledOperation_iff (Sound.get? formed seen)).mpr ?_
      rintro operation rfl
      exact commas.operations method operation seen

end Conversion

/-! A reference is still one after it has been put right. -/

namespace Relocation
variable {members : Members Value}

theorem reference?_of_member {name : String} {value : Value} (settled : (member name value (references value)).reference? = none) :
    value.reference? = none := by
  cases value with
  | obj members =>
    change (Members.get? (referencesOfMembers members) "$ref").bind Value.text? = none at settled
    rw [get?_referencesOfMembers] at settled
    change (Members.get? members "$ref").bind Value.text? = none
    cases seen : Members.get? members "$ref" with
    | none => rfl
    | some held =>
      rw [seen] at settled
      cases held with
      | str text => cases settled
      | _ => rfl
  | _ => rfl

theorem mem_referencesOfMembers {entry : String × Value} (inside : entry ∈ members) :
    (entry.1, member entry.1 entry.2 (references entry.2)) ∈ referencesOfMembers members := by
  rw [referencesOfMembers_eq_mapValues]
  exact List.mem_map_of_mem inside

theorem get?_references_obj {name : String} {inner : Members Value} (seen : Members.get? members name = some (.obj inner)) :
    Members.get? (referencesOfMembers members) name = some (.obj (referencesOfMembers inner)) := by
  rw [get?_referencesOfMembers, seen]
  rfl

theorem listsSettled (settled : Parameter.ListsSettled (referencesOfMembers members)) : Parameter.ListsSettled members := by
  intro nodes seen node inside
  have found : Members.get? (referencesOfMembers members) "parameters" = some (.arr (nodes.map references)) := by
    rw [get?_referencesOfMembers, seen, ← referencesOfItems_eq_map]
    rfl
  have plain := settled _ found (references node) (List.mem_map_of_mem inside)
  rw [← member_of_ne (by decide : "parameters" ≠ "$ref")] at plain
  exact reference?_of_member plain

theorem headersSettled (settled : Response.HeadersSettled (referencesOfMembers members)) : Response.HeadersSettled members := by
  intro headers seen entry inside
  exact reference?_of_member (settled _ (get?_references_obj seen) _ (mem_referencesOfMembers inside))

theorem answersSettled (settled : Response.Setting.AnswersSettled (referencesOfMembers members)) :
    Response.Setting.AnswersSettled members := by
  intro responses seen entry inside
  obtain ⟨plain, headers⟩ := settled _ (get?_references_obj seen) _ (mem_referencesOfMembers inside)
  refine ⟨reference?_of_member plain, fun response is => headersSettled (headers _ ?_)⟩
  rw [is]
  rfl

theorem settledItem (settled : Conversion.SettledItem (referencesOfMembers members)) : Conversion.SettledItem members := by
  refine ⟨listsSettled settled.listed, fun method node seen => ?_⟩
  have found : Members.get? (referencesOfMembers members) method.key =
      some (member method.key node (references node)) := by
    rw [get?_referencesOfMembers, seen]
    rfl
  obtain ⟨plain, inner⟩ := settled.operations method _ found
  refine ⟨reference?_of_member plain, fun operation is => ?_⟩
  have held := inner (referencesOfMembers operation) (by rw [is]; rfl)
  exact ⟨listsSettled held.listed, answersSettled held.answers⟩

end Relocation
end ApiDialect
