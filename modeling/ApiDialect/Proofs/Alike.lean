import ApiDialect.Proofs.Marks

/-! Values that say the same in another order, and changes that are made to some members of an
object. Putting references right goes together with every change that knows nothing of them. -/

namespace ApiDialect
open Value

namespace Members
variable {α : Type} {members : Members α} {name : String}

/-- Changes the values under several names. -/
def modifyEach (changes : Members (α → α)) (members : Members α) : Members α :=
  changes.foldl (fun members change => modify members change.1 change.2) members

theorem get?_modifyEach {changes : Members (α → α)} (distinct : Distinct changes) (members : Members α) (name : String) :
    get? (modifyEach changes members) name = (get? members name).map ((get? changes name).getD id) := by
  unfold modifyEach
  induction changes generalizing members with
  | nil => simp
  | cons change rest ih =>
    obtain ⟨first, change⟩ := change
    obtain ⟨absent, distinct⟩ := distinct_cons_iff.mp distinct
    rw [List.foldl_cons, ih distinct, get?_modify, get?_cons]
    split
    next same =>
      subst same
      rw [get?_eq_none_iff.mpr absent]
      simp
    next => rfl

/-- A change that leaves the value as it is changes nothing. -/
theorem modify_of_forall {change : α → α} (same : ∀ value, get? members name = some value → change value = value) :
    modify members name change = members := by
  cases seen : get? members name with
  | none =>
    clear same
    induction members with
    | nil => rfl
    | cons entry rest ih =>
      obtain ⟨first, held⟩ := entry
      rw [get?_cons] at seen
      split at seen
      next => cases seen
      next different => simp [modify, different, ih seen]
  | some value => rw [modify_eq_insert seen, same value seen, insert_of_get? seen]

/-- Every value changed in a way that may depend on its name. -/
def mapValues {β : Type} (change : String → α → β) (members : Members α) : Members β :=
  members.map fun entry => (entry.1, change entry.1 entry.2)

theorem erase_mapValues {β : Type} (change : String → α → β) (members : Members α) (name : String) :
    erase (mapValues change members) name = mapValues change (erase members name) := by
  induction members with
  | nil => rfl
  | cons entry rest ih =>
    obtain ⟨first, held⟩ := entry
    simp only [mapValues, List.map_cons, erase] at ih ⊢
    split
    next =>
      rw [List.getLast?_map]
      cases rest.getLast? <;> simp
    next => rw [ih, List.map_cons]

theorem insert_mapValues {β : Type} (change : String → α → β) (members : Members α) (name : String) (value : α) :
    insert (mapValues change members) name (change name value) = mapValues change (insert members name value) := by
  induction members with
  | nil => rfl
  | cons entry rest ih =>
    obtain ⟨first, held⟩ := entry
    simp only [mapValues, List.map_cons, insert] at ih ⊢
    split
    next same => rw [List.map_cons, same]
    next => rw [ih, List.map_cons]

theorem modify_mapValues {change : String → α → α} {step : α → α} {name : String}
    (commute : ∀ value, step (change name value) = change name (step value)) (members : Members α) :
    modify (mapValues change members) name step = mapValues change (modify members name step) := by
  induction members with
  | nil => rfl
  | cons entry rest ih =>
    obtain ⟨first, held⟩ := entry
    simp only [mapValues, List.map_cons, modify] at ih ⊢
    split
    next same =>
      subst same
      rw [List.map_cons, commute]
    next => rw [ih, List.map_cons]

theorem get?_mapValues {β : Type} (change : String → α → β) (members : Members α) (name : String) :
    get? (mapValues change members) name = (get? members name).map (change name) := by
  induction members with
  | nil => rfl
  | cons entry rest ih =>
    obtain ⟨first, held⟩ := entry
    simp only [mapValues, List.map_cons, get?] at ih ⊢
    split
    next same => rw [same, Option.map_some]
    next => exact ih

theorem mapValues_congr {β : Type} {change other : String → α → β}
    (same : ∀ name value, (name, value) ∈ members → change name value = other name value) :
    mapValues change members = mapValues other members := by
  apply List.map_congr_left
  intro entry member
  rw [same entry.1 entry.2 member]

/-- The value that a name had before does not matter when it is given another one. -/
theorem insert_mapValues_congr {β : Type} {change other : String → α → β} {key : String} (distinct : Distinct members)
    (same : ∀ name, name ≠ key → change name = other name) (value : β) :
    insert (mapValues change members) key value = insert (mapValues other members) key value := by
  induction members with
  | nil => rfl
  | cons entry rest ih =>
    obtain ⟨first, held⟩ := entry
    obtain ⟨absent, distinct⟩ := distinct_cons_iff.mp distinct
    by_cases here : first = key
    · have rest : mapValues change rest = mapValues other rest := by
        apply mapValues_congr
        intro name value member
        have apart : name ≠ key := by
          rintro rfl
          exact absent (List.mem_map.mpr ⟨(name, value), member, here.symm⟩)
        rw [same name apart]
      simp only [mapValues, List.map_cons, insert, if_pos here] at rest ⊢
      rw [rest]
    · have rest := ih distinct
      simp only [mapValues, List.map_cons, insert, if_neg here] at rest ⊢
      rw [rest, same first here]

end Members

namespace Value

/-- The values are equal but for the order of members, at every depth. -/
inductive Alike : Value → Value → Prop where
  | refl (value : Value) : Alike value value
  | arr {items others : List Value} (each : List.Forall₂ Alike items others) : Alike (.arr items) (.arr others)
  | obj {members others : Members Value}
      (each : ∀ name, Option.Rel Alike (Members.get? members name) (Members.get? others name)) :
      Alike (.obj members) (.obj others)

variable {value : Value} {items others : List Value} {members changed : Members Value}

theorem alike_arr_iff : Alike (.arr items) (.arr others) ↔ List.Forall₂ Alike items others := by
  constructor
  · rintro (_ | each)
    · exact List.forall₂_same.mpr fun value _ => .refl value
    · exact each
  · exact .arr

theorem alike_obj_iff : Alike (.obj members) (.obj changed) ↔
    ∀ name, Option.Rel Alike (Members.get? members name) (Members.get? changed name) := by
  constructor
  · rintro (_ | _ | each) name
    · cases Members.get? members name with
      | none => exact .none
      | some value => exact .some (.refl value)
    · exact each name
  · exact .obj

theorem Alike.eq_str {text : String} (alike : Alike value (.str text)) : value = .str text := by
  cases alike
  rfl

theorem Alike.get? {name : String} (alike : Alike (.obj members) (.obj changed)) (seen : Members.get? members name = some value) :
    ∃ other, Members.get? changed name = some other ∧ Alike value other := by
  have related := alike_obj_iff.mp alike name
  rw [seen] at related
  generalize Members.get? changed name = after at related
  cases related with
  | some held => exact ⟨_, rfl, held⟩

theorem alike_map_iff {change : Value → Value} :
    Alike (.arr items) (.arr (items.map change)) ↔ ∀ item ∈ items, Alike item (change item) := by
  rw [alike_arr_iff, List.forall₂_map_right_iff, List.forall₂_same]

theorem alike_modifyEach_iff {changes : Members (Value → Value)} (distinct : Members.Distinct changes) :
    Alike (.obj members) (.obj (Members.modifyEach changes members)) ↔ ∀ name change,
      Members.get? changes name = some change →
        ∀ child, Members.get? members name = some child → Alike child (change child) := by
  rw [alike_obj_iff]
  constructor
  · intro each name change held child seen
    have alike := each name
    rw [Members.get?_modifyEach distinct, seen, held] at alike
    cases alike with
    | some alike => exact alike
  · intro each name
    rw [Members.get?_modifyEach distinct]
    cases seen : Members.get? members name with
    | none => exact .none
    | some child =>
      refine .some ?_
      cases held : Members.get? changes name with
      | none => exact .refl child
      | some change => exact each name change held child seen

end Value

namespace Relocation
variable {members : Members Value} {name : String}

theorem referencesOfMembers_eq_mapValues (members : Members Value) :
    referencesOfMembers members = Members.mapValues (fun name value => member name value (references value)) members := by
  induction members with
  | nil => rfl
  | cons entry rest ih =>
    obtain ⟨name, value⟩ := entry
    rw [referencesOfMembers, ih]
    rfl

/-- Only what stands under `$ref` is put right by its text. -/
theorem member_of_ne (other : name ≠ "$ref") (value : Value) : member name value (references value) = references value := by
  unfold member
  split
  next => rw [if_neg other]; rfl
  next => rfl

theorem erase_referencesOfMembers (members : Members Value) (name : String) :
    Members.erase (referencesOfMembers members) name = referencesOfMembers (Members.erase members name) := by
  rw [referencesOfMembers_eq_mapValues, referencesOfMembers_eq_mapValues, Members.erase_mapValues]

theorem insert_referencesOfMembers (other : name ≠ "$ref") (value : Value) :
    Members.insert (referencesOfMembers members) name (references value) =
      referencesOfMembers (Members.insert members name value) := by
  rw [referencesOfMembers_eq_mapValues, referencesOfMembers_eq_mapValues, ← Members.insert_mapValues, member_of_ne other]

/-- A change goes together with putting references right. -/
def Commutes (change : Value → Value) : Prop :=
  ∀ value, change (references value) = references (change value)

theorem modify_referencesOfMembers {change : Value → Value} (other : name ≠ "$ref") (commutes : Commutes change)
    (members : Members Value) :
    Members.modify (referencesOfMembers members) name change = referencesOfMembers (Members.modify members name change) := by
  rw [referencesOfMembers_eq_mapValues, referencesOfMembers_eq_mapValues]
  refine Members.modify_mapValues (fun value => ?_) members
  rw [member_of_ne other, member_of_ne other, commutes]

theorem modifyEach_referencesOfMembers {changes : Members (Value → Value)}
    (commute : ∀ change ∈ changes, change.1 ≠ "$ref" ∧ Commutes change.2) (members : Members Value) :
    Members.modifyEach changes (referencesOfMembers members) = referencesOfMembers (Members.modifyEach changes members) := by
  unfold Members.modifyEach
  induction changes generalizing members with
  | nil => rfl
  | cons change rest ih =>
    obtain ⟨other, commutes⟩ := commute change List.mem_cons_self
    rw [List.foldl_cons, List.foldl_cons, modify_referencesOfMembers other commutes]
    exact ih (fun change member => commute change (List.mem_cons_of_mem _ member)) _

end Relocation

namespace Discriminator
open Relocation
variable {payload : String} {value after child changed : Value}

theorem mark_commutes (payload : String) : Commutes (mark payload) := by
  intro value
  cases value with
  | obj members =>
    refine congrArg Value.obj ?_
    rw [← insert_referencesOfMembers (by decide), ← insert_referencesOfMembers (by decide)]
    rfl
  | _ => rfl

/-- A mark changes no text, so also below `$ref` it is written before or after. -/
theorem modifyAt?_member (name : String) {rest : Pointer}
    (inner : (references child).modifyAt? (mark payload) rest = some (references changed))
    (made : child.modifyAt? (mark payload) rest = some changed) :
    (member name child (references child)).modifyAt? (mark payload) rest = some (member name changed (references changed)) := by
  by_cases here : name = "$ref"
  · cases child with
    | str text =>
      cases rest with
      | nil => cases made; subst here; rfl
      | cons token rest =>
        obtain ⟨_, _, impossible, _⟩ := modifyAt?_cons made
        cases impossible
    | _ =>
      have plain : member name changed (references changed) = references changed := by
        cases changed with
        | str text => cases (touched_mild payload).eq_str (Or.inr ⟨rest, made⟩)
        | _ => rfl
      rw [plain]
      exact inner
  · rw [member_of_ne here, member_of_ne here]
    exact inner

theorem modifyAt?_references {pointer : Pointer} (written : value.modifyAt? (mark payload) pointer = some after) :
    (references value).modifyAt? (mark payload) pointer = some (references after) := by
  induction pointer generalizing value after with
  | nil =>
    cases written
    exact congrArg some (mark_commutes payload value)
  | cons token rest ih =>
    obtain ⟨child, changed, seen, made, rfl⟩ := modifyAt?_cons written
    cases value with
    | obj members =>
      have found : Members.get? (referencesOfMembers members) token = some (member token child (references child)) := by
        rw [get?_referencesOfMembers, show Members.get? members token = some child from seen]
        rfl
      have placed : Members.modify (referencesOfMembers members) token (fun _ => member token changed (references changed)) =
          referencesOfMembers (Members.modify members token fun _ => changed) := by
        rw [Members.modify_eq_insert found, Members.modify_eq_insert seen, referencesOfMembers_eq_mapValues,
          referencesOfMembers_eq_mapValues, ← Members.insert_mapValues]
      have inner := modifyAt?_member token (ih made) made
      simp only [modifyAt?, references, child?, found, inner, setChild, placed, Option.bind_eq_bind, Option.bind_some,
        Option.pure_def]
    | arr items =>
      obtain ⟨index, here, inside⟩ := Option.bind_eq_some_iff.mp seen
      have found : (items.map references)[index]? = some (references child) := by
        rw [List.getElem?_map, inside]
        rfl
      simp only [modifyAt?, references, referencesOfItems_eq_map, child?, here, found, ih made, setChild, List.map_set,
        Option.bind_eq_bind, Option.bind_some, Option.pure_def]
    | _ => cases seen

theorem Tagged.references {tags : List Tag} (tagged : Tagged tags value after) :
    Tagged tags (references value) (references after) := by
  induction tagged with
  | same value => exact .same _
  | more tag queued pointer written _ ih => exact .more tag queued pointer (modifyAt?_references written) ih

end Discriminator
end ApiDialect
