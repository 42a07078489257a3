import ApiDialect.KeyOrder
import ApiDialect.Proofs.Trees

/-! Sorting the keys of a document rearranges the members of its objects and nothing else: numbers,
nesting and the distinctness of names stay. -/

namespace ApiDialect
namespace Value

mutual
/-- Every number of the tree is good. -/
def EveryNumber (good : Number → Prop) : Value → Prop
  | .num number => good number
  | .arr items => EveryNumberOfItems good items
  | .obj members => EveryNumberOfMembers good members
  | _ => True
termination_by structural value => value

def EveryNumberOfItems (good : Number → Prop) : List Value → Prop
  | [] => True
  | item :: rest => EveryNumber good item ∧ EveryNumberOfItems good rest
termination_by structural items => items

def EveryNumberOfMembers (good : Number → Prop) : List (String × Value) → Prop
  | [] => True
  | (_, member) :: rest => EveryNumber good member ∧ EveryNumberOfMembers good rest
termination_by structural members => members
end

mutual
/-- How deep containers are nested. -/
def height : Value → Nat
  | .arr items => heightOfItems items + 1
  | .obj members => heightOfMembers members + 1
  | _ => 0
termination_by structural value => value

def heightOfItems : List Value → Nat
  | [] => 0
  | item :: rest => max (height item) (heightOfItems rest)
termination_by structural items => items

def heightOfMembers : List (String × Value) → Nat
  | [] => 0
  | (_, member) :: rest => max (height member) (heightOfMembers rest)
termination_by structural members => members
end

variable {good : Number → Prop} {bound : Nat} {items : List Value} {members : Members Value}

theorem everyNumberOfItems_iff : EveryNumberOfItems good items ↔ ∀ item ∈ items, item.EveryNumber good := by
  induction items with
  | nil => simp [EveryNumberOfItems]
  | cons item rest ih => simp [EveryNumberOfItems, ih]

theorem everyNumberOfMembers_iff : EveryNumberOfMembers good members ↔ ∀ entry ∈ members, entry.2.EveryNumber good := by
  induction members with
  | nil => simp [EveryNumberOfMembers]
  | cons entry rest ih => simp [EveryNumberOfMembers, ih]

theorem heightOfItems_le_iff : heightOfItems items ≤ bound ↔ ∀ item ∈ items, item.height ≤ bound := by
  induction items with
  | nil => simp [heightOfItems]
  | cons item rest ih => rw [heightOfItems, Nat.max_le, ih, List.forall_mem_cons]

theorem heightOfMembers_le_iff : heightOfMembers members ≤ bound ↔ ∀ entry ∈ members, entry.2.height ≤ bound := by
  induction members with
  | nil => simp [heightOfMembers]
  | cons entry rest ih => rw [heightOfMembers, Nat.max_le, ih, List.forall_mem_cons]

/-- Names are distinct, numbers are good, and containers are nested no deeper than the bound. -/
structure Plain (good : Number → Prop) (bound : Nat) (value : Value) : Prop where
  formed : value.WellFormed
  whole : value.EveryNumber good
  low : value.height ≤ bound

theorem plain_arr_iff : Plain good (bound + 1) (.arr items) ↔ ∀ item ∈ items, Plain good bound item := by
  constructor
  · intro plain item member
    exact ⟨wellFormedItems_iff.mp plain.formed item member, everyNumberOfItems_iff.mp plain.whole item member,
      heightOfItems_le_iff.mp (Nat.le_of_succ_le_succ plain.low) item member⟩
  · intro each
    exact ⟨wellFormedItems_iff.mpr fun item member => (each item member).formed,
      everyNumberOfItems_iff.mpr fun item member => (each item member).whole,
      Nat.succ_le_succ (heightOfItems_le_iff.mpr fun item member => (each item member).low)⟩

theorem plain_obj_iff :
    Plain good (bound + 1) (.obj members) ↔ Members.Distinct members ∧ ∀ entry ∈ members, Plain good bound entry.2 := by
  constructor
  · intro plain
    refine ⟨plain.formed.1, fun entry member => ?_⟩
    exact ⟨wellFormedMembers_iff.mp plain.formed.2 entry member, everyNumberOfMembers_iff.mp plain.whole entry member,
      heightOfMembers_le_iff.mp (Nat.le_of_succ_le_succ plain.low) entry member⟩
  · rintro ⟨distinct, each⟩
    exact ⟨⟨distinct, wellFormedMembers_iff.mpr fun entry member => (each entry member).formed⟩,
      everyNumberOfMembers_iff.mpr fun entry member => (each entry member).whole,
      Nat.succ_le_succ (heightOfMembers_le_iff.mpr fun entry member => (each entry member).low)⟩

end Value

namespace KeyOrder
open Value
variable {good : Number → Prop}

theorem arrange_perm (order : KeyOrder) (members : Members Value) : (order.arrange members).Perm members := by
  cases order with
  | asWritten => exact List.Perm.refl members
  | _ => exact List.mergeSort_perm members _

theorem names_sortMembers (order : KeyOrder) (members : Members Value) :
    Members.names (sortMembers order members) = members.names := by
  induction members with
  | nil => rfl
  | cons entry rest ih => exact congrArg (entry.1 :: ·) ih

mutual
theorem plain_sortKeys (order : KeyOrder) :
    (value : Value) → ∀ bound : Nat, Plain good bound value → Plain good bound (order.sortKeys value)
  | .arr _, 0, plain => absurd plain.low (by simp [height])
  | .arr items, bound + 1, plain => plain_arr_iff.mpr (plain_sortItems order items bound (plain_arr_iff.mp plain))
  | .obj _, 0, plain => absurd plain.low (by simp [height])
  | .obj members, bound + 1, plain => by
    obtain ⟨distinct, each⟩ := plain_obj_iff.mp plain
    have same := order.arrange_perm (sortMembers order members)
    have kept : Members.Distinct (sortMembers order members) := by
      rwa [Members.Distinct, names_sortMembers]
    exact plain_obj_iff.mpr ⟨kept.perm same.symm, fun entry member =>
      plain_sortMembers order members bound each entry (same.mem_iff.mp member)⟩
  | .null, _, plain | .bool _, _, plain | .num _, _, plain | .str _, _, plain => plain
termination_by structural value => value

theorem plain_sortItems (order : KeyOrder) : (items : List Value) → ∀ bound : Nat,
    (∀ item ∈ items, Plain good bound item) → ∀ item ∈ sortItems order items, Plain good bound item
  | [], _, _ => fun _ member => nomatch member
  | item :: rest, bound, each =>
    List.forall_mem_cons.mpr ⟨plain_sortKeys order item bound (List.forall_mem_cons.mp each).1,
      plain_sortItems order rest bound (List.forall_mem_cons.mp each).2⟩
termination_by structural items => items

theorem plain_sortMembers (order : KeyOrder) : (members : List (String × Value)) → ∀ bound : Nat,
    (∀ entry ∈ members, Plain good bound entry.2) → ∀ entry ∈ sortMembers order members, Plain good bound entry.2
  | [], _, _ => fun _ member => nomatch member
  | (_, value) :: rest, bound, each =>
    List.forall_mem_cons.mpr ⟨plain_sortKeys order value bound (List.forall_mem_cons.mp each).1,
      plain_sortMembers order rest bound (List.forall_mem_cons.mp each).2⟩
termination_by structural members => members
end

mutual
theorem sortKeys_asWritten : (value : Value) → sortKeys .asWritten value = value
  | .arr items => congrArg Value.arr (sortItems_asWritten items)
  | .obj members => congrArg Value.obj (sortMembers_asWritten members)
  | .null | .bool _ | .num _ | .str _ => rfl
termination_by structural value => value

theorem sortItems_asWritten : (items : List Value) → sortItems .asWritten items = items
  | [] => rfl
  | item :: rest => congrArg₂ List.cons (sortKeys_asWritten item) (sortItems_asWritten rest)
termination_by structural items => items

theorem sortMembers_asWritten : (members : List (String × Value)) → sortMembers .asWritten members = members
  | [] => rfl
  | (name, value) :: rest =>
    congrArg₂ List.cons (congrArg (Prod.mk name) (sortKeys_asWritten value)) (sortMembers_asWritten rest)
termination_by structural members => members
end

end KeyOrder

end ApiDialect
