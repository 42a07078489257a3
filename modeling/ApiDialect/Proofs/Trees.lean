import ApiDialect.Reference
import ApiDialect.Proofs.Members
import Mathlib.Data.List.Forall2

/-! Properties that hold at every object of a tree. A tree is sound when the names of every object
are distinct and every member is good; what is good may depend on the name and on the value. -/

namespace ApiDialect

/-- What a related list holds comes from an element of the first. -/
theorem exists_of_forall₂_mem {α β : Type} {related : α → β → Prop} {items : List α} {results : List β}
    (each : List.Forall₂ related items results) {result : β} (member : result ∈ results) :
    ∃ item ∈ items, related item result := by
  induction each with
  | nil => cases member
  | cons head _ ih =>
    rcases List.mem_cons.mp member with rfl | member
    · exact ⟨_, List.mem_cons_self, head⟩
    · obtain ⟨item, inside, holds⟩ := ih member
      exact ⟨item, List.mem_cons_of_mem _ inside, holds⟩

theorem eq_map_of_forall₂ {α β : Type} {related : α → β → Prop} {change : α → β} {items : List α} {results : List β}
    (each : List.Forall₂ related items results)
    (same : ∀ item ∈ items, ∀ result, related item result → result = change item) : results = items.map change := by
  induction each with
  | nil => rfl
  | cons head _ ih =>
    rw [List.map_cons, same _ List.mem_cons_self _ head, ih fun item member => same item (List.mem_cons_of_mem _ member)]

namespace Value

mutual
/-- Every member of every object of the tree is good. -/
def EveryMember (good : String → Value → Prop) : Value → Prop
  | .arr items => EveryMemberOfItems good items
  | .obj members => EveryMemberOfMembers good members
  | _ => True
termination_by structural value => value

def EveryMemberOfItems (good : String → Value → Prop) : List Value → Prop
  | [] => True
  | item :: rest => EveryMember good item ∧ EveryMemberOfItems good rest
termination_by structural items => items

def EveryMemberOfMembers (good : String → Value → Prop) : List (String × Value) → Prop
  | [] => True
  | (name, member) :: rest =>
    good name member ∧ EveryMember good member ∧ EveryMemberOfMembers good rest
termination_by structural members => members
end

mutual
def decideWellFormed : (value : Value) → Decidable value.WellFormed
  | .arr items => decideWellFormedItems items
  | .obj members =>
    have := decideWellFormedMembers members
    inferInstanceAs (Decidable ((members.map Prod.fst).Nodup ∧ WellFormedMembers members))
  | .null | .bool _ | .num _ | .str _ => .isTrue trivial
termination_by structural value => value

def decideWellFormedItems : (items : List Value) → Decidable (WellFormedItems items)
  | [] => .isTrue trivial
  | item :: rest =>
    have := decideWellFormed item
    have := decideWellFormedItems rest
    inferInstanceAs (Decidable (_ ∧ _))
termination_by structural items => items

def decideWellFormedMembers : (members : List (String × Value)) → Decidable (WellFormedMembers members)
  | [] => .isTrue trivial
  | (_, member) :: rest =>
    have := decideWellFormed member
    have := decideWellFormedMembers rest
    inferInstanceAs (Decidable (_ ∧ _))
termination_by structural members => members
end

instance (value : Value) : Decidable value.WellFormed := decideWellFormed value

/-- A demand on what stands under `$ref` and on nothing else. -/
def atReference (good : Value → Prop) (name : String) (member : Value) : Prop :=
  name = "$ref" → good member

/-- Whatever stands under `$ref` in the tree is good. -/
def EveryReference (good : Value → Prop) (value : Value) : Prop :=
  value.EveryMember (atReference good)

structure Sound (good : String → Value → Prop) (value : Value) : Prop where
  wellFormed : value.WellFormed
  members : value.EveryMember good

/-- Names are distinct, and references are good. -/
abbrev Refers (good : Value → Prop) (value : Value) : Prop := Sound (atReference good) value

variable {good better : String → Value → Prop} {value child : Value} {items : List Value}
  {members : Members Value} {name : String}

theorem wellFormedItems_iff : WellFormedItems items ↔ ∀ item ∈ items, item.WellFormed := by
  induction items with
  | nil => simp [WellFormedItems]
  | cons item rest ih => simp [WellFormedItems, ih]

theorem wellFormedMembers_iff : WellFormedMembers members ↔ ∀ entry ∈ members, entry.2.WellFormed := by
  induction members with
  | nil => simp [WellFormedMembers]
  | cons entry rest ih => simp [WellFormedMembers, ih]

theorem everyMemberOfItems_iff : EveryMemberOfItems good items ↔ ∀ item ∈ items, item.EveryMember good := by
  induction items with
  | nil => simp [EveryMemberOfItems]
  | cons item rest ih => simp [EveryMemberOfItems, ih]

theorem everyMemberOfMembers_iff :
    EveryMemberOfMembers good members ↔ ∀ entry ∈ members, good entry.1 entry.2 ∧ entry.2.EveryMember good := by
  induction members with
  | nil => simp [EveryMemberOfMembers]
  | cons entry rest ih => simp [EveryMemberOfMembers, ih, and_assoc]

/-- An entry of a sound object. -/
def SoundEntry (good : String → Value → Prop) (entry : String × Value) : Prop :=
  good entry.1 entry.2 ∧ entry.2.Sound good

theorem sound_arr_iff : Sound good (.arr items) ↔ ∀ item ∈ items, Sound good item := by
  constructor
  · rintro ⟨formed, every⟩ item member
    exact ⟨wellFormedItems_iff.mp formed item member, everyMemberOfItems_iff.mp every item member⟩
  · intro each
    exact ⟨wellFormedItems_iff.mpr fun item member => (each item member).wellFormed,
      everyMemberOfItems_iff.mpr fun item member => (each item member).members⟩

theorem sound_obj_iff :
    Sound good (.obj members) ↔ Members.Distinct members ∧ ∀ entry ∈ members, SoundEntry good entry := by
  constructor
  · rintro ⟨⟨distinct, formed⟩, every⟩
    refine ⟨distinct, fun entry member => ?_⟩
    obtain ⟨fine, inner⟩ := everyMemberOfMembers_iff.mp every entry member
    exact ⟨fine, wellFormedMembers_iff.mp formed entry member, inner⟩
  · rintro ⟨distinct, each⟩
    exact ⟨⟨distinct, wellFormedMembers_iff.mpr fun entry member => (each entry member).2.wellFormed⟩,
      everyMemberOfMembers_iff.mpr fun entry member => ⟨(each entry member).1, (each entry member).2.members⟩⟩

@[simp] theorem sound_null : Sound good .null := ⟨trivial, trivial⟩

@[simp] theorem sound_bool (value : Bool) : Sound good (.bool value) := ⟨trivial, trivial⟩

@[simp] theorem sound_num (value : Number) : Sound good (.num value) := ⟨trivial, trivial⟩

@[simp] theorem sound_str (text : String) : Sound good (.str text) := ⟨trivial, trivial⟩

@[simp] theorem sound_empty : Sound good (.obj []) := sound_obj_iff.mpr ⟨.nil, by simp⟩

@[simp] theorem sound_texts (texts : List String) : Sound good (.arr (texts.map .str)) :=
  sound_arr_iff.mpr (by simp)

namespace Sound

theorem distinct (sound : Sound good (.obj members)) : Members.Distinct members := (sound_obj_iff.mp sound).1

theorem entry (sound : Sound good (.obj members)) {entry : String × Value} (member : entry ∈ members) :
    SoundEntry good entry := (sound_obj_iff.mp sound).2 entry member

theorem get? (sound : Sound good (.obj members)) (seen : Members.get? members name = some child) :
    Sound good child := (sound.entry (Members.mem_of_get? seen)).2

theorem good_of_get? (sound : Sound good (.obj members)) (seen : Members.get? members name = some child) :
    good name child := (sound.entry (Members.mem_of_get? seen)).1

theorem valueGet? (sound : Sound good value) (seen : value.get? name = some child) : Sound good child := by
  cases value with
  | obj members => exact sound.get? seen
  | _ => cases seen

theorem item (sound : Sound good (.arr items)) {item : Value} (member : item ∈ items) : Sound good item :=
  sound_arr_iff.mp sound item member

theorem insert (sound : Sound good (.obj members)) (fine : good name child) (held : Sound good child) :
    Sound good (.obj (Members.insert members name child)) := by
  refine sound_obj_iff.mpr ⟨sound.distinct.insert name child, fun entry member => ?_⟩
  rcases Members.mem_of_mem_insert member with rfl | member
  · exact ⟨fine, held⟩
  · exact sound.entry member

/-- A part of a sound object is sound when its names are distinct. -/
theorem subset (sound : Sound good (.obj members)) {part : Members Value} (distinct : Members.Distinct part)
    (inside : ∀ entry ∈ part, entry ∈ members) : Sound good (.obj part) :=
  sound_obj_iff.mpr ⟨distinct, fun entry member => sound.entry (inside entry member)⟩

theorem erase (sound : Sound good (.obj members)) (name : String) :
    Sound good (.obj (Members.erase members name)) :=
  sound.subset (sound.distinct.erase name) fun _ member => Members.mem_of_mem_erase member

theorem filter (sound : Sound good (.obj members)) (keep : String × Value → Bool) :
    Sound good (.obj (members.filter keep)) :=
  sound.subset (sound.distinct.filter keep) fun _ member => List.mem_of_mem_filter member

theorem insertIfAbsent (sound : Sound good (.obj members)) (fine : good name child) (held : Sound good child) :
    Sound good (.obj (Members.insertIfAbsent members name child)) := by
  cases seen : Members.get? members name with
  | none =>
    rw [Members.insertIfAbsent_eq_insert seen]
    exact sound.insert fine held
  | some found => rwa [Members.insertIfAbsent_of_get? seen]

/-- Values may be replaced one by one as long as the names stay. -/
theorem replace {changed : Members Value} (sound : Sound good (.obj members))
    (each : List.Forall₂ (fun before after => after.1 = before.1 ∧ (SoundEntry good before → SoundEntry good after))
      members changed) : Sound good (.obj changed) := by
  refine sound_obj_iff.mpr ⟨?_, fun entry member => ?_⟩
  · unfold Members.Distinct
    rw [Members.names_of_forall₂ each]
    exact sound.distinct
  · obtain ⟨before, inside, _, keeps⟩ := exists_of_forall₂_mem each member
    exact keeps (sound.entry inside)

theorem child? (sound : Sound good value) {token : String} (seen : value.child? token = some child) :
    Sound good child := by
  cases value with
  | obj members => exact sound.get? seen
  | arr items =>
    obtain ⟨index, _, found⟩ := Option.bind_eq_some_iff.mp seen
    exact sound.item (List.mem_of_getElem? found)
  | _ => cases seen

theorem walk? (sound : Sound good value) {pointer : Pointer} (seen : value.walk? pointer = some child) :
    Sound good child := by
  induction pointer generalizing value with
  | nil => cases seen; exact sound
  | cons token rest ih =>
    obtain ⟨next, first, last⟩ := Option.bind_eq_some_iff.mp seen
    exact ih (sound.child? first) last

end Sound

theorem obj_of_get? {name : String} (seen : value.get? name = some child) : ∃ members, value = .obj members := by
  cases value with
  | obj members => exact ⟨members, rfl⟩
  | _ => cases seen

theorem walk?_of_get? {name : String} (seen : value.get? name = some child) (rest : Pointer) :
    value.walk? (name :: rest) = child.walk? rest := by
  cases value with
  | obj members => exact congrArg (Option.bind · fun inner => inner.walk? rest) seen
  | _ => cases seen

theorem walk?_append (value : Value) (first second : Pointer) :
    value.walk? (first ++ second) = (value.walk? first).bind fun inner => inner.walk? second := by
  induction first generalizing value with
  | nil => rfl
  | cons token rest ih =>
    rw [List.cons_append, walk?, walk?, Option.bind_assoc]
    exact congrArg _ (funext fun child => ih child)

mutual
theorem EveryMember.weaken (weaker : ∀ name value, good name value → better name value) :
    (value : Value) → value.EveryMember good → value.EveryMember better
  | .arr items => EveryMemberOfItems.weaken weaker items
  | .obj members => EveryMemberOfMembers.weaken weaker members
  | .null | .bool _ | .num _ | .str _ => fun _ => trivial
termination_by structural value => value

theorem EveryMemberOfItems.weaken (weaker : ∀ name value, good name value → better name value) :
    (items : List Value) → EveryMemberOfItems good items → EveryMemberOfItems better items
  | [] => fun _ => trivial
  | item :: rest => fun every =>
    ⟨EveryMember.weaken weaker item every.1, EveryMemberOfItems.weaken weaker rest every.2⟩
termination_by structural items => items

theorem EveryMemberOfMembers.weaken (weaker : ∀ name value, good name value → better name value) :
    (members : List (String × Value)) → EveryMemberOfMembers good members → EveryMemberOfMembers better members
  | [] => fun _ => trivial
  | (name, member) :: rest => fun every =>
    ⟨weaker name member every.1, EveryMember.weaken weaker member every.2.1,
      EveryMemberOfMembers.weaken weaker rest every.2.2⟩
termination_by structural members => members
end

theorem Sound.weaken (sound : Sound good value) (weaker : ∀ name value, good name value → better name value) :
    Sound better value :=
  ⟨sound.wellFormed, sound.members.weaken weaker value⟩

mutual
theorem everyMember_of_forall (all : ∀ name value, good name value) : (value : Value) → value.EveryMember good
  | .arr items => everyMemberOfItems_of_forall all items
  | .obj members => everyMemberOfMembers_of_forall all members
  | .null | .bool _ | .num _ | .str _ => trivial
termination_by structural value => value

theorem everyMemberOfItems_of_forall (all : ∀ name value, good name value) :
    (items : List Value) → EveryMemberOfItems good items
  | [] => trivial
  | item :: rest => ⟨everyMember_of_forall all item, everyMemberOfItems_of_forall all rest⟩
termination_by structural items => items

theorem everyMemberOfMembers_of_forall (all : ∀ name value, good name value) :
    (members : List (String × Value)) → EveryMemberOfMembers good members
  | [] => trivial
  | (name, member) :: rest =>
    ⟨all name member, everyMember_of_forall all member, everyMemberOfMembers_of_forall all rest⟩
termination_by structural members => members
end

/-- Without a demand on members, soundness is distinctness of names. -/
theorem sound_iff_wellFormed (all : ∀ name value, good name value) : Sound good value ↔ value.WellFormed :=
  ⟨Sound.wellFormed, fun formed => ⟨formed, everyMember_of_forall all value⟩⟩

/-- Names are distinct, and nothing is asked of references. -/
abbrev Formed (value : Value) : Prop := Refers (fun _ => True) value

theorem formed_iff : Formed value ↔ value.WellFormed := sound_iff_wellFormed fun _ _ _ => trivial

variable {fine : Value → Prop}

theorem Refers.insert (sound : Refers fine (.obj members)) (held : Refers fine child) (other : name ≠ "$ref") :
    Refers fine (.obj (Members.insert members name child)) :=
  Sound.insert sound (fun same => absurd same other) held

theorem Refers.insertIfAbsent (sound : Refers fine (.obj members)) (held : Refers fine child)
    (other : name ≠ "$ref") : Refers fine (.obj (Members.insertIfAbsent members name child)) :=
  Sound.insertIfAbsent sound (fun same => absurd same other) held

theorem Refers.reference (sound : Refers fine value) {text : String} (seen : value.reference? = some text) :
    fine (.str text) := by
  obtain ⟨held, found, same⟩ := Option.bind_eq_some_iff.mp seen
  cases value with
  | obj members =>
    have good := Sound.good_of_get? sound found rfl
    cases held <;> cases same
    exact good
  | _ => cases found

end Value
end ApiDialect
