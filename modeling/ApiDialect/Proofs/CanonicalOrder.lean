import ApiDialect.Proofs.Alike
import ApiDialect.Proofs.SortedKeys
import ApiDialect.Render

/-! A document has one sorted form. The two sorted orders are total on names, so documents that differ
only in the order of their members are printed alike, and sorting again changes nothing. -/

namespace ApiDialect
open Value

namespace Text

/-- A text as it is stored, in UTF-8. -/
def octets (text : String) : List UInt8 :=
  text.toUTF8.data.toList

theorem octets_eq_flatMap (text : String) : octets text = text.toList.flatMap String.utf8EncodeChar := by
  rw [octets, String.toUTF8, ← String.utf8Encode_toList, List.utf8Encode]
  simp

theorem ofNat_lt_ofNat_iff {first second : Nat} (one : first < 256) (other : second < 256) :
    UInt8.ofNat first < UInt8.ofNat second ↔ first < second := by
  rw [UInt8.lt_iff_toNat_lt, UInt8.toNat_ofNat', UInt8.toNat_ofNat', Nat.mod_eq_of_lt one, Nat.mod_eq_of_lt other]

theorem ofNat_eq_ofNat_iff {first second : Nat} (one : first < 256) (other : second < 256) :
    UInt8.ofNat first = UInt8.ofNat second ↔ first = second := by
  rw [← UInt8.toNat_inj, UInt8.toNat_ofNat', UInt8.toNat_ofNat', Nat.mod_eq_of_lt one, Nat.mod_eq_of_lt other]

/-- Numbers to the base of 64 differ before their last digit or in it. -/
theorem digit_lt {low high : Nat} (less : low < high) :
    low / 64 < high / 64 ∨ low / 64 = high / 64 ∧ low % 64 < high % 64 := by
  omega

/-- The digits of the longest characters, from the highest on. -/
theorem fourDigits_lt {low high : Nat} (less : low < high) (top : high < 0x110000) :
    low / 262144 % 8 < high / 262144 % 8 ∨ low / 262144 % 8 = high / 262144 % 8 ∧
      (low / 4096 % 64 < high / 4096 % 64 ∨ low / 4096 % 64 = high / 4096 % 64 ∧
        (low / 64 % 64 < high / 64 % 64 ∨ low / 64 % 64 = high / 64 % 64 ∧ low % 64 < high % 64)) := by
  have shifted (number : Nat) : number / 4096 = number / 64 / 64 ∧ number / 262144 = number / 64 / 64 / 64 := by omega
  simp only [shifted]
  rcases digit_lt less with above | ⟨same, last⟩
  · rcases digit_lt above with above | ⟨same, last⟩
    · rcases digit_lt above with above | ⟨same, last⟩ <;> omega
    · omega
  · omega

/-- Two characters differ within their own octets, so what follows them does not matter. -/
theorem utf8EncodeChar_lt {first second : Char} (less : first < second) (rest others : List UInt8) :
    String.utf8EncodeChar first ++ rest < String.utf8EncodeChar second ++ others := by
  have bound : first.val.toNat < second.val.toNat := less
  have top : second.val.toNat < 0x110000 := by
    have valid := second.valid
    simp only [UInt32.isValidChar, Nat.isValidChar] at valid
    omega
  unfold String.utf8EncodeChar
  dsimp only
  generalize first.val.toNat = low at *
  generalize second.val.toNat = high at *
  have digits := fourDigits_lt bound top
  -- A character with fewer octets also has the lower first octet.
  split_ifs <;> simp (disch := omega) only [List.cons_append, List.cons_lt_cons_iff, ofNat_lt_ofNat_iff,
    ofNat_eq_ofNat_iff] <;> omega

theorem utf8EncodeChar_ne_nil (char : Char) : String.utf8EncodeChar char ≠ [] := by
  unfold String.utf8EncodeChar
  dsimp only
  split_ifs <;> exact List.cons_ne_nil _ _

theorem flatMap_lt_of_lt {first second : List Char} (less : first < second) :
    first.flatMap String.utf8EncodeChar < second.flatMap String.utf8EncodeChar := by
  induction first generalizing second with
  | nil =>
    cases second with
    | nil => exact absurd less (List.lt_irrefl [])
    | cons other others =>
      rw [List.flatMap_nil, List.flatMap_cons]
      obtain ⟨octet, rest, same⟩ := List.exists_cons_of_ne_nil (utf8EncodeChar_ne_nil other)
      rw [same, List.cons_append]
      exact List.nil_lt_cons _ _
  | cons char rest ih =>
    cases second with
    | nil => exact absurd less (List.not_lt_nil _)
    | cons other others =>
      rw [List.flatMap_cons, List.flatMap_cons]
      rcases List.cons_lt_cons_iff.mp less with below | ⟨rfl, below⟩
      · exact utf8EncodeChar_lt below _ _
      · exact List.append_left_lt (ih below)

/-- The order of code points is the order of octets. -/
theorem octets_lt_iff {first second : String} : octets first < octets second ↔ first < second := by
  have rising : ∀ {low high : String}, low < high → octets low < octets high := by
    intro low high less
    rw [octets_eq_flatMap, octets_eq_flatMap]
    exact flatMap_lt_of_lt (String.lt_iff.mp less)
  refine ⟨fun less => ?_, rising⟩
  by_contra above
  by_cases below : second < first
  · exact List.lt_asymm less (rising below)
  · obtain rfl := String.le_antisymm below above
    exact List.lt_irrefl _ less

end Text

namespace KeyOrder
variable {order : KeyOrder} {first second third : String}

/-- One name stands strictly before another: their ranks decide, and their octets where those are equal. -/
def Before (order : KeyOrder) (first second : String) : Prop :=
  order.rank first < order.rank second ∨
    order.rank first = order.rank second ∧ Text.octets first < Text.octets second

theorem Before.asymm (before : order.Before first second) : ¬ order.Before second first := by
  rintro (lower | ⟨same, lower⟩) <;> rcases before with less | ⟨_, less⟩
  · omega
  · omega
  · omega
  · exact List.lt_asymm lower less

theorem Before.trans (one : order.Before first second) (other : order.Before second third) : order.Before first third := by
  rcases one with less | ⟨same, less⟩ <;> rcases other with more | ⟨equal, more⟩
  · exact Or.inl (by omega)
  · exact Or.inl (by omega)
  · exact Or.inl (by omega)
  · exact Or.inr ⟨same.trans equal, List.lt_trans less more⟩

theorem before_or_eq (order : KeyOrder) (first second : String) :
    order.Before first second ∨ first = second ∨ order.Before second first := by
  rcases Nat.lt_trichotomy (order.rank first) (order.rank second) with less | same | more
  · exact Or.inl (Or.inl less)
  · by_cases below : first < second
    · exact Or.inl (Or.inr ⟨same, Text.octets_lt_iff.mpr below⟩)
    by_cases above : second < first
    · exact Or.inr (Or.inr (Or.inr ⟨same.symm, Text.octets_lt_iff.mpr above⟩))
    · exact Or.inr (Or.inl (String.le_antisymm above below))
  · exact Or.inr (Or.inr (Or.inl more))

/-- The comparison of the sort is the strict order turned round. -/
theorem atMost_iff : order.atMost first second = true ↔ ¬ order.Before second first := by
  simp only [atMost, Before, Text.octets_lt_iff, Bool.or_eq_true, Bool.and_eq_true, decide_eq_true_eq, Bool.not_eq_true',
    decide_eq_false_iff_not, not_or, not_and]
  rcases Nat.lt_trichotomy (order.rank first) (order.rank second) with less | same | more
  · simp [less, Nat.lt_asymm less, Nat.ne_of_gt less]
  · simp [same]
  · simp [more, Nat.lt_asymm more, Nat.ne_of_gt more]

theorem atMost_trans (one : order.atMost first second = true) (other : order.atMost second third = true) :
    order.atMost first third = true := by
  rw [atMost_iff] at *
  intro before
  rcases order.before_or_eq second first with less | rfl | more
  · exact one less
  · exact other before
  · exact other (before.trans more)

theorem atMost_total (order : KeyOrder) (first second : String) :
    (order.atMost first second || order.atMost second first) = true := by
  rw [Bool.or_eq_true, atMost_iff, atMost_iff]
  exact or_iff_not_imp_left.mpr fun less more => (not_not.mp less).asymm more

variable {members other : Members Value} {value : Value}

/-- The names of an object stand in their order, each of them once. -/
def Increasing (order : KeyOrder) (members : Members Value) : Prop :=
  members.names.Pairwise order.Before

theorem arrange_eq_mergeSort (sorted : order ≠ .asWritten) (members : Members Value) :
    order.arrange members = members.mergeSort fun first second => order.atMost first.1 second.1 := by
  cases order with
  | asWritten => exact absurd rfl sorted
  | _ => rfl

theorem increasing_arrange (sorted : order ≠ .asWritten) (distinct : Members.Distinct members) :
    order.Increasing (order.arrange members) := by
  have single : (order.arrange members).names.Nodup := distinct.perm (order.arrange_perm members).symm
  have ranked : (order.arrange members).Pairwise fun first second => order.atMost first.1 second.1 := by
    rw [arrange_eq_mergeSort sorted]
    apply List.pairwise_mergeSort
    · intro one two three
      exact atMost_trans
    · intro one two
      exact order.atMost_total one.1 two.1
  rw [Increasing, Members.names, List.pairwise_map]
  refine (ranked.and (List.pairwise_map.mp single)).imp fun {first second} both => ?_
  obtain ⟨below, apart⟩ := both
  rcases order.before_or_eq first.1 second.1 with less | same | more
  · exact less
  · exact absurd same apart
  · exact absurd more (atMost_iff.mp below)

/-- In a strict order there is only one way to arrange an object. -/
theorem arrange_eq_of_perm (sorted : order ≠ .asWritten) (distinct : Members.Distinct members) (same : members.Perm other) :
    order.arrange members = order.arrange other := by
  have one := increasing_arrange sorted distinct
  have two := increasing_arrange sorted (distinct.perm same)
  rw [Increasing, Members.names, List.pairwise_map] at one two
  refine List.Perm.eq_of_pairwise (fun first second _ _ less more => absurd more less.asymm) one two ?_
  exact (order.arrange_perm members).trans (same.trans (order.arrange_perm other).symm)

theorem get?_sortMembers (order : KeyOrder) (members : Members Value) (name : String) :
    Members.get? (sortMembers order members) name = (Members.get? members name).map (sortKeys order) := by
  induction members with
  | nil => rfl
  | cons entry rest ih =>
    rw [sortMembers, Members.get?_cons, Members.get?_cons, ih]
    split <;> rfl

theorem distinct_sortMembers (distinct : Members.Distinct members) : Members.Distinct (sortMembers order members) := by
  rwa [Members.Distinct, names_sortMembers]

/-- The members of a sorted object, wherever they have gone. -/
theorem get?_arranged (distinct : Members.Distinct members) (name : String) :
    Members.get? (order.arrange (sortMembers order members)) name =
      (Members.get? members name).map (sortKeys order) := by
  rw [← get?_sortMembers]
  exact ((distinct_sortMembers distinct).get?_perm (order.arrange_perm _).symm name).symm

mutual
/-- Every object of the tree is in order. -/
def Sorted (order : KeyOrder) : Value → Prop
  | .arr items => SortedItems order items
  | .obj members => order.Increasing members ∧ SortedMembers order members
  | _ => True
termination_by structural value => value

def SortedItems (order : KeyOrder) : List Value → Prop
  | [] => True
  | item :: rest => Sorted order item ∧ SortedItems order rest
termination_by structural items => items

def SortedMembers (order : KeyOrder) : List (String × Value) → Prop
  | [] => True
  | (_, member) :: rest => Sorted order member ∧ SortedMembers order rest
termination_by structural members => members
end

theorem sortedMembers_iff : SortedMembers order members ↔ ∀ entry ∈ members, Sorted order entry.2 := by
  induction members with
  | nil => simp [SortedMembers]
  | cons entry rest ih => simp [SortedMembers, ih]

theorem Increasing.distinct (increasing : order.Increasing members) : Members.Distinct members :=
  increasing.imp fun before same => (same ▸ before).asymm (same ▸ before)

mutual
theorem Sorted.wellFormed : (value : Value) → Sorted order value → value.WellFormed
  | .arr items, sorted => SortedItems.wellFormed items sorted
  | .obj members, sorted => ⟨sorted.1.distinct, SortedMembers.wellFormed members sorted.2⟩
  | .null, _ | .bool _, _ | .num _, _ | .str _, _ => trivial
termination_by structural value => value

theorem SortedItems.wellFormed : (items : List Value) → SortedItems order items → WellFormedItems items
  | [], _ => trivial
  | item :: rest, sorted => ⟨Sorted.wellFormed item sorted.1, SortedItems.wellFormed rest sorted.2⟩
termination_by structural items => items

theorem SortedMembers.wellFormed : (members : List (String × Value)) → SortedMembers order members →
    WellFormedMembers members
  | [], _ => trivial
  | (_, member) :: rest, sorted => ⟨Sorted.wellFormed member sorted.1, SortedMembers.wellFormed rest sorted.2⟩
termination_by structural members => members
end

mutual
theorem sorted_sortKeys (sorted : order ≠ .asWritten) : (value : Value) → value.WellFormed → Sorted order (order.sortKeys value)
  | .arr items, formed => sorted_sortItems sorted items formed
  | .obj members, formed => by
    have each := sortedMembers_iff.mp (sorted_sortMembers sorted members formed.2)
    refine ⟨increasing_arrange sorted (distinct_sortMembers formed.1), sortedMembers_iff.mpr fun entry member => ?_⟩
    exact each entry ((order.arrange_perm _).mem_iff.mp member)
  | .null, _ | .bool _, _ | .num _, _ | .str _, _ => trivial
termination_by structural value => value

theorem sorted_sortItems (sorted : order ≠ .asWritten) : (items : List Value) → WellFormedItems items →
    SortedItems order (sortItems order items)
  | [], _ => trivial
  | item :: rest, formed => ⟨sorted_sortKeys sorted item formed.1, sorted_sortItems sorted rest formed.2⟩
termination_by structural items => items

theorem sorted_sortMembers (sorted : order ≠ .asWritten) : (members : List (String × Value)) → WellFormedMembers members →
    SortedMembers order (sortMembers order members)
  | [], _ => trivial
  | (_, member) :: rest, formed => ⟨sorted_sortKeys sorted member formed.1, sorted_sortMembers sorted rest formed.2⟩
termination_by structural members => members
end

mutual
/-- Sorting moves members about within their objects and does nothing else. -/
theorem alike_sortKeys (order : KeyOrder) : (value : Value) → value.WellFormed → Alike value (order.sortKeys value)
  | .arr items, formed => .arr (alike_sortItems order items formed)
  | .obj members, formed => by
    refine .obj fun name => ?_
    rw [get?_arranged formed.1]
    cases seen : Members.get? members name with
    | none => exact .none
    | some child => exact .some (alike_sortMembers order members formed.2 (name, child) (Members.mem_of_get? seen))
  | .null, _ | .bool _, _ | .num _, _ | .str _, _ => .refl _
termination_by structural value => value

theorem alike_sortItems (order : KeyOrder) : (items : List Value) → WellFormedItems items →
    List.Forall₂ Alike items (sortItems order items)
  | [], _ => .nil
  | item :: rest, formed => .cons (alike_sortKeys order item formed.1) (alike_sortItems order rest formed.2)
termination_by structural items => items

theorem alike_sortMembers (order : KeyOrder) : (members : List (String × Value)) → WellFormedMembers members →
    ∀ entry ∈ members, Alike entry.2 (order.sortKeys entry.2)
  | [], _ => fun _ member => nomatch member
  | (_, child) :: rest, formed =>
    List.forall_mem_cons.mpr ⟨alike_sortKeys order child formed.1, alike_sortMembers order rest formed.2⟩
termination_by structural members => members
end

theorem get?_eq_none_of_alike {name : String} (alike : Alike (.obj members) (.obj other))
    (absent : Members.get? members name = none) : Members.get? other name = none := by
  have related := alike_obj_iff.mp alike name
  rw [absent] at related
  generalize Members.get? other name = found at related ⊢
  cases related
  rfl

mutual
/-- The order of members is forgotten, at every depth. -/
theorem sortKeys_eq_of_alike (sorted : order ≠ .asWritten) : (value other : Value) → value.WellFormed → other.WellFormed →
    Alike value other → order.sortKeys value = order.sortKeys other
  | .arr items, other, formed, whole, alike => by
    cases alike with
    | refl => rfl
    | arr each => exact congrArg Value.arr (sortItems_eq_of_alike sorted items _ formed whole each)
  | .obj members, other, formed, whole, alike => by
    cases other with
    | obj others =>
      refine congrArg Value.obj (arrange_eq_of_perm sorted (distinct_sortMembers formed.1) ?_)
      refine (distinct_sortMembers formed.1).perm_of_get? (distinct_sortMembers whole.1) fun name => ?_
      rw [get?_sortMembers, get?_sortMembers]
      cases seen : Members.get? members name with
      | none => rw [get?_eq_none_of_alike alike seen]
      | some child =>
        obtain ⟨found, here, held⟩ := alike.get? seen
        rw [here]
        have inner := wellFormedMembers_iff.mp whole.2 _ (Members.mem_of_get? here)
        exact congrArg some (sortMembers_eq_of_alike sorted members formed.2 _ (Members.mem_of_get? seen) found inner held)
    | _ => cases alike
  | .null, _, _, _, alike | .bool _, _, _, _, alike | .num _, _, _, _, alike | .str _, _, _, _, alike => by
    cases alike
    rfl
termination_by structural value => value

theorem sortItems_eq_of_alike (sorted : order ≠ .asWritten) : (items others : List Value) → WellFormedItems items →
    WellFormedItems others → List.Forall₂ Alike items others → sortItems order items = sortItems order others
  | [], others, _, _, each => by
    cases each
    rfl
  | item :: rest, others, formed, whole, each => by
    obtain ⟨other, remaining, alike, later, rfl⟩ := List.forall₂_cons_left_iff.mp each
    exact congrArg₂ List.cons (sortKeys_eq_of_alike sorted item other formed.1 whole.1 alike)
      (sortItems_eq_of_alike sorted rest remaining formed.2 whole.2 later)
termination_by structural items => items

theorem sortMembers_eq_of_alike (sorted : order ≠ .asWritten) : (members : List (String × Value)) →
    WellFormedMembers members → ∀ entry ∈ members, ∀ other : Value, other.WellFormed → Alike entry.2 other →
      order.sortKeys entry.2 = order.sortKeys other
  | [], _ => fun _ member => nomatch member
  | (_, child) :: rest, formed =>
    List.forall_mem_cons.mpr ⟨fun other whole => sortKeys_eq_of_alike sorted child other formed.1 whole,
      sortMembers_eq_of_alike sorted rest formed.2⟩
termination_by structural members => members
end

/-- The members of one object in another sequence. -/
theorem alike_of_perm (distinct : Members.Distinct members) (same : members.Perm other) :
    Alike (.obj members) (.obj other) := by
  refine .obj fun name => ?_
  rw [distinct.get?_perm same]
  cases Members.get? other name with
  | none => exact .none
  | some child => exact .some (.refl child)

/-- A sorted order gives all values that differ in the order of members one form and one text. The form
differs from them in nothing else, its objects are in order, and sorting leaves it as it is. -/
theorem sortKeys_canonical (sorted : order ≠ .asWritten) (formed : value.WellFormed) :
    (∀ other : Value, other.WellFormed → Alike value other → order.sortKeys value = order.sortKeys other ∧
      ∀ markup, render ⟨markup, order⟩ value = render ⟨markup, order⟩ other) ∧
    Alike value (order.sortKeys value) ∧ Sorted order (order.sortKeys value) ∧
    order.sortKeys (order.sortKeys value) = order.sortKeys value := by
  have still := alike_sortKeys order value formed
  have inOrder := sorted_sortKeys sorted value formed
  refine ⟨fun other whole alike => ?_, still, inOrder, ?_⟩
  · have same := sortKeys_eq_of_alike sorted value other formed whole alike
    exact ⟨same, fun markup => congrArg markup.print same⟩
  · exact (sortKeys_eq_of_alike sorted value _ formed (Sorted.wellFormed _ inOrder) still).symm

/-- Two lists of the same plants, which are described in German. -/
def herbal : Value :=
  .arr [.obj [("x-übrig", .null), ("tags", .arr []), ("zone", .num (.int 7)), ("info", .obj [("title", .str "mint")])]]

def rewrittenHerbal : Value :=
  .arr [.obj [("zone", .num (.int 7)), ("x-übrig", .null), ("info", .obj [("title", .str "mint")]), ("tags", .arr [])]]

theorem herbal_canonical :
    (KeyOrder.conventional.sortKeys herbal = KeyOrder.conventional.sortKeys rewrittenHerbal ∧
      ∀ markup, render ⟨markup, .conventional⟩ herbal = render ⟨markup, .conventional⟩ rewrittenHerbal) ∧
    Alike herbal (KeyOrder.conventional.sortKeys herbal) ∧
    Sorted .conventional (KeyOrder.conventional.sortKeys herbal) ∧
    KeyOrder.conventional.sortKeys (KeyOrder.conventional.sortKeys herbal) = KeyOrder.conventional.sortKeys herbal := by
  have formed : herbal.WellFormed := by decide
  have alike : Alike herbal rewrittenHerbal := .arr (.cons (alike_of_perm formed.1.1 (by decide)) .nil)
  have sorted : KeyOrder.conventional ≠ .asWritten := by decide
  obtain ⟨canonical, rest⟩ := sortKeys_canonical sorted formed
  exact ⟨canonical rewrittenHerbal (by decide) alike, rest⟩

end KeyOrder
end ApiDialect
