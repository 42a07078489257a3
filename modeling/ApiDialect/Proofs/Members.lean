import ApiDialect.Members
import Mathlib.Data.List.Forall2
import Mathlib.Data.List.Nodup
import Mathlib.Data.List.Perm.Basic

/-! The laws of members with distinct names. Removing a member moves another one, so every fact
about removal is a fact about the members as a set, which only distinct names make precise. -/

namespace ApiDialect
namespace Members
variable {α β : Type} {members other : Members α} {name wanted : String} {value found : α}

theorem get?_cons (name : String) (value : α) (rest : Members α) (wanted : String) :
    get? ((name, value) :: rest) wanted = if name = wanted then some value else get? rest wanted :=
  rfl

theorem mem_of_get? (seen : get? members name = some value) : (name, value) ∈ members := by
  induction members with
  | nil => cases seen
  | cons entry rest ih =>
    obtain ⟨first, held⟩ := entry
    rw [get?_cons] at seen
    split at seen
    next same => cases seen; subst same; exact List.mem_cons_self
    next => exact List.mem_cons_of_mem _ (ih seen)

theorem get?_eq_none_iff : get? members name = none ↔ name ∉ members.names := by
  induction members with
  | nil => simp [names]
  | cons entry rest ih =>
    obtain ⟨first, held⟩ := entry
    rw [get?_cons]
    simp only [names, List.map_cons, List.mem_cons, not_or] at ih ⊢
    split
    next same => simp [same]
    next different => simp [ih, Ne.symm different]

theorem get?_isSome_iff : (get? members name).isSome ↔ name ∈ members.names := by
  rw [← not_iff_not, ← get?_eq_none_iff]
  simp

theorem mem_names_of_get? (seen : get? members name = some value) : name ∈ members.names :=
  get?_isSome_iff.mp (by simp [seen])

theorem exists_get?_of_mem (member : name ∈ members.names) : ∃ value, get? members name = some value :=
  Option.isSome_iff_exists.mp (get?_isSome_iff.mpr member)

theorem Distinct.nil : Distinct ([] : Members α) := List.nodup_nil

theorem distinct_cons_iff {entry : String × α} :
    Distinct (entry :: members) ↔ entry.1 ∉ members.names ∧ Distinct members := List.nodup_cons

/-- Distinct members are what look-ups see of them. -/
theorem Distinct.get?_of_mem (distinct : Distinct members) (member : (name, value) ∈ members) :
    get? members name = some value := by
  induction members with
  | nil => cases member
  | cons entry rest ih =>
    obtain ⟨first, held⟩ := entry
    obtain ⟨absent, distinct⟩ := distinct_cons_iff.mp distinct
    rw [get?_cons]
    rcases List.mem_cons.mp member with same | member
    · cases same
      simp
    · have different : first ≠ name := by
        rintro rfl
        exact absent (List.mem_map.mpr ⟨_, member, rfl⟩)
      simp [different, ih distinct member]

theorem Distinct.get?_eq_some_iff (distinct : Distinct members) :
    get? members name = some value ↔ (name, value) ∈ members :=
  ⟨mem_of_get?, distinct.get?_of_mem⟩

theorem Distinct.perm (distinct : Distinct members) (same : members.Perm other) : Distinct other :=
  (same.map Prod.fst).nodup_iff.mp distinct

/-- Look-ups do not see the order of distinct members. -/
theorem Distinct.get?_perm (distinct : Distinct members) (same : members.Perm other) (name : String) :
    get? members name = get? other name := by
  apply Option.ext
  intro value
  rw [distinct.get?_eq_some_iff, (distinct.perm same).get?_eq_some_iff, same.mem_iff]

/-- Up to order, removal takes the first member of the name away. -/
theorem erase_perm (members : Members α) (name : String) :
    (erase members name).Perm (members.eraseP fun entry => entry.1 = name) := by
  induction members with
  | nil => rfl
  | cons entry rest ih =>
    obtain ⟨first, held⟩ := entry
    by_cases same : first = name
    · rw [List.eraseP_cons_of_pos (by simpa using same)]
      simp only [erase, same, if_true]
      cases last : rest.getLast? with
      | none => simp [List.getLast?_eq_none_iff.mp last]
      | some final =>
        have split : rest.dropLast ++ [final] = rest := List.dropLast_append_getLast? final last
        calc (final :: rest.dropLast).Perm (rest.dropLast ++ [final]) := List.perm_append_singleton .. |>.symm
          _ = rest := split
    · rw [List.eraseP_cons_of_neg (by simpa using same)]
      simpa only [erase, same, if_false] using ih.cons (first, held)

theorem mem_of_mem_erase {entry : String × α} (member : entry ∈ erase members name) : entry ∈ members :=
  List.mem_of_mem_eraseP ((erase_perm members name).mem_iff.mp member)

theorem erase_of_get?_eq_none (absent : get? members name = none) : erase members name = members := by
  induction members with
  | nil => rfl
  | cons entry rest ih =>
    obtain ⟨first, held⟩ := entry
    rw [get?_cons] at absent
    split at absent
    next => cases absent
    next different => simp [erase, different, ih absent]

theorem Distinct.erase (distinct : Distinct members) (name : String) : Distinct (erase members name) := by
  refine Distinct.perm ?_ (erase_perm members name).symm
  exact List.Nodup.sublist ((List.eraseP_sublist ..).map Prod.fst) distinct

theorem Distinct.get?_erase (distinct : Distinct members) (name wanted : String) :
    get? (Members.erase members name) wanted = if name = wanted then none else get? members wanted := by
  rw [(distinct.erase name).get?_perm (erase_perm members name)]
  induction members with
  | nil => simp
  | cons entry rest ih =>
    obtain ⟨first, held⟩ := entry
    obtain ⟨absent, distinct⟩ := distinct_cons_iff.mp distinct
    by_cases same : first = name
    · subst same
      rw [List.eraseP_cons_of_pos (by simp), get?_cons]
      by_cases here : first = wanted
      · subst here
        simpa using get?_eq_none_iff.mpr absent
      · simp [here]
    · rw [List.eraseP_cons_of_neg (by simpa using same), get?_cons, get?_cons, ih distinct]
      by_cases here : first = wanted
      · subst here
        simp [Ne.symm same]
      · simp [here]

theorem Distinct.get?_erase_self (distinct : Distinct members) (name : String) :
    get? (Members.erase members name) name = none := by
  simp [distinct.get?_erase]

theorem Distinct.get?_erase_of_ne (distinct : Distinct members) (different : name ≠ wanted) :
    get? (Members.erase members name) wanted = get? members wanted := by
  simp [distinct.get?_erase, different]

@[simp] theorem get?_insert_self (members : Members α) (name : String) (value : α) :
    get? (insert members name value) name = some value := by
  simp [get?_insert]

theorem get?_insert_of_ne (different : name ≠ wanted) (value : α) :
    get? (insert members name value) wanted = get? members wanted := by
  simp [get?_insert, different]

theorem Distinct.insert (distinct : Distinct members) (name : String) (value : α) :
    Distinct (insert members name value) := by
  unfold Distinct at distinct ⊢
  rw [names_insert]
  split
  next => exact distinct
  next absent =>
    refine List.nodup_append.mpr ⟨distinct, List.nodup_singleton name, ?_⟩
    rintro first member _ last rfl
    exact absent (List.mem_singleton.mp last ▸ member)

theorem mem_of_mem_insert {entry : String × α} (member : entry ∈ insert members name value) :
    entry = (name, value) ∨ entry ∈ members := by
  induction members with
  | nil => exact Or.inl (by simpa [Members.insert] using member)
  | cons head rest ih =>
    obtain ⟨first, held⟩ := head
    simp only [Members.insert] at member
    split at member
    next same =>
      subst same
      exact (List.mem_cons.mp member).imp_right (List.mem_cons_of_mem _)
    next =>
      rcases List.mem_cons.mp member with rfl | member
      · exact Or.inr List.mem_cons_self
      · exact (ih member).imp_right (List.mem_cons_of_mem _)

/-- Writing what is there already changes nothing. -/
theorem insert_of_get? (seen : get? members name = some value) : insert members name value = members := by
  induction members with
  | nil => cases seen
  | cons entry rest ih =>
    obtain ⟨first, held⟩ := entry
    rw [get?_cons] at seen
    split at seen
    next same => cases seen; simp [Members.insert, same]
    next different => simp [Members.insert, different, ih seen]

theorem get?_append (members other : Members α) (wanted : String) :
    get? (members ++ other) wanted = (get? members wanted).or (get? other wanted) := by
  induction members with
  | nil => rfl
  | cons entry rest ih =>
    obtain ⟨first, held⟩ := entry
    rw [List.cons_append, get?_cons, get?_cons, ih]
    split <;> rfl

theorem get?_insertIfAbsent (members : Members α) (name : String) (value : α) (wanted : String) :
    get? (insertIfAbsent members name value) wanted =
      if name = wanted then some ((get? members name).getD value) else get? members wanted := by
  unfold insertIfAbsent has
  by_cases same : name = wanted
  · subst same
    cases seen : get? members name <;> simp [seen, get?_append, get?_cons]
  · cases seen : get? members name <;> simp [same, get?_append, get?_cons]

theorem insertIfAbsent_eq_insert (absent : get? members name = none) (value : α) :
    insertIfAbsent members name value = Members.insert members name value := by
  have unseen : has members name = false := by simp [has, absent]
  simp only [insertIfAbsent, unseen, Bool.false_eq_true, if_false]
  clear unseen
  induction members with
  | nil => rfl
  | cons entry rest ih =>
    obtain ⟨first, held⟩ := entry
    rw [get?_cons] at absent
    split at absent
    next => cases absent
    next different => simp [Members.insert, different, ih absent]

theorem insertIfAbsent_of_get? (seen : get? members name = some found) (value : α) :
    insertIfAbsent members name value = members := by
  simp [insertIfAbsent, has, seen]

/-- Members with distinct names are known by what stands under each name. -/
theorem Distinct.perm_of_get? (distinct : Distinct members) (single : Distinct other)
    (same : ∀ name, get? members name = get? other name) : members.Perm other := by
  refine (List.perm_ext_iff_of_nodup distinct.of_map single.of_map).mpr fun entry => ?_
  obtain ⟨name, value⟩ := entry
  rw [← distinct.get?_eq_some_iff, ← single.get?_eq_some_iff, same]

/-- A change that is made is a value that is written. -/
theorem modify_eq_insert (seen : get? members name = some found) (change : α → α) :
    modify members name change = Members.insert members name (change found) := by
  induction members with
  | nil => cases seen
  | cons entry rest ih =>
    obtain ⟨first, held⟩ := entry
    rw [get?_cons] at seen
    split at seen
    next same => cases seen; simp [Members.insert, Members.modify, same]
    next different => simp [Members.insert, Members.modify, different, ih seen]

theorem names_of_forall₂ {related : String × α → String × β → Prop} {changed : Members β}
    (each : List.Forall₂ (fun before after => after.1 = before.1 ∧ related before after) members changed) :
    changed.names = members.names := by
  induction each with
  | nil => rfl
  | cons head _ ih => exact congrArg₂ List.cons head.1 ih

theorem get?_eq_none_of_forall₂ {related : String × α → String × β → Prop} {changed : Members β}
    (each : List.Forall₂ (fun before after => after.1 = before.1 ∧ related before after) members changed)
    (absent : get? members name = none) : get? changed name = none := by
  rw [get?_eq_none_iff, names_of_forall₂ each, ← get?_eq_none_iff]
  exact absent

theorem get?_of_forall₂ {related : String × α → String × β → Prop} {changed : Members β}
    (each : List.Forall₂ (fun before after => after.1 = before.1 ∧ related before after) members changed)
    (seen : get? members name = some value) :
    ∃ after, get? changed name = some after ∧ related (name, value) (name, after) := by
  induction each with
  | nil => cases seen
  | @cons entry result _ _ head _ ih =>
    obtain ⟨first, held⟩ := entry
    obtain ⟨other, made⟩ := result
    obtain ⟨rfl, holds⟩ := head
    rw [get?_cons] at seen ⊢
    split
    next same =>
      subst same
      rw [if_pos rfl] at seen
      cases seen
      exact ⟨made, rfl, holds⟩
    next different =>
      rw [if_neg different] at seen
      exact ih seen

theorem Distinct.filter (distinct : Distinct members) (keep : String × α → Bool) :
    Distinct (List.filter keep members) :=
  List.Nodup.sublist (List.filter_sublist.map Prod.fst) distinct

theorem Distinct.get?_filter (distinct : Distinct members) (keep : String × α → Bool) (name : String) :
    get? (members.filter keep) name = (get? members name).filter fun value => keep (name, value) := by
  induction members with
  | nil => rfl
  | cons entry rest ih =>
    obtain ⟨first, held⟩ := entry
    obtain ⟨fresh, others⟩ := distinct_cons_iff.mp distinct
    by_cases same : first = name
    · subst same
      have absent : get? rest first = none := get?_eq_none_iff.mpr fresh
      by_cases kept : keep (first, held) <;> simp [Option.filter, kept, get?_cons, ih others, absent]
    · by_cases kept : keep (first, held) <;> simp [kept, get?_cons, same, ih others]

theorem Distinct.ofList (pairs : List (String × α)) : Distinct (ofList pairs) := by
  unfold Members.ofList
  have grows : ∀ done : Members α, Distinct done →
      Distinct (pairs.foldl (fun members pair => Members.insert members pair.1 pair.2) done) := by
    induction pairs with
    | nil => exact fun done distinct => distinct
    | cons pair rest ih => exact fun done distinct => ih _ (distinct.insert pair.1 pair.2)
  exact grows [] .nil

theorem insert_of_notMem (absent : name ∉ members.names) (value : α) :
    insert members name value = members ++ [(name, value)] := by
  induction members with
  | nil => rfl
  | cons entry rest ih =>
    obtain ⟨other, old⟩ := entry
    simp only [names, List.map_cons, List.mem_cons, not_or] at absent
    simp only [insert, if_neg (Ne.symm absent.1), List.cons_append]
    rw [ih absent.2]

/-- Distinct names are kept as they stand. -/
theorem ofList_of_distinct (distinct : Distinct members) : ofList members = members := by
  have each (done rest : Members α) (apart : Distinct (done ++ rest)) :
      rest.foldl (fun members pair => insert members pair.1 pair.2) done = done ++ rest := by
    induction rest generalizing done with
    | nil => simp
    | cons entry rest ih =>
      have absent : entry.1 ∉ done.names := by
        intro member
        simp only [Distinct, names, List.map_append, List.map_cons] at apart member
        exact (List.nodup_append.mp apart).2.2 _ member _ List.mem_cons_self rfl
      rw [List.foldl_cons, insert_of_notMem absent, ih (done ++ [entry]) (by simpa using apart)]
      simp
  exact each [] members distinct

theorem mem_of_mem_ofList {pairs : List (String × α)} {entry : String × α} (member : entry ∈ ofList pairs) :
    entry ∈ pairs := by
  have comes : ∀ (pairs : List (String × α)) (done : Members α),
      entry ∈ pairs.foldl (fun members pair => Members.insert members pair.1 pair.2) done →
        entry ∈ done ∨ entry ∈ pairs := by
    intro pairs
    induction pairs with
    | nil => exact fun done member => Or.inl member
    | cons pair rest ih =>
      intro done member
      rcases ih _ member with member | member
      · rcases mem_of_mem_insert member with rfl | member
        · exact Or.inr List.mem_cons_self
        · exact Or.inl member
      · exact Or.inr (List.mem_cons_of_mem _ member)
  simpa using comes pairs [] member

end Members
end ApiDialect
