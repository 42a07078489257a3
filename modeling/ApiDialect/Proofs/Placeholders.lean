import ApiDialect.Placeholder
import ApiDialect.Proofs.Stability

/-! What placeholders add to a document. They fill its gaps and no more: whatever the document says stays, whatever is new comes from
the placeholders, and a document that has been filled has no gap left that they could fill. -/

namespace ApiDialect

namespace Members
variable {α : Type} {members other : Members α}

/-- Members are known by the order of their names and by what stands under each. -/
theorem Distinct.ext (distinct : Distinct members) (names : members.names = other.names)
    (same : ∀ name, get? members name = get? other name) : members = other := by
  induction members generalizing other with
  | nil =>
    cases other with
    | nil => rfl
    | cons entry rest => cases names
  | cons entry rest ih =>
    cases other with
    | nil => cases names
    | cons others more =>
      obtain ⟨first, held⟩ := entry
      obtain ⟨second, value⟩ := others
      obtain ⟨fresh, distinct⟩ := distinct_cons_iff.mp distinct
      obtain ⟨rfl, behind⟩ := List.cons.inj names
      have here := same first
      rw [get?_cons, get?_cons, if_pos rfl, if_pos rfl, Option.some.injEq] at here
      have later : rest = more := by
        apply ih distinct behind
        intro name
        have there := same name
        by_cases equal : first = name
        · subst equal
          have absent : first ∉ Members.names more := by
            rw [Members.names, ← behind]
            exact fresh
          rw [get?_eq_none_iff.mpr fresh, get?_eq_none_iff.mpr absent]
        · rwa [get?_cons, get?_cons, if_neg equal, if_neg equal] at there
      rw [here, later]

end Members

namespace Value
variable {lower upper value held : Value} {members : Members Value} {path : List String}

/-- The node to which names lead; arrays are not entered. -/
def descend? (value : Value) : List String → Option Value
  | [] => some value
  | name :: rest => (value.get? name).bind fun child => child.descend? rest

theorem sizeOf_lt_of_get? {name : String} {child : Value} (seen : value.get? name = some child) : sizeOf child < sizeOf value := by
  obtain ⟨members, rfl⟩ := obj_of_get? seen
  have smaller := List.sizeOf_lt_of_mem (Members.mem_of_get? seen)
  simp only [Prod.mk.sizeOf_spec, Value.obj.sizeOf_spec] at smaller ⊢
  omega

/-- What holds of a value when it holds of its members holds of every value. -/
theorem memberInduction {motive : Value → Prop}
    (each : ∀ value, (∀ name child, value.get? name = some child → motive child) → motive value) (value : Value) : motive value :=
  each value fun _ child _ => memberInduction each child
termination_by sizeOf value
decreasing_by exact sizeOf_lt_of_get? ‹_›

theorem overlay_of_not_object (other : lower.members? = none ∨ upper.members? = none) : overlay lower upper = upper := by
  cases lower <;> cases upper <;> simp_all [overlay, members?]

theorem overlay_obj (lower upper : Members Value) : overlay (.obj lower) (.obj upper) = .obj (overlayMembers lower upper) := by
  rw [overlay]

/-- Under each name stands what both objects say about it. -/
theorem get?_overlayMembers {upper : Members Value} (distinct : Members.Distinct upper) (lower : Members Value) (name : String) :
    Members.get? (overlayMembers lower upper) name = Option.merge overlay (Members.get? lower name) (Members.get? upper name) := by
  induction upper generalizing lower with
  | nil =>
    rw [overlayMembers]
    cases Members.get? lower name <;> rfl
  | cons entry rest ih =>
    obtain ⟨first, value⟩ := entry
    obtain ⟨fresh, distinct⟩ := Members.distinct_cons_iff.mp distinct
    rw [overlayMembers, ih distinct, Members.get?_insert, Members.get?_cons]
    by_cases same : first = name
    · subst same
      rw [if_pos rfl, if_pos rfl, Members.get?_eq_none_iff.mpr fresh]
      cases Members.get? lower first <;> rfl
    · rw [if_neg same, if_neg same]

theorem names_overlayMembers {upper : Members Value} (distinct : Members.Distinct upper) (lower : Members Value) :
    Members.names (overlayMembers lower upper) =
      Members.names lower ++ (Members.names upper).filter fun name => name ∉ Members.names lower := by
  induction upper generalizing lower with
  | nil => simp [overlayMembers, Members.names]
  | cons entry rest ih =>
    obtain ⟨first, value⟩ := entry
    obtain ⟨fresh, distinct⟩ := Members.distinct_cons_iff.mp distinct
    have all : Members.names ((first, value) :: rest) = first :: Members.names rest := rfl
    rw [overlayMembers, ih distinct, Members.names_insert, all]
    by_cases member : first ∈ Members.names lower
    · rw [if_pos member, List.filter_cons_of_neg (by simpa using member)]
    · rw [if_neg member, List.filter_cons_of_pos (by simpa using member), List.append_assoc, List.singleton_append]
      have others : ∀ name ∈ Members.names rest,
          decide (name ∉ Members.names lower ++ [first]) = decide (name ∉ Members.names lower) := by
        intro name inside
        have apart : name ≠ first := fun same => fresh (same ▸ inside)
        simp [apart]
      rw [List.filter_congr others]

/-- Nothing is empty that was put together from something. -/
theorem eq_nil_of_overlayMembers {lower upper : Members Value} (distinct : Members.Distinct upper)
    (empty : overlayMembers lower upper = []) : upper = [] := by
  have names := names_overlayMembers distinct lower
  rw [empty] at names
  obtain ⟨none, rest⟩ := List.append_eq_nil_iff.mp names.symm
  rw [none] at rest
  have unnamed : upper.map Prod.fst = [] := by simpa [Members.names] using rest
  exact List.map_eq_nil_iff.mp unnamed

theorem overlay_self (formed : Formed value) : overlay value value = value := by
  induction value using memberInduction with
  | each value ih =>
    cases value with
    | obj members =>
      rw [overlay_obj]
      apply congrArg Value.obj
      have distinct := Sound.distinct formed
      symm
      apply distinct.ext
      · rw [names_overlayMembers distinct]
        simp
      · intro name
        rw [get?_overlayMembers distinct]
        cases seen : Members.get? members name with
        | none => rfl
        | some child => exact congrArg some (ih name child seen (Sound.get? formed seen)).symm
    | _ => exact overlay_of_not_object (Or.inl rfl)

/-- The induction is on the upper value; what the lower one says alone is laid over itself. -/
theorem overlay_overlay (below : Formed lower) (above : Formed upper) :
    overlay lower (overlay lower upper) = overlay lower upper := by
  induction upper using memberInduction generalizing lower with
  | each upper ih =>
    cases lower with
    | obj lower =>
      cases upper with
      | obj upper =>
        have distinct := Sound.distinct above
        have merged : Members.Distinct (overlayMembers lower upper) :=
          Sound.distinct (overlayMembers_formed upper lower below fun _ member => Sound.entry above member)
        rw [overlay_obj, overlay_obj]
        apply congrArg Value.obj
        symm
        apply merged.ext
        · rw [names_overlayMembers merged, names_overlayMembers distinct, List.filter_append]
          simp
        · intro name
          rw [get?_overlayMembers merged, get?_overlayMembers distinct]
          cases hidden : Members.get? lower name with
          | none => cases Members.get? upper name <;> rfl
          | some one =>
            cases seen : Members.get? upper name with
            | none => exact congrArg some (overlay_self (Sound.get? below hidden)).symm
            | some other => exact congrArg some (ih name other seen (Sound.get? below hidden) (Sound.get? above seen)).symm
      | _ => rfl
    | _ => rw [overlay_of_not_object (Or.inl rfl), overlay_of_not_object (Or.inl rfl)]

/-- What ends a way of names in the upper value ends it in both. -/
theorem descend?_overlay (above : Formed upper) (reached : upper.descend? path = some held) (plain : held.members? = none) :
    (overlay lower upper).descend? path = some held := by
  induction path generalizing lower upper with
  | nil =>
    cases reached
    rw [overlay_of_not_object (Or.inr plain)]
    rfl
  | cons name rest ih =>
    obtain ⟨child, seen, deeper⟩ := Option.bind_eq_some_iff.mp reached
    obtain ⟨members, rfl⟩ := obj_of_get? seen
    cases lower with
    | obj lower =>
      have told := get?_overlayMembers (Sound.distinct above) lower name
      rw [show Members.get? members name = some child from seen] at told
      rw [overlay_obj]
      apply Option.bind_eq_some_iff.mpr
      cases hidden : Members.get? lower name with
      | none => exact ⟨child, told.trans (by rw [hidden]; rfl), deeper⟩
      | some below =>
        exact ⟨overlay below child, told.trans (by rw [hidden]; rfl), ih (Sound.valueGet? above seen) deeper⟩
    | _ => rwa [overlay_of_not_object (Or.inl rfl)]

/-- What ends a way of names after one value was laid over the other ended it in one of them. -/
theorem descend?_of_overlay (above : Formed upper) (reached : (overlay lower upper).descend? path = some held)
    (ends : held.members? = none ∨ held = .obj []) : upper.descend? path = some held ∨ lower.descend? path = some held := by
  induction path generalizing lower upper with
  | nil =>
    cases reached
    cases lower with
    | obj lower =>
      cases upper with
      | obj upper =>
        rw [overlay_obj] at ends ⊢
        rcases ends with plain | empty
        · cases plain
        · exact Or.inl (by rw [empty, eq_nil_of_overlayMembers (Sound.distinct above) (Value.obj.inj empty)]; rfl)
      | _ => exact Or.inl rfl
    | _ => exact Or.inl (by rw [overlay_of_not_object (Or.inl rfl)]; rfl)
  | cons name rest ih =>
    cases lower with
    | obj lower =>
      cases upper with
      | obj upper =>
        rw [overlay_obj] at reached
        obtain ⟨child, seen, deeper⟩ := Option.bind_eq_some_iff.mp reached
        have told := (get?_overlayMembers (Sound.distinct above) lower name).symm.trans seen
        cases hidden : Members.get? lower name with
        | none =>
          rw [hidden, Option.merge_none_left] at told
          exact Or.inl (Option.bind_eq_some_iff.mpr ⟨child, told, deeper⟩)
        | some below =>
          cases said : Members.get? upper name with
          | none =>
            rw [hidden, said] at told
            cases told
            exact Or.inr (Option.bind_eq_some_iff.mpr ⟨child, hidden, deeper⟩)
          | some value =>
            rw [hidden, said] at told
            cases told
            rcases ih (Sound.get? above said) deeper with found | found
            · exact Or.inl (Option.bind_eq_some_iff.mpr ⟨value, said, found⟩)
            · exact Or.inr (Option.bind_eq_some_iff.mpr ⟨below, hidden, found⟩)
      | _ => exact Or.inl reached
    | _ =>
      rw [overlay_of_not_object (Or.inl rfl)] at reached
      exact Or.inl reached

/-- Filling keeps all that a document says, adds nothing but placeholders, and does so once and for all. -/
theorem fill_completes {document placeholders : Value} (formed : document.WellFormed) (below : placeholders.WellFormed) :
    (∀ path held, document.descend? path = some held → held.members? = none →
      (document.fill placeholders).descend? path = some held) ∧
    (∀ path held, (document.fill placeholders).descend? path = some held → held.members? = none ∨ held = .obj [] →
      document.descend? path = some held ∨ placeholders.descend? path = some held) ∧
    (document.fill placeholders).fill placeholders = document.fill placeholders := by
  have sound := formed_iff.mpr formed
  refine ⟨?_, ?_, overlay_overlay (formed_iff.mpr below) sound⟩
  · intro path held reached plain
    exact descend?_overlay sound reached plain
  · intro path held reached ends
    exact descend?_of_overlay sound reached ends

/-- A record that has no title, no year and a label that is left open, and what a collector puts in for all of them. -/
def sleeve : Value :=
  .obj [("label", .null), ("info", .obj [("artist", .str "Trio"), ("sides", .obj [])])]

def collector : Value :=
  .obj [("info", .obj [("title", .str "Untitled"), ("artist", .str "Unknown"), ("sides", .obj [("a", .arr [])])]),
    ("label", .str "None")]

def filledSleeve : Value :=
  .obj [("info", .obj [("title", .str "Untitled"), ("artist", .str "Trio"), ("sides", .obj [("a", .arr [])])]), ("label", .null)]

theorem sleeve_completes : sleeve.fill collector = filledSleeve ∧ filledSleeve.descend? ["info", "artist"] = some (.str "Trio") ∧
    filledSleeve.descend? ["label"] = some .null ∧
    (sleeve.descend? ["info", "sides", "a"] = some (.arr []) ∨ collector.descend? ["info", "sides", "a"] = some (.arr [])) ∧
    filledSleeve.fill collector = filledSleeve := by
  have filled : sleeve.fill collector = filledSleeve := by decide
  have completes := fill_completes (by decide : sleeve.WellFormed) (by decide : collector.WellFormed)
  rw [filled] at completes
  obtain ⟨kept, added, settled⟩ := completes
  exact ⟨filled, kept _ _ rfl rfl, kept _ _ rfl rfl, added _ _ rfl (Or.inl rfl), settled⟩

end Value
end ApiDialect
