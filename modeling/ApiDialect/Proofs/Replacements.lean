import ApiDialect.Proofs.Addresses
import ApiDialect.Proofs.Members

/-! Writing into a document along a pointer. Whatever a pointer leads to can be written through it, and then it is found under
every spelling of its place. No place beside that one changes, and the objects and arrays above it keep their names and their
lengths. The laws are those of a lens, and they are proved of places, where an index has a single spelling. -/

namespace ApiDialect

namespace Members
variable {α : Type} {members : Members α} {name : String} {value : α}

theorem modify_self (seen : get? members name = some value) : modify members name (fun _ => value) = members := by
  rw [modify_eq_insert seen, insert_of_get? seen]

theorem modify_modify (members : Members α) (name : String) (first second : α → α) :
    modify (modify members name first) name second = modify members name (second ∘ first) := by
  induction members with
  | nil => rfl
  | cons entry rest ih =>
    obtain ⟨head, held⟩ := entry
    by_cases same : head = name
    · simp [modify, same]
    · simp [modify, same, ih]

end Members

namespace Value
variable {value child node : Value} {step other : Step} {place upper lower : Place} {token : String} {tokens : Pointer}

/-- Puts a node in the place of the child to which a step leads. -/
def putChild : Value → Step → Value → Value
  | .obj members, .member name, child => .obj (Members.modify members name fun _ => child)
  | .arr items, .item index, child => .arr (items.set index child)
  | value, _, _ => value

/-- Puts a node at a place. -/
def put : Value → Place → Value → Value
  | _, [], node => node
  | value, step :: rest, node =>
    match value.childAt? step with
    | some child => value.putChild step (child.put rest node)
    | none => value

/-- The same names in the same order, or equally many items. -/
inductive SameFrame : Value → Value → Prop where
  | obj {members changed : Members Value} (names : changed.names = members.names) : SameFrame (.obj members) (.obj changed)
  | arr {items changed : List Value} (length : changed.length = items.length) : SameFrame (.arr items) (.arr changed)

/-! ### A single step -/

/-- A step that can be taken leads to a member of an object or to an item of an array. -/
theorem childAt?_eq_some (seen : value.childAt? step = some child) :
    (∃ members name, value = .obj members ∧ step = .member name ∧ Members.get? members name = some child) ∨
      ∃ items index, value = .arr items ∧ step = .item index ∧ items[index]? = some child := by
  cases value with
  | obj members =>
    cases step with
    | member name => exact Or.inl ⟨members, name, rfl, rfl, seen⟩
    | item index => cases seen
  | arr items =>
    cases step with
    | member name => cases seen
    | item index => exact Or.inr ⟨items, index, rfl, rfl, seen⟩
  | _ => cases seen

theorem childAt?_putChild (seen : value.childAt? step = some child) (node : Value) :
    (value.putChild step node).childAt? step = some node := by
  obtain ⟨members, name, rfl, rfl, held⟩ | ⟨items, index, rfl, rfl, held⟩ := childAt?_eq_some seen
  · rw [putChild, childAt?, Members.get?_modify, if_pos rfl, held, Option.map_some]
  · obtain ⟨inside, _⟩ := List.getElem?_eq_some_iff.mp held
    exact List.getElem?_set_self inside

theorem childAt?_putChild_of_ne (apart : other ≠ step) (seen : value.childAt? step = some child) (node : Value) :
    (value.putChild step node).childAt? other = value.childAt? other := by
  obtain ⟨members, name, rfl, rfl, _⟩ | ⟨items, index, rfl, rfl, _⟩ := childAt?_eq_some seen
  · cases other with
    | member wanted =>
      have different : name ≠ wanted := fun same => apart (congrArg Step.member same.symm)
      rw [putChild, childAt?, childAt?, Members.get?_modify, if_neg different]
    | item index => rfl
  · cases other with
    | member name => rfl
    | item wanted =>
      have different : index ≠ wanted := fun same => apart (congrArg Step.item same.symm)
      exact List.getElem?_set_ne different

theorem putChild_self (seen : value.childAt? step = some child) : value.putChild step child = value := by
  obtain ⟨members, name, rfl, rfl, held⟩ | ⟨items, index, rfl, rfl, held⟩ := childAt?_eq_some seen
  · exact congrArg Value.obj (Members.modify_self held)
  · obtain ⟨inside, rfl⟩ := List.getElem?_eq_some_iff.mp held
    exact congrArg Value.arr (List.set_getElem_self inside)

theorem putChild_putChild (seen : value.childAt? step = some child) (first second : Value) :
    (value.putChild step first).putChild step second = value.putChild step second := by
  obtain ⟨members, name, rfl, rfl, _⟩ | ⟨items, index, rfl, rfl, _⟩ := childAt?_eq_some seen
  · exact congrArg Value.obj (Members.modify_modify members name _ _)
  · exact congrArg Value.arr (List.set_set ..)

theorem sameFrame_putChild (seen : value.childAt? step = some child) (node : Value) : SameFrame value (value.putChild step node) := by
  obtain ⟨members, name, rfl, rfl, _⟩ | ⟨items, index, rfl, rfl, _⟩ := childAt?_eq_some seen
  · exact .obj (Members.names_modify members name _)
  · exact .arr List.length_set

/-- A token that names a step writes where the step leads. -/
theorem setChild_of_namedBy (named : step.NamedBy token) (seen : value.childAt? step = some child) (node : Value) :
    value.setChild token node = value.putChild step node := by
  obtain ⟨members, name, rfl, rfl, _⟩ | ⟨items, index, rfl, rfl, _⟩ := childAt?_eq_some seen
  · rw [setChild, putChild, show token = name from named]
  · simp only [setChild, putChild, Pointer.index?_eq_some_iff.mpr named]

/-! ### All steps of a place -/

theorem put_cons (seen : value.childAt? step = some child) (rest : Place) (node : Value) :
    value.put (step :: rest) node = value.putChild step (child.put rest node) := by
  rw [put, seen]

theorem at?_put (reached : value.at? place = some node) (written : Value) : (value.put place written).at? place = some written := by
  induction place generalizing value with
  | nil => rfl
  | cons step rest ih =>
    obtain ⟨child, seen, reached⟩ := Option.bind_eq_some_iff.mp reached
    rw [put_cons seen, at?, childAt?_putChild seen, Option.bind_some, ih reached]

theorem put_self (reached : value.at? place = some node) : value.put place node = value := by
  induction place generalizing value with
  | nil => exact (Option.some.inj reached).symm
  | cons step rest ih =>
    obtain ⟨child, seen, reached⟩ := Option.bind_eq_some_iff.mp reached
    rw [put_cons seen, ih reached, putChild_self seen]

theorem put_put (reached : value.at? place = some node) (first second : Value) :
    (value.put place first).put place second = value.put place second := by
  induction place generalizing value with
  | nil => rfl
  | cons step rest ih =>
    obtain ⟨child, seen, reached⟩ := Option.bind_eq_some_iff.mp reached
    rw [put_cons seen, put_cons (childAt?_putChild seen _), ih reached, putChild_putChild seen, put_cons seen]

/-- A place that lies neither above nor below another one does not see what is written there. -/
theorem at?_put_of_apart {other : Place} (below : ¬ place <+: other) (above : ¬ other <+: place) (value written : Value) :
    (value.put place written).at? other = value.at? other := by
  induction place generalizing value other with
  | nil => exact absurd List.nil_prefix below
  | cons step rest ih =>
    cases other with
    | nil => exact absurd List.nil_prefix above
    | cons next later =>
      cases seen : value.childAt? step with
      | none => rw [put, seen]
      | some child =>
        rw [put_cons seen, at?, at?]
        by_cases same : next = step
        · subst same
          have inner := ih (fun behind => below (List.cons_prefix_cons.mpr ⟨rfl, behind⟩))
            (fun behind => above (List.cons_prefix_cons.mpr ⟨rfl, behind⟩)) child
          rw [childAt?_putChild seen, seen, Option.bind_some, Option.bind_some, inner]
        · rw [childAt?_putChild_of_ne same seen]

/-- Every node above the place is an object or an array, and remains one of the same frame. -/
theorem sameFrame_put (reached : value.at? (upper ++ step :: lower) = some node) (written : Value) :
    ∃ before after, value.at? upper = some before ∧ (value.put (upper ++ step :: lower) written).at? upper = some after ∧
      SameFrame before after := by
  induction upper generalizing value with
  | nil =>
    obtain ⟨child, seen, _⟩ := Option.bind_eq_some_iff.mp reached
    refine ⟨value, _, rfl, rfl, ?_⟩
    rw [List.nil_append, put_cons seen]
    exact sameFrame_putChild seen _
  | cons first rest ih =>
    obtain ⟨child, seen, reached⟩ := Option.bind_eq_some_iff.mp reached
    obtain ⟨before, after, here, there, same⟩ := ih reached
    refine ⟨before, after, ?_, ?_, same⟩
    · rw [at?, seen, Option.bind_some, here]
    · rw [List.cons_append, put_cons seen, at?, childAt?_putChild seen, Option.bind_some, there]

/-! ### Pointers -/

/-- The induction is on the steps, each of which has a token. -/
theorem modifyAt?_of_namedBy (named : List.Forall₂ Step.NamedBy place tokens) (reached : value.at? place = some node)
    (change : Value → Value) : value.modifyAt? change tokens = some (value.put place (change node)) := by
  induction named generalizing value with
  | nil =>
    cases reached
    rfl
  | cons first _ ih =>
    obtain ⟨child, seen, reached⟩ := Option.bind_eq_some_iff.mp reached
    simp only [modifyAt?, child?_eq_some_iff.mpr ⟨_, first, seen⟩, ih reached, Option.bind_eq_bind, Option.bind_some,
      Option.pure_def, setChild_of_namedBy first seen, put_cons seen]

/-- Nothing is written where nothing is found. -/
theorem walk?_of_modifyAt? {change : Value → Value} {after : Value} (written : value.modifyAt? change tokens = some after) :
    ∃ node, value.walk? tokens = some node := by
  induction tokens generalizing value after with
  | nil => exact ⟨value, rfl⟩
  | cons token rest ih =>
    obtain ⟨child, seen, written⟩ := Option.bind_eq_some_iff.mp written
    obtain ⟨changed, made, _⟩ := Option.bind_eq_some_iff.mp written
    obtain ⟨node, leads⟩ := ih made
    exact ⟨node, Option.bind_eq_some_iff.mpr ⟨child, seen, leads⟩⟩

end Value

/-- A fragment spells a place when its tokens name the steps. -/
def Place.SpelledBy (place : Place) (fragment : String) : Prop :=
  ∃ tokens, Pointer.Spells fragment.toList tokens ∧ List.Forall₂ Step.NamedBy place tokens

namespace Value
variable {document node after : Value} {place : Place} {fragment : String}

theorem walk?_ofFragment_iff : document.walk? (Pointer.ofFragment fragment) = some node ↔
    ∃ place : Place, place.SpelledBy fragment ∧ document.at? place = some node := by
  rw [walk?_eq_some_iff]
  constructor
  · intro ⟨place, named, reached⟩
    exact ⟨place, ⟨_, Pointer.ofFragment_eq_iff.mp rfl, named⟩, reached⟩
  · intro ⟨place, ⟨tokens, spells, named⟩, reached⟩
    rw [Pointer.ofFragment_eq_iff.mpr spells]
    exact ⟨place, named, reached⟩

theorem modifyAt?_of_spelledBy (spelled : place.SpelledBy fragment) (reached : document.at? place = some node)
    (change : Value → Value) :
    document.modifyAt? change (Pointer.ofFragment fragment) = some (document.put place (change node)) := by
  obtain ⟨tokens, spells, named⟩ := spelled
  rw [Pointer.ofFragment_eq_iff.mpr spells, modifyAt?_of_namedBy named reached]

/-- A document in which the node at a place has been replaced. The new node is found under every fragment that spells the place.
Whatever lies neither above nor below it is as before, and whatever lies above it has the frame that it had. -/
structure Replaced (document : Value) (place : Place) (written after : Value) : Prop where
  found : ∀ fragment, place.SpelledBy fragment → after.walk? (Pointer.ofFragment fragment) = some written
  apart : ∀ other : Place, ¬ place <+: other → ¬ other <+: place → after.at? other = document.at? other
  kept : ∀ (fragment : String) (other : Place) (node : Value), other.SpelledBy fragment → ¬ place <+: other → ¬ other <+: place →
    document.at? other = some node → after.walk? (Pointer.ofFragment fragment) = some node
  frames : ∀ upper step lower, place = upper ++ step :: lower →
    ∃ before now, document.at? upper = some before ∧ after.at? upper = some now ∧ SameFrame before now

theorem replaced_put (reached : document.at? place = some node) (written : Value) :
    Replaced document place written (document.put place written) := by
  refine ⟨?_, ?_, ?_, ?_⟩
  · intro fragment spelled
    exact walk?_ofFragment_iff.mpr ⟨place, spelled, at?_put reached written⟩
  · intro other below above
    exact at?_put_of_apart below above document written
  · intro fragment other node spelled below above here
    refine walk?_ofFragment_iff.mpr ⟨other, spelled, ?_⟩
    rw [at?_put_of_apart below above, here]
  · rintro upper step lower rfl
    exact sameFrame_put reached written

/-- A fragment can be written through exactly when it can be followed, and what is changed is the node that it leads to. Writing
that node back changes nothing, another node replaces it and nothing else, and of two nodes the second one stays. -/
theorem modifyAt?_lawful (document : Value) (fragment : String) :
    (∀ change : Value → Value, (∃ after, document.modifyAt? change (Pointer.ofFragment fragment) = some after) ↔
      ∃ node, document.walk? (Pointer.ofFragment fragment) = some node) ∧
    (∀ node, document.walk? (Pointer.ofFragment fragment) = some node ↔
      ∃ place : Place, place.SpelledBy fragment ∧ document.at? place = some node) ∧
    ∀ (place : Place) (node : Value), place.SpelledBy fragment → document.at? place = some node →
      (∀ change : Value → Value, document.modifyAt? change (Pointer.ofFragment fragment) =
        document.modifyAt? (fun _ => change node) (Pointer.ofFragment fragment)) ∧
      document.modifyAt? (fun _ => node) (Pointer.ofFragment fragment) = some document ∧
      ∀ written, ∃ after, document.modifyAt? (fun _ => written) (Pointer.ofFragment fragment) = some after ∧
        Replaced document place written after ∧
        ∀ last, after.modifyAt? (fun _ => last) (Pointer.ofFragment fragment) =
          document.modifyAt? (fun _ => last) (Pointer.ofFragment fragment) := by
  refine ⟨fun change => ⟨fun ⟨_, written⟩ => walk?_of_modifyAt? written, ?_⟩, fun node => walk?_ofFragment_iff, ?_⟩
  · intro ⟨node, leads⟩
    obtain ⟨place, spelled, reached⟩ := walk?_ofFragment_iff.mp leads
    exact ⟨_, modifyAt?_of_spelledBy spelled reached change⟩
  intro place node spelled reached
  have writes := modifyAt?_of_spelledBy spelled reached
  refine ⟨?_, ?_, ?_⟩
  · intro change
    rw [writes, writes]
  · rw [writes, put_self reached]
  · intro written
    refine ⟨document.put place written, writes _, replaced_put reached written, ?_⟩
    intro last
    rw [modifyAt?_of_spelledBy spelled (at?_put reached written), put_put reached, writes]

/-- Salt and a jar of flour, on a shelf whose name has a slash. -/
def pantry : Value :=
  .obj [("dry/goods", .arr [.str "salt", .obj [("0", .str "flour")]]), ("door", .bool true)]

def jar : Place :=
  [.member "dry/goods", .item 1]

/-- What is put into the jar is found there under another spelling, the salt stays, and there are as many jars as before. -/
theorem pantry_lawful : jar.SpelledBy "/dry~1goods/+01" ∧ pantry.at? jar = some (.obj [("0", .str "flour")]) ∧
    ∃ after, pantry.modifyAt? (fun _ => .str "sugar") (Pointer.ofFragment "/dry~1goods/+01") = some after ∧
      after.walk? (Pointer.ofFragment "dry~1goods/1") = some (.str "sugar") ∧
      after.walk? (Pointer.ofFragment "/dry~1goods/0") = some (.str "salt") ∧
      ∃ before now, pantry.at? [.member "dry/goods"] = some before ∧ after.at? [.member "dry/goods"] = some now ∧
        SameFrame before now := by
  have spelled (fragment token : String) (index : Nat) (tokens : Pointer.ofFragment fragment = ["dry/goods", token])
      (read : Pointer.index? token = some index) : Place.SpelledBy [.member "dry/goods", .item index] fragment :=
    ⟨_, Pointer.ofFragment_eq_iff.mp tokens, .cons rfl (.cons (Pointer.index?_eq_some_iff.mp read) .nil)⟩
  have signed : jar.SpelledBy "/dry~1goods/+01" := spelled _ "+01" 1 (by decide +kernel) (by decide +kernel)
  have reached : pantry.at? jar = some (.obj [("0", .str "flour")]) := by rfl
  obtain ⟨_, _, laws⟩ := modifyAt?_lawful pantry "/dry~1goods/+01"
  obtain ⟨_, _, writes⟩ := laws jar _ signed reached
  obtain ⟨after, made, replaced, _⟩ := writes (.str "sugar")
  refine ⟨signed, reached, after, made, ?_, ?_, replaced.frames [.member "dry/goods"] (.item 1) [] rfl⟩
  · exact replaced.found _ (spelled _ "1" 1 (by decide +kernel) (by decide +kernel))
  · exact replaced.kept _ [.member "dry/goods", .item 0] _ (spelled _ "0" 0 (by decide +kernel) (by decide +kernel))
      (by decide) (by decide) rfl

end Value
end ApiDialect
