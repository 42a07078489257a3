/-!
The members of an object: names with values, kept in the order in which they were first
written. Every rewriting of a document is built from the five operations here.
-/

namespace ApiDialect

/-- Pairs of a name and a value in document order. -/
abbrev Members (α : Type) := List (String × α)

namespace Members
variable {α : Type}

def names (members : Members α) : List String :=
  members.map Prod.fst

/-- A list of members is distinct when no name occurs twice. -/
def Distinct (members : Members α) : Prop :=
  members.names.Nodup

def get? : Members α → String → Option α
  | [], _ => none
  | (name, value) :: rest, wanted => if name = wanted then some value else get? rest wanted

def has (members : Members α) (wanted : String) : Bool :=
  (get? members wanted).isSome

/-- A name that is present keeps its place and takes the new value; any other is appended. -/
def insert : Members α → String → α → Members α
  | [], name, value => [(name, value)]
  | (other, old) :: rest, name, value =>
    if other = name then (other, value) :: rest else (other, old) :: insert rest name value

/-- The last member moves into the place of the removed one. -/
def erase : Members α → String → Members α
  | [], _ => []
  | (other, value) :: rest, name =>
    if other = name then
      match rest.getLast? with
      | none => []
      | some last => last :: rest.dropLast
    else (other, value) :: erase rest name

/-- Leaves a name that is present alone. -/
def insertIfAbsent (members : Members α) (name : String) (value : α) : Members α :=
  if has members name then members else members ++ [(name, value)]

/-- Changes the value under a name and nothing when the name is absent. -/
def modify : Members α → String → (α → α) → Members α
  | [], _, _ => []
  | (other, value) :: rest, name, change =>
    if other = name then (other, change value) :: rest
    else (other, value) :: modify rest name change

/-- A repeated name keeps its first place and its last value. -/
def ofList (pairs : List (String × α)) : Members α :=
  pairs.foldl (fun members pair => insert members pair.1 pair.2) []

@[simp] theorem get?_nil (wanted : String) : get? ([] : Members α) wanted = none := rfl

theorem get?_insert (members : Members α) (name : String) (value : α) (wanted : String) :
    get? (insert members name value) wanted =
      if name = wanted then some value else get? members wanted := by
  induction members with
  | nil => simp [insert, get?]
  | cons pair rest ih =>
    obtain ⟨other, old⟩ := pair
    by_cases same : other = name
    · subst same
      by_cases here : other = wanted <;> simp [insert, get?, here]
    · by_cases here : other = wanted
      · subst here
        simp [insert, get?, same, Ne.symm same]
      · simp [insert, get?, same, here, ih]

theorem names_insert (members : Members α) (name : String) (value : α) :
    (insert members name value).names =
      if name ∈ members.names then members.names else members.names ++ [name] := by
  induction members with
  | nil => simp [insert, names]
  | cons pair rest ih =>
    obtain ⟨other, old⟩ := pair
    simp only [names, List.map_cons] at ih ⊢
    by_cases same : other = name
    · subst same
      simp [insert]
    · simp only [insert, same, if_false, List.map_cons, List.mem_cons, Ne.symm same, false_or, ih]
      split <;> simp [*]

theorem get?_modify (members : Members α) (name : String) (change : α → α) (wanted : String) :
    get? (modify members name change) wanted =
      if name = wanted then (get? members wanted).map change else get? members wanted := by
  induction members with
  | nil => simp [modify, get?]
  | cons pair rest ih =>
    obtain ⟨other, old⟩ := pair
    by_cases same : other = name
    · subst same
      by_cases here : other = wanted <;> simp [modify, get?, here]
    · by_cases here : other = wanted
      · subst here
        simp [modify, get?, same, Ne.symm same]
      · simp [modify, get?, same, here, ih]

theorem names_modify (members : Members α) (name : String) (change : α → α) :
    (modify members name change).names = members.names := by
  induction members with
  | nil => rfl
  | cons pair rest ih =>
    obtain ⟨other, old⟩ := pair
    simp only [names] at ih ⊢
    by_cases same : other = name <;> simp [modify, same, ih]

end Members
end ApiDialect
