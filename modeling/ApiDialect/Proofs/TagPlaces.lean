import ApiDialect.Proofs.Layout
import ApiDialect.Proofs.Places
import ApiDialect.Proofs.Texts

/-! What a list of tags makes of a document, in one piece. A tag leads to a place of the document in
which it is written; where no tag leads through a mark, the tags that have been written before do
not matter, and every place ends with the payload of the last tag that leads to it. -/

namespace ApiDialect
open Value

namespace Members
variable {α : Type} {members : Members α} {name other : String}

theorem insert_insert_self (members : Members α) (name : String) (first second : α) :
    insert (insert members name first) name second = insert members name second := by
  induction members with
  | nil => simp [insert]
  | cons entry rest ih =>
    obtain ⟨head, held⟩ := entry
    by_cases same : head = name <;> simp [insert, same, ih]

/-- A name that is present keeps its place, so it does not matter when it takes its value. -/
theorem insert_insert_of_mem (inside : name ∈ members.names) (apart : other ≠ name) (first second : α) :
    insert (insert members other first) name second = insert (insert members name second) other first := by
  induction members with
  | nil => cases inside
  | cons entry rest ih =>
    obtain ⟨head, held⟩ := entry
    by_cases here : head = name
    · subst here
      simp [insert, Ne.symm apart]
    · have deeper : name ∈ names rest := by simpa [names, Ne.symm here] using inside
      by_cases there : head = other <;> simp [insert, here, there, apart, ih deeper]

theorem modify_insert_of_ne (apart : other ≠ name) (members : Members α) (change : α → α) (value : α) :
    modify (insert members other value) name change = insert (modify members name change) other value := by
  induction members with
  | nil => simp [insert, modify, apart]
  | cons entry rest ih =>
    obtain ⟨head, held⟩ := entry
    by_cases here : head = name
    · subst here
      simp [insert, modify, Ne.symm apart]
    · by_cases there : head = other <;> simp [insert, modify, here, there, apart, ih]

end Members

namespace Discriminator

mutual
/-- The tree with a payload written at every place that has one. -/
def written (payload? : Place → Option String) : Value → Value
  | .arr items => .arr (writtenItems payload? 0 items)
  | .obj members =>
    match payload? [] with
    | some payload => mark payload (.obj (writtenMembers payload? members))
    | none => .obj (writtenMembers payload? members)
  | value => value
termination_by structural value => value

def writtenItems (payload? : Place → Option String) (index : Nat) : List Value → List Value
  | [] => []
  | item :: rest =>
    written (fun place => payload? (.item index :: place)) item :: writtenItems payload? (index + 1) rest
termination_by structural items => items

def writtenMembers (payload? : Place → Option String) : List (String × Value) → List (String × Value)
  | [] => []
  | (name, value) :: rest =>
    (name, written (fun place => payload? (.member name :: place)) value) :: writtenMembers payload? rest
termination_by structural members => members
end

/-- Where a candidate leads: to a place of the document, or out of it. -/
inductive Goal where
  | inside (place : Place)
  | outside
  deriving DecidableEq

namespace Setting

/-- A candidate as it reads in the layout of the document. -/
def readdress (setting : Setting) (candidate : String) : String :=
  if setting.relocated then Relocation.reference candidate else candidate

/-- A candidate in the document has to lead to an object, any other one just has to be there. -/
def goal? (setting : Setting) (document : Value) (candidate : String) : Option Goal :=
  if Reference.isLocal candidate then
    (Text.strip? "#" (setting.readdress candidate)).bind fun fragment =>
      match document.walk? (Pointer.ofFragment fragment) with
      | some (.obj _) => (document.placeAt? (Pointer.ofFragment fragment)).map .inside
      | _ => none
  else
    match setting.resolver.follow document candidate with
    | .ok _ => some .outside
    | .error _ => none

/-- The first candidate that leads anywhere decides. -/
def goalOf? (setting : Setting) (document : Value) (tag : Tag) : Option Goal :=
  tag.candidates.findSome? (setting.goal? document)

/-- The payload of the last tag that leads to a place. -/
def payload? (setting : Setting) (document : Value) (tags : List Tag) (place : Place) : Option String :=
  ((tags.filter fun tag => setting.goalOf? document tag = some (.inside place)).map Tag.payload).getLast?

/-- The tags that lead nowhere. -/
def lost (setting : Setting) (document : Value) (tags : List Tag) : List Tag :=
  tags.filter fun tag => setting.goalOf? document tag = none

end Setting

variable {payload? other? : Place → Option String} {members : Members Value} {items : List Value} {value child : Value}
  {name token payload : String} {index : Nat}

/-! ### Nodes of a tree that has been written -/

theorem get?_writtenMembers (payload? : Place → Option String) (members : Members Value) (name : String) :
    Members.get? (writtenMembers payload? members) name =
      (Members.get? members name).map (written fun place => payload? (.member name :: place)) := by
  induction members with
  | nil => rfl
  | cons entry rest ih =>
    obtain ⟨first, held⟩ := entry
    rw [writtenMembers, Members.get?_cons, Members.get?_cons, ih]
    split
    next same => rw [same, Option.map_some]
    next => rfl

theorem getElem?_writtenItems (payload? : Place → Option String) (items : List Value) (start index : Nat) :
    (writtenItems payload? start items)[index]? =
      items[index]?.map (written fun place => payload? (.item (start + index) :: place)) := by
  induction items generalizing start index with
  | nil => rfl
  | cons item rest ih =>
    cases index with
    | zero => rfl
    | succ index =>
      rw [writtenItems, List.getElem?_cons_succ, List.getElem?_cons_succ, ih]
      simp only [Nat.add_assoc, Nat.add_comm 1]

theorem written_obj (payload? : Place → Option String) (members : Members Value) :
    ∃ changed, written payload? (.obj members) = .obj changed ∧
      ∀ name, ¬ isMark name → Members.get? changed name = Members.get? (writtenMembers payload? members) name := by
  rw [written]
  split
  next payload _ => exact ⟨_, rfl, fun name plain => (get?_mark _ payload name).trans (if_neg plain)⟩
  next => exact ⟨_, rfl, fun _ _ => rfl⟩

theorem step?_written (payload? : Place → Option String) (value : Value) (token : String) :
    (written payload? value).step? token = value.step? token := by
  cases value with
  | obj members =>
    obtain ⟨changed, same, _⟩ := written_obj payload? members
    rw [same]
    rfl
  | _ => rfl

theorem step?_of_child? (seen : value.child? token = some child) : ∃ step, value.step? token = some step := by
  cases value with
  | obj members => exact ⟨_, rfl⟩
  | arr items =>
    obtain ⟨index, found, _⟩ := Option.bind_eq_some_iff.mp seen
    exact ⟨.item index, by rw [step?, found]; rfl⟩
  | _ => cases seen

/-- A token that is no mark leads to the child that it led to before. -/
theorem child?_written {step : Step} (plain : ¬ isMark token) (taken : value.step? token = some step) :
    (written payload? value).child? token =
      (value.child? token).map (written fun place => payload? (step :: place)) := by
  cases value with
  | obj members =>
    cases taken
    obtain ⟨changed, same, each⟩ := written_obj payload? members
    rw [same]
    exact (each token plain).trans (get?_writtenMembers payload? members token)
  | arr items =>
    obtain ⟨index, found, rfl⟩ := Option.map_eq_some_iff.mp taken
    rw [written, child?, child?, found, Option.bind_some, Option.bind_some, getElem?_writtenItems]
    simp only [Nat.zero_add]
  | _ => cases taken

theorem child?_written_none (plain : ¬ isMark token) (absent : value.child? token = none) :
    (written payload? value).child? token = none := by
  cases taken : value.step? token with
  | some step => rw [child?_written plain taken, absent, Option.map_none]
  | none =>
    cases value with
    | obj members => cases taken
    | arr items =>
      rw [written, child?, Option.map_eq_none_iff.mp taken]
      rfl
    | _ => rfl

theorem walk?_written (payload? : Place → Option String) (value : Value) {pointer : Pointer}
    (plain : ∀ token ∈ pointer, ¬ isMark token) :
    (written payload? value).placeAt? pointer = value.placeAt? pointer ∧
      (written payload? value).walk? pointer = (value.placeAt? pointer).bind fun place =>
        (value.walk? pointer).map (written fun rest => payload? (place ++ rest)) := by
  induction pointer generalizing value payload? with
  | nil => exact ⟨rfl, rfl⟩
  | cons token rest ih =>
    obtain ⟨first, later⟩ := List.forall_mem_cons.mp plain
    cases seen : value.child? token with
    | none => simp [placeAt?, walk?, child?_written_none first seen, seen]
    | some child =>
      obtain ⟨step, taken⟩ := step?_of_child? seen
      obtain ⟨places, walks⟩ := ih (fun place => payload? (step :: place)) child later
      simp only [placeAt?, walk?, step?_written, child?_written first taken, seen, taken, Option.map_some,
        Option.bind_eq_bind, Option.bind_some, Option.pure_def, places, walks]
      cases child.placeAt? rest <;> simp

mutual
theorem written_none : (value : Value) → written (fun _ => none) value = value
  | .arr items => congrArg Value.arr (writtenItems_none 0 items)
  | .obj members => congrArg Value.obj (writtenMembers_none members)
  | .null | .bool _ | .num _ | .str _ => rfl
termination_by structural value => value

theorem writtenItems_none (index : Nat) : (items : List Value) → writtenItems (fun _ => none) index items = items
  | [] => rfl
  | item :: rest => congrArg₂ List.cons (written_none item) (writtenItems_none (index + 1) rest)
termination_by structural items => items

theorem writtenMembers_none : (members : List (String × Value)) → writtenMembers (fun _ => none) members = members
  | [] => rfl
  | (name, value) :: rest =>
    congrArg₂ List.cons (congrArg (Prod.mk name) (written_none value)) (writtenMembers_none rest)
termination_by structural members => members
end

/-! ### Writing once more -/

/-- One more payload, which replaces an earlier one at the same place. -/
def updated (payload? : Place → Option String) (place : Place) (payload : String) (other : Place) : Option String :=
  if other = place then some payload else payload? other

theorem updated_nil (payload? : Place → Option String) (payload : String) (step : Step) :
    (fun rest => updated payload? [] payload (step :: rest)) = fun rest => payload? (step :: rest) :=
  funext fun _ => if_neg (List.cons_ne_nil _ _)

theorem updated_cons (payload? : Place → Option String) (step : Step) (place : Place) (payload : String) :
    (fun rest => updated payload? (step :: place) payload (step :: rest)) =
      updated (fun rest => payload? (step :: rest)) place payload := by
  funext rest
  simp [updated]

theorem updated_of_ne {step other : Step} (apart : other ≠ step) (payload? : Place → Option String) (place : Place)
    (payload : String) :
    (fun rest => updated payload? (step :: place) payload (other :: rest)) = fun rest => payload? (other :: rest) := by
  funext rest
  simp [updated, apart]

theorem writtenMembers_congr (same : ∀ name ∈ members.names,
      (fun rest => payload? (.member name :: rest)) = fun rest => other? (.member name :: rest)) :
    writtenMembers payload? members = writtenMembers other? members := by
  induction members with
  | nil => rfl
  | cons entry rest ih =>
    obtain ⟨first, later⟩ := List.forall_mem_cons.mp same
    rw [writtenMembers, writtenMembers, first, ih later]

theorem writtenItems_congr {start : Nat} (same : ∀ index ≥ start,
      (fun rest => payload? (.item index :: rest)) = fun rest => other? (.item index :: rest)) :
    writtenItems payload? start items = writtenItems other? start items := by
  induction items generalizing start with
  | nil => rfl
  | cons item rest ih =>
    rw [writtenItems, writtenItems, same start (Nat.le_refl start), ih fun index later => same index (by omega)]

/-- A mark takes the place of an earlier one. -/
theorem mark_mark (payload other : String) (members : Members Value) :
    mark payload (mark other (.obj members)) = mark payload (.obj members) := by
  have present : "x-discriminator-value" ∈
      (Members.insert members "x-discriminator-value" (.str other)).names :=
    Members.mem_names_of_get? (Members.get?_insert_self ..)
  simp only [mark]
  rw [Members.insert_insert_of_mem present (by decide), Members.insert_insert_self, Members.insert_insert_self]

theorem mark_modify (plain : ¬ isMark name) (payload : String) (members : Members Value) (change : Value → Value) :
    ∃ changed, mark payload (.obj members) = .obj changed ∧
      mark payload (.obj (Members.modify members name change)) = .obj (Members.modify changed name change) := by
  refine ⟨_, rfl, ?_⟩
  have one : "x-discriminator-value" ≠ name := fun same => plain (Or.inl same.symm)
  have other : "x-ms-discriminator-value" ≠ name := fun same => plain (Or.inr same.symm)
  simp only [mark]
  rw [Members.modify_insert_of_ne other, Members.modify_insert_of_ne one]

theorem written_root (payload? : Place → Option String) (payload : String) (members : Members Value) :
    mark payload (written payload? (.obj members)) = written (updated payload? [] payload) (.obj members) := by
  have inner : writtenMembers (updated payload? [] payload) members = writtenMembers payload? members :=
    writtenMembers_congr fun name _ => updated_nil payload? payload (.member name)
  rw [written, written, inner, updated, if_pos rfl]
  split
  next => exact mark_mark ..
  next => rfl

theorem modify_writtenMembers (payload? : Place → Option String) (place : Place) (payload : String)
    (distinct : Members.Distinct members) (seen : Members.get? members name = some child) :
    Members.modify (writtenMembers payload? members) name
        (fun _ => written (updated (fun rest => payload? (.member name :: rest)) place payload) child) =
      writtenMembers (updated payload? (.member name :: place) payload) members := by
  have apart (first : String) (other : first ≠ name) :
      (fun rest => updated payload? (.member name :: place) payload (.member first :: rest)) =
        fun rest => payload? (.member first :: rest) :=
    updated_of_ne (fun same => other (Step.member.inj same)) payload? place payload
  induction members with
  | nil => cases seen
  | cons entry rest ih =>
    obtain ⟨first, held⟩ := entry
    obtain ⟨fresh, others⟩ := Members.distinct_cons_iff.mp distinct
    rw [Members.get?_cons] at seen
    simp only [writtenMembers, Members.modify]
    by_cases same : first = name
    · subst same
      cases (if_pos rfl).symm.trans seen
      rw [if_pos rfl, updated_cons, writtenMembers_congr fun other inside => (apart other ?_).symm]
      rintro rfl
      exact fresh inside
    · rw [if_neg same] at seen
      rw [if_neg same, apart first same, ih others seen]

theorem set_writtenItems (payload? : Place → Option String) (place : Place) (payload : String)
    (start index : Nat) (seen : items[index]? = some child) :
    (writtenItems payload? start items).set index
        (written (updated (fun rest => payload? (.item (start + index) :: rest)) place payload) child) =
      writtenItems (updated payload? (.item (start + index) :: place) payload) start items := by
  induction items generalizing start index with
  | nil => cases seen
  | cons item rest ih =>
    cases index with
    | zero =>
      cases seen
      have behind : writtenItems (updated payload? (.item start :: place) payload) (start + 1) rest =
          writtenItems payload? (start + 1) rest := by
        refine writtenItems_congr fun index later => updated_of_ne (fun same => ?_) payload? place payload
        have := Step.item.inj same
        omega
      simp only [writtenItems, List.set_cons_zero, Nat.add_zero, updated_cons, behind]
    | succ index =>
      have ahead : (fun rest => updated payload? (.item (start + (index + 1)) :: place) payload (.item start :: rest)) =
          fun rest => payload? (.item start :: rest) := by
        refine updated_of_ne (fun same => ?_) payload? place payload
        have := Step.item.inj same
        omega
      have others := ih (start + 1) index seen
      rw [Nat.add_assoc, Nat.add_comm 1 index] at others
      rw [writtenItems, writtenItems, List.set_cons_succ, ahead, others]

/-- Putting a written child back is writing below the node. -/
theorem setChild_written {step : Step} {place : Place} (payload? : Place → Option String) (formed : Formed value)
    (plain : ¬ isMark token) (seen : value.child? token = some child) (taken : value.step? token = some step) :
    (written payload? value).setChild token
        (written (updated (fun rest => payload? (step :: rest)) place payload) child) =
      written (updated payload? (step :: place) payload) value := by
  cases value with
  | obj members =>
    cases taken
    have root : updated payload? (.member token :: place) payload [] = payload? [] := if_neg (List.cons_ne_nil _ _).symm
    have inner := modify_writtenMembers payload? place payload (Sound.distinct formed) seen
    rw [written, written, root, ← inner]
    cases payload? [] with
    | none => rfl
    | some earlier =>
      obtain ⟨changed, before, after⟩ := mark_modify plain earlier (writtenMembers payload? members) fun _ =>
        written (updated (fun rest => payload? (.member token :: rest)) place payload) child
      simp only [before, after, setChild]
  | arr items =>
    obtain ⟨index, found, rfl⟩ := Option.map_eq_some_iff.mp taken
    rw [child?, found, Option.bind_some] at seen
    have inner := set_writtenItems payload? place payload 0 index seen
    simp only [Nat.zero_add] at inner
    simp only [written, setChild, found, inner]
  | _ => cases taken

theorem modifyAt?_written {pointer : Pointer} {place : Place} (payload? : Place → Option String)
    (formed : Formed value) (plain : ∀ token ∈ pointer, ¬ isMark token)
    (leads : value.walk? pointer = some (.obj members)) (here : value.placeAt? pointer = some place) :
    (written payload? value).modifyAt? (mark payload) pointer = some (written (updated payload? place payload) value) := by
  induction pointer generalizing value place payload? with
  | nil =>
    cases leads
    cases here
    exact congrArg some (written_root payload? payload members)
  | cons token rest ih =>
    obtain ⟨first, later⟩ := List.forall_mem_cons.mp plain
    obtain ⟨child, seen, leads⟩ := Option.bind_eq_some_iff.mp leads
    obtain ⟨step, taken⟩ := step?_of_child? seen
    simp only [placeAt?, seen, taken, Option.bind_eq_bind, Option.bind_some, Option.pure_def] at here
    obtain ⟨below, deeper, same⟩ := Option.bind_eq_some_iff.mp here
    obtain rfl := Option.some.inj same
    have inner := ih (fun rest => payload? (step :: rest)) (formed.child? seen) later leads deeper
    simp only [modifyAt?, child?_written first taken, seen, Option.map_some, Option.bind_eq_bind, Option.bind_some, inner,
      Option.pure_def]
    exact congrArg some (setChild_written payload? formed first seen taken)

/-! ### One tag after another -/

theorem placeAt?_of_walk? {pointer : Pointer} (leads : value.walk? pointer = some child) :
    ∃ place, value.placeAt? pointer = some place := by
  induction pointer generalizing value with
  | nil => exact ⟨[], rfl⟩
  | cons token rest ih =>
    obtain ⟨next, seen, leads⟩ := Option.bind_eq_some_iff.mp leads
    obtain ⟨step, taken⟩ := step?_of_child? seen
    obtain ⟨place, here⟩ := ih leads
    exact ⟨step :: place, by simp [placeAt?, seen, taken, here]⟩

/-- Text that is no reference into its document has no fragment to follow there. -/
theorem strip?_eq_none {reference : String} (apart : Reference.isLocal reference = false) :
    Text.strip? "#" reference = none := by
  by_contra some
  obtain ⟨rest, stripped⟩ := Option.ne_none_iff_exists'.mp some
  obtain ⟨chars, stripped, _⟩ := Option.map_eq_some_iff.mp stripped
  have here : Reference.isLocal reference = true := by
    refine String.startsWith_string_iff.mpr ?_
    rw [Text.eq_append_of_stripChars? stripped]
    exact List.prefix_append ..
  rw [apart] at here
  cases here

theorem follow_of_not_local {reference : String} (resolver : Resolver) (first second : Value)
    (apart : Reference.isLocal reference = false) :
    resolver.follow first reference = resolver.follow second reference := by
  rw [Resolver.follow, Resolver.follow, strip?_eq_none apart]

/-- What becomes of the payloads when a candidate is taken. -/
def Goal.taken (payload? : Place → Option String) (payload : String) : Goal → Place → Option String
  | .inside place => updated payload? place payload
  | .outside => payload?

namespace Setting
variable {setting : Setting} {document : Value} {tag : Tag} {candidate : String}

/-- A candidate does not go through a mark. -/
def Avoids (setting : Setting) (candidate : String) : Prop :=
  ∀ fragment, Text.strip? "#" (setting.readdress candidate) = some fragment →
    ∀ token ∈ Pointer.ofFragment fragment, ¬ isMark token

/-- What has been written does not change where a candidate leads, and it is written there. -/
theorem place?_written (formed : Formed document) (avoids : setting.Avoids candidate) (payload? : Place → Option String)
    (payload : String) :
    setting.place? payload (written payload? document) candidate =
      (setting.goal? document candidate).map fun goal => written (goal.taken payload? payload) document := by
  unfold place? goal?
  by_cases inside : Reference.isLocal candidate
  · rw [if_pos inside, if_pos inside]
    change (Text.strip? "#" (setting.readdress candidate)).bind _ = _
    cases stripped : Text.strip? "#" (setting.readdress candidate) with
    | none => rfl
    | some fragment =>
      have plain := avoids fragment stripped
      obtain ⟨_, walks⟩ := walk?_written payload? document plain
      simp only [Option.bind_some, markAt?]
      cases leads : document.walk? (Pointer.ofFragment fragment) with
      | none => simp [walks, leads]
      | some child =>
        obtain ⟨place, here⟩ := placeAt?_of_walk? leads
        simp only [walks, leads, here, Option.bind_some, Option.map_some]
        cases child with
        | obj members =>
          obtain ⟨changed, same, _⟩ := written_obj (fun rest => payload? (place ++ rest)) members
          rw [same]
          exact modifyAt?_written payload? formed plain leads here
        | _ => rfl
  · rw [if_neg inside, if_neg inside, follow_of_not_local _ _ document (by simpa using inside)]
    cases setting.resolver.follow document candidate <;> rfl

theorem findSome?_place? (formed : Formed document) {candidates : List String}
    (avoid : ∀ candidate ∈ candidates, setting.Avoids candidate) (payload? : Place → Option String) (payload : String) :
    candidates.findSome? (setting.place? payload (written payload? document)) =
      (candidates.findSome? (setting.goal? document)).map fun goal => written (goal.taken payload? payload) document := by
  induction candidates with
  | nil => rfl
  | cons candidate rest ih =>
    obtain ⟨first, later⟩ := List.forall_mem_cons.mp avoid
    rw [List.findSome?_cons, List.findSome?_cons, place?_written formed first, ih later]
    cases setting.goal? document candidate <;> rfl

theorem payload?_concat (setting : Setting) (document : Value) (tags : List Tag) (tag : Tag) :
    setting.payload? document (tags ++ [tag]) =
      match setting.goalOf? document tag with
      | some goal => goal.taken (setting.payload? document tags) tag.payload
      | none => setting.payload? document tags := by
  funext place
  unfold payload?
  rw [List.filter_append, List.map_append, List.getLast?_append]
  cases leads : setting.goalOf? document tag with
  | none => simp [leads]
  | some goal =>
    cases goal with
    | outside => simp [leads, Goal.taken]
    | inside other =>
      by_cases same : place = other
      · simp [leads, Goal.taken, updated, same]
      · simp [leads, Goal.taken, updated, same, Ne.symm same]

theorem lost_concat (setting : Setting) (document : Value) (tags : List Tag) (tag : Tag) :
    setting.lost document (tags ++ [tag]) =
      setting.lost document tags ++ if setting.goalOf? document tag = none then [tag] else [] := by
  rw [lost, List.filter_append]
  congr 1
  simp [List.filter_cons]

/-- The warning for a tag that leads nowhere. -/
def unresolved (tag : Tag) : Warning :=
  .unresolvedMapping tag.payload tag.target

theorem apply_written (formed : Formed document) (avoid : ∀ candidate ∈ tag.candidates, setting.Avoids candidate)
    (done : List Tag) :
    setting.apply (written (setting.payload? document done) document, (setting.lost document done).map unresolved) tag =
      (written (setting.payload? document (done ++ [tag])) document,
        (setting.lost document (done ++ [tag])).map unresolved) := by
  rw [apply, findSome?_place? formed avoid, payload?_concat, lost_concat]
  unfold goalOf?
  cases tag.candidates.findSome? (setting.goal? document) with
  | none => simp [unresolved]
  | some goal => simp

/-- Where no tag goes through a mark, each is written where it leads in the document as it was. -/
theorem applyAll_eq (formed : Formed document) {tags : List Tag}
    (avoid : ∀ tag ∈ tags, ∀ candidate ∈ tag.candidates, setting.Avoids candidate) :
    setting.applyAll document tags =
      (written (setting.payload? document tags) document, (setting.lost document tags).map unresolved) := by
  have run (done todo : List Tag) (avoid : ∀ tag ∈ todo, ∀ candidate ∈ tag.candidates, setting.Avoids candidate) :
      todo.foldl setting.apply
          (written (setting.payload? document done) document, (setting.lost document done).map unresolved) =
        (written (setting.payload? document (done ++ todo)) document,
          (setting.lost document (done ++ todo)).map unresolved) := by
    induction todo generalizing done with
    | nil => rw [List.foldl_nil, List.append_nil]
    | cons tag rest ih =>
      obtain ⟨first, later⟩ := List.forall_mem_cons.mp avoid
      rw [List.foldl_cons, apply_written formed first, ih (done ++ [tag]) later, List.append_assoc, List.singleton_append]
  have start : written (setting.payload? document []) document = document := written_none document
  have whole := run [] tags avoid
  rw [start] at whole
  exact whole

end Setting

/-! ### Targets -/

/-- No mark is mentioned in the target. -/
def Unmarked (tag : Tag) : Prop :=
  ∀ name, isMark name → Text.occurs name tag.target = false

theorem infix_of_replaceFirst {word : List Char} {pattern replacement text : String} (more middle : List Char)
    (old : pattern.toList = '#' :: '/' :: more) (new : replacement.toList = '#' :: '/' :: (middle ++ ['/']))
    (clean : '/' ∉ word) (apart : ¬ word <:+: middle)
    (inside : word <:+: (Text.replaceFirst pattern replacement text).toList) : word <:+: text.toList := by
  rw [Text.replaceFirst, String.toList_ofList, old, new] at inside
  rcases Text.replaceFirstChars_cases ('#' :: '/' :: more) ('#' :: '/' :: (middle ++ ['/'])) text.toList with
    same | ⟨before, behind, whole, same⟩
  · rwa [same] at inside
  · have parts : word <:+: (before ++ ['#']) ++ '/' :: (middle ++ '/' :: behind) := by
      rw [same] at inside
      simpa using inside
    have front : before ++ ['#'] <+: before ++ '#' :: '/' :: more ++ behind := by simp
    rw [whole]
    rcases (Text.infix_append_iff clean).mp parts with found | found
    · exact found.trans front.isInfix
    · rcases (Text.infix_append_iff clean).mp found with found | found
      · exact absurd found apart
      · exact found.trans (List.suffix_append ..).isInfix

/-- The names of marks are neither cut by slashes nor brought in by a relocation. -/
theorem mark_clean (marks : isMark name) :
    '/' ∉ name.toList ∧ '~' ∉ name.toList ∧ name ≠ "" ∧ ¬ name.toList <:+: "x-components".toList ∧
      ¬ name.toList <:+: "definitions".toList ∧ ¬ name.toList <:+: "#/components/schemas".toList := by
  rcases marks with rfl | rfl <;> decide

/-- A relocated reference mentions no mark that it did not mention before. -/
theorem infix_of_reference {text : String} (marks : isMark name)
    (inside : name.toList <:+: (Relocation.reference text).toList) : name.toList <:+: text.toList := by
  obtain ⟨slash, _, _, kept, schemas, _⟩ := mark_clean marks
  exact infix_of_replaceFirst "components/schemas/".toList "definitions".toList rfl rfl slash schemas
    (infix_of_replaceFirst "components/".toList "x-components".toList rfl rfl slash kept inside)

theorem infix_of_mem_ofFragment {fragment token : String} (marks : isMark token)
    (member : token ∈ Pointer.ofFragment fragment) : token.toList <:+: fragment.toList := by
  obtain ⟨slash, tilde, _⟩ := mark_clean marks
  unfold Pointer.ofFragment at member
  split at member
  next => cases member
  next =>
    obtain ⟨piece, inside, same⟩ := List.mem_map.mp member
    obtain rfl := (Pointer.unescape_eq_iff slash tilde).mp same
    obtain ⟨chars, cut, rfl⟩ := List.mem_map.mp inside
    have found := Text.infix_of_mem_splitChars cut
    rw [String.toList_ofList]
    cases stripped : Text.strip? "/" fragment with
    | none => rwa [stripped] at found
    | some rest =>
      rw [stripped] at found
      obtain ⟨behind, taken, rfl⟩ := Option.map_eq_some_iff.mp stripped
      rw [Text.eq_append_of_stripChars? taken]
      rw [Option.getD_some, String.toList_ofList] at found
      exact found.trans (List.suffix_append ..).isInfix

/-- A target that mentions no mark leads through none, whichever way it is read. -/
theorem avoids_of_unmarked {setting : Setting} {tag : Tag} (unmarked : Unmarked tag) :
    ∀ candidate ∈ tag.candidates, setting.Avoids candidate := by
  intro candidate member fragment stripped token step marks
  obtain ⟨slash, _, filled, _, _, start⟩ := mark_clean marks
  have inFragment := infix_of_mem_ofFragment marks step
  obtain ⟨chars, taken, rfl⟩ := Option.map_eq_some_iff.mp stripped
  rw [String.toList_ofList] at inFragment
  have inReference : token.toList <:+: (setting.readdress candidate).toList := by
    rw [Text.eq_append_of_stripChars? taken]
    exact inFragment.trans (List.suffix_append ..).isInfix
  have inCandidate : token.toList <:+: candidate.toList := by
    unfold Setting.readdress at inReference
    split at inReference
    next => exact infix_of_reference marks inReference
    next => exact inReference
  have inTarget : token.toList <:+: tag.target.toList := by
    rcases List.mem_append.mp member with named | same
    · split at named
      next =>
        obtain rfl := List.mem_singleton.mp named
        have parts : token.toList <:+: "#/components/schemas".toList ++ '/' :: tag.target.toList := by
          simpa using inCandidate
        exact ((Text.infix_append_iff slash).mp parts).resolve_left start
      next => cases named
    · rwa [List.mem_singleton.mp same] at inCandidate
  have mentioned : Text.occurs token tag.target = true :=
    Text.behindChars?_of_infix (by simpa using filled) inTarget
  rw [unmarked token marks] at mentioned
  cases mentioned

end Discriminator
end ApiDialect
