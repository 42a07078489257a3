import ApiDialect.Discriminator
import ApiDialect.Proofs.SoundSteps

/-! What happens to a document after its layout is done: tags write their two marks somewhere, and
references are put right. Neither changes the shape of a node, which is what the relation of trees
here says; it is the greatest one, so a step is covered by giving any relation with the laws. -/

namespace ApiDialect
open Value

namespace Discriminator

/-- The names under which tags write. -/
def isMark (name : String) : Prop :=
  name = "x-discriminator-value" ∨ name = "x-ms-discriminator-value"

instance (name : String) : Decidable (isMark name) := inferInstanceAs (Decidable (_ ∨ _))

theorem get?_mark (members : Members Value) (payload name : String) :
    (mark payload (.obj members)).get? name =
      if isMark name then some (.str payload) else Members.get? members name := by
  by_cases marks : isMark name
  · rw [if_pos marks]
    rcases marks with rfl | rfl <;> simp [mark, Value.get?, Members.get?_insert]
  · rw [if_neg marks]
    have one : "x-discriminator-value" ≠ name := fun same => marks (Or.inl same.symm)
    have other : "x-ms-discriminator-value" ≠ name := fun same => marks (Or.inr same.symm)
    simp [mark, Value.get?, Members.get?_insert, one, other]

/-- Tags have been written, some here and some there. -/
inductive Marked : Value → Value → Prop where
  | same (value : Value) : Marked value value
  | more {value middle after : Value} (payload : String) (pointer : Pointer)
      (written : value.modifyAt? (mark payload) pointer = some middle) (rest : Marked middle after) :
      Marked value after

/-- Some of the tags have been written, each where its pointer leads. -/
inductive Tagged (tags : List Tag) : Value → Value → Prop where
  | same (value : Value) : Tagged tags value value
  | more {value middle after : Value} (tag : Tag) (queued : tag ∈ tags) (pointer : Pointer)
      (written : value.modifyAt? (mark tag.payload) pointer = some middle) (rest : Tagged tags middle after) :
      Tagged tags value after

variable {setting : Setting} {document after : Value} {tags : List Tag}

theorem Tagged.marked (tagged : Tagged tags document after) : Marked document after := by
  induction tagged with
  | same value => exact .same value
  | more tag _ pointer written _ ih => exact .more tag.payload pointer written ih

theorem Tagged.trans {middle : Value} (one : Tagged tags document middle) (other : Tagged tags middle after) :
    Tagged tags document after := by
  induction one with
  | same => exact other
  | more tag queued pointer written _ ih => exact .more tag queued pointer written (ih other)

theorem place?_tagged {tag : Tag} {candidate : String} (queued : tag ∈ tags)
    (placed : setting.place? tag.payload document candidate = some after) : Tagged tags document after := by
  unfold Setting.place? at placed
  split at placed
  next =>
    obtain ⟨fragment, _, placed⟩ := Option.bind_eq_some_iff.mp placed
    unfold markAt? at placed
    dsimp only at placed
    split at placed
    next => exact .more tag queued _ placed (.same after)
    next => cases placed
  next =>
    split at placed
    next => cases placed; exact .same document
    next => cases placed

theorem apply_tagged {state : Value × List Warning} {tag : Tag} (queued : tag ∈ tags) :
    Tagged tags state.1 (setting.apply state tag).1 := by
  unfold Setting.apply
  split
  next placed =>
    obtain ⟨candidate, _, found⟩ := List.exists_of_findSome?_eq_some placed
    exact place?_tagged queued found
  next => exact .same state.1

theorem applyAll_tagged (setting : Setting) (document : Value) (tags : List Tag) :
    Tagged tags document (setting.applyAll document tags).1 := by
  have grows : ∀ (todo : List Tag) (state : Value × List Warning), (∀ tag ∈ todo, tag ∈ tags) →
      Tagged tags state.1 (todo.foldl setting.apply state).1 := by
    intro todo
    induction todo with
    | nil => exact fun state _ => .same state.1
    | cons tag rest ih =>
      intro state queued
      exact (apply_tagged (queued tag List.mem_cons_self)).trans
        (ih _ fun other member => queued other (List.mem_cons_of_mem _ member))
  exact grows tags (document, []) fun _ member => member

end Discriminator

open Discriminator

/-- The values under one name of two objects: related, or a mark, or texts under `$ref`. -/
inductive Meets (related : Value → Value → Prop) (name : String) : Option Value → Option Value → Prop where
  | absent : Meets related name none none
  | related {before after : Value} (held : related before after) : Meets related name (some before) (some after)
  | mark {before : Option Value} (text : String) (marks : isMark name) : Meets related name before (some (.str text))
  | reference (before after : String) (here : name = "$ref") :
      Meets related name (some (.str before)) (some (.str after))

/-- A relation under which trees have the same shape, up to marks and references. -/
structure Mild (related : Value → Value → Prop) : Prop where
  obj : ∀ {members after}, related (.obj members) after →
    ∃ changed, after = .obj changed ∧ ∀ name, Meets related name (Members.get? members name) (Members.get? changed name)
  arr : ∀ {items after}, related (.arr items) after → ∃ changed, after = .arr changed ∧ List.Forall₂ related items changed
  scalar : ∀ {value after}, related value after → value.members? = none → value.items? = none → after = value

/-- The trees have the same shape, up to marks and references. -/
def Mildly (before after : Value) : Prop :=
  ∃ related, Mild related ∧ related before after

variable {related first second : Value → Value → Prop}

/-- A text comes from the same text. -/
theorem Mild.eq_str (mild : Mild related) {before : Value} {text : String} (held : related before (.str text)) :
    before = .str text := by
  cases before with
  | obj members =>
    obtain ⟨_, impossible, _⟩ := mild.obj held
    cases impossible
  | arr items =>
    obtain ⟨_, impossible, _⟩ := mild.arr held
    cases impossible
  | _ => exact (mild.scalar held rfl rfl).symm

theorem Meets.mono {name : String} {before after : Option Value}
    (weaker : ∀ before after, first before after → second before after) (meets : Meets first name before after) :
    Meets second name before after := by
  cases meets with
  | absent => exact .absent
  | related held => exact .related (weaker _ _ held)
  | mark text marks => exact .mark text marks
  | reference one other here => exact .reference one other here

theorem Meets.of_eq {name : String} (reflexive : ∀ value, related value value) (held : Option Value) :
    Meets related name held held := by
  cases held with
  | none => exact .absent
  | some value => exact .related (reflexive value)

theorem Meets.comp {name : String} {before middle after : Option Value} (mild : Mild first) (other : Mild second)
    (one : Meets first name before middle) (two : Meets second name middle after) :
    Meets (Relation.Comp first second) name before after := by
  cases two with
  | mark text marks => exact .mark text marks
  | absent => cases one; exact .absent
  | related last =>
    cases one with
    | related held => exact .related ⟨_, held, last⟩
    | mark text marks =>
      obtain rfl := other.scalar last rfl rfl
      exact .mark text marks
    | reference before after here =>
      obtain rfl := other.scalar last rfl rfl
      exact .reference before after here
  | reference between after here =>
    cases one with
    | related held =>
      obtain rfl := mild.eq_str held
      exact .reference between after here
    | mark text marks =>
      subst here
      exact absurd marks (by decide)
    | reference before _ _ => exact .reference before after here

theorem forall₂_comp {firsts middles lasts : List Value} (one : List.Forall₂ first firsts middles)
    (other : List.Forall₂ second middles lasts) : List.Forall₂ (Relation.Comp first second) firsts lasts := by
  induction one generalizing lasts with
  | nil => cases other; exact .nil
  | cons head _ ih =>
    cases other with
    | cons next rest => exact .cons ⟨_, head, next⟩ (ih rest)

theorem Mild.comp (one : Mild first) (other : Mild second) : Mild (Relation.Comp first second) where
  obj := by
    rintro members after ⟨middle, held, last⟩
    obtain ⟨changed, rfl, each⟩ := one.obj held
    obtain ⟨final, rfl, next⟩ := other.obj last
    exact ⟨final, rfl, fun name => (each name).comp one other (next name)⟩
  arr := by
    rintro items after ⟨middle, held, last⟩
    obtain ⟨changed, rfl, each⟩ := one.arr held
    obtain ⟨final, rfl, next⟩ := other.arr last
    exact ⟨final, rfl, forall₂_comp each next⟩
  scalar := by
    rintro value after ⟨middle, held, last⟩ plain bare
    obtain rfl := one.scalar held plain bare
    exact other.scalar last plain bare

theorem Mildly.trans {before middle after : Value} (one : Mildly before middle) (other : Mildly middle after) :
    Mildly before after := by
  obtain ⟨first, mild, held⟩ := one
  obtain ⟨second, soft, last⟩ := other
  exact ⟨Relation.Comp first second, mild.comp soft, middle, held, last⟩

theorem mild_mildly : Mild Mildly where
  obj := by
    rintro members after ⟨related, mild, held⟩
    obtain ⟨changed, rfl, each⟩ := mild.obj held
    exact ⟨changed, rfl, fun name => (each name).mono fun _ _ inner => ⟨related, mild, inner⟩⟩
  arr := by
    rintro items after ⟨related, mild, held⟩
    obtain ⟨changed, rfl, each⟩ := mild.arr held
    exact ⟨changed, rfl, each.imp fun _ _ inner => ⟨related, mild, inner⟩⟩
  scalar := by
    rintro value after ⟨related, mild, held⟩ plain bare
    exact mild.scalar held plain bare

namespace Mildly
variable {members changed inner : Members Value} {items nodes : List Value} {name : String}

theorem meets (mildly : Mildly (.obj members) (.obj changed)) (name : String) :
    Meets Mildly name (Members.get? members name) (Members.get? changed name) := by
  obtain ⟨_, same, each⟩ := mild_mildly.obj mildly
  cases same
  exact each name

theorem eq_obj {before : Value} (mildly : Mildly before (.obj changed)) : ∃ members, before = .obj members := by
  cases before with
  | obj members => exact ⟨members, rfl⟩
  | arr items =>
    obtain ⟨_, impossible, _⟩ := mild_mildly.arr mildly
    cases impossible
  | _ => cases mild_mildly.scalar mildly rfl rfl

theorem eq_arr {before : Value} (mildly : Mildly before (.arr items)) : ∃ items, before = .arr items := by
  cases before with
  | arr items => exact ⟨items, rfl⟩
  | obj members =>
    obtain ⟨_, impossible, _⟩ := mild_mildly.obj mildly
    cases impossible
  | _ => cases mild_mildly.scalar mildly rfl rfl

/-- An object is no mark, so it comes from an object under the same name. -/
theorem get?_obj (mildly : Mildly (.obj members) (.obj changed)) (seen : Members.get? changed name = some (.obj inner)) :
    ∃ source, Members.get? members name = some (.obj source) ∧ Mildly (.obj source) (.obj inner) := by
  have meets := mildly.meets name
  rw [seen] at meets
  generalize found : Members.get? members name = before at meets
  cases meets with
  | related held =>
    obtain ⟨source, rfl⟩ := eq_obj held
    exact ⟨source, rfl, held⟩

theorem get?_arr (mildly : Mildly (.obj members) (.obj changed)) (seen : Members.get? changed name = some (.arr nodes)) :
    ∃ source, Members.get? members name = some (.arr source) ∧ Mildly (.arr source) (.arr nodes) := by
  have meets := mildly.meets name
  rw [seen] at meets
  generalize found : Members.get? members name = before at meets
  cases meets with
  | related held =>
    obtain ⟨source, rfl⟩ := eq_arr held
    exact ⟨source, rfl, held⟩

theorem get?_none (mildly : Mildly (.obj members) (.obj changed)) (plain : ¬ isMark name)
    (absent : Members.get? members name = none) : Members.get? changed name = none := by
  have meets := mildly.meets name
  rw [absent] at meets
  generalize Members.get? changed name = after at meets
  cases meets with
  | absent => rfl
  | mark text marks => exact absurd marks plain

theorem get?_isArr (mildly : Mildly (.obj members) (.obj changed)) (plain : ¬ isMark name)
    (seen : Members.get? members name = some (.arr items)) : ∃ nodes, Members.get? changed name = some (.arr nodes) := by
  have meets := mildly.meets name
  rw [seen] at meets
  generalize Members.get? changed name = after at meets
  cases meets with
  | related held =>
    obtain ⟨nodes, rfl, _⟩ := mild_mildly.arr held
    exact ⟨nodes, rfl⟩
  | mark text marks => exact absurd marks plain

theorem get?_str {text : String} (mildly : Mildly (.obj members) (.obj changed)) (plain : ¬ isMark name)
    (other : name ≠ "$ref") (seen : Members.get? members name = some (.str text)) :
    Members.get? changed name = some (.str text) := by
  have meets := mildly.meets name
  rw [seen] at meets
  generalize Members.get? changed name = after at meets
  cases meets with
  | related held => rw [mild_mildly.scalar held rfl rfl]
  | mark text marks => exact absurd marks plain
  | reference before after here => exact absurd here other

theorem item_obj (mildly : Mildly (.arr items) (.arr nodes)) (member : .obj inner ∈ nodes) :
    ∃ source, .obj source ∈ items ∧ Mildly (.obj source) (.obj inner) := by
  obtain ⟨_, same, each⟩ := mild_mildly.arr mildly
  cases same
  obtain ⟨item, inside, held⟩ := exists_of_forall₂_mem each member
  obtain ⟨source, rfl⟩ := eq_obj held
  exact ⟨source, inside, held⟩

/-- There is a child wherever there was one. -/
theorem child?_isSome {before after : Value} {token : String} (mildly : Mildly before after)
    (seen : (before.child? token).isSome) : (after.child? token).isSome := by
  cases before with
  | obj members =>
    obtain ⟨changed, rfl, each⟩ := mild_mildly.obj mildly
    have meets := each token
    simp only [child?] at seen ⊢
    generalize Members.get? members token = old, Members.get? changed token = new at meets seen
    cases meets with
    | absent => cases seen
    | _ => rfl
  | arr items =>
    obtain ⟨changed, rfl, each⟩ := mild_mildly.arr mildly
    obtain ⟨child, found⟩ := Option.isSome_iff_exists.mp seen
    obtain ⟨index, here, inside⟩ := Option.bind_eq_some_iff.mp found
    have bound : index < changed.length := by
      rw [← each.length_eq]
      exact (List.getElem?_eq_some_iff.mp inside).1
    simp only [child?, here, Option.bind_some, List.getElem?_eq_getElem bound, Option.isSome_some]
  | _ => cases seen

end Mildly

namespace Discriminator

/-- One tag has been written, or none. -/
def Touched (payload : String) (before after : Value) : Prop :=
  after = before ∨ ∃ pointer, before.modifyAt? (mark payload) pointer = some after

theorem mark_of_members?_eq_none {payload : String} {value : Value} (plain : value.members? = none) :
    mark payload value = value := by
  cases value with
  | obj members => cases plain
  | _ => rfl

theorem modifyAt?_cons {change : Value → Value} {value after : Value} {token : String} {rest : Pointer}
    (written : value.modifyAt? change (token :: rest) = some after) :
    ∃ child changed, value.child? token = some child ∧ child.modifyAt? change rest = some changed ∧
      after = value.setChild token changed := by
  obtain ⟨child, seen, written⟩ := Option.bind_eq_some_iff.mp written
  obtain ⟨changed, made, written⟩ := Option.bind_eq_some_iff.mp written
  exact ⟨child, changed, seen, made, (Option.some.inj written).symm⟩

theorem forall₂_set {items : List Value} {index : Nat} {child changed : Value} (reflexive : ∀ value, related value value)
    (seen : items[index]? = some child) (held : related child changed) :
    List.Forall₂ related items (items.set index changed) := by
  induction items generalizing index with
  | nil => cases seen
  | cons item rest ih =>
    cases index with
    | zero => cases seen; exact .cons held (List.forall₂_same.mpr fun value _ => reflexive value)
    | succ index => exact .cons (reflexive item) (ih seen)

theorem touched_mild (payload : String) : Mild (Touched payload) where
  obj := by
    rintro members after (rfl | ⟨pointer, written⟩)
    · exact ⟨members, rfl, fun name => .of_eq (fun _ => Or.inl rfl) _⟩
    cases pointer with
    | nil =>
      cases written
      refine ⟨_, rfl, fun name => ?_⟩
      have seen := get?_mark members payload name
      rw [mark, Value.get?] at seen
      rw [seen]
      split
      next marks => exact .mark payload marks
      next => exact .of_eq (fun _ => Or.inl rfl) _
    | cons token rest =>
      obtain ⟨child, changed, seen, made, rfl⟩ := modifyAt?_cons written
      refine ⟨_, rfl, fun name => ?_⟩
      rw [Members.get?_modify]
      split
      next same =>
        rw [← same, show Members.get? members token = some child from seen]
        exact .related (Or.inr ⟨rest, made⟩)
      next => exact .of_eq (fun _ => Or.inl rfl) _
  arr := by
    rintro items after (rfl | ⟨pointer, written⟩)
    · exact ⟨items, rfl, List.forall₂_same.mpr fun _ _ => Or.inl rfl⟩
    cases pointer with
    | nil =>
      cases written
      exact ⟨items, rfl, List.forall₂_same.mpr fun _ _ => Or.inl rfl⟩
    | cons token rest =>
      obtain ⟨child, changed, seen, made, rfl⟩ := modifyAt?_cons written
      obtain ⟨index, found, inside⟩ := Option.bind_eq_some_iff.mp seen
      refine ⟨items.set index changed, ?_, forall₂_set (fun _ => Or.inl rfl) inside (Or.inr ⟨rest, made⟩)⟩
      simp only [setChild, found]
  scalar := by
    rintro value after (rfl | ⟨pointer, written⟩) plain bare
    · rfl
    cases pointer with
    | nil =>
      cases written
      exact mark_of_members?_eq_none plain
    | cons token rest =>
      obtain ⟨child, changed, seen, _, _⟩ := modifyAt?_cons written
      cases value with
      | obj members => cases plain
      | arr items => cases bare
      | _ => cases seen

variable {fine : Value → Prop}

theorem mark_refers {payload : String} {value : Value} (sound : Refers fine value) : Refers fine (mark payload value) := by
  cases value with
  | obj members => exact (sound.insert (sound_str payload) (by decide)).insert (sound_str payload) (by decide)
  | _ => exact sound

theorem modifyAt?_fine {payload : String} {pointer : Pointer} {value after : Value} (textual : Textual fine)
    (written : value.modifyAt? (mark payload) pointer = some after) (held : fine value) : fine after := by
  cases plain : value.text? with
  | none => exact textual value plain held after
  | some text =>
    cases value with
    | str text =>
      cases pointer with
      | nil => cases written; exact held
      | cons token rest =>
        obtain ⟨child, changed, seen, _, _⟩ := modifyAt?_cons written
        cases seen
    | _ => cases plain

theorem modifyAt?_refers {payload : String} {pointer : Pointer} {value after : Value} (textual : Textual fine)
    (written : value.modifyAt? (mark payload) pointer = some after) (sound : Refers fine value) :
    Refers fine after := by
  induction pointer generalizing value after with
  | nil => cases written; exact mark_refers sound
  | cons token rest ih =>
    obtain ⟨child, changed, seen, made, rfl⟩ := modifyAt?_cons written
    have inner := ih made (sound.child? seen)
    cases value with
    | obj members =>
      rw [setChild, Members.modify_eq_insert seen]
      refine Sound.insert sound (fun here => ?_) inner
      exact modifyAt?_fine textual made (sound.good_of_get? seen here)
    | arr items =>
      obtain ⟨index, found, _⟩ := Option.bind_eq_some_iff.mp seen
      simp only [setChild, found]
      refine sound_arr_iff.mpr fun item member => ?_
      rcases List.mem_or_eq_of_mem_set member with member | rfl
      · exact sound.item member
      · exact inner
    | _ => cases seen

theorem Marked.refers {before after : Value} (textual : Textual fine) (marked : Marked before after)
    (sound : Refers fine before) : Refers fine after := by
  induction marked with
  | same => exact sound
  | more payload pointer written _ ih => exact ih (modifyAt?_refers textual written sound)

theorem Marked.mildly {before after : Value} (marked : Marked before after) : Mildly before after := by
  induction marked with
  | same value => exact ⟨Touched "", touched_mild "", Or.inl rfl⟩
  | more payload pointer written _ ih =>
    exact Mildly.trans ⟨Touched payload, touched_mild payload, Or.inr ⟨pointer, written⟩⟩ ih

theorem Touched.tagged {tags : List Tag} {tag : Tag} {before after : Value} (queued : tag ∈ tags)
    (touched : Touched tag.payload before after) : Tagged tags before after := by
  rcases touched with rfl | ⟨pointer, written⟩
  · exact .same after
  · exact .more tag queued pointer written (.same after)

/-- A tag is written below a member, or over it when it goes by a name that tags write. -/
theorem get?_modifyAt? {payload name : String} {pointer : Pointer} {members : Members Value} {child after : Value}
    (written : (Value.obj members).modifyAt? (mark payload) pointer = some after)
    (seen : Members.get? members name = some child) :
    ∃ last, after.get? name = some last ∧ (Touched payload child last ∨ isMark name ∧ last = .str payload) := by
  cases pointer with
  | nil =>
    cases written
    rw [get?_mark]
    by_cases marks : isMark name
    · exact ⟨_, if_pos marks, Or.inr ⟨marks, rfl⟩⟩
    · exact ⟨child, (if_neg marks).trans seen, Or.inl (Or.inl rfl)⟩
  | cons token rest =>
    obtain ⟨held, changed, inside, made, rfl⟩ := modifyAt?_cons written
    rw [setChild, Value.get?, Members.get?_modify]
    by_cases same : token = name
    · subst same
      cases seen.symm.trans inside
      exact ⟨changed, by rw [if_pos rfl, seen]; rfl, Or.inl (Or.inr ⟨rest, made⟩)⟩
    · exact ⟨child, (if_neg same).trans seen, Or.inl (Or.inl rfl)⟩

namespace Tagged
variable {tags : List Tag} {members changed : Members Value} {listed : List Value} {child after : Value} {name : String}

theorem eq_of_scalar {value : Value} (tagged : Tagged tags value after) (plain : value.members? = none)
    (bare : value.items? = none) : after = value :=
  mild_mildly.scalar tagged.marked.mildly plain bare

theorem obj (tagged : Tagged tags (.obj members) after) : ∃ changed, after = .obj changed := by
  obtain ⟨changed, same, _⟩ := mild_mildly.obj tagged.marked.mildly
  exact ⟨changed, same⟩

theorem get? (tagged : Tagged tags (.obj members) (.obj changed)) (seen : Members.get? members name = some child) :
    ∃ last, Members.get? changed name = some last ∧ (Tagged tags child last ∨ isMark name ∧ ∃ text, last = .str text) := by
  generalize before : Value.obj members = start at tagged
  generalize stop : Value.obj changed = final at tagged
  induction tagged generalizing members child with
  | same =>
    cases before
    cases stop
    exact ⟨child, seen, Or.inl (.same child)⟩
  | more tag queued pointer written _ ih =>
    subst before
    obtain ⟨middle, rfl, _⟩ := (touched_mild tag.payload).obj (Or.inr ⟨pointer, written⟩)
    obtain ⟨between, found, touched | ⟨marks, rfl⟩⟩ := get?_modifyAt? written seen
    · obtain ⟨last, here, rest | marked⟩ := ih found rfl stop
      · exact ⟨last, here, Or.inl ((touched.tagged queued).trans rest)⟩
      · exact ⟨last, here, Or.inr marked⟩
    · obtain ⟨last, here, rest | marked⟩ := ih found rfl stop
      · exact ⟨last, here, Or.inr ⟨marks, tag.payload, rest.eq_of_scalar rfl rfl⟩⟩
      · exact ⟨last, here, Or.inr marked⟩

/-- Most members go by other names than tags do. -/
theorem member {value : Value} (tagged : Tagged tags value after) (seen : value.get? name = some child)
    (plain : ¬ isMark name) : ∃ last, after.get? name = some last ∧ Tagged tags child last := by
  cases value with
  | obj members =>
    obtain ⟨changed, rfl⟩ := tagged.obj
    obtain ⟨last, here, rest | ⟨marks, _⟩⟩ := tagged.get? seen
    · exact ⟨last, here, rest⟩
    · exact absurd marks plain
  | _ => cases seen

theorem no_member {value : Value} (tagged : Tagged tags value after) (absent : value.get? name = none)
    (plain : ¬ isMark name) : after.get? name = none := by
  cases value with
  | obj members =>
    obtain ⟨changed, rfl⟩ := tagged.obj
    exact tagged.marked.mildly.get?_none plain absent
  | arr items =>
    obtain ⟨nodes, rfl, _⟩ := mild_mildly.arr tagged.marked.mildly
    rfl
  | _ =>
    rw [tagged.eq_of_scalar rfl rfl]
    rfl

theorem arr (tagged : Tagged tags (.arr listed) after) :
    ∃ nodes, after = .arr nodes ∧ List.Forall₂ (Tagged tags) listed nodes := by
  generalize before : Value.arr listed = start at tagged
  induction tagged generalizing listed with
  | same =>
    subst before
    exact ⟨listed, rfl, List.forall₂_same.mpr fun item _ => .same item⟩
  | more tag queued pointer written _ ih =>
    subst before
    obtain ⟨middle, rfl, each⟩ := (touched_mild tag.payload).arr (Or.inr ⟨pointer, written⟩)
    obtain ⟨nodes, rfl, others⟩ := ih rfl
    refine ⟨nodes, rfl, (forall₂_comp each others).imp fun item node ⟨between, touched, rest⟩ => ?_⟩
    exact (touched.tagged queued).trans rest

theorem text? {value : Value} (tagged : Tagged tags value after) : after.text? = value.text? := by
  cases value with
  | obj members =>
    obtain ⟨changed, rfl⟩ := tagged.obj
    rfl
  | arr items =>
    obtain ⟨nodes, rfl, _⟩ := tagged.arr
    rfl
  | _ => rw [tagged.eq_of_scalar rfl rfl]

theorem reference? {value : Value} (tagged : Tagged tags value after) : after.reference? = value.reference? := by
  unfold Value.reference?
  cases seen : value.get? "$ref" with
  | none => rw [tagged.no_member seen (by decide)]
  | some held =>
    obtain ⟨last, here, inner⟩ := tagged.member seen (by decide)
    rw [here, Option.bind_some, Option.bind_some, inner.text?]

end Tagged

end Discriminator

namespace Relocation

theorem get?_referencesOfMembers (members : Members Value) (name : String) :
    Members.get? (referencesOfMembers members) name =
      (Members.get? members name).map fun value => member name value (references value) := by
  induction members with
  | nil => rfl
  | cons entry rest ih =>
    obtain ⟨other, value⟩ := entry
    rw [referencesOfMembers, Members.get?_cons, Members.get?_cons, ih]
    split
    next same => rw [same]; rfl
    next => rfl

theorem get?_references (value : Value) (name : String) :
    (references value).get? name = (value.get? name).map fun held => member name held (references held) := by
  cases value with
  | obj members => exact get?_referencesOfMembers members name
  | _ => rfl

theorem reference?_references (value : Value) : (references value).reference? = value.reference?.map reference := by
  unfold Value.reference?
  rw [get?_references]
  cases value.get? "$ref" with
  | none => rfl
  | some held => cases held <;> rfl

theorem referencesOfItems_eq_map (items : List Value) : referencesOfItems items = items.map references := by
  induction items with
  | nil => rfl
  | cons item rest ih => rw [referencesOfItems, ih, List.map_cons]

theorem names_referencesOfMembers (members : Members Value) :
    Members.names (referencesOfMembers members) = Members.names members := by
  induction members with
  | nil => rfl
  | cons entry rest ih =>
    obtain ⟨name, value⟩ := entry
    rw [referencesOfMembers]
    exact congrArg (name :: ·) ih

theorem references_mild : Mild fun before after => after = references before where
  obj := by
    rintro members after rfl
    refine ⟨_, rfl, fun name => ?_⟩
    rw [get?_referencesOfMembers]
    cases Members.get? members name with
    | none => exact .absent
    | some value =>
      rw [Option.map_some]
      unfold member
      split
      next text =>
        split
        next here => exact .reference text _ here
        next => exact .related rfl
      next => exact .related rfl
  arr := by
    rintro items after rfl
    refine ⟨_, rfl, ?_⟩
    rw [referencesOfItems_eq_map]
    exact List.forall₂_map_right_iff.mpr (List.forall₂_same.mpr fun _ _ => rfl)
  scalar := by
    rintro value after rfl plain bare
    cases value with
    | obj members => cases plain
    | arr items => cases bare
    | _ => rfl

/-- What a reference may be once it has been put right. -/
def Moved (fine : Value → Prop) (after : Value) : Prop :=
  ∃ before, fine before ∧ after = member "$ref" before (references before)

theorem member_sound {fine : Value → Prop} {name : String} {value : Value}
    (held : SoundEntry (atReference fine) (name, value)) (inner : Refers (Moved fine) (references value)) :
    SoundEntry (atReference (Moved fine)) (name, member name value (references value)) := by
  refine ⟨fun here => ?_, ?_⟩
  · cases here
    exact ⟨value, held.1 rfl, rfl⟩
  · unfold member
    split
    next text =>
      split
      next => exact sound_str _
      next => exact sound_str _
    next => exact inner

mutual
theorem references_refers {fine : Value → Prop} :
    (value : Value) → Refers fine value → Refers (Moved fine) (references value)
  | .null, _ | .bool _, _ | .num _, _ | .str _, _ => ⟨trivial, trivial⟩
  | .arr items, sound => sound_arr_iff.mpr (referencesOfItems_refers items fun _ member => sound.item member)
  | .obj members, sound => by
    refine sound_obj_iff.mpr ⟨?_, referencesOfMembers_sound members fun _ member => sound.entry member⟩
    rw [Members.Distinct, names_referencesOfMembers]
    exact sound.distinct
termination_by structural value => value

theorem referencesOfItems_refers {fine : Value → Prop} :
    (items : List Value) → (∀ item ∈ items, Refers fine item) → ∀ item ∈ referencesOfItems items, Refers (Moved fine) item
  | [], _ => fun _ member => nomatch member
  | item :: rest, each => List.forall_mem_cons.mpr
    ⟨references_refers item (each item List.mem_cons_self),
      referencesOfItems_refers rest fun other member => each other (List.mem_cons_of_mem _ member)⟩
termination_by structural items => items

theorem referencesOfMembers_sound {fine : Value → Prop} :
    (members : List (String × Value)) → (∀ entry ∈ members, SoundEntry (atReference fine) entry) →
      ∀ entry ∈ referencesOfMembers members, SoundEntry (atReference (Moved fine)) entry
  | [], _ => fun _ member => nomatch member
  | (name, value) :: rest, each => List.forall_mem_cons.mpr
    ⟨member_sound (each (name, value) List.mem_cons_self) (references_refers value (each (name, value) List.mem_cons_self).2),
      referencesOfMembers_sound rest fun other member => each other (List.mem_cons_of_mem _ member)⟩
termination_by structural members => members
end

end Relocation
end ApiDialect
