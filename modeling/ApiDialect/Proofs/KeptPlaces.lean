import ApiDialect.Proofs.WriteOnly

/-! The places in a schema that its rewriting keeps. The parts, the properties and the items of a schema
are rewritten where they are, and most other keywords stay with all that is below them. What a pointer
finds in such a place it still finds there afterwards. -/

namespace ApiDialect
open Rewriting Value

theorem getElem?_of_forall₂ {α β : Type} {related : α → β → Prop} {items : List α} {results : List β} {index : Nat}
    {item : α} (each : List.Forall₂ related items results) (seen : items[index]? = some item) :
    ∃ result, results[index]? = some result ∧ related item result := by
  induction each generalizing index with
  | nil => cases seen
  | cons held _ ih =>
    cases index with
    | zero =>
      cases seen
      exact ⟨_, rfl, held⟩
    | succ index => exact ih seen

namespace Schema
variable {limit levels : Nat} {direction : Direction} {path name : String} {members parted filled : Members Value}
  {parts : List Value} {items held inner schema rewritten : Value} {pointer : Pointer}
  {rewrite : String → Value → Rewriting Value}

/-- A member that stays as it is when its schema is rewritten, together with all that is below it. Parts,
properties and items are gone into only where they have the shape for it. -/
structure Untouched (members : Members Value) (name : String) (held : Value) : Prop where
  seen : Members.get? members name = some held
  stays : name ∉ ["oneOf", "anyOf", "deprecated"]
  collapses : name = "discriminator" →
    held.members? = none ∧ Members.has members "oneOf" = false ∧ Members.has members "anyOf" = false
  parts : name = "allOf" → held.items? = none
  properties : name = "properties" → textAt? members "type" = some "object" → held.members? = none
  items : name = "items" → textAt? members "type" ≠ some "array"
  marks : name = "nullable" ∨ name = "x-nullable" → (Members.get? members "nullable").any isTrue = false

/-- What a pointer leads to in a place that the rewriting for a direction keeps. A property is kept when
the direction has it, and all of it but its own mark. -/
inductive Kept (direction : Direction) : Value → Pointer → Value → Prop where
  | plain {value inner : Value} {pointer : Pointer} (bare : value.members? = none)
      (walks : value.walk? pointer = some inner) : Kept direction value pointer inner
  | member {members : Members Value} {name : String} {held inner : Value} {rest : Pointer}
      (untouched : Untouched members name held) (walks : held.walk? rest = some inner) :
      Kept direction (.obj members) (name :: rest) inner
  | part {members : Members Value} {parts : List Value} {token : String} {part inner : Value} {rest : Pointer}
      (listed : Members.get? members "allOf" = some (.arr parts)) (seen : (Value.arr parts).child? token = some part)
      (below : Kept direction part rest inner) : Kept direction (.obj members) ("allOf" :: token :: rest) inner
  | property {members properties : Members Value} {name : String} {property inner : Value} {rest : Pointer}
      (isObject : Members.get? members "type" = some (.str "object"))
      (listed : Members.get? members "properties" = some (.obj properties))
      (seen : Members.get? properties name = some property) (has : direction = .response → isWriteOnly property = false)
      (other : rest.head? ≠ some "writeOnly") (below : Kept direction property rest inner) :
      Kept direction (.obj members) ("properties" :: name :: rest) inner
  | item {members : Members Value} {items inner : Value} {rest : Pointer}
      (isArray : Members.get? members "type" = some (.str "array"))
      (listed : Members.get? members "items" = some items) (below : Kept direction items rest inner) :
      Kept direction (.obj members) ("items" :: rest) inner

/-- Most keywords are no concern of the rewriting. -/
theorem untouched_of_other (seen : Members.get? members name = some held)
    (other : name ∉ ["oneOf", "anyOf", "discriminator", "allOf", "properties", "items", "nullable", "x-nullable", "deprecated"]) :
    Untouched members name held := by
  simp only [List.mem_cons, List.not_mem_nil, or_false, not_or] at other
  obtain ⟨one, any, discriminator, all, properties, items, nullable, marked, deprecated⟩ := other
  exact {
    seen
    stays := by simp [one, any, deprecated]
    collapses := fun same => absurd same discriminator
    parts := fun same => absurd same all
    properties := fun same => absurd same properties
    items := fun same => absurd same items
    marks := fun same => absurd same (not_or.mpr ⟨nullable, marked⟩) }

/-- So a schema that is a reference, whatever else it says, is kept as one. -/
theorem kept_reference {text : String} (seen : Members.get? members "$ref" = some (.str text)) :
    Kept direction (.obj members) ["$ref"] (.str text) :=
  .member (untouched_of_other seen (by decide)) rfl

/-- The parts of a schema are what is gone into. -/
theorem inParts_listed (listed : Members.get? members "allOf" = some (.arr parts))
    (returned : Returns (inParts rewrite path members) parted) :
    ∃ results, List.Forall₂ (fun item result => ∃ inner, Returns (rewrite inner item) result) parts results ∧
      parted = Members.insert members "allOf" (.arr results) := by
  unfold inParts at returned
  simp only [listed] at returned
  obtain ⟨results, each, returned⟩ := returned.bind
  exact ⟨results, eachItem_returns each, returns_pure.mp returned⟩

/-- The items of an array are what is gone into. -/
theorem inContent_array (isArray : Members.get? members "type" = some (.str "array"))
    (listed : Members.get? members "items" = some items)
    (returned : Returns (inContent rewrite direction path members) filled) :
    ∃ result, Returns (rewrite (path ++ "/items") items) result ∧ filled = Members.insert members "items" result := by
  have array : textAt? members "type" = some "array" := by rw [textAt?, isArray]; rfl
  unfold inContent at returned
  simp only [array, listed] at returned
  obtain ⟨result, made, returned⟩ := returned.bind
  exact ⟨result, made, returns_pure.mp returned⟩

/-- A schema with its alternatives, its parts and its discriminator done, before its content is. -/
structure Prepared (rewrite : String → Value → Rewriting Value) (path : String) (members whole : Members Value) : Prop where
  distinct : Members.Distinct whole
  others : ∀ name, name ∉ ["oneOf", "anyOf", "discriminator", "allOf"] →
    Members.get? whole name = Members.get? members name
  parts : ∀ parts, Members.get? members "allOf" = some (.arr parts) → ∃ results,
    List.Forall₂ (fun item result => ∃ inner, Returns (rewrite inner item) result) parts results ∧
      Members.get? whole "allOf" = some (.arr results)
  untouched : ∀ name held, Untouched members name held → Members.get? whole name = some held

theorem get?_dropAlternatives_of_untouched (distinct : Members.Distinct members) (untouched : Untouched members name held) :
    Members.get? (dropAlternatives members) name = some held := by
  obtain ⟨one, any⟩ : "oneOf" ≠ name ∧ "anyOf" ≠ name := by
    have stays := untouched.stays
    simp only [List.mem_cons, not_or] at stays
    exact ⟨Ne.symm stays.1, Ne.symm stays.2.1⟩
  by_cases same : name = "discriminator"
  · obtain ⟨_, noOne, noAny⟩ := untouched.collapses same
    unfold dropAlternatives
    simp only [noOne, noAny, Bool.or_false, Bool.false_eq_true, if_false]
    rw [(distinct.erase _).get?_erase_of_ne any, distinct.get?_erase_of_ne one, untouched.seen]
  · rw [get?_dropAlternatives distinct (by simp [Ne.symm one, Ne.symm any, same]), untouched.seen]

theorem get?_inParts_of_untouched (formed : Formed (.obj members))
    (returned : Returns (inParts rewrite path (dropAlternatives members)) parted) (untouched : Untouched members name held) :
    Members.get? parted name = some held := by
  have still := get?_dropAlternatives_of_untouched formed.distinct untouched
  by_cases same : name = "allOf"
  · rcases inParts_returns returned with rfl | ⟨parts, _, listed, _⟩
    · exact still
    · rw [← same, still] at listed
      cases listed
      cases untouched.parts same
  · have dropped : Members.Distinct (dropAlternatives members) := (dropAlternatives_sound formed).distinct
    rw [(inParts_others dropped returned).2 name same, still]

theorem get?_collapsed_of_untouched (distinct : Members.Distinct parted) (seen : Members.get? parted name = some held)
    (untouched : Untouched members name held) : Members.get? (collapsed parted) name = some held := by
  by_cases same : name = "discriminator"
  · have bare : collapsed parted = parted := by
      unfold collapsed
      split
      next discriminator found =>
        rw [← same, seen] at found
        cases found
        cases (untouched.collapses same).1
      next => rfl
    rw [bare, seen]
  · rw [get?_collapsed distinct same, seen]

theorem prepared (formed : Formed (.obj members))
    (returned : Returns (inParts rewrite path (dropAlternatives members)) parted) :
    Prepared rewrite path members (collapsed parted) := by
  have dropped : Members.Distinct (dropAlternatives members) := (dropAlternatives_sound formed).distinct
  obtain ⟨distinct, others⟩ := inParts_others dropped returned
  refine ⟨collapsed_distinct distinct, fun name other => ?_, fun parts listed => ?_, fun name held untouched => ?_⟩
  · simp only [List.mem_cons, List.not_mem_nil, or_false, not_or] at other
    obtain ⟨one, any, discriminator, all⟩ := other
    rw [get?_collapsed distinct discriminator, others name all, get?_dropAlternatives formed.distinct]
    simp [one, any, discriminator]
  · have still : Members.get? (dropAlternatives members) "allOf" = some (.arr parts) :=
      (get?_dropAlternatives formed.distinct (by decide)).trans listed
    obtain ⟨results, each, rfl⟩ := inParts_listed still returned
    refine ⟨results, each, ?_⟩
    rw [get?_collapsed distinct (by decide), Members.get?_insert_self]
  · exact get?_collapsed_of_untouched distinct (get?_inParts_of_untouched formed returned untouched) untouched

/-- What was there before the content stays there, unless it is the content. -/
theorem get?_inContent_of_untouched {whole : Members Value} (ready : Prepared rewrite path members whole)
    (untouched : Untouched members name held) (returned : Returns (inContent rewrite direction path whole) filled) :
    Members.get? filled name = some held := by
  have still := ready.untouched name held untouched
  have typed : textAt? whole "type" = textAt? members "type" := by rw [textAt?, ready.others _ (by decide), textAt?]
  rcases inContent_returns returned with rfl | ⟨properties, _, isObject, listed, _, rfl⟩ | ⟨_, _, isArray, listed, _, rfl⟩
  · exact still
  · by_cases same : name = "properties"
    · rw [← same, still] at listed
      cases listed
      cases untouched.properties same (typed.symm.trans isObject)
    · rw [Members.get?_insert_of_ne (Ne.symm same), still]
  · by_cases same : name = "items"
    · exact absurd (typed.symm.trans isArray) (untouched.items same)
    · rw [Members.get?_insert_of_ne (Ne.symm same), still]

/-- Marks take no other place than their own. -/
theorem get?_renameMarks_of_seen (distinct : Members.Distinct members) (seen : Members.get? members name = some held)
    (other : name ≠ "deprecated")
    (plain : name = "nullable" ∨ name = "x-nullable" → (Members.get? members "nullable").any isTrue = false) :
    Members.get? (renameMarks members) name = some held := by
  have single := renameNullable_distinct distinct
  have first : Members.get? (renameNullable members) name = some held := by
    unfold renameNullable
    split
    next isTrue =>
      have apart : name ≠ "nullable" ∧ name ≠ "x-nullable" := by
        refine not_or.mp fun same => ?_
        rw [plain same] at isTrue
        cases isTrue
      rw [Members.get?_insert_of_ne (Ne.symm apart.2), distinct.get?_erase_of_ne (Ne.symm apart.1), seen]
    next => exact seen
  rw [renameMarks_eq, renameDeprecated]
  split
  next =>
    have still := (single.get?_erase_of_ne (Ne.symm other)).trans first
    rw [Members.get?_insertIfAbsent]
    split
    next same => rw [same, still]; rfl
    next => exact still
  next => exact first

/-- An object is prepared, then its content is rewritten, and then its marks. -/
theorem rewriteWithin_object (formed : Formed (.obj members))
    (returned : Returns (rewriteWithin limit direction levels path (.obj members)) rewritten) :
    ∃ below whole filled, rewritten = .obj (renameMarks filled) ∧
      Prepared (rewriteWithin limit direction below) path members whole ∧
      Returns (inContent (rewriteWithin limit direction below) direction path whole) filled := by
  rcases rewriteWithin_returns returned with ⟨impossible, _⟩ | ⟨below, _, parted, filled, _, same, parts, content, rfl⟩
  · cases impossible
  cases same
  exact ⟨below, collapsed parted, filled, rfl, prepared formed parts, content⟩

theorem get?_inContent (returned : Returns (inContent rewrite direction path members) filled)
    (other : name ∉ ["properties", "items"]) : Members.get? filled name = Members.get? members name := by
  simp only [List.mem_cons, List.not_mem_nil, or_false, not_or] at other
  rcases inContent_returns returned with rfl | ⟨_, _, _, _, _, rfl⟩ | ⟨_, _, _, _, _, rfl⟩
  · rfl
  · exact Members.get?_insert_of_ne (Ne.symm other.1) _
  · exact Members.get?_insert_of_ne (Ne.symm other.2) _

theorem get?_keepProperties {properties : Members Value} {property : Value} (distinct : Members.Distinct properties)
    (seen : Members.get? properties name = some property) (has : direction = .response → isWriteOnly property = false) :
    Members.get? (keepProperties direction properties) name = some property := by
  cases direction with
  | request => exact seen
  | response =>
    rw [keepProperties, distinct.get?_filter, seen]
    simp [has rfl]

theorem walk?_withoutWriteOnly {property : Value} (formed : Formed property) (other : pointer.head? ≠ some "writeOnly")
    (bare : pointer = [] → property.members? = none) (walks : property.walk? pointer = some inner) :
    (withoutWriteOnly property).walk? pointer = some inner := by
  cases property with
  | obj members =>
    cases pointer with
    | nil => cases bare rfl
    | cons token rest =>
      have apart : "writeOnly" ≠ token := fun same => other (congrArg some same.symm)
      rw [withoutWriteOnly, walk?, child?, (Sound.distinct formed).get?_erase_of_ne apart]
      exact walks
  | _ => exact walks

theorem Kept.bare (kept : Kept direction schema [] inner) : schema.members? = none := by
  cases kept with
  | plain bare _ => exact bare

section Rewritten
variable {token : String} {part property : Value} {properties : Members Value}

/-- One step to a member that stays as it is. -/
theorem untouched_rewritten (formed : Formed (.obj members))
    (returned : Returns (rewriteWithin limit direction levels path (.obj members)) rewritten)
    (untouched : Untouched members name held) : rewritten.get? name = some held := by
  obtain ⟨below, whole, filled, rfl, ready, content⟩ := rewriteWithin_object formed returned
  have still := get?_inContent_of_untouched ready untouched content
  have other : name ≠ "deprecated" := fun same => untouched.stays (by simp [same])
  have marks : Members.get? filled "nullable" = Members.get? members "nullable" :=
    (get?_inContent content (by decide)).trans (ready.others _ (by decide))
  exact get?_renameMarks_of_seen (inContent_distinct ready.distinct content) still other (marks ▸ untouched.marks)

/-- A part is found rewritten. -/
theorem part_rewritten (formed : Formed (.obj members))
    (returned : Returns (rewriteWithin limit direction levels path (.obj members)) rewritten)
    (listed : Members.get? members "allOf" = some (.arr parts)) (seen : (Value.arr parts).child? token = some part) :
    ∃ below inner result, Returns (rewriteWithin limit direction below inner part) result ∧
      rewritten.walk? ["allOf", token] = some result := by
  obtain ⟨below, whole, filled, rfl, ready, content⟩ := rewriteWithin_object formed returned
  obtain ⟨results, each, here⟩ := ready.parts parts listed
  obtain ⟨index, found, inside⟩ := Option.bind_eq_some_iff.mp seen
  obtain ⟨result, there, inner, made⟩ := getElem?_of_forall₂ each inside
  refine ⟨below, inner, result, made, ?_⟩
  have last : (Value.obj (renameMarks filled)).get? "allOf" = some (.arr results) := by
    rw [Value.get?, get?_renameMarks (inContent_distinct ready.distinct content) (by decide),
      get?_inContent content (by decide), here]
  rw [walk?_of_get? last, walk?, child?, found, Option.bind_some, there]
  rfl

/-- A property that the direction has is found rewritten and without its mark. -/
theorem property_rewritten (formed : Formed (.obj members))
    (returned : Returns (rewriteWithin limit direction levels path (.obj members)) rewritten)
    (isObject : Members.get? members "type" = some (.str "object"))
    (listed : Members.get? members "properties" = some (.obj properties))
    (seen : Members.get? properties name = some property) (has : direction = .response → isWriteOnly property = false) :
    ∃ below inner result, Returns (rewriteWithin limit direction below inner property) result ∧
      rewritten.walk? ["properties", name] = some (withoutWriteOnly result) := by
  obtain ⟨below, whole, filled, rfl, ready, content⟩ := rewriteWithin_object formed returned
  have distinct : Members.Distinct properties := Sound.distinct (Sound.get? formed listed)
  obtain ⟨results, each, rfl⟩ := inContent_object ((ready.others _ (by decide)).trans isObject)
    ((ready.others _ (by decide)).trans listed) content
  obtain ⟨result, there, inner, changed, made, rfl⟩ :=
    Members.get?_of_forall₂ (eachProperty_returns each) (get?_keepProperties distinct seen has)
  refine ⟨below, inner, changed, made, ?_⟩
  have last : (Value.obj (renameMarks (Members.insert whole "properties" (.obj results)))).get? "properties" =
      some (.obj results) := by
    rw [Value.get?, get?_renameMarks (ready.distinct.insert _ _) (by decide), Members.get?_insert_self]
  rw [walk?_of_get? last, walk?, child?, there]
  rfl

/-- The items of an array are found rewritten. -/
theorem items_rewritten (formed : Formed (.obj members))
    (returned : Returns (rewriteWithin limit direction levels path (.obj members)) rewritten)
    (isArray : Members.get? members "type" = some (.str "array")) (listed : Members.get? members "items" = some items) :
    ∃ below inner result, Returns (rewriteWithin limit direction below inner items) result ∧
      rewritten.get? "items" = some result := by
  obtain ⟨below, whole, filled, rfl, ready, content⟩ := rewriteWithin_object formed returned
  obtain ⟨result, made, rfl⟩ := inContent_array ((ready.others _ (by decide)).trans isArray)
    ((ready.others _ (by decide)).trans listed) content
  refine ⟨below, _, result, made, ?_⟩
  rw [Value.get?, get?_renameMarks (ready.distinct.insert _ _) (by decide), Members.get?_insert_self]

/-- A value without members comes back as it is. -/
theorem rewritten_bare (bare : schema.members? = none)
    (returned : Returns (rewriteWithin limit direction levels path schema) rewritten) : rewritten = schema := by
  rcases rewriteWithin_returns returned with ⟨_, rfl⟩ | ⟨_, _, _, _, _, rfl, _⟩
  · rfl
  · cases bare

end Rewritten

/-- In a place that is kept the same is found as before. The induction is on the way to the place. -/
theorem Kept.walk?_rewritten (kept : Kept direction schema pointer inner) (formed : Formed schema)
    (returned : Returns (rewriteWithin limit direction levels path schema) rewritten) :
    rewritten.walk? pointer = some inner := by
  induction kept generalizing levels path rewritten with
  | plain bare walks => rw [rewritten_bare bare returned, walks]
  | member untouched walks => rw [walk?_of_get? (untouched_rewritten formed returned untouched), walks]
  | @part _ _ token part _ rest listed seen _ ih =>
    obtain ⟨_, _, result, made, stands⟩ := part_rewritten formed returned listed seen
    have single : Formed part := (Sound.get? formed listed).child? seen
    exact (walk?_append rewritten ["allOf", token] rest).trans ((congrArg (Option.bind · _) stands).trans (ih single made))
  | @property _ _ name property _ rest isObject listed seen has other kept ih =>
    obtain ⟨_, _, result, made, stands⟩ := property_rewritten formed returned isObject listed seen has
    have single : Formed property := Sound.get? (Sound.get? formed listed) seen
    refine (walk?_append rewritten ["properties", name] rest).trans ((congrArg (Option.bind · _) stands).trans ?_)
    refine walk?_withoutWriteOnly (rewriteWithin_refers textual_true.shallow made single) other ?_ (ih single made)
    rintro rfl
    rw [rewritten_bare kept.bare made]
    exact kept.bare
  | item isArray listed _ ih =>
    obtain ⟨_, _, result, made, stands⟩ := items_rewritten formed returned isArray listed
    rw [walk?_of_get? stands]
    exact ih (Sound.get? formed listed) made

end Schema
end ApiDialect
