import ApiDialect.Proofs.Interchange
import ApiDialect.Proofs.Reading

/-! The entries of discriminator mappings that a conversion meets, read off the schemas that it
visits and in the order in which it visits them. Whatever is rewritten leaves exactly its entries in
the queue: a text becomes a tag, anything else a warning. -/

namespace ApiDialect
open Rewriting Value

namespace Schema

/-- The mapping of a discriminator. -/
def mappingEntries (members : Members Value) : Members Value :=
  match Members.get? members "discriminator" with
  | some (.obj discriminator) =>
    match Members.get? discriminator "mapping" with
    | some (.obj mapping) => mapping
    | _ => []
  | _ => []

/-- The schemas that stand side by side under `allOf`. -/
def parts (members : Members Value) : List Value :=
  match Members.get? members "allOf" with
  | some (.arr parts) => parts
  | _ => []

theorem parts_of_listed {members : Members Value} {items : List Value} (seen : Members.get? members "allOf" = some (.arr items)) :
    parts members = items := by
  simp only [parts, seen]

theorem parts_of_bare {members : Members Value} (bare : ∀ items, Members.get? members "allOf" ≠ some (.arr items)) :
    parts members = [] := by
  unfold parts
  split
  next items seen => exact absurd seen (bare items)
  next => rfl

/-- The schemas of what a value holds, as its type says. -/
def content (direction : Direction) (members : Members Value) : List Value :=
  match Value.textAt? members "type" with
  | some "object" =>
    match Members.get? members "properties" with
    | some (.obj properties) => (keepProperties direction properties).map Prod.snd
    | _ => []
  | some "array" => (Members.get? members "items").toList
  | _ => []

/-- The entries that are met in a schema: those of its parts, its own, and those of its content. -/
def entries (direction : Direction) : (levels : Nat) → Value → Members Value
  | levels + 1, .obj members =>
    (parts (dropAlternatives members)).flatMap (entries direction levels) ++
      mappingEntries (dropAlternatives members) ++
      (content direction (dropAlternatives members)).flatMap (entries direction levels)
  | _, _ => []

/-- The tag that waits for an entry. -/
def tag? (entry : String × Value) : Option Tag :=
  entry.2.text?.map (Tag.mk entry.1)

/-- The warning for an entry that names no target. -/
def fault? (entry : String × Value) : Option Warning :=
  if entry.2.text? = none then some (.invalidMapping entry.1) else none

end Schema

/-- What the entries leave in the queue. -/
def Queue.of (entries : Members Value) : Queue :=
  ⟨entries.filterMap Schema.tag?, entries.filterMap Schema.fault?⟩

theorem Queue.of_append (first second : Members Value) : Queue.of (first ++ second) = Queue.of first ++ Queue.of second :=
  congrArg₂ Queue.mk List.filterMap_append List.filterMap_append

namespace Rewriting
variable {α β : Type}

/-- The rewriting does not look at the queue, and if it succeeds it has added the entries. -/
def Collects (rewriting : Rewriting α) (entries : Members Value) : Prop :=
  ∃ outcome added, (∀ value, outcome = .ok value → added = Queue.of entries) ∧
    ∀ before, rewriting.run.run before = (outcome, before ++ added)

theorem collects_pure (value : α) : Collects (pure value) [] :=
  ⟨.ok value, .empty, fun _ _ => rfl, fun before => by rw [Queue.append_empty]; rfl⟩

theorem collects_lift (attempt : Except Error α) : Collects (liftM attempt) [] :=
  ⟨attempt, .empty, fun _ _ => rfl, fun before => by rw [Queue.append_empty]; rfl⟩

theorem collects_throw (error : Error) (entries : Members Value) : Collects (throw error : Rewriting α) entries := by
  refine ⟨.error error, .empty, ?_, fun before => by rw [Queue.append_empty]; rfl⟩
  intro value impossible
  cases impossible

/-- What comes next may depend on what is returned, what is met in it may not. -/
theorem Collects.bind {first : Rewriting α} {next : α → Rewriting β} {one other : Members Value} (collects : Collects first one)
    (following : ∀ value, Returns first value → Collects (next value) other) : Collects (first >>= next) (one ++ other) := by
  obtain ⟨outcome, added, same, runs⟩ := collects
  cases outcome with
  | error error =>
    refine ⟨.error error, added, ?_, fun before => by rw [run_bind, runs]⟩
    intro value impossible
    cases impossible
  | ok value =>
    obtain ⟨last, more, again, goes⟩ := following value ⟨.empty, _, runs .empty⟩
    refine ⟨last, added ++ more, fun result made => ?_, fun before => ?_⟩
    · rw [same value rfl, again result made, Queue.of_append]
    · rw [run_bind, runs]
      exact (goes _).trans (by rw [Queue.append_assoc])

/-- Nothing more is met in what comes next. -/
theorem Collects.bind_nil {first : Rewriting α} {next : α → Rewriting β} {entries : Members Value} (collects : Collects first entries)
    (following : ∀ value, Collects (next value) []) : Collects (first >>= next) entries := by
  have both := collects.bind fun value _ => following value
  rwa [List.append_nil] at both

theorem Collects.bind_pure {first : Rewriting α} {next : α → β} {entries : Members Value} (collects : Collects first entries) :
    Collects (first >>= fun value => pure (next value)) entries :=
  collects.bind_nil fun value => collects_pure (next value)

/-- What is lifted adds nothing, and what comes next may rely on its success. -/
theorem Collects.lift_bind {attempt : Except Error α} {next : α → Rewriting β} {entries : Members Value}
    (following : ∀ value, attempt = .ok value → Collects (next value) entries) : Collects (liftM attempt >>= next) entries :=
  (collects_lift attempt).bind fun value returned => following value (returns_lift.mp returned)

/-- A run from nothing tells what every run does. -/
theorem Collects.run {rewriting : Rewriting α} {entries : Members Value} {value : α} (collects : Collects rewriting entries)
    (returned : Returns rewriting value) : rewriting.run.run .empty = (.ok value, Queue.of entries) := by
  obtain ⟨outcome, added, same, runs⟩ := collects
  obtain ⟨before, after, ran⟩ := returned
  rw [runs before] at ran
  cases ran
  rw [runs, same value rfl]
  rfl

end Rewriting

namespace Schema
variable {rewrite : String → Value → Rewriting Value} {met : Value → Members Value} {path : String}
  {members : Members Value} {value : Value} {direction : Direction}

theorem queueTag_collects (payload : String) (target : Value) : Collects (queueTag payload target) [(payload, target)] := by
  refine ⟨.ok (), Queue.of [(payload, target)], fun _ _ => rfl, fun before => ?_⟩
  obtain ⟨tags, warnings⟩ := before
  cases target with
  | str text =>
    have same : (⟨tags, warnings⟩ : Queue) ++ Queue.of [(payload, .str text)] = ⟨tags ++ [⟨payload, text⟩], warnings⟩ :=
      congrArg (Queue.mk _) (List.append_nil _)
    rw [same]
    rfl
  | _ =>
    refine congrArg (Prod.mk _) ?_
    exact congrArg (Queue.mk · _) (List.append_nil _).symm

theorem queueTags_collects (mapping : Members Value) :
    Collects (mapping.forM fun entry => queueTag entry.1 entry.2) mapping := by
  induction mapping with
  | nil => exact collects_pure ()
  | cons entry rest ih => exact (queueTag_collects entry.1 entry.2).bind fun _ _ => ih

theorem mappingEntries_of_mapping {discriminator mapping : Members Value}
    (seen : Members.get? members "discriminator" = some (.obj discriminator))
    (found : Members.get? discriminator "mapping" = some (.obj mapping)) : mappingEntries members = mapping := by
  simp only [mappingEntries, seen, found]

theorem mappingEntries_of_none
    (other : ∀ discriminator mapping, Members.get? members "discriminator" = some (.obj discriminator) →
      Members.get? discriminator "mapping" ≠ some (.obj mapping)) : mappingEntries members = [] := by
  unfold mappingEntries
  split
  next discriminator seen =>
    split
    next mapping found => exact absurd found (other discriminator mapping seen)
    next => rfl
  next => rfl

theorem nameDiscriminator_collects {discriminator : Members Value} :
    Collects (match Members.get? discriminator "propertyName" with
      | some name => pure (Members.insert members "discriminator" name)
      | none => pure (Members.erase members "discriminator")) [] := by
  split
  next => exact collects_pure _
  next => exact collects_pure _

theorem collapseDiscriminator_collects (members : Members Value) :
    Collects (collapseDiscriminator members) (mappingEntries members) := by
  unfold collapseDiscriminator
  split
  next discriminator seen =>
    dsimp only
    split
    next mapping found =>
      rw [mappingEntries_of_mapping seen found]
      exact (queueTags_collects mapping).bind_nil fun _ => nameDiscriminator_collects
    next other =>
      rw [mappingEntries_of_none fun _ mapping same => by cases seen.symm.trans same; exact other mapping]
      exact nameDiscriminator_collects
  next other =>
    rw [mappingEntries_of_none fun discriminator _ same => absurd same (other discriminator)]
    exact collects_pure _

theorem eachItem_collects (each : ∀ value path, Formed value → Collects (rewrite path value) (met value)) {items : List Value}
    (formed : ∀ item ∈ items, Formed item) (index : Nat) :
    Collects (eachItem rewrite path index items) (items.flatMap met) := by
  induction items generalizing index with
  | nil => exact collects_pure []
  | cons item rest ih =>
    obtain ⟨first, later⟩ := List.forall_mem_cons.mp formed
    rw [List.flatMap_cons]
    exact (each item _ first).bind fun _ _ => (ih later (index + 1)).bind_pure

theorem eachProperty_collects (each : ∀ value path, Formed value → Collects (rewrite path value) (met value))
    {properties : Members Value} (formed : ∀ entry ∈ properties, Formed entry.2) :
    Collects (eachProperty rewrite path properties) ((properties.map Prod.snd).flatMap met) := by
  induction properties with
  | nil => exact collects_pure []
  | cons entry rest ih =>
    obtain ⟨first, later⟩ := List.forall_mem_cons.mp formed
    rw [List.map_cons, List.flatMap_cons]
    exact (each entry.2 _ first).bind fun _ _ => (ih later).bind_pure

theorem inParts_collects (each : ∀ value path, Formed value → Collects (rewrite path value) (met value))
    (formed : Formed (.obj members)) : Collects (inParts rewrite path members) ((parts members).flatMap met) := by
  unfold inParts
  split
  next items seen =>
    rw [parts_of_listed seen]
    exact (eachItem_collects each (fun item member => (Sound.get? formed seen).item member) 0).bind_pure
  next other =>
    rw [parts_of_bare other]
    exact collects_pure members

theorem inContent_collects (each : ∀ value path, Formed value → Collects (rewrite path value) (met value))
    (object : ∀ held, Members.get? members "properties" = some held → Formed held)
    (array : ∀ held, Members.get? members "items" = some held → Formed held) :
    Collects (inContent rewrite direction path members) ((content direction members).flatMap met) := by
  unfold inContent
  split
  next isObject =>
    split
    next properties seen =>
      have same : content direction members = (keepProperties direction properties).map Prod.snd := by
        simp only [content, isObject, seen]
      have kept := keepProperties_sound direction (object _ seen)
      rw [same]
      exact (eachProperty_collects each fun entry member => (kept.entry member).2).bind_pure
    next other =>
      have same : content direction members = [] := by simp only [content, isObject]
      rw [same]
      exact collects_pure members
  next isArray =>
    split
    next items seen =>
      have same : content direction members = [items] := by simp only [content, isArray, seen, Option.toList_some]
      rw [same, List.flatMap_cons, List.flatMap_nil, List.append_nil]
      exact (each items _ (array items seen)).bind_pure
    next absent =>
      have same : content direction members = [] := by simp only [content, isArray, absent, Option.toList_none]
      rw [same]
      exact collects_pure members
  next other another =>
    have same : content direction members = [] := by
      unfold content
      split
      next isObject => exact absurd isObject other
      next isArray => exact absurd isArray another
      next => rfl
    rw [same]
    exact collects_pure members

/-- Content is looked for when the parts and the discriminator have been dealt with, which changes
neither the type nor what it is the type of. -/
theorem content_congr {others : Members Value} (type : Members.get? others "type" = Members.get? members "type")
    (properties : Members.get? others "properties" = Members.get? members "properties")
    (items : Members.get? others "items" = Members.get? members "items") :
    content direction others = content direction members := by
  simp only [content, textAt?, type, properties, items]

theorem mappingEntries_congr {others : Members Value}
    (same : Members.get? others "discriminator" = Members.get? members "discriminator") :
    mappingEntries others = mappingEntries members := by
  simp only [mappingEntries, same]

/-- The induction is on the levels that are left. -/
theorem rewriteWithin_collects {limit : Nat} (direction : Direction) (levels : Nat) (value : Value) (path : String)
    (formed : Formed value) :
    Collects (rewriteWithin limit direction levels path value) (entries direction levels value) := by
  induction levels generalizing path value with
  | zero =>
    unfold rewriteWithin
    exact collects_throw _ _
  | succ levels ih =>
    cases value with
    | obj members =>
      have dropped := dropAlternatives_sound formed
      unfold rewriteWithin entries
      rw [List.append_assoc]
      refine (inParts_collects ih dropped).bind fun parted parts => ?_
      obtain ⟨distinct, others⟩ := inParts_others dropped.distinct parts
      rw [← mappingEntries_congr (others "discriminator" (by decide))]
      refine (collapseDiscriminator_collects parted).bind fun whole collapse => ?_
      obtain rfl := collapseDiscriminator_returns collapse
      have kept {name : String} (one : name ≠ "discriminator") (other : name ≠ "allOf") :
          Members.get? (collapsed parted) name = Members.get? (dropAlternatives members) name :=
        (get?_collapsed distinct one).trans (others name other)
      rw [← content_congr (kept (by decide) (by decide)) (kept (by decide) (by decide)) (kept (by decide) (by decide))]
      refine (inContent_collects ih ?_ ?_).bind_pure
      · intro properties seen
        rw [kept (by decide) (by decide)] at seen
        exact Sound.get? dropped seen
      · intro items seen
        rw [kept (by decide) (by decide)] at seen
        exact Sound.get? dropped seen
    | _ =>
      unfold rewriteWithin
      exact collects_pure _

theorem rewrite_collects {limit : Nat} {direction : Direction} (formed : Formed value) :
    Collects (Schema.rewrite limit direction value) (entries direction (limit + 1) value) :=
  rewriteWithin_collects direction (limit + 1) value "#" formed

end Schema
end ApiDialect
