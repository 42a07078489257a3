import ApiDialect.Proofs.SchemaNodes

/-! The normal form of schemas. Rewriting leaves no node behind that has anything to be rewritten, so
when it is done a second time, for either direction, it changes nothing and queues nothing. -/

namespace ApiDialect
open Rewriting Value

namespace Rewriting
variable {α β : Type}

/-- Every run returns the value and leaves the queue as it is. -/
def Leaves (rewriting : Rewriting α) (value : α) : Prop :=
  ∀ before, rewriting.run.run before = (.ok value, before)

theorem leaves_pure (value : α) : Leaves (pure value) value :=
  fun _ => rfl

theorem Leaves.bind {first : Rewriting α} {next : α → Rewriting β} {value : α} {result : β} (one : Leaves first value)
    (other : Leaves (next value) result) : Leaves (first >>= next) result := by
  intro before
  rw [run_bind, one before]
  exact other before

end Rewriting

namespace Schema

/-- A node at which nothing is left to rewrite. -/
structure Settled (members : Members Value) : Prop where
  oneOf : Members.get? members "oneOf" = none
  anyOf : Members.get? members "anyOf" = none
  deprecated : Members.get? members "deprecated" = none
  nullable : Members.get? members "nullable" ≠ some (.bool true)
  discriminator : ∀ inner, Members.get? members "discriminator" ≠ some (.obj inner)
  unmarked : textAt? members "type" = some "object" → ∀ properties name property,
    Members.get? members "properties" = some (.obj properties) → Members.get? properties name = some property →
      property.get? "writeOnly" = none

/-- Every object of the schema that can be reached is settled. -/
def Normal (schema : Value) : Prop :=
  ∀ route members, Reaches .request schema route (.obj members) → Settled members

/-- No discriminator that is met has an object for the name of its property. -/
def NamesPlainly (direction : Direction) (schema : Value) : Prop :=
  ∀ route members discriminator inner, Reaches direction schema route (.obj members) →
    Members.get? members "discriminator" = some (.obj discriminator) →
      Members.get? discriminator "propertyName" ≠ some (.obj inner)

variable {limit levels : Nat} {direction : Direction} {path name : String} {members parted filled properties : Members Value}
  {schema node child after value : Value} {branch : Branch} {route : Route} {rewrite : String → Value → Rewriting Value}

theorem mem_of_mem_dropAlternatives {entry : String × Value} (member : entry ∈ dropAlternatives members) : entry ∈ members := by
  unfold dropAlternatives at member
  dsimp only at member
  split at member
  next => exact Members.mem_of_mem_erase (Members.mem_of_mem_erase (Members.mem_of_mem_erase member))
  next => exact Members.mem_of_mem_erase (Members.mem_of_mem_erase member)

theorem get?_dropAlternatives_alternative (distinct : Members.Distinct members) (alternative : name = "oneOf" ∨ name = "anyOf") :
    Members.get? (dropAlternatives members) name = none := by
  have gone : Members.get? (Members.erase (Members.erase members "oneOf") "anyOf") name = none := by
    rw [(distinct.erase _).get?_erase, distinct.get?_erase]
    rcases alternative with rfl | rfl <;> simp
  unfold dropAlternatives
  dsimp only
  split
  next =>
    rw [((distinct.erase _).erase _).get?_erase, gone]
    simp
  next => exact gone

/-- The name of the property has taken the place of the discriminator. -/
theorem get?_collapsed_discriminator (distinct : Members.Distinct members)
    (plain : ∀ discriminator inner, Members.get? members "discriminator" = some (.obj discriminator) →
      Members.get? discriminator "propertyName" ≠ some (.obj inner)) (inner : Members Value) :
    Members.get? (collapsed members) "discriminator" ≠ some (.obj inner) := by
  unfold collapsed
  split
  next discriminator seen =>
    split
    next named found =>
      rw [Members.get?_insert_self]
      intro same
      exact plain discriminator inner seen (found.trans same)
    next =>
      rw [distinct.get?_erase_self]
      exact nofun
  next other => exact other inner

/-- What is nullable says so in an extension, and so does what is deprecated. -/
theorem renameMarks_renamed (distinct : Members.Distinct members) :
    Members.get? (renameMarks members) "nullable" ≠ some (.bool true) ∧
      Members.get? (renameMarks members) "deprecated" = none := by
  have single := renameNullable_distinct distinct
  have first : Members.get? (renameNullable members) "nullable" ≠ some (.bool true) := by
    unfold renameNullable
    split
    next =>
      rw [Members.get?_insert_of_ne (by decide), distinct.get?_erase_self]
      exact nofun
    next other =>
      intro seen
      rw [seen] at other
      exact other rfl
  rw [renameMarks_eq, get?_renameDeprecated single (by decide) (by decide)]
  refine ⟨first, ?_⟩
  unfold renameDeprecated
  split
  next => rw [Members.get?_insertIfAbsent, if_neg (by decide), single.get?_erase_self]
  next absent => exact absent

/-- An object has become one at which nothing is left to rewrite. -/
theorem rewriteWithin_settled (formed : Formed (.obj members))
    (plain : ∀ discriminator inner, Members.get? members "discriminator" = some (.obj discriminator) →
      Members.get? discriminator "propertyName" ≠ some (.obj inner))
    (returned : Returns (rewriteWithin limit direction levels path (.obj members)) (.obj filled)) : Settled filled := by
  obtain ⟨below, changed, _, same, each⟩ := rewriteWithin_becomes formed returned
  cases same
  rcases rewriteWithin_returns returned with ⟨impossible, _⟩ | ⟨below, _, parted, filled, _, same, parts, content, rest⟩
  · cases impossible
  cases same
  cases rest
  have ready := prepared formed parts
  have distinct := inContent_distinct ready.distinct content
  have dropped := (dropAlternatives_sound formed).distinct
  obtain ⟨apart, others⟩ := inParts_others dropped parts
  have kept {name : String} (one : name ∉ ["nullable", "x-nullable", "deprecated", "x-deprecated"])
      (other : name ∉ ["properties", "items"]) :
      Members.get? (renameMarks filled) name = Members.get? (collapsed parted) name := by
    rw [get?_renameMarks distinct one, get?_inContent content other]
  have gone {name : String} (alternative : name = "oneOf" ∨ name = "anyOf") :
      Members.get? (renameMarks filled) name = none := by
    rcases alternative with rfl | rfl
    · rw [kept (by decide) (by decide), get?_collapsed apart (by decide), others _ (by decide),
        get?_dropAlternatives_alternative formed.distinct (Or.inl rfl)]
    · rw [kept (by decide) (by decide), get?_collapsed apart (by decide), others _ (by decide),
        get?_dropAlternatives_alternative formed.distinct (Or.inr rfl)]
  -- No later step writes the names of the alternatives, so they stay away.
  refine ⟨gone (Or.inl rfl), gone (Or.inr rfl), (renameMarks_renamed distinct).2, (renameMarks_renamed distinct).1, ?_, ?_⟩
  · rw [kept (by decide) (by decide)]
    apply get?_collapsed_discriminator apart
    intro discriminator inner seen
    rw [others _ (by decide)] at seen
    exact plain discriminator inner (formed.distinct.get?_of_mem (mem_of_mem_dropAlternatives (Members.mem_of_get? seen)))
  · intro isObject properties name property listed seen
    have stands : (Branch.property name, property) ∈ branches .request (renameMarks filled) := by
      apply List.mem_append_right
      exact mem_contentBranches_iff.mpr (Or.inl ⟨name, properties, rfl, isObject, listed, Members.mem_of_get? seen⟩)
    obtain ⟨⟨branch, child⟩, inside, same, inner, result, made, rest⟩ := exists_of_forall₂_mem each stands
    dsimp only at same made rest
    subst same
    rw [rest, Branch.trim]
    exact get?_withoutWriteOnly (rewriteWithin_refers textual_true.shallow made (sound_of_mem formed inside))

/-- The mark of a property is no node and leads to none. -/
theorem Reaches.of_trim (reaches : Reaches direction (branch.trim value) route node) (formed : Formed value) :
    (route = [] ∧ node = branch.trim value) ∨ Reaches direction value route node := by
  cases branch with
  | property name =>
    cases value with
    | obj members =>
      rcases reaches.inv with here | ⟨_, branch, child, rest, same, rfl, stands, deeper⟩
      · exact Or.inl here
      · cases same
        rw [branches_withoutWriteOnly (Sound.distinct formed)] at stands
        exact Or.inr (.down stands deeper)
    | _ => exact Or.inr reaches
  | _ => exact Or.inr reaches

theorem Settled.trim (settled : Settled members) (distinct : Members.Distinct members) :
    Settled (Members.erase members "writeOnly") := by
  have kept {name : String} (other : "writeOnly" ≠ name) :
      Members.get? (Members.erase members "writeOnly") name = Members.get? members name := distinct.get?_erase_of_ne other
  constructor
  · rw [kept (by decide), settled.oneOf]
  · rw [kept (by decide), settled.anyOf]
  · rw [kept (by decide), settled.deprecated]
  · rw [kept (by decide)]
    exact settled.nullable
  · rw [kept (by decide)]
    exact settled.discriminator
  · rw [textAt?, kept (by decide), kept (by decide)]
    exact settled.unmarked

theorem Normal.trim (normal : Normal value) (formed : Formed value) (branch : Branch) : Normal (branch.trim value) := by
  intro route members reaches
  rcases reaches.of_trim formed with ⟨rfl, same⟩ | reaches
  · cases branch with
    | property name =>
      cases value with
      | obj held =>
        cases same
        exact (normal [] held (.here _)).trim (Sound.distinct formed)
      | _ => cases same
    | _ => exact normal [] members (same ▸ .here _)
  · exact normal route members reaches

/-- What has been rewritten is normal. The induction is on the levels that are left. -/
theorem rewriteWithin_normal (formed : Formed schema) (plain : NamesPlainly direction schema)
    (returned : Returns (rewriteWithin limit direction levels path schema) after) : Normal after := by
  induction levels generalizing path schema after with
  | zero =>
    unfold rewriteWithin at returned
    exact absurd returned not_returns_throw
  | succ levels ih =>
    intro route members reaches
    cases schema with
    | obj start =>
      rcases reaches.inv with ⟨_, rfl⟩ | ⟨changed, branch, child, rest, rfl, _, stands, deeper⟩
      · exact rewriteWithin_settled formed (fun discriminator inner => plain [] start discriminator inner (.here _)) returned
      · obtain ⟨below, _, same, rest, each⟩ := rewriteWithin_becomes formed returned
        cases same
        cases rest
        obtain ⟨⟨other, before⟩, inside, same, inner, result, made, rest⟩ := exists_of_forall₂_mem each stands
        dsimp only at same made rest
        subst same rest
        have single : Formed before := sound_of_mem formed inside
        have normal : Normal result := by
          apply ih single _ made
          intro route members discriminator inner found
          exact plain (branch :: route) members discriminator inner (.down inside found)
        exact normal.trim (rewriteWithin_refers textual_true.shallow made single) branch _ members deeper
    | _ =>
      rw [rewritten_bare rfl returned] at reaches
      rcases reaches.inv with ⟨_, impossible⟩ | ⟨_, _, _, _, impossible, _⟩ <;> cases impossible

/-- What has been rewritten is no deeper than the limit. -/
theorem rewriteWithin_shallow (formed : Formed schema)
    (returned : Returns (rewriteWithin limit direction levels path schema) after)
    (reaches : Reaches .request after route node) : route.length < levels := by
  induction levels generalizing path schema after route node with
  | zero =>
    unfold rewriteWithin at returned
    exact absurd returned not_returns_throw
  | succ levels ih =>
    rcases reaches.inv with ⟨rfl, _⟩ | ⟨changed, branch, child, rest, rfl, rfl, stands, deeper⟩
    · exact Nat.succ_pos levels
    · cases schema with
      | obj start =>
        obtain ⟨below, _, same, rest, each⟩ := rewriteWithin_becomes formed returned
        cases same
        cases rest
        obtain ⟨⟨other, before⟩, inside, same, inner, result, made, rest⟩ := exists_of_forall₂_mem each stands
        dsimp only at same made rest
        subst same rest
        have single : Formed before := sound_of_mem formed inside
        apply Nat.succ_lt_succ
        rcases deeper.of_trim (rewriteWithin_refers textual_true.shallow made single) with ⟨rfl, _⟩ | deeper
        · exact ih single made (.here result)
        · exact ih single made deeper
      | _ => cases rewritten_bare rfl returned

theorem Settled.dropAlternatives (settled : Settled members) : dropAlternatives members = members := by
  unfold Schema.dropAlternatives Members.has
  rw [Members.erase_of_get?_eq_none settled.oneOf, Members.erase_of_get?_eq_none settled.anyOf, settled.oneOf, settled.anyOf]
  rfl

theorem Settled.collapseDiscriminator (settled : Settled members) : collapseDiscriminator members = pure members := by
  unfold Schema.collapseDiscriminator
  split
  next discriminator seen => exact absurd seen (settled.discriminator discriminator)
  next => rfl

theorem Settled.renameMarks (settled : Settled members) : renameMarks members = members := by
  have plain : (Members.get? members "nullable").any isTrue = false := by
    have other := settled.nullable
    cases seen : Members.get? members "nullable" with
    | none => rfl
    | some held =>
      rw [seen] at other
      cases held with
      | bool value =>
        cases value with
        | true => exact absurd rfl other
        | false => rfl
      | _ => rfl
  simp only [Schema.renameMarks, plain, Bool.false_eq_true, if_false, settled.deprecated]

theorem withoutWriteOnly_of_unmarked (unmarked : value.get? "writeOnly" = none) : withoutWriteOnly value = value := by
  cases value with
  | obj members => exact congrArg Value.obj (Members.erase_of_get?_eq_none unmarked)
  | _ => rfl

theorem keepProperties_of_unmarked (unmarked : ∀ entry ∈ properties, entry.2.get? "writeOnly" = none) :
    keepProperties direction properties = properties := by
  cases direction with
  | request => rfl
  | response =>
    apply List.filter_eq_self.mpr
    intro entry member
    simp [isWriteOnly, unmarked entry member]

theorem eachItem_leaves {items : List Value} (each : ∀ item ∈ items, ∀ path, Leaves (rewrite path item) item) (index : Nat) :
    Leaves (eachItem rewrite path index items) items := by
  induction items generalizing index with
  | nil => exact leaves_pure []
  | cons item rest ih =>
    obtain ⟨first, later⟩ := List.forall_mem_cons.mp each
    unfold eachItem
    apply (first _).bind
    apply (ih later (index + 1)).bind
    exact leaves_pure _

theorem eachProperty_leaves (each : ∀ entry ∈ properties, ∀ path, Leaves (rewrite path entry.2) entry.2)
    (unmarked : ∀ entry ∈ properties, entry.2.get? "writeOnly" = none) :
    Leaves (eachProperty rewrite path properties) properties := by
  induction properties with
  | nil => exact leaves_pure []
  | cons entry rest ih =>
    obtain ⟨first, later⟩ := List.forall_mem_cons.mp each
    obtain ⟨bare, others⟩ := List.forall_mem_cons.mp unmarked
    unfold eachProperty
    apply (first _).bind
    apply (ih later others).bind
    rw [withoutWriteOnly_of_unmarked bare]
    exact leaves_pure _

theorem inParts_leaves
    (each : ∀ branch child, (branch, child) ∈ branches .request members → ∀ path, Leaves (rewrite path child) child) :
    Leaves (inParts rewrite path members) members := by
  unfold inParts
  split
  next items seen =>
    have inner : ∀ item ∈ items, ∀ path, Leaves (rewrite path item) item := by
      intro item member
      obtain ⟨index, inside⟩ := List.getElem?_of_mem member
      apply each (.part index)
      exact List.mem_append_left _ (mem_partBranches_iff.mpr ⟨index, items, rfl, seen, inside⟩)
    apply (eachItem_leaves inner 0).bind
    rw [Members.insert_of_get? seen]
    exact leaves_pure members
  next => exact leaves_pure members

theorem inContent_leaves (settled : Settled members) (formed : Formed (.obj members))
    (each : ∀ branch child, (branch, child) ∈ branches .request members → ∀ path, Leaves (rewrite path child) child) :
    Leaves (inContent rewrite direction path members) members := by
  unfold inContent
  split
  next isObject =>
    split
    next properties seen =>
      have distinct : Members.Distinct properties := Sound.distinct (Sound.get? formed seen)
      have unmarked : ∀ entry ∈ properties, entry.2.get? "writeOnly" = none := by
        intro entry member
        exact settled.unmarked isObject properties entry.1 entry.2 seen (distinct.get?_of_mem member)
      have inner : ∀ entry ∈ properties, ∀ path, Leaves (rewrite path entry.2) entry.2 := by
        intro entry member
        apply each (.property entry.1)
        exact List.mem_append_right _
          (mem_contentBranches_iff.mpr (Or.inl ⟨entry.1, properties, rfl, isObject, seen, member⟩))
      rw [keepProperties_of_unmarked unmarked]
      apply (eachProperty_leaves inner unmarked).bind
      rw [Members.insert_of_get? seen]
      exact leaves_pure members
    next => exact leaves_pure members
  next isArray =>
    split
    next items seen =>
      have inner : ∀ path, Leaves (rewrite path items) items := by
        apply each .items
        exact List.mem_append_right _ (mem_contentBranches_iff.mpr (Or.inr ⟨rfl, isArray, seen⟩))
      apply (inner _).bind
      rw [Members.insert_of_get? seen]
      exact leaves_pure members
    next => exact leaves_pure members
  next => exact leaves_pure members

/-- A normal schema within the limit is left as it is. The induction is on the levels that are left. -/
theorem Normal.leaves (normal : Normal schema) (formed : Formed schema)
    (shallow : ∀ route node, Reaches .request schema route node → route.length < levels) :
    Leaves (rewriteWithin limit direction levels path schema) schema := by
  induction levels generalizing path schema with
  | zero => exact absurd (shallow [] schema (.here schema)) (Nat.lt_irrefl 0)
  | succ levels ih =>
    cases schema with
    | obj members =>
      have settled : Settled members := normal [] members (.here _)
      have each : ∀ branch child, (branch, child) ∈ branches .request members → ∀ path,
          Leaves (rewriteWithin limit direction levels path child) child := by
        intro branch child stands path
        apply ih _ (sound_of_mem formed stands)
        · intro route node reaches
          exact Nat.lt_of_succ_lt_succ (shallow (branch :: route) node (.down stands reaches))
        · intro route inner reaches
          exact normal (branch :: route) inner (.down stands reaches)
      unfold rewriteWithin
      rw [settled.dropAlternatives]
      apply (inParts_leaves each).bind
      rw [settled.collapseDiscriminator]
      apply (leaves_pure members).bind
      apply (inContent_leaves settled formed each).bind
      rw [settled.renameMarks]
      exact leaves_pure _
    | _ => exact leaves_pure _

/-- Rewriting takes a schema to its normal form, where a second rewriting finds nothing to do. -/
theorem rewrite_normal (formed : schema.WellFormed) (plain : NamesPlainly direction schema)
    (returned : Returns (Schema.rewrite limit direction schema) after) :
    Normal after ∧ ∀ again before, (Schema.rewrite limit again after).run.run before = (.ok after, before) := by
  have whole : Formed schema := formed_iff.mpr formed
  have normal := rewriteWithin_normal whole plain returned
  refine ⟨normal, ?_⟩
  intro again
  apply normal.leaves (rewriteWithin_refers textual_true.shallow returned whole)
  intro route node reaches
  exact rewriteWithin_shallow whole returned reaches

/-- A cattery names what its cats are told apart by, and keeps the number of the owner's card to itself. -/
def cattery : Value :=
  .obj [("type", .str "object"), ("nullable", .bool true),
    ("allOf", .arr [.obj [("deprecated", .bool true),
      ("discriminator", .obj [("propertyName", .str "coat"), ("mapping", .obj [("tabby", .str "Tabby")])])]]),
    ("properties", .obj [("card", .obj [("writeOnly", .bool true)]),
      ("cats", .obj [("writeOnly", .bool false), ("oneOf", .arr [.null]), ("type", .str "array"), ("items", .null)])])]

/-- The cattery when it has been rewritten for responses. -/
def rewrittenCattery : Value :=
  .obj [("type", .str "object"), ("properties", .obj [("cats", .obj [("type", .str "array"), ("items", .null)])]),
    ("allOf", .arr [.obj [("discriminator", .str "coat"), ("x-deprecated", .bool true)]]), ("x-nullable", .bool true)]

/-- The tabbies of the cattery wait for their tag once, and not again when it is rewritten for requests. -/
theorem cattery_normal : cattery.WellFormed ∧ NamesPlainly .response cattery ∧
    Returns (Schema.rewrite 2 .response cattery) rewrittenCattery ∧ Normal rewrittenCattery ∧
    (Schema.rewrite 2 .request rewrittenCattery).run.run .empty = (.ok rewrittenCattery, .empty) := by
  have formed : cattery.WellFormed := by decide
  have plain : NamesPlainly .response cattery := by
    intro route members discriminator inner reaches seen named
    have below : nodesAt .response 3 cattery = [] := by decide +kernel
    have each : ∀ depth < 3, ∀ entry ∈ nodesAt .response depth cattery,
        (entry.2.get? "discriminator").bind (·.get? "propertyName") ∈ [none, some (.str "coat")] := by decide +kernel
    have plainly := each _ (reaches.shallow below) _ (mem_nodesAt_iff.mpr ⟨reaches, rfl⟩)
    simp [Value.get?, seen, named] at plainly
  have returned : Returns (Schema.rewrite 2 .response cattery) rewrittenCattery :=
    ⟨.empty, ⟨[⟨"tabby", "Tabby"⟩], []⟩, rfl⟩
  obtain ⟨normal, again⟩ := rewrite_normal formed plain returned
  exact ⟨formed, plain, returned, normal, again .request .empty⟩

end Schema
end ApiDialect
