import ApiDialect.Proofs.SoundSteps

/-! Rewriting a schema does not depend on the document around it, and it queues nothing but what
the discriminators inside say. -/

namespace ApiDialect
open Rewriting Value

variable {good : String → Value → Prop} {queues : Queue → Prop}

/-- What a tree that is good may queue. -/
structure Queues (good : String → Value → Prop) (queues : Queue → Prop) : Prop where
  closed : Closed queues
  tags : ∀ discriminator mapping, good "discriminator" (.obj discriminator) →
    Members.get? discriminator "mapping" = some (.obj mapping) →
    Agrees queues (mapping.forM fun entry => Schema.queueTag entry.1 entry.2)
      (mapping.forM fun entry => Schema.queueTag entry.1 entry.2)

/-- Nothing is asked of the queue. -/
theorem queues_true (good : String → Value → Prop) : Queues good fun _ => True where
  closed := ⟨trivial, fun _ _ => trivial⟩
  tags := by
    intro discriminator mapping _ _
    refine .forM ⟨trivial, fun _ _ => trivial⟩ fun entry _ => ?_
    unfold Schema.queueTag
    split
    next => exact .modify ⟨[⟨_, _⟩], []⟩ trivial fun before => congrArg (Queue.mk _) (List.append_nil _).symm
    next => exact .modify ⟨[], [_]⟩ trivial fun before => congrArg (Queue.mk · _) (List.append_nil _).symm

namespace Schema
variable {members : Members Value} {value : Value} {path : String} {rewrite : String → Value → Rewriting Value}

/-- A discriminator comes down to the name of its property. -/
theorem nameDiscriminator_agrees {discriminator : Members Value} (closed : Closed queues) :
    Agrees queues
      (match Members.get? discriminator "propertyName" with
        | some name => pure (Members.insert members "discriminator" name)
        | none => pure (Members.erase members "discriminator"))
      (match Members.get? discriminator "propertyName" with
        | some name => pure (Members.insert members "discriminator" name)
        | none => pure (Members.erase members "discriminator")) := by
  split
  next => exact .pure closed _
  next => exact .pure closed _

theorem collapseDiscriminator_agrees (may : Queues good queues)
    (fine : ∀ discriminator, Members.get? members "discriminator" = some (.obj discriminator) →
      good "discriminator" (.obj discriminator)) :
    Agrees queues (collapseDiscriminator members) (collapseDiscriminator members) := by
  unfold collapseDiscriminator
  split
  next discriminator seen =>
    dsimp only
    split
    next mapping found =>
      exact .bind may.closed (may.tags discriminator mapping (fine discriminator seen) found)
        fun _ _ => nameDiscriminator_agrees may.closed
    next => exact nameDiscriminator_agrees may.closed
  next => exact .pure may.closed _

theorem eachItem_agrees (closed : Closed queues) {items : List Value} {index : Nat}
    (each : ∀ item ∈ items, ∀ path, Agrees queues (rewrite path item) (rewrite path item)) :
    Agrees queues (eachItem rewrite path index items) (eachItem rewrite path index items) := by
  induction items generalizing index with
  | nil => exact .pure closed []
  | cons item rest ih =>
    refine .bind closed (each item List.mem_cons_self _) fun result _ => ?_
    exact .bind closed (ih fun item member => each item (List.mem_cons_of_mem _ member)) fun _ _ => .pure closed _

theorem eachProperty_agrees (closed : Closed queues) {properties : List (String × Value)}
    (each : ∀ entry ∈ properties, ∀ path, Agrees queues (rewrite path entry.2) (rewrite path entry.2)) :
    Agrees queues (eachProperty rewrite path properties) (eachProperty rewrite path properties) := by
  induction properties with
  | nil => exact .pure closed []
  | cons entry rest ih =>
    refine .bind closed (each entry List.mem_cons_self _) fun result _ => ?_
    exact .bind closed (ih fun entry member => each entry (List.mem_cons_of_mem _ member)) fun _ _ => .pure closed _

theorem inParts_agrees (closed : Closed queues) (sound : Sound good (.obj members))
    (each : ∀ value, Sound good value → ∀ path, Agrees queues (rewrite path value) (rewrite path value)) :
    Agrees queues (inParts rewrite path members) (inParts rewrite path members) := by
  unfold inParts
  split
  next parts seen =>
    refine .bind closed (eachItem_agrees closed fun item member => each item ?_) fun _ _ => .pure closed _
    exact (sound.get? seen).item member
  next => exact .pure closed _

theorem inContent_agrees (closed : Closed queues) {direction : Direction}
    (properties : ∀ properties, Members.get? members "properties" = some properties → Sound good properties)
    (items : ∀ items, Members.get? members "items" = some items → Sound good items)
    (each : ∀ value, Sound good value → ∀ path, Agrees queues (rewrite path value) (rewrite path value)) :
    Agrees queues (inContent rewrite direction path members) (inContent rewrite direction path members) := by
  unfold inContent
  split
  next =>
    split
    next held seen =>
      have kept := keepProperties_sound direction (properties _ seen)
      refine .bind closed (eachProperty_agrees closed fun entry member => each entry.2 ?_) fun _ _ => .pure closed _
      exact (kept.entry member).2
    next => exact .pure closed _
  next =>
    split
    next held seen => exact .bind closed (each held (items held seen) _) fun _ _ => .pure closed _
    next => exact .pure closed _
  next => exact .pure closed _

theorem get?_collapsed {name : String} (distinct : Members.Distinct members) (other : name ≠ "discriminator") :
    Members.get? (collapsed members) name = Members.get? members name := by
  unfold collapsed
  split
  next =>
    split
    next => exact Members.get?_insert_of_ne other.symm _
    next => exact distinct.get?_erase_of_ne other.symm
  next => rfl

/-- The parts of a schema are rewritten before its discriminator is looked at, but in another place. -/
theorem inParts_others {parted : Members Value} (distinct : Members.Distinct members)
    (returned : Returns (inParts rewrite path members) parted) :
    Members.Distinct parted ∧ ∀ name, name ≠ "allOf" → Members.get? parted name = Members.get? members name := by
  rcases inParts_returns returned with rfl | ⟨parts, results, _, _, rfl⟩
  · exact ⟨distinct, fun _ _ => rfl⟩
  · exact ⟨distinct.insert _ _, fun name other => Members.get?_insert_of_ne other.symm _⟩

/-- The induction is on the levels that are left. -/
theorem rewriteWithin_agrees {limit levels : Nat} {direction : Direction} (may : Queues good queues)
    (sound : Sound good value) :
    Agrees queues (rewriteWithin limit direction levels path value) (rewriteWithin limit direction levels path value) := by
  induction levels generalizing path value with
  | zero => exact .throw may.closed _
  | succ levels ih =>
    cases value with
    | obj members =>
      have dropped := dropAlternatives_sound sound
      unfold rewriteWithin
      refine .bind may.closed (inParts_agrees may.closed dropped fun _ held _ => ih held) fun parted parts => ?_
      obtain ⟨distinct, others⟩ := inParts_others dropped.distinct parts
      refine .bind may.closed (collapseDiscriminator_agrees may fun discriminator seen => ?_) fun whole collapse => ?_
      · rw [others _ (by decide)] at seen
        exact dropped.good_of_get? seen
      · obtain rfl := collapseDiscriminator_returns collapse
        refine .bind may.closed (inContent_agrees may.closed ?_ ?_ fun _ held _ => ih held) fun _ _ => .pure may.closed _
        · intro properties seen
          rw [get?_collapsed distinct (by decide), others _ (by decide)] at seen
          exact dropped.get? seen
        · intro items seen
          rw [get?_collapsed distinct (by decide), others _ (by decide)] at seen
          exact dropped.get? seen
    | _ => exact .pure may.closed _

theorem rewrite_agrees {limit : Nat} {direction : Direction} (may : Queues good queues) (sound : Sound good value) :
    Agrees queues (Schema.rewrite limit direction value) (Schema.rewrite limit direction value) :=
  rewriteWithin_agrees may sound

end Schema
end ApiDialect
