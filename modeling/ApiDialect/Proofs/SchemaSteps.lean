import ApiDialect.Proofs.Rewriting

/-! What one step of a schema's rewriting can do. Each lemma says everything that its step may
have changed, so that later proofs need not open the step again. -/

namespace ApiDialect
namespace Schema
open Rewriting

/-- A discriminator with the queue left out of account. -/
def collapsed (members : Members Value) : Members Value :=
  match Members.get? members "discriminator" with
  | some (.obj discriminator) =>
    match Members.get? discriminator "propertyName" with
    | some name => Members.insert members "discriminator" name
    | none => Members.erase members "discriminator"
  | _ => members

theorem collapseDiscriminator_returns {members result : Members Value}
    (returned : Returns (collapseDiscriminator members) result) : result = collapsed members := by
  unfold collapseDiscriminator at returned
  split at returned
  next discriminator seen =>
    have same : collapsed members = match Members.get? discriminator "propertyName" with
        | some name => Members.insert members "discriminator" name
        | none => Members.erase members "discriminator" := by simp only [collapsed, seen]
    rw [same]
    have named : ∀ {result : Members Value}, Returns (match Members.get? discriminator "propertyName" with
        | some name => pure (Members.insert members "discriminator" name)
        | none => pure (Members.erase members "discriminator")) result →
        result = match Members.get? discriminator "propertyName" with
          | some name => Members.insert members "discriminator" name
          | none => Members.erase members "discriminator" := by
      intro result returned
      split at returned <;> exact returns_pure.mp returned
    dsimp only at returned
    split at returned
    next =>
      obtain ⟨_, _, returned⟩ := returned.bind
      exact named returned
    next => exact named returned
  next other =>
    have same : collapsed members = members := by
      unfold collapsed
      split
      next discriminator seen => exact absurd seen (other discriminator)
      next => rfl
    rw [same]
    exact returns_pure.mp returned

/-- The extension that says what is nullable. -/
def renameNullable (members : Members Value) : Members Value :=
  if (Members.get? members "nullable").any Value.isTrue then
    Members.insert (Members.erase members "nullable") "x-nullable" (.bool true)
  else members

/-- The extension that says what is deprecated. -/
def renameDeprecated (members : Members Value) : Members Value :=
  match Members.get? members "deprecated" with
  | some deprecated => Members.insertIfAbsent (Members.erase members "deprecated") "x-deprecated" deprecated
  | none => members

/-- The marks are renamed one after the other. -/
theorem renameMarks_eq (members : Members Value) : renameMarks members = renameDeprecated (renameNullable members) := rfl

variable {rewrite : String → Value → Rewriting Value} {path : String}

theorem eachItem_returns {index : Nat} {items results : List Value}
    (returned : Returns (eachItem rewrite path index items) results) :
    List.Forall₂ (fun item result => ∃ inner, Returns (rewrite inner item) result) items results := by
  induction items generalizing index results with
  | nil =>
    cases returns_pure.mp returned
    exact .nil
  | cons item rest ih =>
    obtain ⟨result, first, returned⟩ := returned.bind
    obtain ⟨others, last, returned⟩ := returned.bind
    cases returns_pure.mp returned
    exact .cons ⟨_, first⟩ (ih last)

theorem eachProperty_returns {properties results : List (String × Value)}
    (returned : Returns (eachProperty rewrite path properties) results) :
    List.Forall₂ (fun entry result => result.1 = entry.1 ∧
      ∃ inner property, Returns (rewrite inner entry.2) property ∧ result.2 = withoutWriteOnly property)
      properties results := by
  induction properties generalizing results with
  | nil =>
    cases returns_pure.mp returned
    exact .nil
  | cons entry rest ih =>
    obtain ⟨property, first, returned⟩ := returned.bind
    obtain ⟨others, last, returned⟩ := returned.bind
    cases returns_pure.mp returned
    exact .cons ⟨rfl, _, property, first, rfl⟩ (ih last)

theorem inParts_returns {members result : Members Value} (returned : Returns (inParts rewrite path members) result) :
    result = members ∨ ∃ parts results, Members.get? members "allOf" = some (.arr parts) ∧
      List.Forall₂ (fun item result => ∃ inner, Returns (rewrite inner item) result) parts results ∧
      result = Members.insert members "allOf" (.arr results) := by
  unfold inParts at returned
  split at returned
  next parts seen =>
    obtain ⟨results, each, returned⟩ := returned.bind
    exact Or.inr ⟨parts, results, seen, eachItem_returns each, returns_pure.mp returned⟩
  next => exact Or.inl (returns_pure.mp returned)

theorem inContent_returns {direction : Direction} {members result : Members Value}
    (returned : Returns (inContent rewrite direction path members) result) :
    result = members ∨
    (∃ properties results, Value.textAt? members "type" = some "object" ∧
      Members.get? members "properties" = some (.obj properties) ∧
      List.Forall₂ (fun entry result => result.1 = entry.1 ∧
        ∃ inner property, Returns (rewrite inner entry.2) property ∧ result.2 = withoutWriteOnly property)
        (keepProperties direction properties) results ∧
      result = Members.insert members "properties" (.obj results)) ∨
    (∃ items rewritten, Value.textAt? members "type" = some "array" ∧
      Members.get? members "items" = some items ∧ Returns (rewrite (path ++ "/items") items) rewritten ∧
      result = Members.insert members "items" rewritten) := by
  unfold inContent at returned
  split at returned
  next isObject =>
    split at returned
    next properties seen =>
      obtain ⟨results, each, returned⟩ := returned.bind
      exact Or.inr (Or.inl ⟨properties, results, isObject, seen, eachProperty_returns each,
        returns_pure.mp returned⟩)
    next => exact Or.inl (returns_pure.mp returned)
  next isArray =>
    split at returned
    next items seen =>
      obtain ⟨rewritten, inner, returned⟩ := returned.bind
      exact Or.inr (Or.inr ⟨items, rewritten, isArray, seen, inner, returns_pure.mp returned⟩)
    next => exact Or.inl (returns_pure.mp returned)
  next => exact Or.inl (returns_pure.mp returned)

/-- An object goes through its parts, its discriminator, its content and its marks; every other
value is left alone. -/
theorem rewriteWithin_returns {limit levels : Nat} {direction : Direction} {value result : Value}
    (returned : Returns (rewriteWithin limit direction levels path value) result) :
    (value.members? = none ∧ result = value) ∨
    ∃ below members parted filled, levels = below + 1 ∧ value = .obj members ∧
      Returns (inParts (rewriteWithin limit direction below) path (dropAlternatives members)) parted ∧
      Returns (inContent (rewriteWithin limit direction below) direction path (collapsed parted)) filled ∧
      result = .obj (renameMarks filled) := by
  cases levels with
  | zero =>
    unfold rewriteWithin at returned
    exact absurd returned not_returns_throw
  | succ below =>
    cases value with
    | obj members =>
      unfold rewriteWithin at returned
      obtain ⟨parted, first, returned⟩ := returned.bind
      obtain ⟨whole, second, returned⟩ := returned.bind
      obtain rfl := collapseDiscriminator_returns second
      obtain ⟨filled, third, returned⟩ := returned.bind
      exact Or.inr ⟨below, members, parted, filled, rfl, rfl, first, third, returns_pure.mp returned⟩
    | _ =>
      unfold rewriteWithin at returned
      exact Or.inl ⟨rfl, returns_pure.mp returned⟩

end Schema
end ApiDialect
