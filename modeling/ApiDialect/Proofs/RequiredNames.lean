import ApiDialect.Proofs.WriteOnlyTraces

/-! The names that an object requires. Rewriting a schema for responses takes the write-only properties away
and leaves every list of required names as it is, so such a list may name a property that is gone. -/

namespace ApiDialect
open Rewriting Value

namespace Schema
variable {limit levels : Nat} {direction : Direction} {path : String} {members properties : Members Value}
  {schema after : Value} {route : Route} {names : List Value}

/-- An object with properties and a list of the names that it requires. -/
structure Requires (members properties : Members Value) (names : List Value) : Prop where
  isObject : Members.get? members "type" = some (.str "object")
  declares : Members.get? members "properties" = some (.obj properties)
  lists : Members.get? members "required" = some (.arr names)

/-- Only the mark of a property is lost on the way to it. -/
theorem Requires.of_get?_eq {kept : Members Value} (requires : Requires members properties names)
    (same : ∀ name, name ≠ "writeOnly" → Members.get? kept name = Members.get? members name) :
    Requires kept properties names where
  isObject := (same "type" (by decide)).trans requires.isObject
  declares := (same "properties" (by decide)).trans requires.declares
  lists := (same "required" (by decide)).trans requires.lists

/-- A rewritten object lists the same names and keeps those of its properties that the direction has. -/
theorem rewriteWithin_requires (formed : Formed (.obj members)) (requires : Requires members properties names)
    (returned : Returns (rewriteWithin limit direction levels path (.obj members)) after) :
    ∃ kept changed, after = .obj kept ∧ Requires kept changed names ∧
      changed.names = (keepProperties direction properties).names := by
  obtain ⟨below, whole, filled, rfl, ready, content⟩ := rewriteWithin_object formed returned
  have typed : Members.get? whole "type" = some (.str "object") := by
    rw [ready.others _ (by decide), requires.isObject]
  have declared : Members.get? whole "properties" = some (.obj properties) := by
    rw [ready.others _ (by decide), requires.declares]
  obtain ⟨results, each, rfl⟩ := inContent_object typed declared content
  have last {name : String} (one : name ∉ ["nullable", "x-nullable", "deprecated", "x-deprecated"])
      (other : "properties" ≠ name) : Members.get? (renameMarks (Members.insert whole "properties" (.obj results))) name =
        Members.get? whole name := by
    rw [get?_renameMarks (ready.distinct.insert _ _) one, Members.get?_insert_of_ne other]
  refine ⟨_, results, rfl, ⟨?_, ?_, ?_⟩, Members.names_of_forall₂ (eachProperty_returns each)⟩
  · rw [last (by decide) (by decide), typed]
  · rw [get?_renameMarks (ready.distinct.insert _ _) (by decide), Members.get?_insert_self]
  · rw [last (by decide) (by decide), ready.others _ (by decide), requires.lists]

/-- So does every object that can be reached, where it stands. -/
theorem Reaches.requires (reaches : Reaches direction schema route (.obj members)) (formed : Formed schema)
    (requires : Requires members properties names)
    (returned : Returns (rewriteWithin limit direction levels path schema) after) :
    ∃ kept changed, route.node? after = some (.obj kept) ∧ Requires kept changed names ∧
      changed.names = (keepProperties direction properties).names := by
  have inner : Formed (.obj members) := reaches.sound formed
  obtain ⟨below, path, result, made, found⟩ := reaches.rewritten formed returned
  obtain ⟨rewritten, changed, rfl, still, remaining⟩ := rewriteWithin_requires inner requires made
  have sound : Formed (.obj rewritten) := rewriteWithin_refers textual_true.shallow made inner
  obtain ⟨kept, trimmed, others⟩ := Route.trim_obj (Sound.distinct sound) route
  exact ⟨kept, changed, found.trans (congrArg some trimmed), still.of_get?_eq others, remaining⟩

/-- A response requires what the schema requires. Where that is the name of a property, it still is one
unless the property is write-only. -/
theorem rewrite_requires (formed : schema.WellFormed) (returned : Returns (Schema.rewrite limit .response schema) after)
    (reaches : Reaches .response schema route (.obj members)) (requires : Requires members properties names) :
    ∃ kept changed, route.node? after = some (.obj kept) ∧ Requires kept changed names ∧
      ∀ name ∈ texts names, ∀ property, Members.get? properties name = some property →
        (name ∈ changed.names ↔ isWriteOnly property = false) := by
  have whole : Formed schema := formed_iff.mpr formed
  obtain ⟨kept, changed, found, still, remaining⟩ := reaches.requires whole requires returned
  refine ⟨kept, changed, found, still, ?_⟩
  intro name _ property seen
  have distinct : Members.Distinct properties := Sound.distinct (Sound.get? (reaches.sound whole) requires.declares)
  rw [remaining, ← Members.get?_isSome_iff, keepProperties, distinct.get?_filter, seen]
  simp

/-- A voucher has a pin, which nobody is shown. -/
def voucher : Members Value :=
  [("type", .str "object"), ("required", .arr [.str "code", .str "pin", .str "date"]),
    ("properties", .obj [("pin", .obj [("writeOnly", .bool true)]), ("code", .obj [("nullable", .bool true)])])]

/-- A purchase may be paid with a voucher. -/
def purchase : Value :=
  .obj [("type", .str "object"), ("properties", .obj [("voucher", .obj voucher)])]

def shownVoucher : Members Value :=
  [("type", .str "object"), ("required", .arr [.str "code", .str "pin", .str "date"]),
    ("properties", .obj [("code", .obj [("x-nullable", .bool true)])])]

def shownPurchase : Value :=
  .obj [("type", .str "object"), ("properties", .obj [("voucher", .obj shownVoucher)])]

theorem purchase_shown : Returns (Schema.rewrite 2 .response purchase) shownPurchase := ⟨.empty, .empty, rfl⟩

theorem purchase_reaches : Reaches .response purchase [.property "voucher"] (.obj voucher) := by
  refine .down ?_ (.here _)
  decide +kernel

/-- The code of the voucher is required and shown, its pin is required and not shown. -/
theorem purchase_requires : purchase.WellFormed ∧ ∃ kept changed,
    Route.node? [.property "voucher"] shownPurchase = some (.obj kept) ∧
    Requires kept changed [.str "code", .str "pin", .str "date"] ∧ "code" ∈ changed.names ∧ "pin" ∉ changed.names := by
  have formed : purchase.WellFormed := by decide
  obtain ⟨kept, changed, found, still, each⟩ := rewrite_requires formed purchase_shown purchase_reaches ⟨rfl, rfl, rfl⟩
  refine ⟨formed, kept, changed, found, still, ?_, ?_⟩
  · exact (each "code" (by decide) _ rfl).mpr rfl
  · intro shown
    cases (each "pin" (by decide) _ rfl).mp shown

/-- Whoever is shown the purchase is told that its voucher has a pin, and not what a pin is. -/
theorem purchase_dangles : purchase.WellFormed ∧ Returns (Schema.rewrite 2 .response purchase) shownPurchase ∧
    Reaches .response purchase [.property "voucher"] (.obj voucher) ∧
    Members.get? voucher "type" = some (.str "object") ∧ (property? (.obj voucher) "pin").isSome ∧
    ∃ names, Route.node? [.property "voucher"] shownPurchase = some (.obj shownVoucher) ∧
      Members.get? shownVoucher "required" = some (.arr names) ∧ "pin" ∈ texts names ∧
      property? (.obj shownVoucher) "pin" = none :=
  ⟨by decide, purchase_shown, purchase_reaches, rfl, rfl, _, rfl, rfl, by decide, rfl⟩

end Schema
end ApiDialect
