import ApiDialect.Proofs.ReferenceOrigins
import ApiDialect.Proofs.TagPlaces
import ApiDialect.Proofs.VisitedSchemas

/-! What becomes of the mappings of discriminators. Every entry that a conversion meets is written
onto the schema that it names, or it is reported, and nothing else is written or reported. -/

namespace ApiDialect
namespace Conversion
namespace Setting
open Rewriting Value Discriminator
variable {setting : Setting} {document : Members Value}

/-- The tags of the entries that are met. -/
def metTags (setting : Setting) (document : Members Value) : List Tag :=
  (setting.metEntries document).filterMap Schema.tag?

/-- How candidates are followed when the document has its layout. -/
def discriminator (setting : Setting) (relocated : Bool) : Discriminator.Setting :=
  ⟨setting.resolver, relocated⟩

theorem finish_document (setting : Setting) (document : Members Value) (relocated : Bool) (queue : Queue) :
    (setting.finish document relocated queue).document = (if relocated then Relocation.references else id)
      ((setting.discriminator relocated).applyAll (.obj document) queue.tags).1 := by
  cases relocated <;> rfl

theorem finish_warnings (setting : Setting) (document : Members Value) (relocated : Bool) (queue : Queue) :
    (setting.finish document relocated queue).warnings =
      queue.warnings ++ ((setting.discriminator relocated).applyAll (.obj document) queue.tags).2 :=
  rfl

/-- The mappings of a document are accounted for. The warnings are those for entries without a
target, as they are met, and then those for tags that lead nowhere. The marks that are added to the
document in its layout are, at every place, the payload of the last tag that leads there. -/
theorem mappings_accounted {converted : Converted} (formed : (Value.obj document).WellFormed)
    (unmarked : ∀ tag ∈ setting.metTags document, Unmarked tag)
    (made : setting.convert (.obj document) = .ok converted) :
    ∃ (laid : Members Value) (relocated : Bool),
      (setting.layout document).run.run .empty = (.ok (laid, relocated), Queue.of (setting.metEntries document)) ∧
      (relocated = true ↔ ∃ mapping, Members.get? document "components" = some (.obj mapping)) ∧
      converted.warnings = (setting.metEntries document).filterMap Schema.fault? ++
        ((setting.discriminator relocated).lost (.obj laid) (setting.metTags document)).map Setting.unresolved ∧
      converted.document = (if relocated then Relocation.references else id)
        (written ((setting.discriminator relocated).payload? (.obj laid) (setting.metTags document)) (.obj laid)) := by
  obtain ⟨members, laid, relocated, queue, same, ran, rfl⟩ := convert_eq_ok made
  cases same
  have whole : Formed (.obj document) := formed_iff.mpr formed
  have collected := (layout_collects whole).run ⟨.empty, queue, ran⟩
  obtain ⟨walked, one, other⟩ := layout_returns ⟨.empty, queue, ran⟩
  have start : Formed (.obj walked) := paths_formed (opened_refers whole) one
  have held : Formed (.obj laid) := Relocation.components_refers textual_true.shallow other start
  have moves : relocated = true ↔ ∃ mapping, Members.get? document "components" = some (.obj mapping) := by
    rw [← get?_components_walked whole.distinct one]
    exact Relocation.relocated_iff other
  have gathered : queue = Queue.of (setting.metEntries document) := (Prod.mk.inj (ran.symm.trans collected)).2
  have tags : queue.tags = setting.metTags document := by
    rw [gathered]
    rfl
  have avoid : ∀ tag ∈ setting.metTags document, ∀ candidate ∈ tag.candidates,
      (setting.discriminator relocated).Avoids candidate :=
    fun tag member => avoids_of_unmarked (unmarked tag member)
  have applied := Discriminator.Setting.applyAll_eq held avoid
  refine ⟨laid, relocated, collected, moves, ?_, ?_⟩
  · rw [finish_warnings, tags, applied, gathered]
    rfl
  · rw [finish_document, tags, applied]

/-- Two entries for one kind of animal, one through its reference, and others without a target. -/
def menagerie : Members Value :=
  [("openapi", .str "3.0.0"),
    ("paths", .obj [("/animals", .obj [("get", .obj [("responses", .obj [("200", .obj [("content", .obj [
      ("application/json", .obj [("schema", .obj [("discriminator", .obj [("propertyName", .str "kind"),
        ("mapping", .obj [("purring", .str "Cat"), ("barking", .num (.int 5))])])])])])])])])])]),
    ("components", .obj [("schemas", .obj [
      ("Animal", .obj [("discriminator", .obj [("propertyName", .str "kind"),
        ("mapping", .obj [("cat", .str "#/components/schemas/Cat"), ("ghost", .str "Ghost"),
          ("whale", .str "sea.json#/Whale")])])]),
      ("Cat", .obj [("type", .str "object")])])])]

def menageriePaths : Value :=
  .obj [("/animals", .obj [("get", .obj [
    ("responses", .obj [("200", .obj [("schema", .obj [("discriminator", .str "kind")])])]),
    ("parameters", .arr []), ("produces", .arr [.str "application/json"])])])]

def laidMenagerie : Members Value :=
  [("swagger", .str "2.0"), ("paths", menageriePaths),
    ("definitions", .obj [("Animal", .obj [("discriminator", .str "kind")]), ("Cat", .obj [("type", .str "object")])]),
    ("x-components", .obj [])]

def convertedMenagerie : Value :=
  .obj [("swagger", .str "2.0"), ("paths", menageriePaths),
    ("definitions", .obj [("Animal", .obj [("discriminator", .str "kind")]),
      ("Cat", .obj [("type", .str "object"), ("x-discriminator-value", .str "cat"),
        ("x-ms-discriminator-value", .str "cat")])]),
    ("x-components", .obj [])]

/-- Both entries for a cat lead to one place, where the later one stays. -/
theorem menagerie_accounted :
    let follower := Setting.discriminator ⟨⟨none, Files.none⟩, 10⟩ true
    let tags : List Tag := [⟨"purring", "Cat"⟩, ⟨"cat", "#/components/schemas/Cat"⟩, ⟨"ghost", "Ghost"⟩, ⟨"whale", "sea.json#/Whale"⟩]
    [Warning.invalidMapping "barking", .unresolvedMapping "ghost" "Ghost", .unresolvedMapping "whale" "sea.json#/Whale"] =
        [Warning.invalidMapping "barking"] ++ (follower.lost (.obj laidMenagerie) tags).map Setting.unresolved ∧
      follower.payload? (.obj laidMenagerie) tags [.member "definitions", .member "Cat"] = some "cat" ∧
      convertedMenagerie = Relocation.references (written (follower.payload? (.obj laidMenagerie) tags) (.obj laidMenagerie)) := by
  have made : Setting.convert ⟨⟨none, Files.none⟩, 10⟩ (.obj menagerie) = .ok ⟨convertedMenagerie,
      [.invalidMapping "barking", .unresolvedMapping "ghost" "Ghost", .unresolvedMapping "whale" "sea.json#/Whale"]⟩ := by
    decide +kernel
  have met : Setting.metTags ⟨⟨none, Files.none⟩, 10⟩ menagerie =
      [⟨"purring", "Cat"⟩, ⟨"cat", "#/components/schemas/Cat"⟩, ⟨"ghost", "Ghost"⟩, ⟨"whale", "sea.json#/Whale"⟩] := by
    decide +kernel
  have faults : (Setting.metEntries ⟨⟨none, Files.none⟩, 10⟩ menagerie).filterMap Schema.fault? =
      [.invalidMapping "barking"] := by decide +kernel
  have ran : ((Setting.layout ⟨⟨none, Files.none⟩, 10⟩ menagerie).run.run .empty).1 = .ok (laidMenagerie, true) := by
    decide +kernel
  have unmarked : ∀ tag ∈ Setting.metTags ⟨⟨none, Files.none⟩, 10⟩ menagerie, Unmarked tag := by
    rw [met]
    intro tag member name marks
    rcases marks with rfl | rfl <;> revert tag <;> decide
  obtain ⟨laid, relocated, collected, _, warned, shown⟩ := mappings_accounted (by decide) unmarked made
  rw [collected] at ran
  cases ran
  rw [met] at warned shown
  rw [faults] at warned
  exact ⟨warned, by decide +kernel, shown⟩

end Setting
end Conversion
end ApiDialect
