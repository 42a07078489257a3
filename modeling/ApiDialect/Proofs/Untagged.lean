import ApiDialect.Proofs.Alike
import ApiDialect.Proofs.Layout

/-! A conversion with its tags left out. References are put right after the tags are written, but
neither step minds the other, so what a conversion gives is what it would give without tags and then
the tags. -/

namespace ApiDialect
namespace Conversion
namespace Setting
open Rewriting Value Discriminator
variable {setting : Setting} {document item result : Members Value}

/-- What a conversion gives before any tag is written. -/
def untagged (setting : Setting) (document : Members Value) : Except Error Value :=
  match (setting.layout document).run.run .empty with
  | (.ok (result, relocated), _) => .ok (.obj (readdressed relocated result))
  | (.error error, _) => .error error

/-- The tags that wait when everything has found its place. -/
def queued (setting : Setting) (document : Members Value) : List Tag :=
  ((setting.layout document).run.run .empty).2.tags

theorem convert_tagged {converted : Converted} (made : setting.convert (.obj document) = .ok converted) :
    ∃ walked result relocated,
      Returns ((pathsOf (setting.opened document)).names.foldlM setting.path (setting.opened document)) walked ∧
      Returns (Relocation.components setting.limit walked) (result, relocated) ∧
      setting.untagged document = .ok (.obj (readdressed relocated result)) ∧
      Tagged (setting.queued document) (.obj (readdressed relocated result)) converted.document := by
  obtain ⟨members, result, relocated, queue, same, ran, rfl⟩ := convert_eq_ok made
  cases same
  obtain ⟨walked, one, two⟩ := layout_returns ⟨.empty, queue, ran⟩
  refine ⟨walked, result, relocated, one, two, ?_, ?_⟩
  · unfold untagged
    rw [ran]
  · obtain ⟨tagged, written, same⟩ := finish_tagged setting result relocated queue
    unfold queued
    rw [same, ran]
    cases relocated with
    | false => exact written
    | true => exact written.references

theorem convert_untagged {converted : Converted} (made : setting.convert (.obj document) = .ok converted) :
    ∃ walked result relocated,
      Returns ((pathsOf (setting.opened document)).names.foldlM setting.path (setting.opened document)) walked ∧
      Returns (Relocation.components setting.limit walked) (result, relocated) ∧
      setting.untagged document = .ok (.obj (readdressed relocated result)) ∧
      Marked (.obj (readdressed relocated result)) converted.document := by
  obtain ⟨walked, result, relocated, one, two, same, tagged⟩ := convert_tagged made
  exact ⟨walked, result, relocated, one, two, same, tagged.marked⟩

theorem readdressed_formed {relocated : Bool} (formed : Formed (.obj item)) : Formed (.obj (readdressed relocated item)) := by
  cases relocated with
  | false => exact formed
  | true => exact formed_iff.mpr (Relocation.references_refers (.obj item) formed).wellFormed

theorem walk?_readdressed {relocated : Bool} {items found : Members Value} {path : String}
    (kept : Members.get? result "paths" = some (.obj items)) (stop : Members.get? items path = some (.obj found)) :
    (Value.obj (readdressed relocated result)).walk? ["paths", path] = some (.obj (readdressed relocated found)) := by
  have inside : (Value.obj (readdressed relocated result)).get? "paths" = some (.obj (readdressed relocated items)) :=
    get?_readdressed_obj kept
  have last : (Value.obj (readdressed relocated items)).get? path = some (.obj (readdressed relocated found)) :=
    get?_readdressed_obj stop
  rw [walk?_of_get? inside, walk?_of_get? last]
  rfl

end Setting
end Conversion
end ApiDialect
