import ApiDialect.Proofs.PathSteps
import ApiDialect.Proofs.SoundOperations

/-! Path items stay sound, and with them the document that later references are resolved against:
the loop needs nothing but what it keeps. -/

namespace ApiDialect
open Rewriting Value

variable {good : String → Value → Prop} {fine : Value → Prop}

/-- Good references to files lead to sound documents. -/
def Resolver.Loads (resolver : Resolver) (good : String → Value → Prop) : Prop :=
  ∀ reference file document, good "$ref" (.str reference) → Text.strip? "#" reference = none →
    resolver.load reference file = .ok document → document.Sound good

theorem Resolver.Loads.leads {resolver : Resolver} {root : Value} (loads : resolver.Loads good)
    (sound : root.Sound good) : resolver.Leads root good := by
  intro reference target held found
  unfold Resolver.follow at found
  split at found
  next => exact sound.walk? (Resolver.walk_eq_ok.mp found)
  next apart =>
    split at found
    next file fragment _ =>
      obtain ⟨document, read, walked⟩ := bind_eq_ok.mp found
      exact (loads reference file document held apart read).walk? (Resolver.walk_eq_ok.mp walked)
    next => exact loads reference reference target held apart found

namespace Conversion
namespace Setting
variable {setting : Setting} {root node result : Value} {item document : Members Value}

theorem operationNode_refers (textual : Textual fine) (leads : setting.resolver.Leads root (atReference fine))
    (returned : Returns (setting.operationNode root node) result) (sound : Refers fine node) : Refers fine result := by
  obtain ⟨target, found, ⟨_, rfl⟩ | ⟨members, converted, rfl, made, rfl⟩⟩ := operationNode_returns returned
  · exact Sound.resolve sound leads found
  · obtain ⟨bodiless, first, last⟩ := operation_returns made
    apply Response.Setting.rewriteResponses_refers textual leads last
    exact RequestBody.Setting.rewriteOperation_refers textual.shallow leads first (Sound.resolve sound leads found)

theorem methods_refers {methods : List Method} {converted : Members Value} (textual : Textual fine)
    (leads : setting.resolver.Leads root (atReference fine))
    (returned : Returns (methods.foldlM (setting.method root) item) converted) (sound : Refers fine (.obj item)) :
    Refers fine (.obj converted) := by
  refine returned.foldlM_keeps (fun current => Refers fine (.obj current)) ?_ sound
  intro current method next _ held step
  rcases method_returns step with ⟨_, rfl⟩ | ⟨node, operation, seen, made, rfl⟩
  · exact held
  · exact held.insert (operationNode_refers textual leads made (held.get? seen)) (Method.key_ne_ref method)

/-- An item that stands under `$ref` is a text or stays what it may be. -/
theorem pathItem_sound {path : String} (textual : Textual fine)
    (leads : setting.resolver.Leads root (atReference fine)) (returned : Returns (setting.pathItem root node) result)
    (held : SoundEntry (atReference fine) (path, node)) : SoundEntry (atReference fine) (path, result) := by
  obtain ⟨target, found, rest⟩ := pathItem_returns returned
  have resolved := Response.resolve_entry_sound textual leads found held
  rcases rest with ⟨_, rfl⟩ | ⟨item, listed, converted, rfl, made, all, rfl⟩
  · exact resolved
  · refine ⟨fun same => textual.shallow item converted (resolved.1 same), ?_⟩
    exact methods_refers textual leads all (Parameter.rewriteAll_refers leads made resolved.2)

theorem pathsOf_refers (sound : Refers fine (.obj document)) : Refers fine (.obj (pathsOf document)) := by
  unfold pathsOf
  split
  next paths seen => exact sound.get? seen
  next => exact sound_empty

theorem path_refers {path : String} {changed : Members Value} (textual : Textual fine)
    (loads : setting.resolver.Loads (atReference fine)) (returned : Returns (setting.path document path) changed)
    (sound : Refers fine (.obj document)) : Refers fine (.obj changed) := by
  rcases path_returns returned with ⟨_, rfl⟩ | ⟨node, item, seen, made, rfl⟩
  · exact sound
  · have entry := (pathsOf_refers sound).entry (Members.mem_of_get? seen)
    have converted := pathItem_sound textual (loads.leads sound) made entry
    rw [withItem, Members.modify_eq_insert (get?_paths_of_mem seen)]
    exact sound.insert (Sound.insert (pathsOf_refers sound) converted.1 converted.2) (by decide)

theorem paths_refers {todo : List String} {changed : Members Value} (textual : Textual fine)
    (loads : setting.resolver.Loads (atReference fine))
    (returned : Returns (todo.foldlM setting.path document) changed) (sound : Refers fine (.obj document)) :
    Refers fine (.obj changed) :=
  returned.foldlM_keeps (fun current => Refers fine (.obj current))
    (fun _ _ _ _ held step => path_refers textual loads step held) sound

end Setting
end Conversion
end ApiDialect
