import ApiDialect.Proofs.ComponentPlaces
import ApiDialect.Proofs.Extensions
import ApiDialect.Proofs.KeptPlaces
import ApiDialect.Proofs.TagPlaces
import ApiDialect.Proofs.WriteOnlyRequests

/-! Where a reference leads when its target has moved. A shared schema is found where its definition is,
another component among those that stay together, and what lies outside the conversion in its old place.
The text of a reference changes apart from the document, so the two are followed side by side. -/

namespace ApiDialect
open Rewriting Value

/-- One step of a fragment. -/
theorem Pointer.ofFragment_step {name : String} (plain : '/' ∉ name.toList) (rest : String) :
    ofFragment ("/" ++ (name ++ "/" ++ rest)) = unescape name :: ofFragment ("/" ++ rest) := by
  rw [ofFragment_slash, ofFragment_slash, Text.split_append plain, List.map_cons]

theorem Pointer.ofFragment_named {name : String} (slash : '/' ∉ name.toList) (tilde : '~' ∉ name.toList) (rest : String) :
    ofFragment ("/" ++ (name ++ "/" ++ rest)) = name :: ofFragment ("/" ++ rest) := by
  rw [ofFragment_step slash, (unescape_eq_iff slash tilde).mpr rfl]

namespace Resolver
variable {resolver : Resolver} {root target : Value} {fragment : String}

theorem follow_hash (walks : root.walk? (Pointer.ofFragment fragment) = some target) :
    resolver.follow root ("#" ++ fragment) = .ok target := by
  rw [follow, Reference.strip?_hash]
  dsimp only
  rw [walk, walks]

theorem follow_slash (walks : root.walk? (Pointer.ofFragment ("/" ++ fragment)) = some target) :
    resolver.follow root ("#/" ++ fragment) = .ok target := by
  have joined : "#/" ++ fragment = "#" ++ ("/" ++ fragment) := by
    rw [← String.append_assoc]
    rfl
  rw [joined]
  exact follow_hash walks

end Resolver

/-- A reference that does not lead into components stays as it is. -/
theorem Relocation.reference_eq_self {text : String} (absent : Text.occurs "#/components/" text = false) : reference text = text := by
  have longer : Text.occurs "#/components/schemas/" text = false :=
    Text.occurs_eq_false_iff.mpr (Text.behindChars?_append_eq_none (by decide) (Text.occurs_eq_false_iff.mp absent))
  rw [reference, Text.replaceFirst_of_absent longer, Text.replaceFirst_of_absent absent]

/-- A way that goes through no mark is there after tags have been written. -/
theorem Discriminator.Tagged.walk? {tags : List Tag} {value after child : Value} {pointer : Pointer}
    (tagged : Tagged tags value after) (walks : value.walk? pointer = some child) (plain : ∀ token ∈ pointer, ¬ isMark token) :
    ∃ last, after.walk? pointer = some last ∧ Tagged tags child last := by
  induction pointer generalizing value after with
  | nil =>
    cases walks
    exact ⟨after, rfl, tagged⟩
  | cons token rest ih =>
    obtain ⟨first, later⟩ := List.forall_mem_cons.mp plain
    obtain ⟨next, seen, onward⟩ := Option.bind_eq_some_iff.mp walks
    cases value with
    | obj members =>
      obtain ⟨between, found, inner⟩ := tagged.member (show (Value.obj members).get? token = some next from seen) first
      obtain ⟨last, stop, rest⟩ := ih inner onward later
      exact ⟨last, (walk?_of_get? found _).trans stop, rest⟩
    | arr items =>
      obtain ⟨index, here, inside⟩ := Option.bind_eq_some_iff.mp seen
      obtain ⟨nodes, rfl, each⟩ := tagged.arr
      obtain ⟨between, found, inner⟩ := getElem?_of_forall₂ each inside
      obtain ⟨last, stop, rest⟩ := ih inner onward later
      refine ⟨last, ?_, rest⟩
      rw [Value.walk?, child?, here, Option.bind_some, found]
      exact stop
    | _ => cases seen

/-- Where a reference goes through no mark it leads to the same place, whatever the tags. -/
theorem Resolver.follow_tagged {tags : List Tag} {resolver : Resolver} {value after target : Value} {reference : String}
    (tagged : Discriminator.Tagged tags value after) (found : resolver.follow value reference = .ok target)
    (plain : ∀ fragment, Text.strip? "#" reference = some fragment →
      ∀ token ∈ Pointer.ofFragment fragment, ¬ Discriminator.isMark token) :
    ∃ last, resolver.follow after reference = .ok last ∧ Discriminator.Tagged tags target last := by
  unfold follow at found ⊢
  cases stripped : Text.strip? "#" reference with
  | none =>
    rw [stripped] at found
    exact ⟨target, found, .same target⟩
  | some fragment =>
    rw [stripped] at found
    dsimp only [walk] at found ⊢
    cases walks : value.walk? (Pointer.ofFragment fragment) with
    | none =>
      rw [walks] at found
      cases found
    | some held =>
      rw [walks] at found
      cases found
      obtain ⟨last, stop, rest⟩ := tagged.walk? walks (plain fragment stripped)
      exact ⟨last, by rw [stop], rest⟩

namespace Conversion
namespace Setting
open Reference Discriminator
variable {setting : Setting} {document walked laid mapping : Members Value} {relocated : Bool} {reference : String}
  {target moved final : Value} {pointer : Pointer}

/-- A reference leads to a place of a document, and what was there has become something else by the end
of the conversion, references and tags apart: in a shared schema what its rewriting has made of that
place, and anywhere else the same again. What is replaced in the text stands only at its beginning. -/
inductive Counterpart (setting : Setting) (document : Members Value) : String → Value → Value → Prop where
  | schema {rest token : String} {below : Pointer} {shared rewritten target moved : Value}
      (once : Text.occurs "#/components/" rest = false) (cut : Pointer.ofFragment ("/" ++ rest) = token :: below)
      (found : sharedSchema? document token = some shared) (leads : shared.walk? below = some target)
      (made : Returns (Schema.rewrite setting.limit .response shared) rewritten) (becomes : rewritten.walk? below = some moved)
      (plain : Relocation.PlainAt (token :: below) moved) :
      Counterpart setting document (toComponent "schemas" rest) target moved
  | component {kind rest : String} {mapping : Members Value} {target : Value} (whole : '/' ∉ kind.toList)
      (stays : kind ∉ ["schemas", "securitySchemes"]) (once : Text.occurs "#/components/" (kind ++ "/" ++ rest) = false)
      (mapped : Members.get? document "components" = some (.obj mapping))
      (leads : (Value.obj mapping).walk? (Pointer.unescape kind :: Pointer.ofFragment ("/" ++ rest)) = some target)
      (plain : Relocation.PlainAt (Pointer.unescape kind :: Pointer.ofFragment ("/" ++ rest)) target) :
      Counterpart setting document (toComponent kind rest) target target
  | outside {fragment name : String} {below : Pointer} {target : Value} (stays : name ∉ rootNames)
      (once : Text.occurs "#/components/" ("#" ++ fragment) = false) (cut : Pointer.ofFragment fragment = name :: below)
      (leads : (Value.obj document).walk? (name :: below) = some target)
      (plain : Relocation.PlainAt (name :: below) target) :
      Counterpart setting document ("#" ++ fragment) target target

/-- A reference at the end of a conversion. -/
def readdressedReference (relocated : Bool) (reference : String) : String :=
  if relocated then Relocation.reference reference else reference

/-- Before the conversion the reference leads to its target. -/
theorem Counterpart.follow (counterpart : Counterpart setting document reference target moved) (resolver : Resolver) :
    resolver.follow (.obj document) reference = .ok target := by
  cases counterpart with
  | schema once cut found leads made becomes plain =>
    obtain ⟨schemas, listed, held⟩ := Option.bind_eq_some_iff.mp found
    obtain ⟨components, here, listed⟩ := Option.bind_eq_some_iff.mp listed
    rw [toComponent_eq]
    refine Resolver.follow_slash ?_
    rw [Pointer.ofFragment_named (by decide) (by decide), Pointer.ofFragment_named (by decide) (by decide), cut]
    exact (walk?_of_get? (show (Value.obj document).get? "components" = some components from here) _).trans
      ((walk?_of_get? listed _).trans ((walk?_of_get? held _).trans leads))
  | component whole stays once mapped leads plain =>
    rw [toComponent_eq]
    refine Resolver.follow_slash ?_
    rw [Pointer.ofFragment_named (by decide) (by decide), Pointer.ofFragment_step whole]
    exact (walk?_of_get? (show (Value.obj document).get? "components" = _ from mapped) _).trans leads
  | outside stays once cut leads plain => exact Resolver.follow_hash (cut ▸ leads)

theorem walk?_readdressed_eq {members : Members Value} (walks : (Value.obj members).walk? pointer = some target)
    (plain : Relocation.PlainAt pointer target) :
    (Value.obj (readdressed relocated members)).walk? pointer = some (readdressedSchema relocated target) := by
  cases relocated with
  | false => exact walks
  | true => exact Relocation.walk?_references_eq walks plain

/-- A place in a shared schema is found in what its rewriting has made of it. -/
theorem walk?_laid_schema {token : String} {shared rewritten : Value} (pointer : Pointer) (formed : Formed (.obj document))
    (ran : Returns ((pathsOf (setting.opened document)).names.foldlM setting.path (setting.opened document)) walked)
    (made : Returns (Relocation.components setting.limit walked) (laid, relocated))
    (found : sharedSchema? document token = some shared)
    (changed : Returns (Schema.rewrite setting.limit .response shared) rewritten) :
    relocated = true ∧ (Value.obj laid).walk? ("definitions" :: token :: pointer) = rewritten.walk? pointer := by
  obtain ⟨rfl, single, definitions, definition, placed, seen, again⟩ := definition_laid formed ran made found
  obtain rfl := (Schema.rewrite_agrees (queues_true _) single).returns_unique again changed
  refine ⟨rfl, ?_⟩
  rw [walk?, child?, placed, Option.bind_some, walk?, child?, seen, Option.bind_some]

/-- A place in another section than the two that move is found in it again. -/
theorem walk?_laid_section {kind : String} (pointer : Pointer) (formed : Formed (.obj document))
    (ran : Returns ((pathsOf (setting.opened document)).names.foldlM setting.path (setting.opened document)) walked)
    (made : Returns (Relocation.components setting.limit walked) (laid, relocated))
    (mapped : Members.get? document "components" = some (.obj mapping)) (stays : kind ∉ ["schemas", "securitySchemes"]) :
    relocated = true ∧ (Value.obj laid).walk? ("x-components" :: kind :: pointer) = (Value.obj mapping).walk? (kind :: pointer) := by
  have visited : Formed (.obj walked) := paths_formed (opened_refers formed) ran
  obtain ⟨rfl, places⟩ := Relocation.components_relocated visited.distinct
    ((get?_components_walked formed.distinct ran).trans mapped) (Sound.distinct (Sound.get? formed mapped)) made
  obtain ⟨kept, placed, others⟩ := places.kept
  refine ⟨rfl, ?_⟩
  rw [Relocation.walk?_kept placed, others, if_neg (by simpa using stays)]
  rfl

/-- After the conversion the reference that has become of it leads to what has become of its target. -/
theorem Counterpart.follow_laid (counterpart : Counterpart setting document reference target moved)
    (formed : Formed (.obj document))
    (ran : Returns ((pathsOf (setting.opened document)).names.foldlM setting.path (setting.opened document)) walked)
    (made : Returns (Relocation.components setting.limit walked) (laid, relocated)) (resolver : Resolver) :
    resolver.follow (.obj (readdressed relocated laid)) (readdressedReference relocated reference) =
      .ok (readdressedSchema relocated moved) := by
  cases counterpart with
  | @schema _ _ below _ _ _ _ once cut found _ changed becomes plain =>
    obtain ⟨rfl, stands⟩ := walk?_laid_schema below formed ran made found changed
    rw [readdressedReference, if_pos rfl, Relocation.reference_below_schemas once]
    refine Resolver.follow_slash ?_
    rw [Pointer.ofFragment_named (by decide) (by decide), cut]
    exact walk?_readdressed_eq (stands.trans becomes) (Relocation.plainAt_cons_cons.mpr plain)
  | @component kind rest _ _ whole stays once mapped leads plain =>
    have apart : Pointer.unescape kind ∉ ["schemas", "securitySchemes"] := by
      simp only [List.mem_cons, List.not_mem_nil, or_false] at stays ⊢
      rwa [Pointer.unescape_eq_iff (by decide) (by decide), Pointer.unescape_eq_iff (by decide) (by decide)]
    obtain ⟨rfl, stands⟩ := walk?_laid_section (Pointer.ofFragment ("/" ++ rest)) formed ran made mapped apart
    rw [readdressedReference, if_pos rfl, Relocation.reference_below whole (fun same => stays (by simp [same])) once]
    refine Resolver.follow_slash ?_
    rw [Pointer.ofFragment_named (by decide) (by decide), Pointer.ofFragment_step whole]
    exact walk?_readdressed_eq (stands.trans leads) (Relocation.plainAt_cons_cons.mpr plain)
  | @outside fragment _ _ _ stays once cut leads plain =>
    have same : readdressedReference relocated ("#" ++ fragment) = "#" ++ fragment := by
      unfold readdressedReference
      split
      next => exact Relocation.reference_eq_self once
      next => rfl
    rw [same]
    refine Resolver.follow_hash (cut ▸ walk?_readdressed_eq ?_ plain)
    rw [walk?, child?, get?_laid formed ran made stays]
    exact leads

/-- The same holds behind the tags when the reference does not mention their names. -/
theorem Counterpart.follow_tagged {tags : List Tag} (counterpart : Counterpart setting document reference target moved)
    (formed : Formed (.obj document))
    (ran : Returns ((pathsOf (setting.opened document)).names.foldlM setting.path (setting.opened document)) walked)
    (made : Returns (Relocation.components setting.limit walked) (laid, relocated))
    (tagged : Tagged tags (.obj (readdressed relocated laid)) final)
    (unmarked : ∀ name, isMark name → Text.occurs name reference = false) (resolver : Resolver) :
    ∃ last, resolver.follow final (readdressedReference relocated reference) = .ok last ∧
      Tagged tags (readdressedSchema relocated moved) last := by
  refine Resolver.follow_tagged tagged (counterpart.follow_laid formed ran made resolver) ?_
  have avoids := @avoids_of_unmarked ⟨resolver, relocated⟩ ⟨"", reference⟩ unmarked
  exact avoids reference (List.mem_append_right _ (List.mem_singleton_self reference))

end Setting
end Conversion
end ApiDialect
