import ApiDialect.Proofs.ComponentReferences
import ApiDialect.Proofs.Untagged

/-! What becomes of each component. Schemas are rewritten one by one where they are, all other
sections but one are only readdressed, and what a reference led to is found again from where the
reference leads now. Tags come later and write nothing but their two names. -/

namespace ApiDialect
open Rewriting Value Discriminator

namespace Relocation
open Reference
variable {limit : Nat} {document mapping laid out : Members Value} {value child target : Value} {kind token : String}
  {pointer place : Pointer}

theorem child?_references (seen : value.child? token = some child) (plain : token = "$ref" → child.text? = none) :
    (references value).child? token = some (references child) := by
  cases value with
  | obj members =>
    rw [references, child?, get?_referencesOfMembers, show Members.get? members token = some child from seen, Option.map_some]
    by_cases same : token = "$ref"
    · cases child with
      | str text => cases plain same
      | _ => rfl
    · rw [member_of_ne same]
  | arr items =>
    obtain ⟨index, here, inside⟩ := Option.bind_eq_some_iff.mp seen
    rw [references, child?, here, referencesOfItems_eq_map, Option.bind_some, List.getElem?_map, inside]
    rfl
  | _ => cases seen

/-- What stands in a place is not the text of a reference. -/
def PlainAt (pointer : Pointer) (value : Value) : Prop :=
  pointer.getLast? = some "$ref" → value.text? = none

theorem plainAt_cons_cons {first second : String} :
    PlainAt (first :: second :: pointer) value ↔ PlainAt (second :: pointer) value := by
  rw [PlainAt, List.getLast?_cons_cons, PlainAt]

/-- What stands in a place is what stood there with its references put right. -/
theorem walk?_references_eq (walks : value.walk? pointer = some target) (plain : PlainAt pointer target) :
    (references value).walk? pointer = some (references target) := by
  induction pointer generalizing value with
  | nil =>
    cases walks
    rfl
  | cons token rest ih =>
    obtain ⟨child, seen, walks⟩ := Option.bind_eq_some_iff.mp walks
    have still : token = "$ref" → child.text? = none := by
      intro same
      cases rest with
      | nil =>
        cases walks
        exact plain (congrArg some same)
      | cons next later =>
        cases child with
        | str text => cases walks
        | _ => rfl
    rw [walk?, child?_references seen still]
    refine ih walks fun last => plain ?_
    rw [List.getLast?_cons, last]
    rfl

theorem walk?_references_text {text : String} (walks : value.walk? (place ++ ["$ref"]) = some (.str text)) :
    (references value).walk? (place ++ ["$ref"]) = some (.str (reference text)) := by
  rw [walk?_append] at walks ⊢
  obtain ⟨node, first, last⟩ := Option.bind_eq_some_iff.mp walks
  obtain ⟨held, seen, same⟩ := Option.bind_eq_some_iff.mp last
  cases same
  cases node with
  | obj members =>
    rw [walk?_references_eq first fun _ => rfl, Option.bind_some, references, walk?, child?, get?_referencesOfMembers,
      show Members.get? members "$ref" = some (.str text) from seen]
    rfl
  | arr items =>
    have nowhere : (Value.arr items).child? "$ref" = none := rfl
    cases nowhere.symm.trans seen
  | _ => cases seen

/-- What a pointer leads to is still there when references have been put right. -/
theorem walk?_references (found : (value.walk? pointer).isSome) : ((references value).walk? pointer).isSome := by
  obtain ⟨target, walks⟩ := Option.isSome_iff_exists.mp found
  by_cases plain : PlainAt pointer target
  · rw [walk?_references_eq walks plain]
    rfl
  · obtain ⟨last, isText⟩ := Classical.not_imp.mp plain
    obtain ⟨place, rfl⟩ := List.getLast?_eq_some_iff.mp last
    cases target with
    | str text =>
      rw [walk?_references_text walks]
      rfl
    | _ => exact absurd rfl isText

/-- The sections that stay together. -/
def staying (mapping : Members Value) : Members Value :=
  mapping.filter fun entry => entry.1 ∉ ["schemas", "securitySchemes"]

theorem get?_staying (distinct : Members.Distinct mapping) (name : String) :
    Members.get? (staying mapping) name =
      if name = "schemas" ∨ name = "securitySchemes" then none else Members.get? mapping name := by
  rw [staying, distinct.get?_filter]
  cases Members.get? mapping name with
  | none => simp
  | some value => by_cases one : name = "schemas" <;> by_cases other : name = "securitySchemes" <;> simp [one, other]

/-- Two sections are taken out of the mapping, and the rest of it is what is kept. -/
theorem Relocated.kept_perm (relocated : Relocated limit document mapping laid) (distinct : Members.Distinct mapping)
    (formed : Formed (.obj laid)) :
    ∃ kept, Members.get? laid "x-components" = some (.obj kept) ∧ kept.Perm (staying mapping) := by
  obtain ⟨kept, placed, rest⟩ := relocated.kept
  refine ⟨kept, placed, ?_⟩
  have single : Members.Distinct kept := (Sound.get? formed placed).distinct
  refine Members.Distinct.perm_of_get? single (distinct.filter _) fun name => ?_
  exact (rest name).trans (get?_staying distinct name).symm

theorem referencesOfMembers_perm {members other : Members Value} (same : members.Perm other) :
    (referencesOfMembers members).Perm (referencesOfMembers other) := by
  rw [referencesOfMembers_eq_mapValues, referencesOfMembers_eq_mapValues]
  exact same.map _

theorem Relocated.walk?_kept_isSome (relocated : Relocated limit document mapping laid)
    (found : Members.get? mapping kind = some value) (inside : (value.child? token).isSome) (one : kind ≠ "schemas")
    (other : kind ≠ "securitySchemes") : ((Value.obj laid).walk? ["x-components", kind, token]).isSome := by
  obtain ⟨kept, placed, rest⟩ := relocated.kept
  have here : Members.get? kept kind = some value := by
    rw [rest, if_neg (by simp [one, other]), found]
  rw [walk?_kept placed, here]
  simpa [walk?, Option.isSome_bind] using inside

/-- Only under their own names have tags written a text where there was a section. -/
theorem Relocated.walk?_kept_ne_str (relocated : Relocated limit document mapping laid)
    (mildly : Mildly (.obj laid) (.obj out)) (found : Members.get? mapping kind = some value)
    (inside : (value.child? token).isSome) (one : kind ≠ "schemas") (other : kind ≠ "securitySchemes")
    (plain : ¬ isMark kind) (text : String) : (Value.obj out).walk? ["x-components", kind] ≠ some (.str text) := by
  obtain ⟨changed, seen, each⟩ := relocated.kept_meets mildly
  have meets := each kind
  rw [if_neg (by simp [one, other]), found] at meets
  rw [walk?_kept seen]
  intro isText
  obtain ⟨last, held, rfl⟩ : ∃ last, Members.get? changed kind = some last ∧ last = .str text := by
    simpa [walk?, Option.bind_eq_some_iff] using isText
  rw [held] at meets
  cases meets with
  | related still =>
    rw [mild_mildly.eq_str still] at inside
    cases inside
  | mark _ marks => exact plain marks
  | reference before _ _ => cases inside

end Relocation

namespace Conversion
namespace Setting
open Reference Relocation
variable {setting : Setting} {document mapping walked laid : Members Value}

/-- The section that a reference leads into, and what it leads to there. -/
theorem section_of_resolvesIn {kind token : String} (here : Members.get? document "components" = some (.obj mapping))
    (plain : '/' ∉ kind.toList) (clean : '/' ∉ token.toList) (resolves : ResolvesIn (.obj document) (toComponent kind token)) :
    ∃ value, Members.get? mapping (Pointer.unescape kind) = some value ∧ (value.child? (Pointer.unescape token)).isSome := by
  rw [resolvesIn_toComponent plain clean] at resolves
  obtain ⟨target, found⟩ := Option.isSome_iff_exists.mp resolves
  obtain ⟨components, one, found⟩ := Option.bind_eq_some_iff.mp found
  cases one.symm.trans here
  obtain ⟨value, two, found⟩ := Option.bind_eq_some_iff.mp found
  obtain ⟨child, three, _⟩ := Option.bind_eq_some_iff.mp found
  exact ⟨value, two, Option.isSome_iff_exists.mpr ⟨child, three⟩⟩

/-- A relocated reference finds its component before tags are written, and also afterwards unless
the section goes by a name that tags write. -/
theorem resolvesIn_relocated {kind token : String} {out : Members Value} (places : Relocated setting.limit walked mapping laid)
    (mildly : Mildly (.obj laid) (.obj out)) (here : Members.get? document "components" = some (.obj mapping))
    (plain : '/' ∉ kind.toList) (clean : '/' ∉ token.toList) (other : kind ≠ "securitySchemes")
    (resolves : ResolvesIn (.obj document) (toComponent kind token)) :
    ResolvesIn (references (.obj laid)) (Relocation.reference (toComponent kind token)) ∧
      (¬ isMark (Pointer.unescape kind) → ResolvesIn (.obj out) (Relocation.reference (toComponent kind token))) := by
  obtain ⟨value, found, inside⟩ := section_of_resolvesIn here plain clean resolves
  have schemas : Pointer.unescape kind = "schemas" ↔ kind = "schemas" := Pointer.unescape_eq_iff (by decide) (by decide)
  have security : Pointer.unescape kind = "securitySchemes" ↔ kind = "securitySchemes" :=
    Pointer.unescape_eq_iff (by decide) (by decide)
  by_cases isSchema : kind = "schemas"
  · subst isSchema
    rw [reference_schemas clean, resolvesIn_pair (by decide) clean, resolvesIn_pair (by decide) clean]
    have before := places.walk?_definitions (Marked.same _).mildly found inside
    exact ⟨walk?_references before, fun _ => places.walk?_definitions mildly found inside⟩
  · rw [reference_toComponent plain clean isSchema, resolvesIn_triple (by decide) plain clean,
      resolvesIn_triple (by decide) plain clean]
    have one := mt schemas.mp isSchema
    have two := mt security.mp other
    refine ⟨walk?_references (places.walk?_kept_isSome found inside one two), fun unmarked => ?_⟩
    refine (places.walk?_isSome_iff mildly found inside one).mpr ⟨two, ?_⟩
    exact places.walk?_kept_ne_str mildly found inside one two unmarked

/-- Tags apart, the definitions are the rewritten schemas, in their order and readdressed, the other
sections are what they were, readdressed, and no reference to a component that has stayed or become
a definition loses its target. -/
theorem components_settle {converted : Converted} (formed : (Value.obj document).WellFormed)
    (here : Members.get? document "components" = some (.obj mapping))
    (made : setting.convert (.obj document) = .ok converted) :
    ∃ unmarked, setting.untagged document = .ok (.obj unmarked) ∧
      Tagged (setting.queued document) (.obj unmarked) converted.document ∧
      (∀ schemas, Members.get? mapping "schemas" = some (.obj schemas) →
        ∃ rewritten, List.Forall₂ (fun entry result => result.1 = entry.1 ∧
            Returns (Schema.rewrite setting.limit .response entry.2) result.2) schemas rewritten ∧
          Members.get? unmarked "definitions" = some (.obj (referencesOfMembers rewritten))) ∧
      (∃ kept, Members.get? unmarked "x-components" = some (.obj kept) ∧
        kept.Perm (referencesOfMembers (staying mapping))) ∧
      ∀ kind token, '/' ∉ kind.toList → '/' ∉ token.toList → kind ≠ "securitySchemes" →
        ResolvesIn (.obj document) (toComponent kind token) →
        ResolvesIn (.obj unmarked) (Relocation.reference (toComponent kind token)) ∧
          (¬ isMark (Pointer.unescape kind) → ResolvesIn converted.document (Relocation.reference (toComponent kind token))) := by
  obtain ⟨walked, laid, relocated, ran, moved, untagged, tagged⟩ := convert_tagged made
  have sound : Formed (.obj document) := formed_iff.mpr formed
  have visited : Formed (.obj walked) := paths_formed (opened_refers sound) ran
  have still : Members.get? walked "components" = some (.obj mapping) :=
    (get?_components_walked sound.distinct ran).trans here
  have inner : Formed (.obj mapping) := Sound.get? sound here
  obtain ⟨rfl, places⟩ := components_relocated visited.distinct still inner.distinct moved
  have placed : Formed (.obj laid) := components_refers textual_true.shallow moved visited
  have mildly : Mildly (.obj laid) converted.document :=
    Mildly.trans ⟨_, references_mild, rfl⟩ tagged.marked.mildly
  obtain ⟨out, same, _⟩ := mild_mildly.obj mildly
  refine ⟨_, untagged, tagged, fun schemas found => ?_, ?_, fun kind token plain clean other resolves => ?_⟩
  · obtain ⟨rewritten, each, seen⟩ := places.definitions found
    exact ⟨rewritten, each, get?_readdressed_obj seen⟩
  · obtain ⟨kept, seen, perm⟩ := places.kept_perm inner.distinct placed
    exact ⟨_, get?_readdressed_obj seen, referencesOfMembers_perm perm⟩
  · rw [same] at mildly ⊢
    exact resolvesIn_relocated places mildly here plain clean other resolves

/-- Birds that may be owls. Their ring is known only to those who put it on. -/
def aviary : Members Value :=
  [("openapi", .str "3.0.0"), ("paths", .obj []),
    ("components", .obj [
      ("parameters", .obj [("Mate", .obj [("name", .str "mate"), ("in", .str "query"),
        ("schema", .obj [("$ref", .str "#/components/schemas/Bird")])])]),
      ("schemas", .obj [
        ("Bird", .obj [("type", .str "object"),
          ("discriminator", .obj [("propertyName", .str "kind"),
            ("mapping", .obj [("owl", .str "#/components/schemas/Owl")])]),
          ("properties", .obj [("kind", .obj [("type", .str "string")]),
            ("ring", .obj [("type", .str "string"), ("writeOnly", .bool true)]),
            ("mate", .obj [("$ref", .str "#/components/schemas/Bird")])])]),
        ("Owl", .obj [("type", .str "object"), ("nullable", .bool true)])])])]

def aviaryBirds : Members Value :=
  [("Bird", .obj [("type", .str "object"), ("discriminator", .str "kind"),
      ("properties", .obj [("kind", .obj [("type", .str "string")]),
        ("mate", .obj [("$ref", .str "#/definitions/Bird")])])]),
    ("Owl", .obj [("type", .str "object"), ("x-nullable", .bool true)])]

def aviaryParameters : Members Value :=
  [("parameters", .obj [("Mate", .obj [("name", .str "mate"), ("in", .str "query"),
    ("schema", .obj [("$ref", .str "#/definitions/Bird")])])])]

def untaggedAviary : Members Value :=
  [("swagger", .str "2.0"), ("paths", .obj []), ("definitions", .obj aviaryBirds),
    ("x-components", .obj aviaryParameters)]

def convertedAviary : Value :=
  .obj [("swagger", .str "2.0"), ("paths", .obj []),
    ("definitions", .obj [("Bird", .obj [("type", .str "object"), ("discriminator", .str "kind"),
        ("properties", .obj [("kind", .obj [("type", .str "string")]),
          ("mate", .obj [("$ref", .str "#/definitions/Bird")])])]),
      ("Owl", .obj [("type", .str "object"), ("x-nullable", .bool true),
        ("x-discriminator-value", .str "owl"), ("x-ms-discriminator-value", .str "owl")])]),
    ("x-components", .obj aviaryParameters)]

theorem aviary_settles :
    Tagged [⟨"owl", "#/components/schemas/Owl"⟩] (.obj untaggedAviary) convertedAviary ∧
      (∃ rewritten, Members.names rewritten = ["Bird", "Owl"] ∧ referencesOfMembers rewritten = aviaryBirds) ∧
      (∃ kept, List.Perm kept aviaryParameters ∧ Members.get? untaggedAviary "x-components" = some (.obj kept)) ∧
      ResolvesIn convertedAviary "#/definitions/Bird" ∧ ResolvesIn convertedAviary "#/x-components/parameters/Mate" := by
  have made : Setting.convert ⟨⟨none, Files.none⟩, 10⟩ (.obj aviary) = .ok ⟨convertedAviary, []⟩ := by decide +kernel
  have same : Setting.untagged ⟨⟨none, Files.none⟩, 10⟩ aviary = .ok (.obj untaggedAviary) := by decide +kernel
  have bird : ResolvesIn (.obj aviary) (toComponent "schemas" "Bird") := ⟨_, rfl, by decide +kernel⟩
  have mate : ResolvesIn (.obj aviary) (toComponent "parameters" "Mate") := ⟨_, rfl, by decide +kernel⟩
  obtain ⟨unmarked, untagged, tagged, definitions, ⟨kept, seen, perm⟩, resolve⟩ := components_settle (by decide) rfl made
  cases untagged.symm.trans same
  refine ⟨tagged, ?_, ⟨kept, perm, seen⟩, ?_, ?_⟩
  · obtain ⟨rewritten, each, placed⟩ := definitions _ rfl
    have birds : Members.get? untaggedAviary "definitions" = some (.obj aviaryBirds) := rfl
    have settled : referencesOfMembers rewritten = aviaryBirds := Value.obj.inj (Option.some.inj (placed.symm.trans birds))
    obtain ⟨_, _, ⟨one, _⟩, rest, rfl⟩ := List.forall₂_cons_left_iff.mp each
    obtain ⟨_, _, ⟨other, _⟩, last, rfl⟩ := List.forall₂_cons_left_iff.mp rest
    obtain rfl := List.forall₂_nil_left_iff.mp last
    exact ⟨_, by simp [Members.names, one, other], settled⟩
  · exact (resolve "schemas" "Bird" (by decide) (by decide) (by decide) bird).2 (by decide +kernel)
  · exact (resolve "parameters" "Mate" (by decide) (by decide) (by decide) mate).2 (by decide +kernel)

end Setting
end Conversion
end ApiDialect
