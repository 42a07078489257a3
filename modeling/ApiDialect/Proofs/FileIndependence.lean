import ApiDialect.Proofs.ComponentReferences
import ApiDialect.Proofs.Interchange
import ApiDialect.Proofs.ReferenceOrigins

/-! A document whose references all stay inside it is converted in the same way beside any files. The
files are looked at only where a mapping of a discriminator names one, and all that they decide is
whether that mapping is reported. -/

namespace ApiDialect
open Rewriting Value

/-- The report of a mapping that leads nowhere. -/
def Warning.isUnresolved : Warning → Bool
  | .unresolvedMapping _ _ => true
  | .invalidMapping _ => false

namespace Resolver

/-- Beside other files, with the same names of hosts. -/
def beside (resolver : Resolver) (directory : Option String) (files : Files) : Resolver :=
  ⟨directory, { files with hostNames := resolver.files.hostNames }⟩

/-- A reference that stays in its document is followed without its files. -/
theorem follow_of_isLocal {reference : String} (inside : Reference.isLocal reference) (resolver deputy : Resolver)
    (root : Value) : resolver.follow root reference = deputy.follow root reference := by
  obtain ⟨fragment, stripped⟩ := Option.isSome_iff_exists.mp (Conversion.Setting.strip?_isSome inside)
  unfold follow
  rw [stripped]

end Resolver

namespace Discriminator
namespace Setting
variable {relocated : Bool} {payload candidate : String} {document : Value} {setting : Setting}

theorem place?_of_isLocal (inside : Reference.isLocal candidate) (resolver deputy : Resolver) :
    place? ⟨resolver, relocated⟩ payload document candidate = place? ⟨deputy, relocated⟩ payload document candidate := by
  unfold place?
  rw [if_pos inside, if_pos inside]

/-- A candidate in a file leaves the document alone, whether it is there or not. -/
theorem place?_getD_of_not_isLocal (outside : ¬ Reference.isLocal candidate) (setting : Setting) :
    (setting.place? payload document candidate).getD document = document := by
  unfold place?
  rw [if_neg outside]
  split
  next => rfl
  next => rfl

/-- Candidates in the document are the same for everybody. One in a file may only come behind them, where
it is too late for it to keep another one from being marked. -/
theorem findSome?_place?_getD {locals : List String} (inside : ∀ candidate ∈ locals, Reference.isLocal candidate)
    (resolver deputy : Resolver) (last : String) :
    ((locals ++ [last]).findSome? (place? ⟨resolver, relocated⟩ payload document)).getD document =
      ((locals ++ [last]).findSome? (place? ⟨deputy, relocated⟩ payload document)).getD document := by
  induction locals with
  | nil =>
    rw [List.nil_append, List.findSome?_singleton, List.findSome?_singleton]
    by_cases stays : Reference.isLocal last
    · rw [place?_of_isLocal stays resolver deputy]
    · rw [place?_getD_of_not_isLocal stays, place?_getD_of_not_isLocal stays]
  | cons candidate rest ih =>
    obtain ⟨first, later⟩ := List.forall_mem_cons.mp inside
    rw [List.cons_append, List.findSome?_cons, List.findSome?_cons, place?_of_isLocal first resolver deputy]
    split
    next => rfl
    next => exact ih later

theorem isLocal_schemaName (target : String) : Reference.isLocal ("#/components/schemas/" ++ target) :=
  Reference.isLocal_toComponent "schemas" target

/-- A tag is written onto the same schema whoever follows its candidates. -/
theorem apply_document (resolver deputy : Resolver) (tag : Tag) (document : Value) (warnings others : List Warning) :
    (apply ⟨resolver, relocated⟩ (document, warnings) tag).1 = (apply ⟨deputy, relocated⟩ (document, others) tag).1 := by
  have outcome (setting : Setting) (warnings : List Warning) : (setting.apply (document, warnings) tag).1 =
      (tag.candidates.findSome? (setting.place? tag.payload document)).getD document := by
    unfold apply
    dsimp only
    split
    next found => rw [found, Option.getD_some]
    next missed => rw [missed, Option.getD_none]
  rw [outcome, outcome]
  refine findSome?_place?_getD (fun candidate member => ?_) resolver deputy tag.target
  split at member
  next =>
    rw [List.mem_singleton.mp member]
    exact isLocal_schemaName tag.target
  next => cases member

theorem applyAll_document (resolver deputy : Resolver) (document : Value) (tags : List Tag) :
    (applyAll ⟨resolver, relocated⟩ document tags).1 = (applyAll ⟨deputy, relocated⟩ document tags).1 := by
  have along (state other : Value × List Warning) (same : state.1 = other.1) :
      (tags.foldl (apply ⟨resolver, relocated⟩) state).1 = (tags.foldl (apply ⟨deputy, relocated⟩) other).1 := by
    induction tags generalizing state other with
    | nil => exact same
    | cons tag rest ih =>
      obtain ⟨document, warnings⟩ := state
      obtain ⟨_, others⟩ := other
      cases same
      exact ih _ _ (apply_document resolver deputy tag document warnings others)
  exact along (document, []) (document, []) rfl

/-- Writing tags reports nothing but tags that lead nowhere. -/
theorem filter_applyAll (setting : Setting) (document : Value) (tags : List Tag) :
    (setting.applyAll document tags).2.filter (!·.isUnresolved) = [] := by
  have all : ∀ warning ∈ (setting.applyAll document tags).2, warning.isUnresolved := by
    unfold applyAll
    refine List.foldlRecOn (motive := fun state => ∀ warning ∈ state.2, warning.isUnresolved) tags setting.apply ?_ ?_
    · exact fun warning none => absurd none List.not_mem_nil
    intro state held tag _ warning member
    unfold apply at member
    split at member
    next => exact held warning member
    next =>
      rcases List.mem_append.mp member with earlier | last
      · exact held warning earlier
      · rw [List.mem_singleton.mp last]
        rfl
  exact List.filter_eq_nil_iff.mpr fun warning member => by simp [all warning member]

end Setting
end Discriminator

namespace Conversion
namespace Setting
variable {limit : Nat} {document : Members Value}

/-- The layout of a document with local references is the same beside any files, as is its failure. -/
theorem layout_eq (formed : (Value.obj document).WellFormed)
    (inside : ∀ held, HasMember "$ref" held (.obj document) → ∃ reference, held = .str reference ∧ Reference.isLocal reference)
    {resolver deputy : Resolver} (named : resolver.files.hostNames = deputy.files.hostNames) (before : Queue) :
    (layout ⟨resolver, limit⟩ document).run.run before = (layout ⟨deputy, limit⟩ document).run.run before := by
  have native : (Value.obj document).EveryReference (Native (.obj document)) := by
    refine everyReference_iff_hasMember.mpr fun held has => ?_
    obtain ⟨reference, rfl, isLocal⟩ := inside held has
    exact ⟨reference, rfl, isLocal, has⟩
  have agree (root : Value) (reference : String) (held : Native (.obj document) (.str reference)) :
      resolver.follow root reference = deputy.follow root reference := by
    obtain ⟨_, same, isLocal, _⟩ := held
    cases same
    exact Resolver.follow_of_isLocal isLocal resolver deputy root
  have start : opened ⟨resolver, limit⟩ document = opened ⟨deputy, limit⟩ document := by
    unfold opened hostNames
    dsimp only
    rw [named]
  have visited : (paths ⟨resolver, limit⟩ (opened ⟨deputy, limit⟩ document)).run.run before =
      (paths ⟨deputy, limit⟩ (opened ⟨deputy, limit⟩ document)).run.run before :=
    (paths_agree (textual_native (.obj document)) (loads_native resolver (.obj document)) agree
      (opened_refers ⟨formed, native⟩)).run_eq before
  unfold layout
  dsimp only
  rw [← opened, ← opened, start, run_bind, run_bind, visited]

/-- In any two directories and beside any two sets of files a document with local references fails in the
same way, or it becomes the same document. The warnings differ at most in which mappings are reported to
lead nowhere. -/
theorem convert_beside {document : Value} (formed : document.WellFormed)
    (inside : ∀ held, HasMember "$ref" held document → ∃ reference, held = .str reference ∧ Reference.isLocal reference)
    (resolver : Resolver) (elsewhere : Option String) (others : Files) (limit : Nat) :
    (∃ error, convert ⟨resolver, limit⟩ document = .error error ∧
        convert ⟨resolver.beside elsewhere others, limit⟩ document = .error error) ∨
      ∃ one other, convert ⟨resolver, limit⟩ document = .ok one ∧
        convert ⟨resolver.beside elsewhere others, limit⟩ document = .ok other ∧ one.document = other.document ∧
        one.warnings.filter (!·.isUnresolved) = other.warnings.filter (!·.isUnresolved) := by
  generalize seen : resolver.beside elsewhere others = deputy
  have named : resolver.files.hostNames = deputy.files.hostNames := by rw [← seen, Resolver.beside]
  cases document with
  | obj members =>
    have same : (layout ⟨resolver, limit⟩ members).run.run .empty = (layout ⟨deputy, limit⟩ members).run.run .empty :=
      layout_eq formed inside named .empty
    unfold convert
    dsimp only
    rw [same]
    rcases (layout ⟨deputy, limit⟩ members).run.run .empty with ⟨error | ⟨laid, relocated⟩, queue⟩
    · exact Or.inl ⟨error, rfl, rfl⟩
    · refine Or.inr ⟨_, _, rfl, rfl, ?_, ?_⟩
      · unfold finish
        dsimp only
        rw [Discriminator.Setting.applyAll_document resolver deputy]
      · unfold finish
        dsimp only
        rw [List.filter_append, List.filter_append, Discriminator.Setting.filter_applyAll,
          Discriminator.Setting.filter_applyAll]
  | _ => exact Or.inl ⟨_, rfl, rfl⟩

/-- A mapping that names a schema in a file, and one that names nothing. -/
def aquarium : Value :=
  .obj [("openapi", .str "3.0.0"),
    ("components", .obj [("schemas", .obj [
      ("Animal", .obj [("discriminator", .obj [("propertyName", .str "kind"),
        ("mapping", .obj [("whale", .str "sea.json#/Whale"), ("crab", .null)])])]),
      ("Pond", .obj [("properties", .obj [("guest", .obj [("$ref", .str "#/components/schemas/Animal")])])])])])]

def convertedAquarium : Value :=
  .obj [("swagger", .str "2.0"),
    ("definitions", .obj [
      ("Animal", .obj [("discriminator", .str "kind")]),
      ("Pond", .obj [("properties", .obj [("guest", .obj [("$ref", .str "#/definitions/Animal")])])])]),
    ("x-components", .obj [])]

/-- A directory that holds one file. -/
def seaFiles : Files where
  readText path := if path = "pets/sea.json" then .ok "\x7b\"Whale\":\x7b\x7d\x7d" else .error .notFound
  exists? path := path = "pets/sea.json"

/-- With the file the mapping leads to a schema, and without it the mapping is reported. -/
theorem aquarium_beside :
    convert ⟨⟨some "pets", seaFiles⟩, 10⟩ aquarium = .ok ⟨convertedAquarium, [.invalidMapping "crab"]⟩ ∧
      ∃ other, convert ⟨⟨none, Files.none⟩, 10⟩ aquarium = .ok other ∧ other.document = convertedAquarium ∧
        other.warnings.filter (!·.isUnresolved) = [.invalidMapping "crab"] := by
  have formed : aquarium.WellFormed := by decide
  have refers : ∀ held, HasMember "$ref" held aquarium → ∃ reference, held = .str reference ∧ Reference.isLocal reference := by
    refine everyReference_iff_hasMember.mp ?_
    simp [aquarium, EveryReference, EveryMember, EveryMemberOfMembers, atReference]
    decide +kernel
  have made : convert ⟨⟨some "pets", seaFiles⟩, 10⟩ aquarium = .ok ⟨convertedAquarium, [.invalidMapping "crab"]⟩ := by
    decide +kernel
  refine ⟨made, ?_⟩
  rcases convert_beside formed refers ⟨some "pets", seaFiles⟩ none Files.none 10 with ⟨_, failed, _⟩ |
    ⟨one, other, here, there, same, alike⟩
  · cases made.symm.trans failed
  · cases made.symm.trans here
    exact ⟨other, there, same.symm, alike.symm⟩

end Setting
end Conversion
end ApiDialect
