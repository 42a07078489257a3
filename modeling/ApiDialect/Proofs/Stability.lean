import ApiDialect.Pipeline
import ApiDialect.Proofs.OlderDialect
import ApiDialect.Proofs.Repairs

/-! What a conversion gives can be given to the next one. It loads as a document of the older
dialect, and loading it changes nothing, neither a value nor the place of a member. -/

namespace ApiDialect
open Rewriting Value

namespace Value

mutual
/-- Laying one document over another repeats no name. -/
theorem overlay_formed : (upper : Value) → ∀ lower, Formed lower → Formed upper → Formed (overlay lower upper)
  | .obj upper, lower, below, above => by
    cases lower with
    | obj lower => exact overlayMembers_formed upper lower below fun _ member => Sound.entry above member
    | _ => exact above
  | .null, lower, _, above | .bool _, lower, _, above | .num _, lower, _, above | .str _, lower, _, above
  | .arr _, lower, _, above => by
    cases lower <;> exact above
termination_by structural upper => upper

theorem overlayMembers_formed : (upper : List (String × Value)) → ∀ lower, Formed (.obj lower) →
    (∀ entry ∈ upper, SoundEntry (atReference fun _ => True) entry) → Formed (.obj (overlayMembers lower upper))
  | [], _, below, _ => below
  | (name, value) :: rest, lower, below, above => by
    have last : Formed value := (above _ List.mem_cons_self).2
    have merged : Formed (match Members.get? lower name with
        | some hidden => overlay hidden value
        | none => value) := by
      split
      next hidden seen => exact overlay_formed value hidden (Sound.get? below seen) last
      next => exact last
    exact overlayMembers_formed rest _ (Sound.insert below (fun _ => trivial) merged)
      fun entry member => above entry (List.mem_cons_of_mem _ member)
termination_by structural upper => upper
end

end Value

theorem Source.document_formed {files : Files} {source : Source} {document : Value}
    (formed : ∀ given, source = .object given → given.WellFormed) (read : source.document files = .ok document) :
    Formed document := by
  have parsed : ∀ origin text, Source.parse origin text = .ok document → Formed document := by
    intro origin text made
    unfold Source.parse at made
    split at made
    next value seen =>
      cases made
      exact formed_iff.mpr (parse?_wellFormed seen)
    next => cases made
  cases source with
  | object given =>
    cases read
    exact formed_iff.mpr (formed _ rfl)
  | text content => exact parsed _ _ read
  | file path =>
    simp only [Source.document] at read
    split at read
    next => exact parsed _ _ read
    next => cases read

namespace Loaded
variable {registry : Registry} {files : Files} {source : Source} {dialect : Dialect} {loaded : Loaded} {limit : Nat}
  {converted : Converted}

theorem load_eq_ok : load registry files source dialect = .ok loaded ↔
    registry.require dialect = .ok () ∧ ∃ document, source.document files = .ok document ∧ dialect.describes document ∧
      checkVersion dialect (dialect.repair document) = .ok () ∧
      loaded = ⟨dialect, dialect.repair document, source.path?⟩ := by
  simp only [load, bind_eq_ok]
  constructor
  · rintro ⟨⟨⟩, known, document, read, made⟩
    split at made
    next =>
      obtain ⟨_, thrown, _⟩ := bind_eq_ok.mp made
      cases thrown
    next describes =>
      obtain ⟨⟨⟩, checked, made⟩ := bind_eq_ok.mp made
      exact ⟨known, document, read, by simpa using describes, checked, pure_eq_ok.mp made⟩
  · rintro ⟨known, document, read, describes, checked, rfl⟩
    refine ⟨(), known, document, read, ?_⟩
    rw [if_neg (by simp [describes]), checked]
    rfl

/-- In its own dialect a document stays as it is. -/
theorem convert_self (same : dialect = loaded.dialect) :
    loaded.convert registry files limit dialect = .ok ⟨loaded.document, []⟩ :=
  if_pos same

/-- What comes out of a conversion is repaired, whatever registry the dialects stand in. -/
theorem convert_of_newer (newer : loaded.dialect = .openApi3)
    (made : loaded.convert registry files limit .swagger2 = .ok converted) :
    ∃ outcome, Conversion.Setting.convert ⟨⟨loaded.directory, files⟩, limit⟩ loaded.document = .ok outcome ∧
      converted.document = Dialect.swagger2.repair outcome.document := by
  rw [convert, newer, if_neg (by decide)] at made
  obtain ⟨_, _, made⟩ := bind_eq_ok.mp made
  obtain ⟨outcome, ran, made⟩ := bind_eq_ok.mp made
  obtain ⟨_, _, made⟩ := bind_eq_ok.mp made
  exact ⟨outcome, ran, by rw [pure_eq_ok.mp made]⟩

end Loaded

/-- A document that is repaired, and says that it is of the older dialect, is loaded as it stands. -/
theorem Loaded.load_repaired (files : Files) {document : Value} (version : document.get? "swagger" = some (.str "2.0"))
    (settled : Dialect.swagger2.repair document = document) :
    Loaded.load Registry.complete files (.object document) .swagger2 = .ok ⟨.swagger2, document, none⟩ := by
  refine load_eq_ok.mpr ⟨by decide, document, rfl, ?_, ?_, ?_⟩
  · rw [Dialect.describes, show document.get? Dialect.swagger2.family = _ from version]
    rfl
  · rw [settled, checkVersion, Dialect.version?, show document.get? Dialect.swagger2.family = _ from version]
    rfl
  · rw [settled]
    rfl

namespace Settings
variable {settings : Settings} {files : Files} {source : Source} {converted : Converted}

theorem filled_formed {loaded : Loaded} (fillMissing : Bool) (formed : Formed loaded.document) :
    Formed (if fillMissing then loaded.fill Value.placeholders else loaded).document := by
  split
  next => exact overlay_formed loaded.document _ (formed_iff.mpr (by decide)) formed
  next => exact formed

theorem filled_dialect {loaded : Loaded} (fillMissing : Bool) :
    (if fillMissing then loaded.fill Value.placeholders else loaded).dialect = loaded.dialect := by
  split <;> rfl

/-- Whatever is asked of it besides, a conversion into the older dialect is one of a document without
repeated names, and then a repair. -/
theorem convert_older_eq_ok {registry : Registry} (formed : ∀ given, source = .object given → given.WellFormed)
    (newer : settings.source = .openApi3) (older : settings.target = .swagger2)
    (made : settings.convert registry files source = .ok converted) :
    ∃ (setting : Conversion.Setting) (document : Value) (outcome : Converted), Formed document ∧
      setting.convert document = .ok outcome ∧ converted.document = Dialect.swagger2.repair outcome.document := by
  obtain ⟨loaded, read, made⟩ := bind_eq_ok.mp made
  obtain ⟨_, document, parsed, _, _, rfl⟩ := Loaded.load_eq_ok.mp read
  rw [older] at made
  obtain ⟨outcome, ran, repaired⟩ := Loaded.convert_of_newer ((filled_dialect _).trans newer) made
  refine ⟨_, _, outcome, filled_formed _ ?_, ran, repaired⟩
  rw [newer]
  exact Source.document_formed formed parsed

/-- The outcome of a conversion loads as it is, and converting it once more into its own dialect gives
it back, with every member in its place and without a warning. -/
theorem convert_stable (formed : ∀ given, source = .object given → given.WellFormed)
    (newer : settings.source = .openApi3) (older : settings.target = .swagger2)
    (made : settings.convert Registry.complete files source = .ok converted) (others : Files) :
    Loaded.load Registry.complete others (.object converted.document) .swagger2 =
        .ok ⟨.swagger2, converted.document, none⟩ ∧
      ∀ again : Settings, again.source = .swagger2 → again.target = .swagger2 → again.fillMissing = false →
        again.convert Registry.complete others (.object converted.document) = .ok ⟨converted.document, []⟩ := by
  obtain ⟨setting, document, outcome, sound, ran, repaired⟩ := convert_older_eq_ok formed newer older made
  obtain ⟨result, same, distinct, older, _⟩ := Conversion.Setting.convert_older (formed_iff.mp sound) ran
  have version : converted.document.get? "swagger" = some (.str "2.0") := by
    rw [repaired, Dialect.repair_get?_swagger, same]
    exact older.version
  have settled : Dialect.swagger2.repair converted.document = converted.document := by
    rw [repaired, Dialect.repair_repair (formed_iff.mpr distinct)]
  have loads := Loaded.load_repaired others version settled
  refine ⟨loads, fun again source target plain => ?_⟩
  rw [convert, source, target, loads, plain]
  exact bind_eq_ok.mpr ⟨_, rfl, Loaded.convert_self rfl⟩

/-- A clinic that gives its version as a number and its base path with too many slashes. -/
def clinic : Value :=
  .obj [("openapi", .str "3.0.3"), ("info", .obj [("title", .str "Clinic"), ("version", .num (.int 2))]),
    ("servers", .arr [.obj [("url", .str "https://example.com//v1//")]]), ("paths", .obj []),
    ("components", .obj [("schemas", .obj [("Pet", .obj [("id", .str "pet"), ("type", .str "object")])])])]

def repairedClinic : Value :=
  .obj [("info", .obj [("title", .str "Clinic"), ("version", .str "2.0")]), ("schemes", .arr [.str "https"]),
    ("basePath", .str "/v1"), ("paths", .obj []), ("host", .str "example.com"), ("swagger", .str "2.0"),
    ("definitions", .obj [("Pet", .obj [("type", .str "object")])]), ("x-components", .obj [])]

theorem clinic_stable :
    Loaded.load Registry.complete Files.none (.object repairedClinic) .swagger2 = .ok ⟨.swagger2, repairedClinic, none⟩ ∧
      Settings.convert { source := .swagger2 } Registry.complete Files.none (.object repairedClinic) =
        .ok ⟨repairedClinic, []⟩ := by
  have formed : ∀ given, Source.object clinic = .object given → given.WellFormed := by
    rintro _ ⟨⟩
    decide
  have made : Settings.convert { fillMissing := true } Registry.complete Files.none (.object clinic) =
      .ok ⟨repairedClinic, []⟩ := by decide +kernel
  have stable := convert_stable formed rfl rfl made Files.none
  exact ⟨stable.1, stable.2 { source := .swagger2 } rfl rfl rfl⟩

end Settings
end ApiDialect
