import ApiDialect.Proofs.Layout
import ApiDialect.Proofs.Reading
import ApiDialect.Proofs.Texts

/-! References to components after the components have moved. The text of a reference and the place
of its target change in different steps, and for one section they do not agree. -/

namespace ApiDialect
open Rewriting Value

namespace Reference

/-- The reference to a component, section and name as they are written. -/
def toComponent (kind name : String) : String :=
  "#/components/" ++ kind ++ "/" ++ name

/-- A local reference that leads somewhere. -/
def ResolvesIn (document : Value) (reference : String) : Prop :=
  ∃ fragment, Text.strip? "#" reference = some fragment ∧ (document.walk? (Pointer.ofFragment fragment)).isSome

variable {kind name : String}

theorem strip?_hash (rest : String) : Text.strip? "#" ("#" ++ rest) = some rest := Text.strip?_append "#" rest

theorem resolvesIn_iff {document : Value} {rest : String} {pointer : Pointer}
    (same : Pointer.ofFragment ("/" ++ rest) = pointer) :
    ResolvesIn document ("#/" ++ rest) ↔ (document.walk? pointer).isSome := by
  have stripped : Text.strip? "#" ("#/" ++ rest) = some ("/" ++ rest) := by
    have joined : "#/" ++ rest = "#" ++ ("/" ++ rest) := by
      rw [← String.append_assoc]
      rfl
    rw [joined, strip?_hash]
  unfold ResolvesIn
  rw [stripped]
  constructor
  · rintro ⟨fragment, taken, found⟩
    cases taken
    rwa [same] at found
  · intro found
    exact ⟨_, rfl, same ▸ found⟩

theorem resolvesIn_pair {document : Value} {first second : String} (plain : '/' ∉ first.toList) (clean : '/' ∉ second.toList) :
    ResolvesIn document ("#/" ++ (first ++ "/" ++ second)) ↔
      (document.walk? [Pointer.unescape first, Pointer.unescape second]).isSome := by
  refine resolvesIn_iff ?_
  rw [Pointer.ofFragment_slash, Text.split_append plain, Text.split_of_not_mem clean]
  rfl

theorem resolvesIn_triple {document : Value} {first second third : String} (bare : '/' ∉ first.toList)
    (plain : '/' ∉ second.toList) (clean : '/' ∉ third.toList) :
    ResolvesIn document ("#/" ++ (first ++ "/" ++ (second ++ "/" ++ third))) ↔
      (document.walk? [Pointer.unescape first, Pointer.unescape second, Pointer.unescape third]).isSome := by
  refine resolvesIn_iff ?_
  rw [Pointer.ofFragment_slash, Text.split_append bare, Text.split_append plain, Text.split_of_not_mem clean]
  rfl

theorem toComponent_eq (kind name : String) : toComponent kind name = "#/" ++ ("components" ++ "/" ++ (kind ++ "/" ++ name)) := by
  apply String.toList_inj.mp
  simp [toComponent, String.toList_append]

theorem isLocal_toComponent (kind name : String) : isLocal (toComponent kind name) := by
  refine String.startsWith_string_iff.mpr ⟨('/' :: "components/".toList) ++ kind.toList ++ '/' :: name.toList, ?_⟩
  simp [toComponent, String.toList_append]

theorem resolvesIn_toComponent {document : Value} (plain : '/' ∉ kind.toList) (clean : '/' ∉ name.toList) :
    ResolvesIn document (toComponent kind name) ↔
      (document.walk? ["components", Pointer.unescape kind, Pointer.unescape name]).isSome := by
  rw [toComponent_eq, resolvesIn_triple (by decide) plain clean]
  rfl

end Reference

namespace Relocation
open Reference
variable {kind name : String}

theorem replaceSchemas_schemas (name : String) :
    Text.replaceFirst "#/components/schemas/" "#/definitions/" (toComponent "schemas" name) =
      "#/" ++ ("definitions" ++ "/" ++ name) := by
  have cut : (toComponent "schemas" name).toList = "#/components/schemas/".toList ++ name.toList := by
    simp [toComponent, String.toList_append]
  rw [Text.replaceFirst, cut, Text.replaceFirstChars_append (by decide)]
  apply String.toList_inj.mp
  simp [String.toList_append]

/-- Of the two replacements the first is the one that concerns schemas. -/
theorem reference_below_schemas {rest : String} (once : Text.occurs "#/components/" rest = false) :
    reference (toComponent "schemas" rest) = "#/" ++ ("definitions" ++ "/" ++ rest) := by
  have cut : ("#/" ++ ("definitions" ++ "/" ++ rest)).toList = '#' :: ("/definitions/".toList ++ rest.toList) := by
    simp [String.toList_append]
  rw [reference, replaceSchemas_schemas]
  apply String.toList_inj.mp
  rw [Text.replaceFirst, String.toList_ofList, cut, Text.replaceFirstChars_cons rfl]
  exact congrArg ('#' :: ·) ((Text.replaceFirstChars_behind (by decide) _).trans (congrArg _
    (Text.replaceFirstChars_of_absent (Text.occurs_eq_false_iff.mp once))))

theorem replaceSchemas_other {rest : String} (plain : '/' ∉ kind.toList) (other : kind ≠ "schemas")
    (once : Text.occurs "#/components/" (kind ++ "/" ++ rest) = false) :
    Text.replaceFirst "#/components/schemas/" "#/definitions/" (toComponent kind rest) = toComponent kind rest := by
  have cut : (toComponent kind rest).toList = '#' :: ("/components/".toList ++ (kind ++ "/" ++ rest).toList) := by
    simp [toComponent, String.toList_append]
  have unlike : Text.stripChars? "#/components/schemas/".toList (toComponent kind rest).toList = none := by
    cases stripped : Text.stripChars? "#/components/schemas/".toList (toComponent kind rest).toList with
    | none => rfl
    | some behind =>
      have whole := Text.eq_append_of_stripChars? stripped
      rw [cut] at whole
      have after : kind.toList ++ '/' :: rest.toList = "schemas".toList ++ '/' :: behind := by simpa using whole
      have pieces := congrArg (Text.splitChars '/') after
      rw [Text.splitChars_append plain, Text.splitChars_append (by decide)] at pieces
      exact absurd (String.toList_inj.mp (List.cons.inj pieces).1) other
  have absent : Text.behindChars? "#/components/schemas/".toList (kind ++ "/" ++ rest).toList = none :=
    Text.behindChars?_append_eq_none (by decide) (Text.occurs_eq_false_iff.mp once)
  rw [cut] at unlike
  apply String.toList_inj.mp
  rw [Text.replaceFirst, String.toList_ofList, cut, Text.replaceFirstChars_cons unlike]
  exact congrArg ('#' :: ·) ((Text.replaceFirstChars_behind (by decide) _).trans (congrArg _
    (Text.replaceFirstChars_of_absent absent)))

theorem reference_below {rest : String} (plain : '/' ∉ kind.toList) (other : kind ≠ "schemas")
    (once : Text.occurs "#/components/" (kind ++ "/" ++ rest) = false) :
    reference (toComponent kind rest) = "#/" ++ ("x-components" ++ "/" ++ (kind ++ "/" ++ rest)) := by
  have cut : (toComponent kind rest).toList = "#/components/".toList ++ (kind ++ "/" ++ rest).toList := by
    simp [toComponent, String.toList_append]
  rw [reference, replaceSchemas_other plain other once, Text.replaceFirst, cut,
    Text.replaceFirstChars_append (by decide)]
  apply String.toList_inj.mp
  simp [String.toList_append]

theorem reference_schemas (clean : '/' ∉ name.toList) :
    reference (toComponent "schemas" name) = "#/" ++ ("definitions" ++ "/" ++ name) :=
  reference_below_schemas (Text.occurs_eq_false_of_not_mem (by decide) clean)

/-- Too few slashes are left behind a section for another pattern. -/
theorem reference_toComponent (plain : '/' ∉ kind.toList) (clean : '/' ∉ name.toList) (other : kind ≠ "schemas") :
    reference (toComponent kind name) = "#/" ++ ("x-components" ++ "/" ++ (kind ++ "/" ++ name)) := by
  refine reference_below plain other ?_
  by_contra occurring
  have found : (Text.behindChars? "#/components/".toList (kind ++ "/" ++ name).toList).isSome :=
    (Bool.not_eq_false _).mp occurring
  have fewer := (Text.infix_of_behindChars? found).sublist.count_le '/'
  rw [String.toList_append, String.toList_append, List.count_append, List.count_append,
    List.count_eq_zero_of_not_mem plain, List.count_eq_zero_of_not_mem clean] at fewer
  exact absurd fewer (by decide)

variable {limit : Nat} {document mapping laid out : Members Value} {value moved : Value} {token : String}

theorem definitions_child? (returned : Returns (definitions limit value) moved) (seen : (value.child? token).isSome) :
    (moved.child? token).isSome := by
  rcases definitions_returns returned with ⟨_, rfl⟩ | ⟨schemas, results, rfl, each, rfl⟩
  · exact seen
  · rw [child?, Members.get?_isSome_iff, Members.names_of_forall₂ each]
    exact Members.get?_isSome_iff.mp seen

/-- A schema is found among the definitions. -/
theorem Relocated.walk?_definitions (relocated : Relocated limit document mapping laid)
    (mildly : Mildly (.obj laid) (.obj out)) (found : Members.get? mapping "schemas" = some value)
    (inside : (value.child? token).isSome) : ((Value.obj out).walk? ["definitions", token]).isSome := by
  rcases relocated.schemas with absent | ⟨schemas, moved, held, made, placed⟩
  · cases absent.symm.trans found
  cases held.symm.trans found
  have meets := mildly.meets "definitions"
  rw [placed] at meets
  generalize seen : Members.get? out "definitions" = after at meets
  cases meets with
  | related still =>
    have last := still.child?_isSome (definitions_child? made inside)
    simpa [walk?, child?, seen, Option.isSome_bind] using last
  | mark text marks => exact absurd marks (by decide)
  | reference before after here => exact absurd here (by decide)

/-- The sections that stay together, before and after marks and references. -/
theorem Relocated.kept_meets (relocated : Relocated limit document mapping laid) (mildly : Mildly (.obj laid) (.obj out)) :
    ∃ changed, Members.get? out "x-components" = some (.obj changed) ∧ ∀ name, Meets Mildly name
      (if name = "schemas" ∨ name = "securitySchemes" then none else Members.get? mapping name)
      (Members.get? changed name) := by
  obtain ⟨kept, placed, rest⟩ := relocated.kept
  have meets := mildly.meets "x-components"
  rw [placed] at meets
  generalize seen : Members.get? out "x-components" = after at meets
  cases meets with
  | mark text marks => exact absurd marks (by decide)
  | related still =>
    obtain ⟨changed, rfl, each⟩ := mild_mildly.obj still
    exact ⟨changed, rfl, fun name => rest name ▸ each name⟩

theorem walk?_kept {changed : Members Value} (seen : Members.get? out "x-components" = some (.obj changed))
    (kind : String) (pointer : Pointer) : (Value.obj out).walk? ("x-components" :: kind :: pointer) =
      (Members.get? changed kind).bind fun child => child.walk? pointer := by
  simp [walk?, child?, seen]

theorem Relocated.walk?_schemas (relocated : Relocated limit document mapping laid)
    (mildly : Mildly (.obj laid) (.obj out)) (text : String) :
    (Value.obj out).walk? ["x-components", "schemas"] ≠ some (.str text) := by
  obtain ⟨changed, seen, each⟩ := relocated.kept_meets mildly
  have meets := each "schemas"
  rw [if_pos (Or.inl rfl)] at meets
  rw [walk?_kept seen]
  generalize Members.get? changed "schemas" = last at meets ⊢
  cases meets with
  | absent => simp
  | mark text marks => exact absurd marks (by decide)

/-- Any other component is found beside its neighbours, unless its section has moved away or a tag
has been written in its place. -/
theorem Relocated.walk?_isSome_iff {kind : String} (relocated : Relocated limit document mapping laid)
    (mildly : Mildly (.obj laid) (.obj out)) (found : Members.get? mapping kind = some value)
    (inside : (value.child? token).isSome) (other : kind ≠ "schemas") :
    ((Value.obj out).walk? ["x-components", kind, token]).isSome ↔
      kind ≠ "securitySchemes" ∧ ∀ text, (Value.obj out).walk? ["x-components", kind] ≠ some (.str text) := by
  obtain ⟨changed, seen, each⟩ := relocated.kept_meets mildly
  have meets := each kind
  rw [walk?_kept seen, walk?_kept seen]
  by_cases security : kind = "securitySchemes"
  · rw [if_pos (Or.inr security)] at meets
    generalize Members.get? changed kind = last at meets
    cases meets with
    | absent => simp [security]
    | mark text marks => exact absurd (security ▸ marks) (by decide)
  · rw [if_neg (by simp [other, security]), found] at meets
    generalize Members.get? changed kind = last at meets
    cases meets with
    | @related _ after held =>
      have child := held.child?_isSome inside
      have textless : ∀ text, after ≠ .str text := by
        rintro text rfl
        rw [mild_mildly.eq_str held] at inside
        cases inside
      simpa [walk?, security, Option.isSome_bind, child] using textless
    | mark text marks => simp [walk?, child?, security]
    | reference before after here => cases inside

end Relocation

namespace Conversion
namespace Setting
open Reference
variable {setting : Setting}

/-- A reference to a component that is there. -/
def LeadsToComponent (document value : Value) : Prop :=
  ∃ kind name, '/' ∉ kind.toList ∧ '/' ∉ name.toList ∧ value = .str (toComponent kind name) ∧
    ResolvesIn document (toComponent kind name)

theorem textual_leadsToComponent (document : Value) : Textual (LeadsToComponent document) := by
  rintro held plain ⟨kind, name, _, _, rfl, _⟩
  cases plain

theorem loads_leadsToComponent (resolver : Resolver) (document : Value) :
    resolver.Loads (atReference (LeadsToComponent document)) := by
  refine Resolver.loads_of_local fun reference held => ?_
  obtain ⟨kind, name, _, _, same, fragment, stripped, _⟩ := held rfl
  cases same
  rw [stripped]
  rfl

/-- In the place where a reference leads after the move there is a component, with two exceptions:
schemes have moved on from there, and a tag may have been written over a section. -/
theorem references_resolve_iff {document : Value} {converted : Converted} (formed : document.WellFormed)
    (mapped : ∃ mapping, document.get? "components" = some (.obj mapping))
    (refers : document.EveryReference (LeadsToComponent document)) (made : setting.convert document = .ok converted) :
    converted.document.EveryReference fun value => ∃ kind name, '/' ∉ kind.toList ∧ '/' ∉ name.toList ∧
      value = .str (Relocation.reference (toComponent kind name)) ∧
      (ResolvesIn converted.document (Relocation.reference (toComponent kind name)) ↔
        kind ≠ "securitySchemes" ∧
          ∀ text, converted.document.walk? ["x-components", Pointer.unescape kind] ≠ some (.str text)) := by
  obtain ⟨members, paths, laid, relocated, queue, rfl, walked, moved, rfl⟩ := convert_stages made
  obtain ⟨mapping, here⟩ := mapped
  have sound : Refers (LeadsToComponent (.obj members)) (.obj members) := ⟨formed, refers⟩
  have textual := textual_leadsToComponent (.obj members)
  have visited := paths_refers textual (loads_leadsToComponent setting.resolver (.obj members)) walked (opened_refers sound)
  have still : Members.get? paths "components" = some (.obj mapping) := by
    rw [(paths_framed walked).others _ (by decide), get?_opened sound.distinct (by decide), if_neg (by decide),
      if_neg (by decide)]
    exact here
  obtain ⟨rfl, places⟩ := Relocation.components_relocated visited.distinct still (visited.get? still).distinct moved
  have placed := Relocation.components_refers textual.shallow moved visited
  obtain ⟨marked, written, same⟩ := finish_eq setting laid true queue
  have mildly := finish_mildly setting laid true queue
  generalize (setting.finish laid true queue).document = final at same mildly ⊢
  obtain ⟨out, rfl, _⟩ := mild_mildly.obj mildly
  have last := (Relocation.references_refers marked (written.refers textual placed)).members
  rw [if_pos rfl] at same
  rw [← same] at last
  refine last.weaken (fun name value held reference => ?_) _
  obtain ⟨before, ⟨kind, name, plain, clean, rfl, resolves⟩, rfl⟩ := held reference
  refine ⟨kind, name, plain, clean, rfl, ?_⟩
  rw [resolvesIn_toComponent plain clean] at resolves
  obtain ⟨target, found⟩ := Option.isSome_iff_exists.mp resolves
  obtain ⟨first, one, found⟩ := Option.bind_eq_some_iff.mp found
  cases one.symm.trans here
  obtain ⟨section', two, found⟩ := Option.bind_eq_some_iff.mp found
  obtain ⟨child, three, _⟩ := Option.bind_eq_some_iff.mp found
  have inside : (section'.child? (Pointer.unescape name)).isSome := Option.isSome_iff_exists.mpr ⟨child, three⟩
  have schemas : Pointer.unescape kind = "schemas" ↔ kind = "schemas" := Pointer.unescape_eq_iff (by decide) (by decide)
  have security : Pointer.unescape kind = "securitySchemes" ↔ kind = "securitySchemes" :=
    Pointer.unescape_eq_iff (by decide) (by decide)
  by_cases isSchema : kind = "schemas"
  · subst isSchema
    rw [Relocation.reference_schemas clean, resolvesIn_pair (by decide) clean]
    have there := places.walk?_definitions mildly two inside
    exact iff_of_true there ⟨by decide, places.walk?_schemas mildly⟩
  · rw [Relocation.reference_toComponent plain clean isSchema, resolvesIn_triple (by decide) plain clean, ne_eq, ← security]
    exact places.walk?_isSome_iff mildly two inside (mt schemas.mp isSchema)

/-- Two security schemes, the first of which stands for the second. -/
def lockedShop : Value :=
  .obj [("openapi", .str "3.0.0"), ("paths", .obj []), ("components", .obj [("securitySchemes", .obj [
    ("A", .obj [("$ref", .str "#/components/securitySchemes/B")]),
    ("B", .obj [("type", .str "apiKey"), ("name", .str "k"), ("in", .str "header")])])])]

def convertedLockedShop : Value :=
  .obj [("swagger", .str "2.0"), ("paths", .obj []), ("securityDefinitions", .obj [
    ("A", .obj [("$ref", .str "#/x-components/securitySchemes/B")]),
    ("B", .obj [("type", .str "apiKey"), ("name", .str "k"), ("in", .str "header")])]), ("x-components", .obj [])]

theorem lockedShop_refers : lockedShop.EveryReference (LeadsToComponent lockedShop) := by
  have every : ∀ fine : Value → Prop, fine (.str "#/components/securitySchemes/B") → lockedShop.EveryReference fine := by
    intro fine held
    simp [lockedShop, EveryReference, EveryMember, EveryMemberOfMembers, atReference, held]
  exact every _ ⟨"securitySchemes", "B", by decide, by decide, rfl, "/components/securitySchemes/B", by decide +kernel,
    by decide +kernel⟩

theorem lockedShop_converts : Setting.convert ⟨⟨none, Files.none⟩, 10⟩ lockedShop = .ok ⟨convertedLockedShop, []⟩ := by
  decide +kernel

theorem lockedShop_resolves_iff :
    convertedLockedShop.EveryReference fun value => ∃ kind name, '/' ∉ kind.toList ∧ '/' ∉ name.toList ∧
      value = .str (Relocation.reference (toComponent kind name)) ∧
      (ResolvesIn convertedLockedShop (Relocation.reference (toComponent kind name)) ↔
        kind ≠ "securitySchemes" ∧
          ∀ text, convertedLockedShop.walk? ["x-components", Pointer.unescape kind] ≠ some (.str text)) :=
  references_resolve_iff (by decide) ⟨_, rfl⟩ lockedShop_refers lockedShop_converts

/-- The reference that has been left behind. -/
theorem lockedShop_dangles : lockedShop.WellFormed ∧ lockedShop.EveryReference (LeadsToComponent lockedShop) ∧
    Setting.convert ⟨⟨none, Files.none⟩, 10⟩ lockedShop = .ok ⟨convertedLockedShop, []⟩ ∧
    convertedLockedShop.walk? ["securityDefinitions", "A", "$ref"] = some (.str "#/x-components/securitySchemes/B") ∧
    ¬ ResolvesIn convertedLockedShop "#/x-components/securitySchemes/B" := by
  refine ⟨by decide, lockedShop_refers, lockedShop_converts, by decide, ?_⟩
  rintro ⟨fragment, stripped, resolves⟩
  have taken : Text.strip? "#" "#/x-components/securitySchemes/B" = some "/x-components/securitySchemes/B" := by
    decide +kernel
  cases stripped.symm.trans taken
  exact absurd resolves (by decide +kernel)

end Setting
end Conversion
end ApiDialect
