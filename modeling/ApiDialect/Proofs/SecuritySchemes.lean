import ApiDialect.Proofs.RelocationSteps

/-! Security schemes, member by member. What is done to a scheme is a short list of edits, and each member that the list does not
name stays. A scheme of OAuth takes its edits from its first flow, so the first such scheme without a flow stops all of them. -/

namespace ApiDialect
open Value

namespace Security

/-- The flaws of a scheme that leave it without a flow. -/
inductive NoFlow (scheme : Members Value) : FlowFault → Prop where
  | missing (absent : Members.get? scheme "flows" = none) : NoFlow scheme .missing
  | notMapping {flows : Value} (seen : Members.get? scheme "flows" = some flows) (other : flows.members? = none) :
      NoFlow scheme .notMapping
  | empty (seen : Members.get? scheme "flows" = some (.obj [])) : NoFlow scheme .empty

/-- An object that describes a scheme of OAuth and has no flow. -/
def Flowless (entry : Value) (fault : FlowFault) : Prop :=
  ∃ scheme, entry = .obj scheme ∧ Members.get? scheme "type" = some (.str "oauth2") ∧ NoFlow scheme fault

/-- What becomes of the members of a scheme that need an edit: a value, or nothing. -/
inductive Needs (scheme : Members Value) : Members (Option Value) → Prop where
  | basic (http : Members.get? scheme "type" = some (.str "http")) (kind : Members.get? scheme "scheme" = some (.str "basic")) :
      Needs scheme [("scheme", none), ("type", some (.str "basic"))]
  | bearer (http : Members.get? scheme "type" = some (.str "http")) (kind : Members.get? scheme "scheme" = some (.str "bearer")) :
      Needs scheme [("bearerFormat", none), ("scheme", none), ("in", some (.str "header")),
        ("name", some (.str "Authorization")), ("type", some (.str "apiKey"))]
  | oauth2 {name : String} {flow : Value} {others : Members Value} (oauth : Members.get? scheme "type" = some (.str "oauth2"))
      (flows : Members.get? scheme "flows" = some (.obj ((name, flow) :: others))) :
      Needs scheme [("scopes", flow.get? "scopes"), ("tokenUrl", flow.get? "tokenUrl"),
        ("authorizationUrl", flow.get? "authorizationUrl"), ("flow", some (.str (flowName name))), ("flows", none)]

/-- Every member has been edited, or is what it was. -/
structure Edited (scheme : Members Value) (edits : Members (Option Value)) (result : Members Value) : Prop where
  distinct : Members.Distinct result
  told : ∀ name, Members.get? result name = (Members.get? edits name).getD (Members.get? scheme name)

/-- An entry whose edits are known gets them, and any other one stays. -/
inductive Becomes : Value → Value → Prop where
  | edited {scheme result : Members Value} {edits : Members (Option Value)} (needs : Needs scheme edits)
      (edited : Edited scheme edits result) : Becomes (.obj scheme) (.obj result)
  | same {entry : Value} (plain : ∀ scheme edits, entry = .obj scheme → ¬ Needs scheme edits) : Becomes entry entry

variable {scheme result : Members Value} {edits : Members (Option Value)} {schemes : Members Value} {name : String}
  {entry : Value} {fault : FlowFault} {error : Error}

/-! ### Edits -/

theorem Edited.refl (distinct : Members.Distinct scheme) : Edited scheme [] scheme :=
  ⟨distinct, fun _ => rfl⟩

theorem Edited.insert (edited : Edited scheme edits result) (name : String) (value : Value) :
    Edited scheme ((name, some value) :: edits) (Members.insert result name value) := by
  refine ⟨edited.distinct.insert name value, ?_⟩
  intro wanted
  rw [Members.get?_insert, Members.get?_cons, edited.told]
  split <;> rfl

theorem Edited.erase (edited : Edited scheme edits result) (name : String) :
    Edited scheme ((name, none) :: edits) (Members.erase result name) := by
  refine ⟨edited.distinct.erase name, ?_⟩
  intro wanted
  rw [edited.distinct.get?_erase, Members.get?_cons, edited.told]
  split <;> rfl

/-- What the flow does not say, nobody says. -/
theorem Edited.takeFromFlow (edited : Edited scheme edits result) (flow : Value) (key : String) :
    Edited scheme ((key, flow.get? key) :: edits) (takeFromFlow flow result key) := by
  unfold Security.takeFromFlow
  cases flow.get? key with
  | none => exact edited.erase key
  | some value =>
    refine ⟨(edited.distinct.erase key).insert key value, ?_⟩
    intro wanted
    rw [Members.get?_insert, edited.distinct.get?_erase, Members.get?_cons, edited.told]
    split <;> rfl

theorem basic_edited (distinct : Members.Distinct scheme) :
    Edited scheme [("scheme", none), ("type", some (.str "basic"))] (basic scheme) :=
  ((Edited.refl distinct).insert "type" (.str "basic")).erase "scheme"

theorem bearer_edited (distinct : Members.Distinct scheme) :
    Edited scheme [("bearerFormat", none), ("scheme", none), ("in", some (.str "header")),
      ("name", some (.str "Authorization")), ("type", some (.str "apiKey"))] (bearer scheme) := by
  have typed := (Edited.refl distinct).insert "type" (.str "apiKey")
  have placed := (typed.insert "name" (.str "Authorization")).insert "in" (.str "header")
  exact (placed.erase "scheme").erase "bearerFormat"

theorem oauth2_edited {flow : Value} {others : Members Value} (distinct : Members.Distinct scheme)
    (flows : Members.get? scheme "flows" = some (.obj ((name, flow) :: others))) (made : oauth2 scheme = .ok result) :
    Edited scheme [("scopes", flow.get? "scopes"), ("tokenUrl", flow.get? "tokenUrl"),
      ("authorizationUrl", flow.get? "authorizationUrl"), ("flow", some (.str (flowName name))), ("flows", none)] result := by
  have first : firstFlow scheme = .ok (name, flow) := firstFlow_eq_ok.mpr ⟨others, flows⟩
  rw [oauth2, first] at made
  cases made
  have named := ((Edited.refl distinct).erase "flows").insert "flow" (.str (flowName name))
  exact ((named.takeFromFlow flow "authorizationUrl").takeFromFlow flow "tokenUrl").takeFromFlow flow "scopes"

/-! ### Kinds -/

theorem textAt?_eq_some_iff {text : String} : textAt? scheme name = some text ↔ Members.get? scheme name = some (.str text) := by
  unfold textAt?
  cases Members.get? scheme name with
  | none => simp
  | some value => cases value <;> simp [text?]

/-- What a scheme of a kind says about itself. -/
def Kind.Shape (scheme : Members Value) : Kind → Prop
  | .basic => Members.get? scheme "type" = some (.str "http") ∧ Members.get? scheme "scheme" = some (.str "basic")
  | .bearer => Members.get? scheme "type" = some (.str "http") ∧ Members.get? scheme "scheme" = some (.str "bearer")
  | .oauth2 => Members.get? scheme "type" = some (.str "oauth2")
  | .other => Members.get? scheme "type" ≠ some (.str "oauth2") ∧ (Members.get? scheme "type" = some (.str "http") →
      Members.get? scheme "scheme" ≠ some (.str "basic") ∧ Members.get? scheme "scheme" ≠ some (.str "bearer"))

theorem Kind.of_eq_iff {kind : Kind} : Kind.of scheme = kind ↔ kind.Shape scheme := by
  unfold Kind.of
  split <;> cases kind <;> simp_all [Shape, textAt?_eq_some_iff]

/-! ### Rewriting -/

theorem firstFlow_eq_error : firstFlow scheme = .error fault ↔ NoFlow scheme fault := by
  constructor
  · intro fails
    cases seen : Members.get? scheme "flows" with
    | none =>
      rw [firstFlow, seen] at fails
      cases fails
      exact .missing seen
    | some flows =>
      rw [firstFlow, seen] at fails
      cases flows with
      | obj members =>
        cases members with
        | nil =>
          cases fails
          exact .empty seen
        | cons flow others => cases fails
      | _ =>
        cases fails
        exact .notMapping seen rfl
  · intro lacks
    cases lacks with
    | missing absent => rw [firstFlow, absent]
    | empty seen => rw [firstFlow, seen]
    | @notMapping flows seen other =>
      rw [firstFlow, seen]
      cases flows with
      | obj members => cases other
      | _ => rfl

theorem oauth2_eq_error : oauth2 scheme = .error fault ↔ NoFlow scheme fault := by
  rw [← firstFlow_eq_error, oauth2]
  cases firstFlow scheme <;> simp [bind, Except.bind, pure, Except.pure]

theorem rewrite_of_oauth2 (oauth : Members.get? scheme "type" = some (.str "oauth2")) :
    rewrite name scheme = (oauth2 scheme).mapError (.invalidSecurityScheme name) := by
  rw [rewrite, show Kind.of scheme = .oauth2 from Kind.of_eq_iff.mpr oauth]

/-- Only schemes of OAuth can fail. -/
theorem rewrite_eq_error : rewrite name scheme = .error error ↔
    ∃ fault, Flowless (.obj scheme) fault ∧ error = .invalidSecurityScheme name fault := by
  by_cases oauth : Members.get? scheme "type" = some (.str "oauth2")
  · rw [rewrite_of_oauth2 oauth]
    constructor
    · intro fails
      cases made : oauth2 scheme with
      | ok result =>
        rw [made] at fails
        cases fails
      | error fault =>
        rw [made] at fails
        cases fails
        exact ⟨fault, ⟨scheme, rfl, oauth, oauth2_eq_error.mp made⟩, rfl⟩
    · intro ⟨fault, ⟨_, same, _, lacks⟩, cause⟩
      cases same
      rw [oauth2_eq_error.mpr lacks, cause]
      rfl
  · refine iff_of_false ?_ ?_
    · unfold rewrite
      split
      case h_3 kind => exact fun _ => oauth (Kind.of_eq_iff.mp kind)
      all_goals exact fun fails => nomatch fails
    · intro ⟨_, ⟨_, same, other, _⟩, _⟩
      cases same
      exact oauth other

theorem cause?_rewriteEntry {entry : String × Value} : cause? (rewriteEntry entry) = some error ↔
    ∃ fault, Flowless entry.2 fault ∧ error = .invalidSecurityScheme entry.1 fault := by
  rw [cause?_eq_some_iff]
  obtain ⟨name, held⟩ := entry
  cases held with
  | obj scheme =>
    rw [← rewrite_eq_error]
    dsimp only [rewriteEntry]
    cases rewrite name scheme <;> simp [bind, Except.bind, pure, Except.pure]
  | _ =>
    refine iff_of_false (fun fails => nomatch fails) ?_
    intro ⟨_, ⟨_, same, _⟩, _⟩
    cases same

theorem cause?_rewriteEntry_eq_none {entry : String × Value} :
    cause? (rewriteEntry entry) = none ↔ ∀ fault, ¬ Flowless entry.2 fault := by
  rw [Option.eq_none_iff_forall_ne_some]
  constructor
  · intro succeeds fault lacks
    exact succeeds _ (cause?_rewriteEntry.mpr ⟨fault, lacks, rfl⟩)
  · intro whole error fails
    obtain ⟨fault, lacks, _⟩ := cause?_rewriteEntry.mp fails
    exact whole fault lacks

theorem rewrite_edited (distinct : Members.Distinct scheme) (made : rewrite name scheme = .ok result) :
    Becomes (.obj scheme) (.obj result) := by
  unfold rewrite at made
  split at made
  case h_1 kind =>
    cases made
    obtain ⟨http, basic⟩ := Kind.of_eq_iff.mp kind
    exact .edited (.basic http basic) (basic_edited distinct)
  case h_2 kind =>
    cases made
    obtain ⟨http, bearer⟩ := Kind.of_eq_iff.mp kind
    exact .edited (.bearer http bearer) (bearer_edited distinct)
  case h_3 kind =>
    cases flat : oauth2 scheme with
    | error fault =>
      rw [flat] at made
      cases made
    | ok whole =>
      rw [flat] at made
      cases made
      obtain ⟨⟨flow, content⟩, first, _⟩ := bind_eq_ok.mp flat
      obtain ⟨others, flows⟩ := firstFlow_eq_ok.mp first
      exact .edited (.oauth2 (Kind.of_eq_iff.mp kind) flows) (oauth2_edited distinct flows flat)
  case h_4 kind =>
    cases made
    obtain ⟨other, plain⟩ := Kind.of_eq_iff.mp kind
    apply Becomes.same
    intro _ edits same needs
    cases same
    cases needs with
    | basic http basic => exact (plain http).1 basic
    | bearer http bearer => exact (plain http).2 bearer
    | oauth2 oauth => exact other oauth

theorem rewriteEntry_becomes {entry result : String × Value} (formed : Formed entry.2) (made : rewriteEntry entry = .ok result) :
    result.1 = entry.1 ∧ Becomes entry.2 result.2 := by
  obtain ⟨name, ⟨plain, same⟩ | ⟨scheme, rewritten, held, changed, same⟩⟩ := rewriteEntry_eq_ok.mp made
  · refine ⟨name, ?_⟩
    rw [same]
    apply Becomes.same
    intro scheme _ object
    rw [object] at plain
    cases plain
  · rw [held] at formed
    rw [held, same]
    exact ⟨name, rewrite_edited formed.distinct changed⟩

/-- The first entry without a flow ends the rewriting of all of them. -/
theorem rewriteAll_eq_error : rewriteAll schemes = .error error ↔ ∃ before name scheme after fault,
    schemes = before ++ (name, scheme) :: after ∧ (∀ entry ∈ before, ∀ fault, ¬ Flowless entry.2 fault) ∧
    Flowless scheme fault ∧ error = .invalidSecurityScheme name fault := by
  rw [← cause?_eq_some_iff, rewriteAll, cause?_mapM, List.findSome?_eq_some_iff]
  simp only [cause?_rewriteEntry, cause?_rewriteEntry_eq_none]
  constructor
  · intro found
    obtain ⟨before, entry, after, split, ⟨fault, lacks, cause⟩, whole⟩ := found
    exact ⟨before, entry.1, entry.2, after, fault, split, whole, lacks, cause⟩
  · intro found
    obtain ⟨before, name, scheme, after, fault, split, whole, lacks, cause⟩ := found
    exact ⟨before, (name, scheme), after, split, ⟨fault, lacks, cause⟩, whole⟩

theorem rewriteAll_fails_iff : (∃ error, rewriteAll schemes = .error error) ↔
    ∃ entry ∈ schemes, ∃ fault, Flowless entry.2 fault := by
  constructor
  · intro fails
    obtain ⟨error, fails⟩ := fails
    obtain ⟨before, name, scheme, after, fault, rfl, _, lacks, _⟩ := rewriteAll_eq_error.mp fails
    exact ⟨(name, scheme), List.mem_append_right _ List.mem_cons_self, fault, lacks⟩
  · intro lacking
    obtain ⟨entry, member, fault, lacks⟩ := lacking
    cases outcome : rewriteAll schemes with
    | error error => exact ⟨error, rfl⟩
    | ok result =>
      have none : cause? (rewriteAll schemes) = none := cause?_eq_none_iff.mpr ⟨result, outcome⟩
      rw [rewriteAll, cause?_mapM, List.findSome?_eq_none_iff] at none
      exact absurd lacks (cause?_rewriteEntry_eq_none.mp (none entry member) fault)

theorem rewriteAll_becomes (formed : Formed (.obj schemes)) (made : rewriteAll schemes = .ok result) :
    List.Forall₂ (fun entry after => after.1 = entry.1 ∧ Becomes entry.2 after.2) schemes result := by
  have each : ∀ entry ∈ schemes, Formed entry.2 := fun entry member => (formed.entry member).2
  apply ((List.forall₂_and_left schemes result).mpr ⟨each, mapM_eq_ok.mp made⟩).imp
  intro entry after changed
  exact rewriteEntry_becomes changed.1 changed.2

/-- Rewriting fails when an object describes a scheme of OAuth without a flow, and the first of them is named. Otherwise every entry
keeps its name and its place, and of its members just those change that an edit names. -/
theorem rewriteAll_describes (formed : (Value.obj schemes).WellFormed) :
    ((∃ error, rewriteAll schemes = .error error) ↔ ∃ entry ∈ schemes, ∃ fault, Flowless entry.2 fault) ∧
    (∀ error, rewriteAll schemes = .error error ↔ ∃ before name scheme after fault, schemes = before ++ (name, scheme) :: after ∧
      (∀ entry ∈ before, ∀ fault, ¬ Flowless entry.2 fault) ∧ Flowless scheme fault ∧
      error = .invalidSecurityScheme name fault) ∧
    ∀ result, rewriteAll schemes = .ok result →
      List.Forall₂ (fun entry after => after.1 = entry.1 ∧ Becomes entry.2 after.2) schemes result := by
  refine ⟨rewriteAll_fails_iff, fun _ => rewriteAll_eq_error, ?_⟩
  intro result made
  exact rewriteAll_becomes (formed_iff.mpr formed) made

/-- The entrance of a station: one gate opens with a word, one with a token and one with a flow, and one is no scheme at all. -/
def station : Members Value :=
  [("word", .obj [("type", .str "http"), ("scheme", .str "basic"), ("description", .str "said aloud")]),
    ("token", .obj [("bearerFormat", .str "JWT"), ("type", .str "http"), ("in", .str "query"), ("scheme", .str "bearer")]),
    ("flow", .obj [("tokenUrl", .str "/old"), ("type", .str "oauth2"), ("flows", .obj [("authorizationCode",
      .obj [("authorizationUrl", .str "/ask"), ("scopes", .obj [])]), ("implicit", .null)])]),
    ("closed", .null)]

def rewrittenStation : Members Value :=
  [("word", .obj [("type", .str "basic"), ("description", .str "said aloud")]),
    ("token", .obj [("name", .str "Authorization"), ("type", .str "apiKey"), ("in", .str "header")]),
    ("flow", .obj [("authorizationUrl", .str "/ask"), ("type", .str "oauth2"), ("flow", .str "accessCode"), ("scopes", .obj [])]),
    ("closed", .null)]

theorem station_described : rewriteAll station = .ok rewrittenStation ∧
    List.Forall₂ (fun entry after => after.1 = entry.1 ∧ Becomes entry.2 after.2) station rewrittenStation := by
  have formed : (Value.obj station).WellFormed := by decide
  have made : rewriteAll station = .ok rewrittenStation := by rfl
  exact ⟨made, (rewriteAll_describes formed).2.2 _ made⟩

end Security
end ApiDialect
