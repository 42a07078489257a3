import ApiDialect.Conversion
import ApiDialect.Proofs.SoundPaths

/-! What becomes of the components, and of the document as a whole. Two sections find a new place
at the root, and the others stay together under a new name. -/

namespace ApiDialect
open Rewriting Value

variable {fine : Value → Prop}

namespace Security
variable {scheme rewritten : Members Value} {name : String}

theorem firstFlow_eq_ok {flow : String × Value} :
    firstFlow scheme = .ok flow ↔ ∃ rest, Members.get? scheme "flows" = some (.obj (flow :: rest)) := by
  unfold firstFlow
  split <;> simp_all

theorem takeFromFlow_refers {flow : Value} {key : String} (other : key ≠ "$ref") (held : Refers fine flow)
    (sound : Refers fine (.obj scheme)) : Refers fine (.obj (takeFromFlow flow scheme key)) := by
  unfold takeFromFlow
  dsimp only
  split
  next value seen => exact Refers.insert (Sound.erase sound key) (held.valueGet? seen) other
  next => exact Sound.erase sound key

theorem oauth2_refers (made : oauth2 scheme = .ok rewritten) (sound : Refers fine (.obj scheme)) :
    Refers fine (.obj rewritten) := by
  obtain ⟨⟨flow, content⟩, first, rest⟩ := bind_eq_ok.mp made
  obtain rfl := pure_eq_ok.mp rest
  obtain ⟨others, seen⟩ := firstFlow_eq_ok.mp first
  have held : Refers fine content := ((sound.get? seen).entry List.mem_cons_self).2
  have named : Refers fine (.obj (Members.insert (Members.erase scheme "flows") "flow" (.str (flowName flow)))) :=
    Refers.insert (Sound.erase sound "flows") (sound_str _) (by decide)
  exact takeFromFlow_refers (by decide) held
    (takeFromFlow_refers (by decide) held (takeFromFlow_refers (by decide) held named))

theorem rewrite_refers (made : rewrite name scheme = .ok rewritten) (sound : Refers fine (.obj scheme)) :
    Refers fine (.obj rewritten) := by
  unfold rewrite at made
  split at made
  case h_1 =>
    cases made
    exact Sound.erase (Refers.insert sound (sound_str "basic") (by decide)) "scheme"
  case h_2 =>
    cases made
    have typed := sound.insert (sound_str "apiKey") (by decide : "type" ≠ "$ref")
    have placed := (typed.insert (sound_str "Authorization") (by decide : "name" ≠ "$ref")).insert
      (sound_str "header") (by decide : "in" ≠ "$ref")
    exact Sound.erase (Sound.erase placed "scheme") "bearerFormat"
  case h_3 =>
    cases flat : oauth2 scheme with
    | error fault => rw [flat] at made; cases made
    | ok result =>
      rw [flat] at made
      cases made
      exact oauth2_refers flat sound
  case h_4 => cases made; exact sound

theorem rewriteEntry_eq_ok {entry result : String × Value} :
    rewriteEntry entry = .ok result ↔ result.1 = entry.1 ∧
      ((entry.2.members? = none ∧ result.2 = entry.2) ∨
        ∃ scheme rewritten, entry.2 = .obj scheme ∧ rewrite entry.1 scheme = .ok rewritten ∧
          result.2 = .obj rewritten) := by
  obtain ⟨name, held⟩ := entry
  obtain ⟨name', held'⟩ := result
  cases held with
  | obj scheme =>
    simp only [rewriteEntry, bind_eq_ok, pure_eq_ok, members?, Prod.mk.injEq]
    constructor
    · rintro ⟨rewritten, made, rfl, rfl⟩
      exact ⟨rfl, Or.inr ⟨scheme, rewritten, rfl, made, rfl⟩⟩
    · rintro ⟨rfl, ⟨impossible, _⟩ | ⟨_, rewritten, same, made, rfl⟩⟩
      · cases impossible
      · cases same
        exact ⟨rewritten, made, rfl, rfl⟩
  | _ => simp [rewriteEntry, pure_eq_ok, members?]

end Security

namespace Relocation
variable {limit : Nat} {document mapping result : Members Value} {value moved : Value}

theorem definitions_returns (returned : Returns (definitions limit value) moved) :
    (value.members? = none ∧ moved = value) ∨
    ∃ schemas results, value = .obj schemas ∧
      List.Forall₂ (fun entry result => result.1 = entry.1 ∧
        Returns (Schema.rewrite limit .response entry.2) result.2) schemas results ∧ moved = .obj results := by
  cases value with
  | obj schemas =>
    obtain ⟨results, all, returned⟩ := Returns.bind returned
    refine Or.inr ⟨schemas, results, rfl, all.mapM.imp fun entry result made => ?_, returns_pure.mp returned⟩
    obtain ⟨rewritten, inner, rest⟩ := Returns.bind made
    obtain rfl := returns_pure.mp rest
    exact ⟨rfl, inner⟩
  | _ => exact Or.inl ⟨rfl, returns_pure.mp returned⟩

theorem securityDefinitions_eq_ok :
    securityDefinitions value = .ok moved ↔ (value.members? = none ∧ moved = value) ∨
      ∃ schemes results, value = .obj schemes ∧
        List.Forall₂ (fun entry result => Security.rewriteEntry entry = .ok result) schemes results ∧
        moved = .obj results := by
  cases value <;> simp [securityDefinitions, Security.rewriteAll, mapM_eq_ok, map_eq_ok, pure_eq_ok, members?]

/-- A section of the components finds its place at the root of the document. -/
structure Moves (key place : String) (becomes : Value → Value → Prop) (before after : Members Value × Members Value) :
    Prop where
  distinct : Members.Distinct after.2
  rest : ∀ name, Members.get? after.2 name = if name = key then none else Members.get? before.2 name
  others : ∀ name, name ≠ place → Members.get? after.1 name = Members.get? before.1 name
  placed : Members.get? before.2 key = none ∨ ∃ value moved, Members.get? before.2 key = some value ∧
    becomes value moved ∧ Members.get? after.1 place = some moved

theorem moves_of {key place : String} {becomes : Value → Value → Prop} {pair : Members Value × Members Value}
    (distinct : Members.Distinct mapping)
    (cases : (Members.get? mapping key = none ∧ pair = (document, mapping)) ∨
      ∃ value moved, Members.get? mapping key = some value ∧ becomes value moved ∧
        pair = (Members.insert document place moved, Members.erase mapping key)) :
    Moves key place becomes (document, mapping) pair := by
  rcases cases with ⟨absent, rfl⟩ | ⟨value, moved, seen, made, rfl⟩
  · refine ⟨distinct, fun name => ?_, fun _ _ => rfl, Or.inl absent⟩
    split
    next same => rw [same]; exact absent
    next => rfl
  · refine ⟨distinct.erase key, fun name => ?_, fun name other => Members.get?_insert_of_ne other.symm _,
      Or.inr ⟨value, moved, seen, made, Members.get?_insert_self ..⟩⟩
    rw [distinct.get?_erase]
    simp only [eq_comm]

theorem moveSchemas_returns {pair : Members Value × Members Value}
    (returned : Returns (moveSchemas limit document mapping) pair) :
    (Members.get? mapping "schemas" = none ∧ pair = (document, mapping)) ∨
    ∃ schemas moved, Members.get? mapping "schemas" = some schemas ∧ Returns (definitions limit schemas) moved ∧
      pair = (Members.insert document "definitions" moved, Members.erase mapping "schemas") := by
  unfold moveSchemas at returned
  split at returned
  next schemas seen =>
    obtain ⟨moved, made, returned⟩ := returned.bind
    exact Or.inr ⟨schemas, moved, seen, made, returns_pure.mp returned⟩
  next absent => exact Or.inl ⟨absent, returns_pure.mp returned⟩

theorem moveSecurity_eq_ok {pair : Members Value × Members Value} :
    moveSecurity document mapping = .ok pair ↔
      (Members.get? mapping "securitySchemes" = none ∧ pair = (document, mapping)) ∨
      ∃ schemes moved, Members.get? mapping "securitySchemes" = some schemes ∧
        securityDefinitions schemes = .ok moved ∧
        pair = (Members.insert document "securityDefinitions" moved, Members.erase mapping "securitySchemes") := by
  unfold moveSecurity
  split
  next schemes seen => simp [map_eq_ok, seen]
  next absent => simp [pure_eq_ok, absent]

theorem components_returns {relocated : Bool} (returned : Returns (components limit document) (result, relocated)) :
    (Members.get? document "components" = none ∧ result = document ∧ relocated = false) ∨
    (∃ other, Members.get? document "components" = some other ∧ other.members? = none ∧
      result = Members.insert (Members.erase document "components") "components" other ∧ relocated = false) ∨
    ∃ mapping schemed secured, Members.get? document "components" = some (.obj mapping) ∧
      Returns (moveSchemas limit (Members.erase document "components") mapping) schemed ∧
      moveSecurity schemed.1 schemed.2 = .ok secured ∧
      result = Members.insert secured.1 "x-components" (.obj secured.2) ∧ relocated = true := by
  unfold components at returned
  split at returned
  next absent =>
    cases returns_pure.mp returned
    exact Or.inl ⟨absent, rfl, rfl⟩
  next mapping seen =>
    obtain ⟨⟨one, rest⟩, schemed, returned⟩ := returned.bind
    obtain ⟨⟨two, kept⟩, secured, returned⟩ := returned.bind
    cases returns_pure.mp returned
    exact Or.inr (Or.inr ⟨mapping, (one, rest), (two, kept), seen, schemed, returns_lift.mp secured, rfl, rfl⟩)
  next other isOther seen =>
    cases returns_pure.mp returned
    exact Or.inr (Or.inl ⟨other, seen, members?_eq_none_iff.mpr isOther, rfl, rfl⟩)

/-- Where the sections of a mapping are after the move. -/
structure Relocated (limit : Nat) (document mapping result : Members Value) : Prop where
  schemas : Members.get? mapping "schemas" = none ∨
    ∃ schemas moved, Members.get? mapping "schemas" = some schemas ∧ Returns (definitions limit schemas) moved ∧
      Members.get? result "definitions" = some moved
  kept : ∃ kept, Members.get? result "x-components" = some (.obj kept) ∧ ∀ name, Members.get? kept name =
    if name = "schemas" ∨ name = "securitySchemes" then none else Members.get? mapping name
  components : Members.get? result "components" = none
  others : ∀ name, name ∉ ["components", "definitions", "securityDefinitions", "x-components"] →
    Members.get? result name = Members.get? document name

theorem Relocated.definitions {schemas : Members Value} (relocated : Relocated limit document mapping result)
    (found : Members.get? mapping "schemas" = some (.obj schemas)) :
    ∃ rewritten, List.Forall₂ (fun entry result => result.1 = entry.1 ∧
        Returns (Schema.rewrite limit .response entry.2) result.2) schemas rewritten ∧
      Members.get? result "definitions" = some (.obj rewritten) := by
  rcases relocated.schemas with absent | ⟨_, moved, held, made, placed⟩
  · cases absent.symm.trans found
  cases held.symm.trans found
  rcases definitions_returns made with ⟨scalar, _⟩ | ⟨_, rewritten, same, each, rfl⟩
  · cases scalar
  · cases same
    exact ⟨rewritten, each, placed⟩

theorem components_relocated {relocated : Bool} (distinct : Members.Distinct document)
    (seen : Members.get? document "components" = some (.obj mapping)) (inner : Members.Distinct mapping)
    (returned : Returns (components limit document) (result, relocated)) :
    relocated = true ∧ Relocated limit document mapping result := by
  rcases components_returns returned with ⟨absent, _⟩ | ⟨other, held, plain, _⟩ |
    ⟨found, schemed, secured, held, first, second, rfl, rfl⟩
  · cases absent.symm.trans seen
  · cases held.symm.trans seen
    cases plain
  cases held.symm.trans seen
  have schemas := moves_of inner (moveSchemas_returns first)
  have security := moves_of schemas.distinct (moveSecurity_eq_ok.mp second)
  have still : ∀ name, name ≠ "definitions" → name ≠ "securityDefinitions" →
      Members.get? secured.1 name = Members.get? (Members.erase document "components") name :=
    fun name one other => (security.others name other).trans (schemas.others name one)
  refine ⟨rfl, ⟨?_, ⟨secured.2, Members.get?_insert_self .., fun name => ?_⟩, ?_, fun name outside => ?_⟩⟩
  · rcases schemas.placed with bare | ⟨value, moved, held, made, placed⟩
    · exact Or.inl bare
    · refine Or.inr ⟨value, moved, held, made, ?_⟩
      rw [Members.get?_insert_of_ne (by decide), security.others _ (by decide), placed]
  · rw [security.rest, schemas.rest]
    by_cases same : name = "schemas" <;> by_cases other : name = "securitySchemes" <;> simp [same, other]
  · rw [Members.get?_insert_of_ne (by decide), still _ (by decide) (by decide)]
    exact distinct.get?_erase_self "components"
  · simp only [List.mem_cons, List.not_mem_nil, or_false, not_or] at outside
    obtain ⟨one, two, three, four⟩ := outside
    rw [Members.get?_insert_of_ne (Ne.symm four), still name two three, distinct.get?_erase_of_ne (Ne.symm one)]

/-- The rest of the root is what it was, whether there was anything to move or not. -/
theorem get?_components {relocated : Bool} {name : String} (formed : Formed (.obj document))
    (returned : Returns (components limit document) (result, relocated))
    (outside : name ∉ ["components", "definitions", "securityDefinitions", "x-components"]) :
    Members.get? result name = Members.get? document name := by
  have apart : "components" ≠ name := by
    rintro rfl
    exact outside List.mem_cons_self
  cases seen : Members.get? document "components" with
  | none =>
    rcases components_returns returned with ⟨_, rfl, _⟩ | ⟨_, held, _⟩ | ⟨_, _, _, held, _⟩
    · rfl
    · cases seen.symm.trans held
    · cases seen.symm.trans held
  | some held =>
    cases plain : held.members? with
    | none =>
      rcases components_returns returned with ⟨_, rfl, _⟩ | ⟨_, _, _, rfl, _⟩ | ⟨_, _, _, other, _⟩
      · rfl
      · rw [Members.get?_insert_of_ne apart, formed.distinct.get?_erase_of_ne apart]
      · cases seen.symm.trans other
        cases plain
    | some mapping =>
      cases held <;> cases plain
      have inner : Formed (.obj mapping) := Sound.get? formed seen
      exact (components_relocated formed.distinct seen inner.distinct returned).2.others name outside

theorem definitions_refers (shallow : Shallow fine) (returned : Returns (definitions limit value) moved)
    (sound : Refers fine value) : Refers fine moved := by
  rcases definitions_returns returned with ⟨_, rfl⟩ | ⟨schemas, results, rfl, each, rfl⟩
  · exact sound
  · refine Sound.replace sound (each.imp fun entry result ⟨name, made⟩ => ⟨name, fun held => ?_⟩)
    rw [SoundEntry, name]
    exact ⟨fun same => Schema.rewriteWithin_fine shallow made (held.1 same),
      Schema.rewrite_refers shallow made held.2⟩

theorem securityDefinitions_refers (shallow : Shallow fine) (made : securityDefinitions value = .ok moved)
    (sound : Refers fine value) : Refers fine moved := by
  rcases securityDefinitions_eq_ok.mp made with ⟨_, rfl⟩ | ⟨schemes, results, rfl, each, rfl⟩
  · exact sound
  · refine Sound.replace sound (each.imp fun entry result made => ?_)
    obtain ⟨name, ⟨_, rest⟩ | ⟨scheme, rewritten, same, changed, rest⟩⟩ := Security.rewriteEntry_eq_ok.mp made
    · refine ⟨name, fun held => ?_⟩
      rwa [SoundEntry, name, rest]
    · refine ⟨name, fun held => ?_⟩
      rw [SoundEntry, same] at held
      rw [SoundEntry, name, rest]
      exact ⟨fun here => shallow scheme rewritten (held.1 here), Security.rewrite_refers changed held.2⟩

theorem components_refers {relocated : Bool} (shallow : Shallow fine)
    (returned : Returns (components limit document) (result, relocated)) (sound : Refers fine (.obj document)) :
    Refers fine (.obj result) := by
  have bare : Refers fine (.obj (Members.erase document "components")) := Sound.erase sound "components"
  rcases components_returns returned with ⟨_, rfl, _⟩ | ⟨other, held, _, rfl, _⟩ |
    ⟨mapping, schemed, secured, held, first, second, rfl, _⟩
  · exact sound
  · exact bare.insert (sound.get? held) (by decide)
  have mapped := sound.get? held
  have schemas : Refers fine (.obj schemed.1) ∧ Refers fine (.obj schemed.2) := by
    rcases moveSchemas_returns first with ⟨_, rfl⟩ | ⟨schemas, moved, found, made, rfl⟩
    · exact ⟨bare, mapped⟩
    · exact ⟨bare.insert (definitions_refers shallow made (mapped.get? found)) (by decide), mapped.erase "schemas"⟩
  have security : Refers fine (.obj secured.1) ∧ Refers fine (.obj secured.2) := by
    obtain ⟨outer, inner⟩ := schemas
    rcases moveSecurity_eq_ok.mp second with ⟨_, rfl⟩ | ⟨schemes, moved, found, made, rfl⟩
    · exact ⟨outer, inner⟩
    · exact ⟨outer.insert (securityDefinitions_refers shallow made (inner.get? found)) (by decide),
        Sound.erase inner "securitySchemes"⟩
  exact security.1.insert security.2 (by decide)

end Relocation
end ApiDialect
