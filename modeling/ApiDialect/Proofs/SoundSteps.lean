import ApiDialect.Proofs.OperationSteps
import ApiDialect.Proofs.Trees

/-! Rewriting keeps trees sound: names stay distinct, and no step puts anything under `$ref` that
was not there before or in the target of a reference it has followed. -/

namespace ApiDialect
open Rewriting

/-- Good references lead to sound trees. -/
def Resolver.Leads (resolver : Resolver) (root : Value) (good : String → Value → Prop) : Prop :=
  ∀ reference target, good "$ref" (.str reference) → resolver.follow root reference = .ok target → target.Sound good

namespace Value
variable {good : String → Value → Prop} {resolver : Resolver} {root node target : Value}

theorem reference?_eq_some_iff {text : String} :
    node.reference? = some text ↔ node.get? "$ref" = some (.str text) := by
  unfold reference?
  cases node.get? "$ref" with
  | none => simp
  | some held => cases held <;> simp [text?]

theorem Sound.reference (sound : node.Sound good) {text : String} (seen : node.reference? = some text) :
    good "$ref" (.str text) := by
  have found := reference?_eq_some_iff.mp seen
  cases node with
  | obj members => exact sound.good_of_get? found
  | _ => cases found

theorem Sound.resolve (sound : node.Sound good) (leads : resolver.Leads root good)
    (found : resolver.resolve root node = .ok target) : target.Sound good := by
  unfold Resolver.resolve at found
  split at found
  next text seen => exact leads text target (sound.reference seen) found
  next => cases found; exact sound

theorem Sound.inlineExternal (sound : node.Sound good) (leads : resolver.Leads root good)
    (found : resolver.inlineExternal root node = .ok target) : target.Sound good := by
  unfold Resolver.inlineExternal at found
  split at found
  next => exact sound.resolve leads found
  next => cases found; exact sound

/-- Only an object can be a reference. -/
theorem resolve_of_members?_eq_none (scalar : node.members? = none) : resolver.resolve root node = .ok node := by
  cases node with
  | obj members => cases scalar
  | _ => rfl

theorem resolve_of_reference?_eq_none (plain : node.reference? = none) : resolver.resolve root node = .ok node := by
  unfold Resolver.resolve
  rw [plain]

/-- No demand looks into an object that stands under `$ref`. -/
def Shallow (fine : Value → Prop) : Prop :=
  ∀ first second, fine (.obj first) → fine (.obj second)

/-- What accepts more than texts under `$ref` accepts everything there: a reference is a text, or
nothing is asked of it. -/
def Textual (fine : Value → Prop) : Prop :=
  ∀ held, held.text? = none → fine held → ∀ value, fine value

theorem Textual.shallow {fine : Value → Prop} (textual : Textual fine) : Shallow fine :=
  fun first second held => textual (.obj first) rfl held (.obj second)

theorem textual_true : Textual fun _ => True :=
  fun _ _ _ _ => trivial

end Value

open Value

variable {good : String → Value → Prop} {fine : Value → Prop}

namespace Schema
variable {members : Members Value} {value result : Value} {path : String}

theorem dropAlternatives_sound (sound : Sound good (.obj members)) : Sound good (.obj (dropAlternatives members)) := by
  unfold dropAlternatives
  dsimp only
  split
  next => exact ((sound.erase "oneOf").erase "anyOf").erase "discriminator"
  next => exact (sound.erase "oneOf").erase "anyOf"

theorem collapsed_refers (sound : Refers fine (.obj members)) : Refers fine (.obj (collapsed members)) := by
  unfold collapsed
  split
  next discriminator seen =>
    split
    next name named => exact sound.insert ((Sound.get? sound seen).get? named) (by decide)
    next => exact Sound.erase sound "discriminator"
  next => exact sound

theorem renameDeprecated_refers (sound : Refers fine (.obj members)) : Refers fine (.obj (renameDeprecated members)) := by
  unfold renameDeprecated
  split
  next deprecated seen =>
    exact Refers.insertIfAbsent (Sound.erase sound "deprecated") (Sound.get? sound seen) (by decide)
  next => exact sound

theorem renameMarks_refers (sound : Refers fine (.obj members)) : Refers fine (.obj (renameMarks members)) := by
  rw [renameMarks_eq]
  apply renameDeprecated_refers
  unfold renameNullable
  split
  next => exact Refers.insert (Sound.erase sound "nullable") (sound_bool true) (by decide)
  next => exact sound

theorem keepProperties_sound (direction : Direction) (sound : Sound good (.obj members)) :
    Sound good (.obj (keepProperties direction members)) := by
  cases direction with
  | request => exact sound
  | response => exact sound.filter _

theorem withoutWriteOnly_sound (sound : Sound good value) : Sound good (withoutWriteOnly value) := by
  cases value with
  | obj members => exact sound.erase "writeOnly"
  | _ => exact sound

theorem withoutWriteOnly_fine (shallow : Shallow fine) (held : fine value) : fine (withoutWriteOnly value) := by
  cases value with
  | obj members => exact shallow members _ held
  | _ => exact held

theorem rewriteWithin_fine {limit levels : Nat} {direction : Direction} (shallow : Shallow fine)
    (returned : Returns (rewriteWithin limit direction levels path value) result) (held : fine value) :
    fine result := by
  rcases rewriteWithin_returns returned with ⟨_, rfl⟩ | ⟨_, members, _, _, _, rfl, _, _, rfl⟩
  · exact held
  · exact shallow members _ held

/-- The induction is on the levels that are left, so it reaches every node below. -/
theorem rewriteWithin_refers {limit levels : Nat} {direction : Direction} (shallow : Shallow fine)
    (returned : Returns (rewriteWithin limit direction levels path value) result) (sound : Refers fine value) :
    Refers fine result := by
  induction levels generalizing path value result with
  | zero =>
    rcases rewriteWithin_returns returned with ⟨_, rfl⟩ | ⟨_, _, _, _, impossible, _⟩
    · exact sound
    · cases impossible
  | succ levels ih =>
    rcases rewriteWithin_returns returned with ⟨_, rfl⟩ | ⟨below, members, parted, filled, same, rfl, parts, content, rfl⟩
    · exact sound
    cases same
    have partedSound : Refers fine (.obj parted) := by
      have dropped := dropAlternatives_sound sound
      rcases inParts_returns parts with rfl | ⟨items, results, seen, each, rfl⟩
      · exact dropped
      · refine Refers.insert dropped (sound_arr_iff.mpr fun result member => ?_) (by decide)
        obtain ⟨item, inside, inner, made⟩ := exists_of_forall₂_mem each member
        exact ih made ((Sound.get? dropped seen).item inside)
    have whole := collapsed_refers partedSound
    apply renameMarks_refers
    rcases inContent_returns content with rfl | ⟨properties, results, _, seen, each, rfl⟩ | ⟨items, _, _, seen, made, rfl⟩
    · exact whole
    · refine whole.insert (Sound.replace (keepProperties_sound direction (Sound.get? whole seen)) ?_) (by decide)
      refine each.imp fun entry result ⟨name, inner, property, made, rest⟩ => ⟨name, fun held => ?_⟩
      rw [SoundEntry, name, rest]
      exact ⟨fun same => withoutWriteOnly_fine shallow (rewriteWithin_fine shallow made (held.1 same)),
        withoutWriteOnly_sound (ih made held.2)⟩
    · exact whole.insert (ih made (Sound.get? whole seen)) (by decide)

theorem rewrite_refers {limit : Nat} {direction : Direction} (shallow : Shallow fine)
    (returned : Returns (rewrite limit direction value) result) (sound : Refers fine value) : Refers fine result :=
  rewriteWithin_refers shallow returned sound

end Schema

namespace Parameter
variable {resolver : Resolver} {root node result : Value} {schema parameter rewritten : Members Value}

theorem hoistKey_refers {key : String} (declared : Refers fine (.obj schema)) (sound : Refers fine (.obj parameter))
    (other : key ≠ "$ref") : Refers fine (.obj (hoistKey schema parameter key)) := by
  unfold hoistKey
  split
  next value seen =>
    split
    next => exact sound.insert (Sound.get? declared seen) other
    next => exact sound
  next => exact sound

theorem hoistExtension_refers {entry : String × Value} (held : Refers fine entry.2)
    (sound : Refers fine (.obj parameter)) : Refers fine (.obj (hoistExtension parameter entry)) := by
  unfold hoistExtension
  split
  next extension =>
    refine sound.insertIfAbsent held ?_
    rintro same
    rw [same] at extension
    exact absurd extension (by decide +kernel)
  next => exact sound

theorem hoistDescription_refers (declared : Refers fine (.obj schema)) (sound : Refers fine (.obj parameter)) :
    Refers fine (.obj (hoistDescription schema parameter)) := by
  unfold hoistDescription
  split
  next => exact sound
  next =>
    split
    next description seen =>
      split
      next => exact sound.insert (Sound.get? declared seen) (by decide)
      next => exact sound
    next => exact sound

theorem hoist_refers (declared : Refers fine (.obj schema)) (sound : Refers fine (.obj parameter)) :
    Refers fine (.obj (hoist schema parameter)) := by
  have keys : ∀ (keys : List String) (parameter : Members Value), (∀ key ∈ keys, key ≠ "$ref") →
      Refers fine (.obj parameter) → Refers fine (.obj (keys.foldl (hoistKey schema) parameter)) := by
    intro keys
    induction keys with
    | nil => exact fun _ _ sound => sound
    | cons key rest ih =>
      intro parameter others sound
      exact ih _ (fun key member => others key (List.mem_cons_of_mem _ member))
        (hoistKey_refers declared sound (others key List.mem_cons_self))
  have extensions : ∀ (entries : List (String × Value)) (parameter : Members Value),
      (∀ entry ∈ entries, Refers fine entry.2) → Refers fine (.obj parameter) →
      Refers fine (.obj (entries.foldl hoistExtension parameter)) := by
    intro entries
    induction entries with
    | nil => exact fun _ _ sound => sound
    | cons entry rest ih =>
      intro parameter held sound
      exact ih _ (fun entry member => held entry (List.mem_cons_of_mem _ member))
        (hoistExtension_refers (held entry List.mem_cons_self) sound)
  apply hoistDescription_refers declared
  apply extensions _ _ fun entry member => (Sound.entry declared member).2
  exact keys hoisted parameter (by decide) sound

theorem stripped_refers (sound : Refers fine (.obj parameter)) : Refers fine (.obj (stripped parameter)) := by
  have bare : Refers fine (.obj (Members.erase (Members.erase parameter "schema") "allowReserved")) :=
    Sound.erase (Sound.erase sound "schema") "allowReserved"
  unfold stripped renameExample
  split
  next shown seen => exact Refers.insert (Sound.erase bare "example") (Sound.get? bare seen) (by decide)
  next => exact bare

theorem formatCollection_refers {location : Option Location} (sound : Refers fine (.obj parameter)) :
    Refers fine (.obj (formatCollection location parameter)) := by
  have set : ∀ style : Style, Refers fine (.obj (setCollectionFormat style parameter)) := by
    intro style
    unfold setCollectionFormat
    dsimp only
    split
    next word _ => exact Refers.insert (Sound.erase sound "collectionFormat") (sound_str word) (by decide)
    next => exact Sound.erase sound "collectionFormat"
  unfold formatCollection
  split
  next =>
    dsimp only
    split
    next style _ => exact set style
    next => exact sound
  next => exact sound

theorem rewrite_refers (leads : resolver.Leads root (atReference fine))
    (made : rewrite resolver root parameter = .ok rewritten) (sound : Refers fine (.obj parameter)) :
    Refers fine (.obj rewritten) := by
  have ends : ∀ {location parameter}, Refers fine (.obj parameter) →
      Refers fine (.obj (finished location parameter)) := fun held =>
    Sound.erase (Sound.erase (formatCollection_refers held) "style") "explode"
  rcases rewrite_eq_ok.mp made with ⟨_, rfl⟩ | ⟨_, flat, flattened, rfl⟩
  · exact ends sound
  · apply ends
    rcases flatten_eq_ok.mp flattened with ⟨_, rfl⟩ | ⟨node, target, seen, found, rfl⟩
    · exact stripped_refers sound
    · apply stripped_refers
      have declared := (Sound.get? sound seen).resolve leads found
      cases target with
      | obj schema => exact hoist_refers declared sound
      | _ => exact sound

theorem rewriteNode_refers (leads : resolver.Leads root (atReference fine))
    (made : rewriteNode resolver root node = .ok result) (sound : Refers fine node) : Refers fine result := by
  obtain ⟨target, found, ⟨_, rfl⟩ | ⟨parameter, rewritten, rfl, changed, rfl⟩⟩ := rewriteNode_eq_ok.mp made
  · exact Sound.resolve sound leads found
  · exact rewrite_refers leads changed (Sound.resolve sound leads found)

theorem rewriteAll_refers {owner result : Members Value} (leads : resolver.Leads root (atReference fine))
    (made : rewriteAll resolver root owner = .ok result) (sound : Refers fine (.obj owner)) :
    Refers fine (.obj result) := by
  rcases rewriteAll_eq_ok.mp made with ⟨_, rfl⟩ | ⟨nodes, results, seen, each, rfl⟩
  · exact sound
  · refine sound.insert (sound_arr_iff.mpr fun result member => ?_) (by decide)
    obtain ⟨node, inside, made⟩ := exists_of_forall₂_mem each member
    exact rewriteNode_refers leads made ((Sound.get? sound seen).item inside)

end Parameter
end ApiDialect
