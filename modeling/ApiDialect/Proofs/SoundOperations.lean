import ApiDialect.Proofs.SoundSteps

/-! Operations stay sound while their body becomes parameters and their responses are folded. The
examples of a response are the one table whose names come from the document, so this is where a
reference has to be a text. -/

namespace ApiDialect
open Rewriting Value

variable {fine : Value → Prop}

namespace RequestBody
variable {schema : Value} {members body content operation result : Members Value} {generated : List Value}

theorem formParameter_refers {required : List String} {entry : String × Value} (held : Refers fine entry.2) :
    Refers fine (formParameter required entry) := by
  have place : ∀ {members : Members Value}, Members.Distinct members →
      (∀ member ∈ members, member.1 ≠ "$ref" ∧ Refers fine member.2) → Refers fine (.obj members) :=
    fun distinct each => sound_obj_iff.mpr ⟨distinct, fun member inside =>
      ⟨fun same => absurd same (each member inside).1, (each member inside).2⟩⟩
  unfold formParameter
  dsimp only
  split
  · refine place (by decide : ["name", "in", "schema", "required"].Nodup) ?_
    simp [held]
  · refine place (by decide : ["name", "in", "schema"].Nodup) ?_
    simp [held]

theorem formParameters?_refers (seen : formParameters? schema = some generated) (sound : Refers fine schema) :
    ∀ parameter ∈ generated, Refers fine parameter := by
  obtain ⟨members, properties, ⟨rfl, _, declares⟩, rfl⟩ := formParameters?_eq_some_iff.mp seen
  intro parameter member
  obtain ⟨entry, kept, rfl⟩ := List.mem_map.mp member
  exact formParameter_refers ((sound.get? declares).entry (List.mem_of_mem_filter kept)).2

namespace Setting
variable {setting : Setting} {schema : Option Value}

theorem single_refers (sound : Refers fine (.obj body)) : ∀ parameter ∈ [Value.obj body], Refers fine parameter := by
  intro parameter member
  rw [List.mem_singleton.mp member]
  exact sound

theorem asForm_refers (shallow : Shallow fine) (leads : setting.resolver.Leads setting.root (atReference fine))
    (returned : Returns (setting.asForm body schema) generated) (sound : Refers fine (.obj body))
    (declared : ∀ node, schema = some node → Refers fine node) : ∀ parameter ∈ generated, Refers fine parameter := by
  have placed := sound.insert (sound_str "formData") (by decide : "in" ≠ "$ref")
  rcases asForm_returns returned with ⟨_, rfl⟩ | ⟨node, target, rewritten, seen, found, made, forms | ⟨_, rfl⟩⟩
  · exact single_refers placed
  · exact formParameters?_refers forms (Schema.rewrite_refers shallow made ((declared node seen).resolve leads found))
  · apply single_refers
    exact placed.insert (Schema.rewrite_refers shallow made ((declared node seen).resolve leads found)) (by decide)

theorem asJson_refers (shallow : Shallow fine) (returned : Returns (setting.asJson body schema) generated)
    (sound : Refers fine (.obj body)) (declared : ∀ node, schema = some node → Refers fine node) :
    ∀ parameter ∈ generated, Refers fine parameter := by
  have placed := sound.insert (sound_str "body") (by decide : "in" ≠ "$ref")
  rcases asJson_returns returned with ⟨_, rfl⟩ | ⟨node, rewritten, seen, made, rfl⟩
  · exact single_refers placed
  · exact single_refers (placed.insert (Schema.rewrite_refers shallow made (declared node seen)) (by decide))

theorem binary_refers : Refers fine binary :=
  sound_obj_iff.mpr ⟨(by decide : ["type", "format"].Nodup), by simp [SoundEntry, atReference]⟩

theorem asBytes_refers (shallow : Shallow fine) (returned : Returns (setting.asBytes body schema) generated)
    (sound : Refers fine (.obj body)) (declared : ∀ node, schema = some node → Refers fine node) :
    ∀ parameter ∈ generated, Refers fine parameter := by
  have placed := sound.insert (sound_str "body") (by decide : "in" ≠ "$ref")
  obtain ⟨rewritten, made, rfl⟩ := asBytes_returns returned
  have chosen : Refers fine (schema.getD binary) := by
    cases schema with
    | none => exact binary_refers
    | some node => exact declared node rfl
  exact single_refers (Refers.insert (Sound.erase placed "type") (Schema.rewrite_refers shallow made chosen) (by decide))

theorem inlined_refers {key : String} (leads : setting.resolver.Leads setting.root (atReference fine))
    (inlined : Inlined setting content key schema) (sound : Refers fine (.obj content)) :
    ∀ node, schema = some node → Refers fine node := by
  rintro node rfl
  rcases inlined with ⟨_, impossible⟩ | ⟨declared, target, seen, found, same⟩
  · cases impossible
  · cases same
    obtain ⟨media, inside, schemaAt⟩ := Option.bind_eq_some_iff.mp seen
    exact ((sound.get? inside).valueGet? schemaAt).inlineExternal leads found

theorem parameters_refers {key : String} {kind : MediaType.BodyKind} (shallow : Shallow fine)
    (leads : setting.resolver.Leads setting.root (atReference fine))
    (returned : Returns (setting.parameters body content key kind) generated)
    (sound : Refers fine (.obj body)) (contained : Refers fine (.obj content)) :
    ∀ parameter ∈ generated, Refers fine parameter := by
  obtain ⟨schema, inlined, made⟩ := parameters_returns returned
  have declared := inlined_refers leads inlined contained
  cases kind with
  | form => exact asForm_refers shallow leads made sound declared
  | json => exact asJson_refers shallow made sound declared
  | other => exact asBytes_refers shallow made sound declared

theorem named_refers {target : Value} (sound : Refers fine target) : Refers fine (.obj (named target)) := by
  unfold named
  refine Refers.insert ?_ (sound_str "body") (by decide)
  cases target with
  | obj members => exact sound
  | _ => exact sound_empty

theorem append_refers (sound : Refers fine (.obj operation)) (each : ∀ parameter ∈ generated, Refers fine parameter) :
    Refers fine (.obj (append operation generated)) := by
  unfold append
  split
  next existing seen =>
    refine sound.insert (sound_arr_iff.mpr fun parameter member => ?_) (by decide)
    rcases List.mem_append.mp member with member | member
    · exact (sound.get? seen).item member
    · exact each parameter member
  next => exact sound

theorem replaceBody_refers (shallow : Shallow fine) (leads : setting.resolver.Leads setting.root (atReference fine))
    (returned : Returns (setting.replaceBody operation) result) (sound : Refers fine (.obj operation)) :
    Refers fine (.obj result) := by
  rcases replaceBody_returns returned with ⟨_, rfl⟩ | ⟨node, target, seen, found, ⟨_, rfl⟩ | replaced⟩
  · exact sound
  · exact Sound.erase sound "requestBody"
  · obtain ⟨content, key, kind, generated, inside, _, made, rfl⟩ := replaced
    have body := named_refers ((sound.get? seen).resolve leads found)
    refine append_refers (Refers.insert (Sound.erase sound "requestBody") ?_ (by decide)) ?_
    · exact sound_texts _
    · exact parameters_refers shallow leads made (Sound.erase body "content") (body.get? inside)

theorem withParameters_refers (sound : Refers fine (.obj operation)) :
    Refers fine (.obj (withParameters operation)) := by
  unfold withParameters
  split
  next => exact sound
  next => exact sound.insert (sound_arr_iff.mpr (by simp)) (by decide)

theorem rewriteOperation_refers (shallow : Shallow fine)
    (leads : setting.resolver.Leads setting.root (atReference fine))
    (returned : Returns (setting.rewriteOperation operation) result) (sound : Refers fine (.obj operation)) :
    Refers fine (.obj result) := by
  obtain ⟨replaced, made, listed⟩ := rewriteOperation_returns returned
  exact Parameter.rewriteAll_refers leads listed (replaceBody_refers shallow leads made (withParameters_refers sound))

end Setting
end RequestBody

namespace Response
variable {resolver : Resolver} {root : Value} {content response header result : Members Value} {produced : List String}

/-- Wildcards stand for bytes, so only `$ref` itself is produced as `$ref`. -/
theorem produced_eq_ref {mediaRange : String} (same : MediaType.produced mediaRange = "$ref") :
    mediaRange = "$ref" := by
  unfold MediaType.produced at same
  split at same
  next => exact absurd same (by decide)
  next => exact same

/-- An example whose name is `$ref` comes from a media type of that name, which is no text. -/
theorem shown_sound (textual : Textual fine) (sound : Refers fine (.obj content)) :
    ∀ shown ∈ (foldContent produced content).shown, SoundEntry (atReference fine) shown := by
  intro shown member
  obtain ⟨entry, inside, name, seen⟩ := (foldContent_from produced content).shown shown member
  have held := Sound.entry sound inside
  refine ⟨fun same => ?_, held.2.valueGet? seen⟩
  have good := held.1 (produced_eq_ref (name.symm.trans same))
  cases media : entry.2 with
  | obj members => exact textual (.obj members) rfl (media ▸ good) shown.2
  | _ => rw [media] at seen; cases seen

theorem addExample_refers {entry : String × Value} (held : SoundEntry (atReference fine) entry)
    (sound : Refers fine (.obj response)) : Refers fine (.obj (addExample response entry)) := by
  have placed := sound.insertIfAbsent sound_empty (by decide : "examples" ≠ "$ref")
  unfold addExample
  dsimp only
  split
  next examples seen =>
    exact placed.insert (Sound.insert (placed.get? seen) held.1 held.2) (by decide)
  next => exact placed

theorem withExamples_refers (textual : Textual fine) (contained : Refers fine (.obj content))
    (sound : Refers fine (.obj response)) :
    Refers fine (.obj (Setting.withExamples produced content response)) := by
  have each : ∀ (entries : List (String × Value)) (response : Members Value),
      (∀ entry ∈ entries, SoundEntry (atReference fine) entry) → Refers fine (.obj response) →
      Refers fine (.obj (entries.foldl addExample response)) := by
    intro entries
    induction entries with
    | nil => exact fun _ _ sound => sound
    | cons entry rest ih =>
      intro response held sound
      exact ih _ (fun entry member => held entry (List.mem_cons_of_mem _ member))
        (addExample_refers (held entry List.mem_cons_self) sound)
  exact each _ _ (shown_sound textual contained) (Sound.erase sound "content")

/-- A header takes a key from its schema. -/
theorem takeKey_refers {schema : Value} {key : String} (described : Refers fine schema) (other : key ≠ "$ref")
    (sound : Refers fine (.obj header)) :
    Refers fine (.obj (match schema.get? key with
      | some value => Members.insert header key value
      | none => header)) := by
  split
  next value found => exact sound.insert (described.valueGet? found) other
  next => exact sound

theorem flattenHeader_refers (sound : Refers fine (.obj header)) : Refers fine (.obj (flattenHeader header)) := by
  unfold flattenHeader
  split
  next => exact sound
  next schema seen =>
    have bare : Refers fine (.obj (Members.erase (Members.erase (Members.erase header "schema") "type") "format")) :=
      Sound.erase (Sound.erase (Sound.erase sound "schema") "type") "format"
    have described : Refers fine schema := sound.get? seen
    exact takeKey_refers described (by decide) (takeKey_refers described (by decide) bare)

/-- A header whose name is `$ref` is a text, unless nothing is asked of references. -/
theorem resolve_entry_sound (textual : Textual fine) (leads : resolver.Leads root (atReference fine))
    {entry : String × Value} {target : Value} (found : resolver.resolve root entry.2 = .ok target)
    (held : SoundEntry (atReference fine) entry) : SoundEntry (atReference fine) (entry.1, target) := by
  refine ⟨fun same => ?_, held.2.resolve leads found⟩
  cases value : entry.2 with
  | obj members =>
    have good : fine (.obj members) := value ▸ held.1 same
    exact textual (.obj members) rfl good target
  | _ =>
    rw [resolve_of_members?_eq_none (by rw [value]; rfl)] at found
    cases found
    exact held.1 same

theorem rewriteHeaders_refers (textual : Textual fine) (leads : resolver.Leads root (atReference fine))
    (made : rewriteHeaders resolver root response = .ok result) (sound : Refers fine (.obj response)) :
    Refers fine (.obj result) := by
  rcases rewriteHeaders_eq_ok.mp made with ⟨_, rfl⟩ | ⟨headers, results, seen, each, rfl⟩
  · exact sound
  · refine sound.insert ((sound.get? seen).replace (each.imp fun entry result made => ?_)) (by decide)
    obtain ⟨name, target, found, ⟨_, rest⟩ | ⟨header, rfl, rest⟩⟩ := rewriteHeader_eq_ok.mp made
    · refine ⟨name, fun held => ?_⟩
      have resolved := resolve_entry_sound textual leads found held
      rwa [SoundEntry, name, rest]
    · refine ⟨name, fun held => ?_⟩
      have resolved := resolve_entry_sound textual leads found held
      rw [SoundEntry, name, rest]
      exact ⟨fun same => textual.shallow header _ (resolved.1 same), flattenHeader_refers resolved.2⟩

namespace Setting
variable {setting : Setting} {operation : Members Value}

theorem setSchema_refers {schema : Option Value} (shallow : Shallow fine)
    (leads : setting.resolver.Leads setting.root (atReference fine))
    (returned : Returns (setting.setSchema response schema) result) (sound : Refers fine (.obj response))
    (declared : ∀ node, schema = some node → Refers fine node) : Refers fine (.obj result) := by
  rcases setSchema_returns returned with ⟨_, rfl⟩ | ⟨node, target, rewritten, seen, found, made, rfl⟩
  · exact sound
  · refine sound.insert (Schema.rewrite_refers shallow made ?_) (by decide)
    exact (declared node seen).inlineExternal leads found

theorem foldInto_refers {folded : List String × Members Value} (textual : Textual fine)
    (leads : setting.resolver.Leads setting.root (atReference fine))
    (returned : Returns (setting.foldInto produced response) folded) (sound : Refers fine (.obj response)) :
    Refers fine (.obj folded.2) := by
  rcases foldInto_returns returned with ⟨_, rfl⟩ | ⟨_, _, _, rfl⟩ | ⟨content, filled, seen, made, rfl⟩
  · exact sound
  · exact Sound.erase sound "content"
  · have contained := sound.get? seen
    refine setSchema_refers textual.shallow leads made (withExamples_refers textual contained sound)
      fun node chosen => ?_
    obtain ⟨entry, inside, held⟩ := (foldContent_from produced content).schema? chosen
    exact (Sound.entry contained inside).2.valueGet? held

theorem rewriteNode_sound {entry : String × Value} {answer : List String × Value} (textual : Textual fine)
    (leads : setting.resolver.Leads setting.root (atReference fine))
    (returned : Returns (setting.rewriteNode produced entry.2) answer)
    (held : SoundEntry (atReference fine) entry) : SoundEntry (atReference fine) (entry.1, answer.2) := by
  obtain ⟨target, found, ⟨_, rfl⟩ | ⟨response, folded, rewritten, rfl, made, headed, rfl⟩⟩ := rewriteNode_returns returned
  · exact resolve_entry_sound textual leads found held
  · have resolved := resolve_entry_sound textual leads found held
    refine ⟨fun same => textual.shallow response rewritten (resolved.1 same), ?_⟩
    exact rewriteHeaders_refers textual leads headed (foldInto_refers textual leads made resolved.2)

theorem rewriteResponses_refers (textual : Textual fine)
    (leads : setting.resolver.Leads setting.root (atReference fine))
    (returned : Returns (setting.rewriteResponses operation) result) (sound : Refers fine (.obj operation)) :
    Refers fine (.obj result) := by
  rcases rewriteResponses_returns returned with ⟨_, rfl⟩ | ⟨responses, total, results, seen, each, rfl⟩
  · exact sound
  · have answered : Refers fine (.obj (Members.insert operation "responses" (.obj results))) := by
      refine sound.insert ((sound.get? seen).replace ((rewriteEach_returns each).imp ?_)) (by decide)
      rintro entry result ⟨name, before, after, made⟩
      refine ⟨name, fun held => ?_⟩
      have rewritten := rewriteNode_sound textual leads made held
      rwa [SoundEntry, name]
    split
    · exact answered
    · exact answered.insert (sound_texts total) (by decide)

end Setting
end Response
end ApiDialect
