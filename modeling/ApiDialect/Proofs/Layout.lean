import ApiDialect.Proofs.Marks
import ApiDialect.Proofs.RelocationSteps

/-! A whole conversion in one piece: where the document comes from that a successful conversion
returns, and what every part of it has kept. -/

namespace ApiDialect
open Rewriting Value

variable {fine : Value → Prop}

namespace Server
variable {names : HostNames} {document : Members Value} {location : Location} {name : String}

theorem setOrErase_distinct {value : Option Value} (distinct : Members.Distinct document) :
    Members.Distinct (setOrErase document name value) := by
  cases value with
  | none => exact distinct.erase name
  | some held => exact distinct.insert name held

theorem get?_setOrErase_of_ne {value : Option Value} {wanted : String} (distinct : Members.Distinct document)
    (other : name ≠ wanted) : Members.get? (setOrErase document name value) wanted = Members.get? document wanted := by
  cases value with
  | none => exact distinct.get?_erase_of_ne other
  | some held => exact Members.get?_insert_of_ne other held

theorem setOrErase_refers {value : Option Value} (sound : Refers fine (.obj document)) (other : name ≠ "$ref")
    (held : ∀ inner, value = some inner → Refers fine inner) : Refers fine (.obj (setOrErase document name value)) := by
  cases value with
  | none => exact sound.erase name
  | some inner => exact sound.insert (held inner rfl) other

theorem place_distinct (distinct : Members.Distinct document) : Members.Distinct (place document location) := by
  have set : Members.Distinct (setOrErase (setOrErase document "host" (location.host.map .str)) "schemes"
      (location.scheme.map fun scheme => .arr [.str scheme])) := setOrErase_distinct (setOrErase_distinct distinct)
  unfold place
  dsimp only
  split
  next path _ => exact set.insert "basePath" (.str path)
  next => exact set

theorem get?_place (distinct : Members.Distinct document) (other : name ∉ ["host", "schemes", "basePath"]) :
    Members.get? (place document location) name = Members.get? document name := by
  simp only [List.mem_cons, List.not_mem_nil, or_false, not_or] at other
  obtain ⟨one, two, three⟩ := other
  have set : Members.get? (setOrErase (setOrErase document "host" (location.host.map .str)) "schemes"
      (location.scheme.map fun scheme => .arr [.str scheme])) name = Members.get? document name := by
    rw [get?_setOrErase_of_ne (setOrErase_distinct distinct) (Ne.symm two), get?_setOrErase_of_ne distinct (Ne.symm one)]
  unfold place
  dsimp only
  split
  next path _ => rw [Members.get?_insert_of_ne (Ne.symm three), set]
  next => exact set

theorem place_refers (sound : Refers fine (.obj document)) : Refers fine (.obj (place document location)) := by
  have hosted : Refers fine (.obj (setOrErase document "host" (location.host.map .str))) := by
    refine setOrErase_refers sound (by decide) fun inner same => ?_
    obtain ⟨text, _, rfl⟩ := Option.map_eq_some_iff.mp same
    exact sound_str text
  have set : Refers fine (.obj (setOrErase (setOrErase document "host" (location.host.map .str)) "schemes"
      (location.scheme.map fun scheme => .arr [.str scheme]))) := by
    refine setOrErase_refers hosted (by decide) fun inner same => ?_
    obtain ⟨text, _, rfl⟩ := Option.map_eq_some_iff.mp same
    exact sound_texts [text]
  unfold place
  dsimp only
  split
  next path _ => exact set.insert (sound_str path) (by decide)
  next => exact set

/-- Where the first server is known, it has been put in its place. -/
theorem rewrite_eq (names : HostNames) (document : Members Value) :
    ∃ placed, (placed = document ∨ ∃ location, placed = place document location) ∧
      rewrite names document = Members.erase (Members.erase placed "servers") "openapi" := by
  unfold rewrite
  dsimp only
  split
  next location _ => exact ⟨_, Or.inr ⟨location, rfl⟩, rfl⟩
  next => exact ⟨_, Or.inl rfl, rfl⟩

theorem get?_rewrite (distinct : Members.Distinct document) (other : name ∉ ["host", "schemes", "basePath"]) :
    Members.get? (rewrite names document) name =
      if name = "servers" ∨ name = "openapi" then none else Members.get? document name := by
  have bare : ∀ placed : Members Value, Members.Distinct placed →
      Members.get? (Members.erase (Members.erase placed "servers") "openapi") name =
        if name = "servers" ∨ name = "openapi" then none else Members.get? placed name := by
    intro placed single
    rw [(single.erase "servers").get?_erase, single.get?_erase]
    by_cases one : name = "servers" <;> by_cases two : name = "openapi" <;> simp [one, two, eq_comm]
  obtain ⟨placed, rfl | ⟨location, rfl⟩, same⟩ := rewrite_eq names document <;> rw [same]
  · exact bare _ distinct
  · rw [bare _ (place_distinct distinct), get?_place distinct other]

theorem rewrite_refers (sound : Refers fine (.obj document)) : Refers fine (.obj (rewrite names document)) := by
  obtain ⟨placed, rfl | ⟨location, rfl⟩, same⟩ := rewrite_eq names document <;> rw [same]
  · exact Sound.erase (Sound.erase sound "servers") "openapi"
  · exact Sound.erase (Sound.erase (place_refers sound) "servers") "openapi"

end Server

namespace Conversion
namespace Setting
variable {setting : Setting} {document result : Members Value} {relocated : Bool}

/-- The document in which the paths are converted. -/
def opened (setting : Setting) (document : Members Value) : Members Value :=
  Server.rewrite setting.hostNames (Members.insert document "swagger" (.str "2.0"))

theorem opened_refers (sound : Refers fine (.obj document)) : Refers fine (.obj (setting.opened document)) :=
  Server.rewrite_refers (sound.insert (sound_str "2.0") (by decide))

theorem get?_opened {name : String} (distinct : Members.Distinct document)
    (other : name ∉ ["host", "schemes", "basePath"]) : Members.get? (setting.opened document) name =
      if name = "servers" ∨ name = "openapi" then none
      else if name = "swagger" then some (.str "2.0") else Members.get? document name := by
  unfold opened
  rw [Server.get?_rewrite (distinct.insert "swagger" (.str "2.0")) other, Members.get?_insert]
  simp only [eq_comm]

theorem pathsOf_opened {paths : Members Value} (distinct : Members.Distinct document)
    (here : Members.get? document "paths" = some (.obj paths)) : pathsOf (setting.opened document) = paths := by
  unfold pathsOf
  rw [get?_opened distinct (by decide), if_neg (by decide), if_neg (by decide), here]

/-- The components are what they were when all paths have been visited. -/
theorem get?_components_walked {walked : Members Value} (distinct : Members.Distinct document)
    (ran : Returns ((pathsOf (setting.opened document)).names.foldlM setting.path (setting.opened document)) walked) :
    Members.get? walked "components" = Members.get? document "components" := by
  rw [(paths_framed ran).others _ (by decide), get?_opened distinct (by decide), if_neg (by decide), if_neg (by decide)]

theorem layout_returns (returned : Returns (setting.layout document) (result, relocated)) :
    ∃ converted, Returns ((pathsOf (setting.opened document)).names.foldlM setting.path (setting.opened document)) converted ∧
      Returns (Relocation.components setting.limit converted) (result, relocated) := by
  unfold layout at returned
  exact returned.bind

theorem convert_eq_ok {value : Value} {converted : Converted} (made : setting.convert value = .ok converted) :
    ∃ document result relocated queue, value = .obj document ∧
      (setting.layout document).run.run .empty = (.ok (result, relocated), queue) ∧
      converted = setting.finish result relocated queue := by
  unfold convert at made
  split at made
  next document =>
    split at made
    next result relocated queue ran => exact ⟨document, result, relocated, queue, rfl, ran, (Except.ok.inj made).symm⟩
    next => cases made
  next => cases made

/-- What a successful conversion has gone through. -/
theorem convert_stages {value : Value} {converted : Converted} (made : setting.convert value = .ok converted) :
    ∃ document paths result relocated queue, value = .obj document ∧
      Returns ((pathsOf (setting.opened document)).names.foldlM setting.path (setting.opened document)) paths ∧
      Returns (Relocation.components setting.limit paths) (result, relocated) ∧
      converted = setting.finish result relocated queue := by
  obtain ⟨document, result, relocated, queue, rfl, ran, rfl⟩ := convert_eq_ok made
  obtain ⟨paths, one, other⟩ := layout_returns ⟨.empty, queue, ran⟩
  exact ⟨document, paths, result, relocated, queue, rfl, one, other, rfl⟩

/-- Members at the end of a conversion, when references have been put right. -/
def readdressed (relocated : Bool) (members : Members Value) : Members Value :=
  if relocated then Relocation.referencesOfMembers members else members

theorem names_readdressed (relocated : Bool) (members : Members Value) :
    (readdressed relocated members).names = members.names := by
  unfold readdressed
  split
  next => exact Relocation.names_referencesOfMembers members
  next => rfl

theorem readdressed_distinct {members : Members Value} (distinct : Members.Distinct members) :
    Members.Distinct (readdressed relocated members) := by
  unfold Members.Distinct
  rw [names_readdressed]
  exact distinct

theorem get?_readdressed {members other : Members Value} {name : String}
    (same : Members.get? members name = Members.get? other name) :
    Members.get? (readdressed relocated members) name = Members.get? (readdressed relocated other) name := by
  unfold readdressed
  split
  next => rw [Relocation.get?_referencesOfMembers, Relocation.get?_referencesOfMembers, same]
  next => exact same

theorem get?_readdressed_obj {members inner : Members Value} {name : String}
    (seen : Members.get? members name = some (.obj inner)) :
    Members.get? (readdressed relocated members) name = some (.obj (readdressed relocated inner)) := by
  unfold readdressed
  split
  next => rw [Relocation.get?_referencesOfMembers, seen]; rfl
  next => exact seen

theorem finish_empty (setting : Setting) (document : Members Value) (relocated : Bool) :
    (setting.finish document relocated .empty).document = .obj (readdressed relocated document) := by
  cases relocated <;> rfl

theorem finish_tagged (setting : Setting) (document : Members Value) (relocated : Bool) (queue : Queue) :
    ∃ tagged, Discriminator.Tagged queue.tags (.obj document) tagged ∧
      (setting.finish document relocated queue).document =
        if relocated then Relocation.references tagged else tagged :=
  ⟨_, Discriminator.applyAll_tagged ⟨setting.resolver, relocated⟩ (.obj document) queue.tags, rfl⟩

theorem finish_eq (setting : Setting) (document : Members Value) (relocated : Bool) (queue : Queue) :
    ∃ marked, Discriminator.Marked (.obj document) marked ∧
      (setting.finish document relocated queue).document =
        if relocated then Relocation.references marked else marked := by
  obtain ⟨tagged, written, same⟩ := finish_tagged setting document relocated queue
  exact ⟨tagged, written.marked, same⟩

theorem finish_mildly (setting : Setting) (document : Members Value) (relocated : Bool) (queue : Queue) :
    Mildly (.obj document) (setting.finish document relocated queue).document := by
  obtain ⟨marked, written, same⟩ := finish_eq setting document relocated queue
  rw [same]
  split
  · exact written.mildly.trans ⟨_, Relocation.references_mild, rfl⟩
  · exact written.mildly

theorem finish_wellFormed {queue : Queue} (formed : Formed (.obj document)) :
    (setting.finish document relocated queue).document.WellFormed := by
  obtain ⟨marked, written, same⟩ := finish_eq setting document relocated queue
  have sound : Formed marked := written.refers textual_true formed
  rw [same]
  split
  · exact (Relocation.references_refers marked sound).wellFormed
  · exact sound.wellFormed

end Setting
end Conversion
end ApiDialect
