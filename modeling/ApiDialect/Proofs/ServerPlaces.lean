import ApiDialect.Proofs.ReferenceOrigins
import ApiDialect.Proofs.Untagged

/-! Where an API is served. The first server says it, and what it says stands in the converted document whatever stood there
before. Of what the server does not say the conversion takes no notice: without a usable server all of it stays as it was written,
and with a server that has no path the base path does. -/

namespace ApiDialect
open Rewriting Value Discriminator

namespace Value

mutual
/-- There is no object in the tree, and so nothing that a tag or a reference could be written into. -/
def Objectless : Value → Prop
  | .arr items => ObjectlessItems items
  | .obj _ => False
  | _ => True
termination_by structural value => value

def ObjectlessItems : List Value → Prop
  | [] => True
  | item :: rest => Objectless item ∧ ObjectlessItems rest
termination_by structural items => items
end

mutual
theorem references_of_objectless : (value : Value) → value.Objectless → Relocation.references value = value
  | .arr items, bare => congrArg Value.arr (referencesOfItems_of_objectless items bare)
  | .obj _, impossible => impossible.elim
  | .null, _ | .bool _, _ | .num _, _ | .str _, _ => rfl
termination_by structural value => value

theorem referencesOfItems_of_objectless : (items : List Value) → ObjectlessItems items →
    Relocation.referencesOfItems items = items
  | [], _ => rfl
  | item :: rest, ⟨first, others⟩ =>
    congrArg₂ List.cons (references_of_objectless item first) (referencesOfItems_of_objectless rest others)
termination_by structural items => items
end

mutual
theorem tagged_of_objectless {tags : List Tag} : (value after : Value) → value.Objectless → Tagged tags value after → after = value
  | .arr items, after, bare, tagged => by
    obtain ⟨nodes, rfl, each⟩ := tagged.arr
    exact congrArg Value.arr (taggedItems_of_objectless items nodes bare each)
  | .obj _, _, impossible, _ => impossible.elim
  | .null, _, _, tagged | .bool _, _, _, tagged | .num _, _, _, tagged | .str _, _, _, tagged => tagged.eq_of_scalar rfl rfl
termination_by structural value => value

theorem taggedItems_of_objectless {tags : List Tag} : (items nodes : List Value) → ObjectlessItems items →
    List.Forall₂ (Tagged tags) items nodes → nodes = items
  | [], _, _, each => List.forall₂_nil_left_iff.mp each
  | item :: rest, nodes, ⟨first, others⟩, each => by
    obtain ⟨node, more, tagged, below, rfl⟩ := List.forall₂_cons_left_iff.mp each
    exact congrArg₂ List.cons (tagged_of_objectless item node first tagged) (taggedItems_of_objectless rest more others below)
termination_by structural items => items
end

end Value

namespace Server
variable {names : HostNames} {document : Members Value} {location : Location} {name : String}

/-- The names under which the older dialect says where an API is served. -/
def placeNames : List String :=
  ["host", "schemes", "basePath"]

theorem mem_placeNames : name ∈ placeNames ↔ name = "host" ∨ name = "schemes" ∨ name = "basePath" := by
  simp [placeNames]

/-- The URL of the first server. -/
def serverUrl? (document : Members Value) : Option String :=
  ((Members.get? document "servers").bind first?).bind url?

/-- What a location says of a name: that nothing belongs there or what does. Of a path that it does not have it says neither. -/
def Location.told? (location : Location) (name : String) : Option (Option Value) :=
  if name = "host" then some (location.host.map .str)
  else if name = "schemes" then some (location.scheme.map fun scheme => .arr [.str scheme])
  else location.basePath.map fun path => some (.str path)

/-- What the first server says of a name. -/
def told? (names : HostNames) (document : Members Value) (name : String) : Option (Option Value) :=
  (serverUrl? document).bind fun url => (Location.ofUrl names url).told? name

/-- The first server is usable, and it has a path if one is asked for. -/
def Settles (names : HostNames) (document : Members Value) (name : String) : Prop :=
  ∃ url, serverUrl? document = some url ∧ (name = "basePath" → (Location.ofUrl names url).basePath ≠ none)

theorem Location.isSome_told? (inside : name ∈ placeNames) :
    (location.told? name).isSome ↔ (name = "basePath" → location.basePath ≠ none) := by
  rcases mem_placeNames.mp inside with rfl | rfl | rfl
  · simp [told?]
  · simp [told?]
  · simp [told?, Option.isSome_iff_ne_none]

theorem isSome_told? (inside : name ∈ placeNames) : (told? names document name).isSome ↔ Settles names document name := by
  unfold told? Settles
  cases serverUrl? document with
  | none => simp
  | some url => simp [Location.isSome_told? inside]

/-- A server has only texts to say. -/
theorem objectless_of_told? {value : Value} (said : told? names document name = some (some value)) : value.Objectless := by
  obtain ⟨url, _, said⟩ := Option.bind_eq_some_iff.mp said
  unfold Location.told? at said
  split at said
  · obtain ⟨host, _, rfl⟩ := Option.map_eq_some_iff.mp (Option.some.inj said)
    trivial
  · split at said
    · obtain ⟨scheme, _, rfl⟩ := Option.map_eq_some_iff.mp (Option.some.inj said)
      exact ⟨trivial, trivial⟩
    · obtain ⟨path, _, same⟩ := Option.map_eq_some_iff.mp said
      cases same
      trivial

theorem get?_setOrErase_self (distinct : Members.Distinct document) (name : String) (value : Option Value) :
    Members.get? (setOrErase document name value) name = value := by
  cases value with
  | none => exact distinct.get?_erase_self name
  | some held => exact Members.get?_insert_self document name held

theorem get?_place_told (distinct : Members.Distinct document) (inside : name ∈ placeNames) :
    Members.get? (place document location) name = (location.told? name).getD (Members.get? document name) := by
  have hosted : Members.Distinct (setOrErase document "host" (location.host.map .str)) := setOrErase_distinct distinct
  have behind (other : "basePath" ≠ name) : Members.get? (place document location) name =
      Members.get? (setOrErase (setOrErase document "host" (location.host.map .str)) "schemes"
        (location.scheme.map fun scheme => .arr [.str scheme])) name := by
    unfold place
    cases location.basePath with
    | none => rfl
    | some path => exact Members.get?_insert_of_ne other _
  rcases mem_placeNames.mp inside with rfl | rfl | rfl
  · rw [behind (by decide), get?_setOrErase_of_ne hosted (by decide), get?_setOrErase_self distinct]
    rfl
  · rw [behind (by decide), get?_setOrErase_self hosted]
    rfl
  · unfold place Location.told?
    cases location.basePath with
    | none =>
      dsimp only
      rw [get?_setOrErase_of_ne hosted (by decide), get?_setOrErase_of_ne distinct (by decide)]
      rfl
    | some path => exact Members.get?_insert_self _ _ _

/-- Where a server is known, what it says takes the place of what stood there. -/
theorem get?_rewrite_told (distinct : Members.Distinct document) (inside : name ∈ placeNames) :
    Members.get? (rewrite names document) name = (told? names document name).getD (Members.get? document name) := by
  have others : ∀ name ∈ placeNames, "servers" ≠ name ∧ "openapi" ≠ name := by decide
  have apart := others name inside
  have bare (placed : Members Value) (single : Members.Distinct placed) :
      Members.get? (Members.erase (Members.erase placed "servers") "openapi") name = Members.get? placed name := by
    rw [(single.erase "servers").get?_erase_of_ne apart.2, single.get?_erase_of_ne apart.1]
  unfold rewrite told? serverUrl?
  cases ((Members.get? document "servers").bind first?).bind url? with
  | none => exact bare document distinct
  | some url => exact (bare _ (place_distinct distinct)).trans (get?_place_told distinct inside)

end Server

namespace Conversion
namespace Setting
open Server
variable {setting : Setting} {document laid walked result : Members Value} {relocated : Bool} {name : String} {tags : List Tag}

/-- A member is there afterwards if it was there before, as what it was but for its references and for tags. -/
def Stays (relocated : Bool) (tags : List Tag) (before after : Option Value) : Prop :=
  match before with
  | none => after = none
  | some value => ∃ last, after = some last ∧ Tagged tags (if relocated then Relocation.references value else value) last

/-- What holds no object stays just as it is. -/
theorem Stays.eq {before after : Option Value} (stays : Stays relocated tags before after)
    (bare : ∀ value, before = some value → value.Objectless) : after = before := by
  cases before with
  | none => exact stays
  | some value =>
    obtain ⟨last, rfl, tagged⟩ := stays
    have objectless := bare value rfl
    rw [references_of_objectless value objectless, ite_self] at tagged
    exact congrArg some (tagged_of_objectless value last objectless tagged)

/-- What the server says stays just as it says it. -/
theorem Stays.eq_told {before after value : Option Value} (told : told? setting.hostNames document name = some value)
    (stays : Stays relocated tags ((told? setting.hostNames document name).getD before) after) : after = value := by
  rw [told, Option.getD_some] at stays
  refine stays.eq ?_
  intro held same
  exact objectless_of_told? (same ▸ told)

/-- At the root tags are written under their own two names. -/
theorem Tagged.stays (tagged : Tagged tags (.obj (readdressed relocated laid)) (.obj result)) (plain : ¬ isMark name)
    (other : name ≠ "$ref") : Stays relocated tags (Members.get? laid name) (Members.get? result name) := by
  have before : Members.get? (readdressed relocated laid) name =
      (Members.get? laid name).map fun value => if relocated then Relocation.references value else value := by
    unfold readdressed
    cases relocated with
    | false => simp
    | true => simp [Relocation.get?_referencesOfMembers, Relocation.member_of_ne other]
  cases seen : Members.get? laid name with
  | none =>
    have absent : (Value.obj (readdressed relocated laid)).get? name = none := by rw [Value.get?, before, seen, Option.map_none]
    exact tagged.no_member absent plain
  | some value =>
    have held : (Value.obj (readdressed relocated laid)).get? name =
        some (if relocated then Relocation.references value else value) := by rw [Value.get?, before, seen, Option.map_some]
    exact tagged.member held plain

theorem get?_opened_told (distinct : Members.Distinct document) (inside : name ∈ placeNames) :
    Members.get? (setting.opened document) name = (told? setting.hostNames document name).getD (Members.get? document name) := by
  have apart : "swagger" ≠ name := by
    rintro rfl
    exact absurd inside (by decide)
  have same : told? setting.hostNames (Members.insert document "swagger" (.str "2.0")) name = told? setting.hostNames document name := by
    unfold told? serverUrl?
    rw [Members.get?_insert_of_ne (by decide)]
  rw [opened, get?_rewrite_told (distinct.insert _ _) inside, same, Members.get?_insert_of_ne apart]

/-- Paths and components leave it where it is. -/
theorem get?_laid_told (formed : Formed (.obj document))
    (ran : Returns ((pathsOf (setting.opened document)).names.foldlM setting.path (setting.opened document)) walked)
    (moved : Returns (Relocation.components setting.limit walked) (laid, relocated)) (inside : name ∈ placeNames) :
    Members.get? laid name = (told? setting.hostNames document name).getD (Members.get? document name) := by
  have visited : Formed (.obj walked) := paths_formed (opened_refers formed) ran
  have others : ∀ name ∈ placeNames,
      name ∉ ["components", "definitions", "securityDefinitions", "x-components"] ∧ name ≠ "paths" := by decide
  obtain ⟨outside, apart⟩ := others name inside
  rw [Relocation.get?_components visited moved outside, (paths_framed ran).others name apart,
    get?_opened_told formed.distinct inside]

/-- What the server says stands in the converted document, and where it says nothing what stood there stays. -/
theorem convert_told {converted : Converted} (formed : (Value.obj document).WellFormed)
    (made : setting.convert (.obj document) = .ok converted) :
    ∃ relocated result, (relocated = true ↔ ∃ mapping, Members.get? document "components" = some (.obj mapping)) ∧
      converted.document = .obj result ∧ ∀ name ∈ placeNames, Stays relocated (setting.queued document)
        ((told? setting.hostNames document name).getD (Members.get? document name)) (Members.get? result name) := by
  obtain ⟨walked, laid, relocated, ran, moved, _, tagged⟩ := convert_tagged made
  have sound : Formed (.obj document) := formed_iff.mpr formed
  have moves := Relocation.relocated_iff moved
  rw [get?_components_walked sound.distinct ran] at moves
  obtain ⟨result, same⟩ := tagged.obj
  rw [same] at tagged
  refine ⟨relocated, result, moves, same, ?_⟩
  intro name inside
  have others : ∀ name ∈ placeNames, ¬ isMark name ∧ name ≠ "$ref" := by decide
  obtain ⟨plain, apart⟩ := others name inside
  rw [← get?_laid_told sound ran moved inside]
  exact Tagged.stays tagged plain apart

/-- The server says the same in documents that are the same elsewhere. -/
theorem told?_congr {first second : Members Value} (same : ∀ name, name ∉ placeNames → Members.get? first name = Members.get? second name)
    (names : HostNames) (name : String) : told? names first name = told? names second name := by
  unfold told? serverUrl?
  rw [same "servers" (by decide)]

/-- Two documents differ in nothing but where they are served. What the first server says of that stands in both conversions, and
no more of it comes from the servers: a name of which they say nothing keeps what each document has under it. -/
theorem places_agree_iff {first second : Members Value} {one other : Converted} (formed : (Value.obj first).WellFormed)
    (wellFormed : (Value.obj second).WellFormed)
    (same : ∀ name, name ∉ placeNames → Members.get? first name = Members.get? second name)
    (made : setting.convert (.obj first) = .ok one) (done : setting.convert (.obj second) = .ok other) :
    ∃ relocated left right, (relocated = true ↔ ∃ mapping, Members.get? first "components" = some (.obj mapping)) ∧
      one.document = .obj left ∧ other.document = .obj right ∧ ∀ name ∈ placeNames,
        (Settles setting.hostNames first name → Members.get? left name = Members.get? right name ∧
          told? setting.hostNames first name = some (Members.get? left name)) ∧
        (¬ Settles setting.hostNames first name →
          Stays relocated (setting.queued first) (Members.get? first name) (Members.get? left name) ∧
          Stays relocated (setting.queued second) (Members.get? second name) (Members.get? right name)) ∧
        ((∀ value, Members.get? first name = some value ∨ Members.get? second name = some value → value.Objectless) →
          (Members.get? left name = Members.get? right name ↔
            Settles setting.hostNames first name ∨ Members.get? first name = Members.get? second name)) := by
  obtain ⟨relocated, left, moves, here, each⟩ := convert_told formed made
  obtain ⟨others, right, moved, there, every⟩ := convert_told wellFormed done
  rw [← same "components" (by decide)] at moved
  obtain rfl : relocated = others := Bool.eq_iff_iff.mpr (moves.trans moved.symm)
  refine ⟨relocated, left, right, moves, here, there, ?_⟩
  intro name inside
  have kept := each name inside
  have still := every name inside
  rw [← told?_congr same setting.hostNames name] at still
  rw [← isSome_told? inside]
  cases said : told? setting.hostNames first name with
  | some value =>
    -- It holds no object, so neither a reference nor a tag can part the two results.
    have placed := kept.eq_told said
    have again := still.eq_told said
    refine ⟨fun _ => ⟨placed.trans again.symm, congrArg some placed.symm⟩, fun none => absurd rfl none, fun _ => ?_⟩
    exact iff_of_true (placed.trans again.symm) (Or.inl rfl)
  | none =>
    rw [said, Option.getD_none] at kept still
    refine ⟨fun settled => absurd settled Bool.false_ne_true, fun _ => ⟨kept, still⟩, ?_⟩
    intro bare
    rw [kept.eq fun value seen => bare value (Or.inl seen), still.eq fun value seen => bare value (Or.inr seen)]
    simp

/-- A market with a server that has no path. It has moved, and its description still names the old place. -/
def movedMarket : Members Value :=
  [("openapi", .str "3.0.0"), ("host", .str "old.example.com"), ("basePath", .str "/old"),
    ("servers", .arr [.obj [("url", .str "market://new.example.com")]]), ("paths", .obj [])]

/-- The same server beside another base path. -/
def newMarket : Members Value :=
  [("openapi", .str "3.0.0"), ("basePath", .str "/new"),
    ("servers", .arr [.obj [("url", .str "market://new.example.com")]]), ("paths", .obj [])]

def convertedMoved : Members Value :=
  [("swagger", .str "2.0"), ("host", .str "new.example.com"), ("basePath", .str "/old"),
    ("schemes", .arr [.str "market"]), ("paths", .obj [])]

def convertedNew : Members Value :=
  [("host", .str "new.example.com"), ("basePath", .str "/new"), ("schemes", .arr [.str "market"]), ("paths", .obj []),
    ("swagger", .str "2.0")]

theorem market_same (name : String) (other : name ∉ placeNames) : Members.get? movedMarket name = Members.get? newMarket name := by
  rw [mem_placeNames, not_or, not_or] at other
  obtain ⟨host, _, path⟩ := other
  simp only [movedMarket, newMarket, Members.get?_cons, if_neg (Ne.symm host), if_neg (Ne.symm path)]

theorem movedMarket_converts : Setting.convert ⟨⟨none, Files.none⟩, 10⟩ (.obj movedMarket) = .ok ⟨.obj convertedMoved, []⟩ := by
  decide +kernel

theorem newMarket_converts : Setting.convert ⟨⟨none, Files.none⟩, 10⟩ (.obj newMarket) = .ok ⟨.obj convertedNew, []⟩ := by
  decide +kernel

/-- Of its host both documents say the same after all, and of its base path what they said before. -/
theorem market_agrees : Members.get? convertedMoved "host" = Members.get? convertedNew "host" ∧
    Members.get? convertedMoved "basePath" ≠ Members.get? convertedNew "basePath" := by
  obtain ⟨_, left, right, _, one, other, each⟩ :=
    places_agree_iff (by decide) (by decide) market_same movedMarket_converts newMarket_converts
  cases one
  cases other
  have server : serverUrl? movedMarket = some "market://new.example.com" := by decide +kernel
  have pathless : (Location.ofUrl .settled "market://new.example.com").basePath = none := by decide +kernel
  have settled : Settles .settled movedMarket "host" := ⟨_, server, fun impossible => absurd impossible (by decide)⟩
  have unsettled : ¬ Settles .settled movedMarket "basePath" := by
    rintro ⟨url, same, path⟩
    cases same.symm.trans server
    exact path rfl pathless
  refine ⟨((each "host" (by decide)).1 settled).1, ?_⟩
  have texts : ∀ value, Members.get? movedMarket "basePath" = some value ∨ Members.get? newMarket "basePath" = some value →
      value.Objectless := by
    rintro value (seen | seen)
    · cases seen
      trivial
    · cases seen
      trivial
  rw [Ne, (each "basePath" (by decide)).2.2 texts, not_or]
  exact ⟨unsettled, by decide⟩

/-- A document that names a host and has no server. -/
def unserved : Members Value :=
  [("openapi", .str "3.0.0"), ("host", .str "old.example.com"), ("paths", .obj [])]

/-- What no server has said is in the converted document, or not, as it was in the document: the host without a server, and the
base path of a server that has none. -/
theorem unserved_keeps :
    (∀ name, name ∉ placeNames → Members.get? unserved name = Members.get? (Members.erase unserved "host") name) ∧
    Setting.convert ⟨⟨none, Files.none⟩, 10⟩ (.obj unserved) =
      .ok ⟨.obj [("swagger", .str "2.0"), ("host", .str "old.example.com"), ("paths", .obj [])], []⟩ ∧
    Setting.convert ⟨⟨none, Files.none⟩, 10⟩ (.obj (Members.erase unserved "host")) =
      .ok ⟨.obj [("swagger", .str "2.0"), ("paths", .obj [])], []⟩ ∧
    Setting.convert ⟨⟨none, Files.none⟩, 10⟩ (.obj movedMarket) = .ok ⟨.obj convertedMoved, []⟩ ∧
    Setting.convert ⟨⟨none, Files.none⟩, 10⟩ (.obj newMarket) = .ok ⟨.obj convertedNew, []⟩ ∧
    Members.get? convertedMoved "basePath" ≠ Members.get? convertedNew "basePath" := by
  refine ⟨?_, by decide +kernel, by decide +kernel, movedMarket_converts, newMarket_converts, by decide⟩
  intro name other
  have apart : "host" ≠ name := by
    rintro rfl
    exact other (by decide)
  have distinct : Members.Distinct unserved := List.nodup_iff_pairwise_ne.mpr (by decide)
  exact (distinct.get?_erase_of_ne apart).symm

end Setting
end Conversion
end ApiDialect
