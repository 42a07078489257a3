import ApiDialect.Proofs.Layout
import ApiDialect.Proofs.NameOrder
import ApiDialect.Proofs.SchemaNodes

/-! The order of the names of a converted document, and of a schema that has been rewritten. Names that are
written keep their places, but each removal moves the last name, so the order is that of the input only
where the removals undo each other. -/

namespace ApiDialect
open Rewriting Value Discriminator

namespace Members
variable {α : Type}

theorem names_erase (members : Members α) (name : String) : (erase members name).names = Move.remove members.names name := by
  induction members with
  | nil => rfl
  | cons entry rest ih =>
    obtain ⟨other, held⟩ := entry
    simp only [names, List.map_cons, erase, Move.remove] at ih ⊢
    split
    next =>
      rw [List.getLast?_map]
      cases rest.getLast? <;> simp
    next => rw [List.map_cons, ih]

theorem names_insert_of_get? {members : Members α} {name : String} {held : α} (seen : get? members name = some held) (value : α) :
    (insert members name value).names = members.names := by
  rw [names_insert, if_pos (mem_names_of_get? seen)]

theorem names_insertIfAbsent (members : Members α) (name : String) (value : α) :
    (insertIfAbsent members name value).names = (Move.add name).apply members.names := by
  rw [insertIfAbsent, has, Move.apply]
  by_cases inside : name ∈ members.names
  · rw [if_pos inside, if_pos (get?_isSome_iff.mpr inside)]
  · rw [if_neg inside, if_neg (fun has => inside (get?_isSome_iff.mp has)), names, List.map_append]
    rfl

end Members

namespace Schema
variable {limit levels : Nat} {direction : Direction} {path : String} {members parted filled : Members Value} {after : Value}
  {rewrite : String → Value → Rewriting Value} {route : Route}

/-- A discriminator that has no name to leave behind. -/
def unnamed (members : Members Value) : Bool :=
  match Members.get? members "discriminator" with
  | some (.obj discriminator) => (Members.get? discriminator "propertyName").isNone
  | _ => false

def hasAlternatives (members : Members Value) : Bool :=
  Members.has members "oneOf" || Members.has members "anyOf"

/-- What its rewriting does to the names of a schema. -/
def moves (members : Members Value) : List Move :=
  [.takeOut "oneOf", .takeOut "anyOf"] ++
    (if hasAlternatives members || unnamed members then [.takeOut "discriminator"] else []) ++
    (if (Members.get? members "nullable").any isTrue then [.takeOut "nullable", .add "x-nullable"] else []) ++
    (if Members.has members "deprecated" then [.takeOut "deprecated", .add "x-deprecated"] else [])

/-- A property loses its mark on top of that. -/
def Route.moves (route : Route) : List Move :=
  match route.getLast? with
  | some (.property _) => [.takeOut "writeOnly"]
  | _ => []

theorem names_inParts (returned : Returns (inParts rewrite path members) parted) : parted.names = members.names := by
  rcases inParts_returns returned with rfl | ⟨_, _, seen, _, rfl⟩
  · rfl
  · exact Members.names_insert_of_get? seen _

theorem names_inContent (returned : Returns (inContent rewrite direction path members) filled) :
    filled.names = members.names := by
  rcases inContent_returns returned with rfl | ⟨_, _, _, seen, _, rfl⟩ | ⟨_, _, _, seen, _, rfl⟩
  · rfl
  · exact Members.names_insert_of_get? seen _
  · exact Members.names_insert_of_get? seen _

theorem names_dropAlternatives (members : Members Value) : (dropAlternatives members).names =
    Move.run (if hasAlternatives members then [.takeOut "discriminator"] else [])
      (Move.run [.takeOut "oneOf", .takeOut "anyOf"] members.names) := by
  have rest : (Members.erase (Members.erase members "oneOf") "anyOf").names =
      Move.run [.takeOut "oneOf", .takeOut "anyOf"] members.names := by
    rw [Members.names_erase, Members.names_erase]
    rfl
  rw [← rest, dropAlternatives, hasAlternatives]
  split
  next => exact Members.names_erase _ _
  next => rfl

theorem get?_dropAlternatives_discriminator (distinct : Members.Distinct members) :
    Members.get? (dropAlternatives members) "discriminator" =
      if hasAlternatives members then none else Members.get? members "discriminator" := by
  rw [dropAlternatives, hasAlternatives]
  split
  next => rw [((distinct.erase _).erase _).get?_erase_self]
  next => rw [(distinct.erase _).get?_erase_of_ne (by decide), distinct.get?_erase_of_ne (by decide)]

theorem names_collapsed (members : Members Value) : (collapsed members).names =
    Move.run (if unnamed members then [.takeOut "discriminator"] else []) members.names := by
  unfold collapsed unnamed
  cases seen : Members.get? members "discriminator" with
  | none => rfl
  | some held =>
    cases held with
    | obj discriminator =>
      cases named : Members.get? discriminator "propertyName" with
      | some name =>
        simp only [named]
        exact Members.names_insert_of_get? seen name
      | none =>
        simp only [named]
        exact Members.names_erase members "discriminator"
    | _ => rfl

/-- A discriminator goes with the alternatives, or by itself. -/
theorem names_prepared (formed : Formed (.obj members))
    (returned : Returns (inParts rewrite path (dropAlternatives members)) parted) : (collapsed parted).names =
    Move.run (if hasAlternatives members || unnamed members then [.takeOut "discriminator"] else [])
      (Move.run [.takeOut "oneOf", .takeOut "anyOf"] members.names) := by
  have same : Members.get? parted "discriminator" =
      if hasAlternatives members then none else Members.get? members "discriminator" := by
    rw [(inParts_others (dropAlternatives_sound formed).distinct returned).2 _ (by decide),
      get?_dropAlternatives_discriminator formed.distinct]
  rw [names_collapsed, names_inParts returned, names_dropAlternatives, unnamed, same]
  cases alternatives : hasAlternatives members with
  | true => rfl
  | false =>
    rw [unnamed]
    rfl

theorem names_renameNullable (members : Members Value) : (renameNullable members).names =
    Move.run (if (Members.get? members "nullable").any isTrue then [.takeOut "nullable", .add "x-nullable"] else [])
      members.names := by
  unfold renameNullable
  split
  next =>
    rw [Members.names_insert, Members.names_erase]
    rfl
  next => rfl

theorem names_renameDeprecated (members : Members Value) : (renameDeprecated members).names =
    Move.run (if Members.has members "deprecated" then [.takeOut "deprecated", .add "x-deprecated"] else []) members.names := by
  unfold renameDeprecated Members.has
  cases Members.get? members "deprecated" with
  | none => rfl
  | some held =>
    dsimp only
    rw [Members.names_insertIfAbsent, Members.names_erase]
    rfl

theorem names_renameMarks (distinct : Members.Distinct members) : (renameMarks members).names =
    Move.run (if Members.has members "deprecated" then [.takeOut "deprecated", .add "x-deprecated"] else [])
      (Move.run (if (Members.get? members "nullable").any isTrue then [.takeOut "nullable", .add "x-nullable"] else [])
        members.names) := by
  rw [renameMarks_eq, names_renameDeprecated, names_renameNullable, Members.has,
    get?_renameNullable distinct (by decide) (by decide), ← Members.has]

theorem rewriteWithin_names (formed : Formed (.obj members))
    (returned : Returns (rewriteWithin limit direction levels path (.obj members)) after) :
    ∃ kept : Members Value, after = .obj kept ∧ kept.names = Move.run (moves members) members.names := by
  rcases rewriteWithin_returns returned with ⟨impossible, _⟩ | ⟨below, _, parted, filled, _, same, parts, content, rfl⟩
  · cases impossible
  cases same
  have ready := prepared formed parts
  refine ⟨renameMarks filled, rfl, ?_⟩
  have still {name : String} (other : name ∉ ["properties", "items"]) (plain : name ∉ ["oneOf", "anyOf", "discriminator", "allOf"]) :
      Members.get? filled name = Members.get? members name := by
    rw [get?_inContent content other, ready.others name plain]
  rw [names_renameMarks (inContent_distinct ready.distinct content), names_inContent content, names_prepared formed parts,
    Members.has, still (by decide) (by decide), still (by decide) (by decide), ← Members.has]
  simp only [moves, Move.run_append]

theorem names_trim (route : Route) (kept : Members Value) :
    ∃ left : Members Value, route.trim (.obj kept) = .obj left ∧ left.names = Move.run route.moves kept.names := by
  unfold Route.trim Route.moves
  cases route.getLast? with
  | none => exact ⟨kept, rfl, rfl⟩
  | some branch =>
    cases branch with
    | property name => exact ⟨Members.erase kept "writeOnly", rfl, Members.names_erase _ _⟩
    | _ => exact ⟨kept, rfl, rfl⟩

theorem moves_final (members : Members Value) (route : Route) : Move.Final (moves members ++ route.moves) := by
  have all : Move.Final [.takeOut "oneOf", .takeOut "anyOf", .takeOut "discriminator", .takeOut "nullable", .add "x-nullable",
    .takeOut "deprecated", .add "x-deprecated", .takeOut "writeOnly"] := by decide
  apply all.mono
  intro move member
  simp only [moves, Route.moves, List.mem_append, List.mem_ite_nil_right, List.mem_cons, List.not_mem_nil, or_false] at member ⊢
  grind

end Schema

namespace Server
variable {document : Members Value}

/-- A name is set or erased. -/
def settle (name : String) (known : Bool) : Move :=
  if known then .add name else .takeOut name

def placeMoves (location : Location) : List Move :=
  [settle "host" location.host.isSome, settle "schemes" location.scheme.isSome] ++
    if location.basePath.isSome then [.add "basePath"] else []

/-- What becomes of the names of a document when its servers do. -/
def moves (names : HostNames) (document : Members Value) : List Move :=
  (match (((Members.get? document "servers").bind first?).bind url?).map (Location.ofUrl names) with
    | some location => placeMoves location
    | none => []) ++ [.takeOut "servers", .takeOut "openapi"]

theorem names_setOrErase (document : Members Value) (name : String) (value : Option Value) :
    (setOrErase document name value).names = (settle name value.isSome).apply document.names := by
  cases value with
  | none => exact Members.names_erase document name
  | some held => exact Members.names_insert document name held

theorem names_place (document : Members Value) (location : Location) :
    (place document location).names = Move.run (placeMoves location) document.names := by
  have set : (setOrErase (setOrErase document "host" (location.host.map .str)) "schemes"
      (location.scheme.map fun scheme => .arr [.str scheme])).names =
      Move.run [settle "host" location.host.isSome, settle "schemes" location.scheme.isSome] document.names := by
    rw [names_setOrErase, names_setOrErase, Option.isSome_map, Option.isSome_map]
    rfl
  rw [placeMoves, Move.run_append, ← set, place]
  cases location.basePath with
  | none => rfl
  | some path => exact Members.names_insert _ _ _

theorem names_rewrite (names : HostNames) (document : Members Value) :
    (rewrite names document).names = Move.run (moves names document) document.names := by
  rw [rewrite, moves, Move.run_append, Members.names_erase, Members.names_erase]
  generalize (((Members.get? document "servers").bind first?).bind url?).map (Location.ofUrl names) = first
  cases first with
  | none => rfl
  | some location =>
    dsimp only
    rw [names_place]
    rfl

end Server

namespace Relocation
variable {limit : Nat} {document mapping result : Members Value} {relocated : Bool}

def sectionMoves (mapping : Members Value) : List Move :=
  (if Members.has mapping "schemas" then [.add "definitions"] else []) ++
    if Members.has mapping "securitySchemes" then [.add "securityDefinitions"] else []

/-- What becomes of the names of a document when its components move. -/
def moves (document : Members Value) : List Move :=
  match Members.get? document "components" with
  | none => []
  | some (.obj mapping) => .takeOut "components" :: sectionMoves mapping ++ [.add "x-components"]
  | some _ => [.sendBack "components"]

theorem names_moveSchemas {pair : Members Value × Members Value} (returned : Returns (moveSchemas limit document mapping) pair) :
    pair.1.names = Move.run (if Members.has mapping "schemas" then [.add "definitions"] else []) document.names := by
  rw [Members.has]
  rcases moveSchemas_returns returned with ⟨absent, rfl⟩ | ⟨_, _, seen, _, rfl⟩
  · rw [absent]
    rfl
  · rw [seen]
    exact Members.names_insert _ _ _

theorem names_moveSecurity {pair : Members Value × Members Value} (made : moveSecurity document mapping = .ok pair) :
    pair.1.names = Move.run (if Members.has mapping "securitySchemes" then [.add "securityDefinitions"] else []) document.names := by
  rw [Members.has]
  rcases moveSecurity_eq_ok.mp made with ⟨absent, rfl⟩ | ⟨_, _, seen, _, rfl⟩
  · rw [absent]
    rfl
  · rw [seen]
    exact Members.names_insert _ _ _

theorem names_components (distinct : Members.Distinct document)
    (inner : ∀ mapping, Members.get? document "components" = some (.obj mapping) → Members.Distinct mapping)
    (returned : Returns (components limit document) (result, relocated)) : result.names = Move.run (moves document) document.names := by
  rcases components_returns returned with ⟨absent, rfl, _⟩ | ⟨other, seen, plain, rfl, _⟩ |
    ⟨mapping, schemed, secured, seen, first, second, rfl, _⟩
  · rw [moves, absent]
    rfl
  · have back : moves document = [.sendBack "components"] := by
      rw [moves, seen]
      cases other <;> cases plain <;> rfl
    have gone : Members.get? (Members.erase document "components") "components" = none := distinct.get?_erase_self _
    rw [back, Members.names_insert, if_neg (Members.get?_eq_none_iff.mp gone), Members.names_erase]
    rfl
  · have there : moves document = .takeOut "components" :: sectionMoves mapping ++ [.add "x-components"] := by
      rw [moves, seen]
    have still : Members.get? schemed.2 "securitySchemes" = Members.get? mapping "securitySchemes" :=
      (moves_of (inner mapping seen) (moveSchemas_returns first)).rest "securitySchemes"
    rw [there, List.cons_append, Move.run_cons, Move.run_append, sectionMoves, Move.run_append, Members.names_insert,
      names_moveSecurity second, Members.has, still, ← Members.has, names_moveSchemas first, Members.names_erase]
    rfl

end Relocation

namespace Conversion
namespace Setting
variable {setting : Setting} {document : Members Value} {converted : Converted}

/-- What a conversion does to the names of a document. -/
def moves (setting : Setting) (document : Members Value) : List Move :=
  .add "swagger" :: (Server.moves setting.hostNames document ++ Relocation.moves document)

/-- Nothing that a conversion takes out comes back, and it takes out no mark. -/
theorem moves_subset (setting : Setting) (document : Members Value) :
    ∃ all, setting.moves document ⊆ all ∧ Move.Final all ∧ ∀ name ∈ all.filterMap Move.gone?, ¬ isMark name := by
  obtain ⟨host, scheme, first⟩ : ∃ host scheme : Bool, Server.moves setting.hostNames document ⊆
      [Server.settle "host" host, Server.settle "schemes" scheme, .add "basePath", .takeOut "servers", .takeOut "openapi"] := by
    unfold Server.moves
    generalize (((Members.get? document "servers").bind Server.first?).bind Server.url?).map (Server.Location.ofUrl setting.hostNames) = first
    cases first with
    | none => exact ⟨true, true, by simp⟩
    | some location =>
      refine ⟨location.host.isSome, location.scheme.isSome, ?_⟩
      intro move member
      simp only [Server.placeMoves, List.mem_append, List.mem_ite_nil_right, List.mem_cons, List.not_mem_nil, or_false] at member ⊢
      grind
  have second : Relocation.moves document ⊆ [.sendBack "components"] ∨ Relocation.moves document ⊆
      [.takeOut "components", .add "definitions", .add "securityDefinitions", .add "x-components"] := by
    unfold Relocation.moves
    split
    next => simp
    next mapping _ =>
      refine Or.inr ?_
      intro move member
      simp only [Relocation.sectionMoves, List.cons_append, List.mem_append, List.mem_ite_nil_right, List.mem_cons,
        List.not_mem_nil, or_false] at member ⊢
      grind
    next => simp
  rcases second with second | second
  · refine ⟨_, List.cons_subset_cons _ (List.append_subset.mpr ⟨List.subset_append_of_subset_left _ first,
      List.subset_append_of_subset_right _ second⟩), ?_⟩
    cases host <;> cases scheme <;> decide
  · refine ⟨_, List.cons_subset_cons _ (List.append_subset.mpr ⟨List.subset_append_of_subset_left _ first,
      List.subset_append_of_subset_right _ second⟩), ?_⟩
    cases host <;> cases scheme <;> decide

end Setting
end Conversion

namespace Discriminator
variable {members : Members Value} {after : Value}

theorem names_mark (payload : String) (members : Members Value) : ∃ (changed : Members Value) (tail : List String),
    mark payload (.obj members) = .obj changed ∧ changed.names = members.names ++ tail ∧ ∀ name ∈ tail, isMark name := by
  have step {name : String} (marks : isMark name) (before : Members Value) : ∃ tail,
      (Members.insert before name (.str payload)).names = before.names ++ tail ∧ ∀ name ∈ tail, isMark name := by
    rw [Members.names_insert]
    split
    next => exact ⟨[], (List.append_nil _).symm, nofun⟩
    next => exact ⟨[name], rfl, List.forall_mem_singleton.mpr marks⟩
  obtain ⟨one, first, marks⟩ := step (Or.inl rfl) members
  obtain ⟨other, second, others⟩ := step (Or.inr rfl) (Members.insert members "x-discriminator-value" (.str payload))
  refine ⟨_, one ++ other, rfl, ?_, List.forall_mem_append.mpr ⟨marks, others⟩⟩
  rw [second, first, List.append_assoc]

theorem names_modifyAt? {payload : String} {pointer : Pointer} {middle : Value}
    (written : (Value.obj members).modifyAt? (mark payload) pointer = some middle) :
    ∃ (changed : Members Value) (tail : List String),
      middle = .obj changed ∧ changed.names = members.names ++ tail ∧ ∀ name ∈ tail, isMark name := by
  cases pointer with
  | nil =>
    cases written
    exact names_mark payload members
  | cons token rest =>
    obtain ⟨_, changed, _, _, rfl⟩ := modifyAt?_cons written
    refine ⟨_, [], rfl, ?_, nofun⟩
    rw [Members.names_modify, List.append_nil]

/-- Tags add nothing but their marks to the names of an object. -/
theorem Marked.names (marked : Marked (.obj members) after) : ∃ (changed : Members Value) (tail : List String),
    after = .obj changed ∧ changed.names = members.names ++ tail ∧ ∀ name ∈ tail, isMark name := by
  generalize start : Value.obj members = before at marked
  induction marked generalizing members with
  | same value => exact ⟨members, [], start.symm, (List.append_nil _).symm, nofun⟩
  | more payload pointer written _ ih =>
    subst start
    obtain ⟨middle, tail, rfl, first, marks⟩ := names_modifyAt? written
    obtain ⟨changed, more, rfl, second, others⟩ := ih rfl
    refine ⟨changed, tail ++ more, rfl, ?_, ?_⟩
    · rw [second, first, List.append_assoc]
    · exact List.forall_mem_append.mpr ⟨marks, others⟩

end Discriminator

namespace Conversion
namespace Setting
variable {setting : Setting} {document : Members Value} {converted : Converted}

/-- The names of a converted document, in order. -/
theorem names_converted (formed : Formed (.obj document)) (made : setting.convert (.obj document) = .ok converted) :
    ∃ (output : Members Value) (tail : List String), converted.document = .obj output ∧
      output.names = Move.run (setting.moves document) document.names ++ tail ∧ ∀ name ∈ tail, isMark name := by
  obtain ⟨_, walked, laid, relocated, queue, same, paths, components, rfl⟩ := convert_stages made
  cases same
  have framed := paths_framed paths
  have swagger : Members.get? (Members.insert document "swagger" (.str "2.0")) "servers" = Members.get? document "servers" :=
    Members.get?_insert_of_ne (by decide) _
  have opening : walked.names = Move.run (.add "swagger" :: Server.moves setting.hostNames document) document.names := by
    rw [framed.names, opened, Server.names_rewrite, Members.names_insert, Server.moves, swagger]
    rfl
  have there : Members.get? walked "components" = Members.get? document "components" :=
    get?_components_walked formed.distinct paths
  have laying : laid.names = Move.run (setting.moves document) document.names := by
    have single : Members.Distinct walked := by
      rw [Members.Distinct, opening]
      exact Move.nodup_run formed.distinct _
    have inner : ∀ mapping, Members.get? walked "components" = some (.obj mapping) → Members.Distinct mapping := by
      intro mapping seen
      rw [there] at seen
      exact Sound.distinct (Sound.get? formed seen)
    rw [Relocation.names_components single inner components, opening, Relocation.moves, there, ← Move.run_append]
    rfl
  obtain ⟨marked, written, same⟩ := finish_eq setting laid relocated queue
  obtain ⟨changed, tail, rfl, names, marks⟩ := written.names
  refine ⟨readdressed relocated changed, tail, ?_, ?_, marks⟩
  · rw [same, readdressed]
    cases relocated <;> rfl
  · rw [names_readdressed, names, laying]

/-- Names that stay keep their order, at the root of a document and at every node of a schema, exactly when
the moves of all other names cross every two of them an even number of times. -/
theorem order_kept_iff (setting : Setting) (document : Members Value) (limit : Nat) (direction : Direction) (schema : Value) :
    ((Value.obj document).WellFormed → ∀ converted, setting.convert (.obj document) = .ok converted →
      ∃ (output : Members Value) (tail : List String), converted.document = .obj output ∧
        output.names = Move.run (setting.moves document) document.names ++ tail ∧ (∀ name ∈ tail, isMark name) ∧
        (InOrder document.names output.names ↔ Move.EvenlyCrossed (setting.moves document) document.names output.names)) ∧
    (schema.WellFormed → ∀ after, Returns (Schema.rewrite limit direction schema) after →
      ∀ route members, Schema.Reaches direction schema route (.obj members) →
        ∃ kept : Members Value, route.node? after = some (.obj kept) ∧
          kept.names = Move.run (Schema.moves members ++ route.moves) (Members.names members) ∧
          (InOrder (Members.names members) kept.names ↔
            Move.EvenlyCrossed (Schema.moves members ++ route.moves) (Members.names members) kept.names)) := by
  constructor
  · intro formed converted made
    have whole : Formed (.obj document) := formed_iff.mpr formed
    obtain ⟨output, tail, same, names, marks⟩ := names_converted whole made
    obtain ⟨all, inside, final, plain⟩ := moves_subset setting document
    -- A mark may have been there before, but then it was never taken out.
    have behind : ∀ name ∈ tail, .takeOut name ∉ setting.moves document := by
      intro name member gone
      exact plain name (Move.mem_filterMap_gone?.mpr (inside gone)) (marks name member)
    refine ⟨output, tail, same, names, marks, ?_⟩
    rw [names]
    exact Move.inOrder_run_iff whole.distinct (final.mono inside) tail behind
  · intro formed after returned route members reaches
    have whole : Formed schema := formed_iff.mpr formed
    have inner : Formed (.obj members) := reaches.sound whole
    obtain ⟨below, path, result, made, found⟩ := reaches.rewritten whole returned
    obtain ⟨rewritten, rfl, names⟩ := Schema.rewriteWithin_names inner made
    obtain ⟨kept, trimmed, left⟩ := Schema.names_trim route rewritten
    have all : kept.names = Move.run (Schema.moves members ++ route.moves) (Members.names members) := by
      rw [left, names, Move.run_append]
    refine ⟨kept, found.trans (congrArg some trimmed), all, ?_⟩
    have order := Move.inOrder_run_iff inner.distinct (Schema.moves_final members route) [] nofun
    rw [List.append_nil] at order
    rw [all]
    exact order

/-- An exhibit that loses its alternatives one after the other. -/
def exhibit : Members Value := [("anyOf", .arr []), ("oneOf", .arr []), ("type", .str "string"), ("description", .str "")]

/-- A gallery that ends with its exhibits. -/
def gallery : Members Value :=
  [("openapi", .str "3.0.0"), ("info", .obj []), ("paths", .obj []),
    ("components", .obj [("schemas", .obj [("Exhibit", .obj exhibit)])])]

def convertedGallery : Members Value :=
  [("swagger", .str "2.0"), ("info", .obj []), ("paths", .obj []),
    ("definitions", .obj [("Exhibit", .obj [("type", .str "string"), ("description", .str "")])]), ("x-components", .obj [])]

/-- The description of the exhibit passes its type, and then the type passes the description. -/
theorem gallery_kept : (Value.obj gallery).WellFormed ∧
    Setting.convert ⟨⟨none, Files.none⟩, 10⟩ (.obj gallery) = .ok ⟨.obj convertedGallery, []⟩ ∧
    InOrder gallery.names convertedGallery.names ∧ (Value.obj exhibit).WellFormed ∧
    Returns (Schema.rewrite 10 .request (.obj exhibit)) (.obj [("type", .str "string"), ("description", .str "")]) ∧
    Move.crossings (Schema.moves exhibit) exhibit.names "type" "description" = 2 ∧
    InOrder exhibit.names ["type", "description"] := by
  have formed : (Value.obj gallery).WellFormed := by decide
  have made : Setting.convert ⟨⟨none, Files.none⟩, 10⟩ (.obj gallery) = .ok ⟨.obj convertedGallery, []⟩ := by decide +kernel
  have single : (Value.obj exhibit).WellFormed := by decide
  have returned : Returns (Schema.rewrite 10 .request (.obj exhibit)) (.obj [("type", .str "string"), ("description", .str "")]) :=
    ⟨.empty, .empty, rfl⟩
  refine ⟨formed, made, ?_, single, returned, by decide +kernel, ?_⟩
  · obtain ⟨output, tail, same, names, marks, order⟩ := (order_kept_iff _ gallery 10 .request .null).1 formed _ made
    cases same
    exact order.mpr (by decide +kernel)
  · obtain ⟨kept, same, names, order⟩ :=
      (order_kept_iff ⟨⟨none, Files.none⟩, 10⟩ gallery 10 .request (.obj exhibit)).2 single _ returned [] exhibit (.here _)
    cases same
    exact order.mpr (by decide +kernel)

/-- A note that may be missing. -/
def note : Members Value := [("nullable", .bool true), ("type", .str "string"), ("description", .str "")]

/-- A guestbook with a section behind its notes. -/
def guestbook : Members Value :=
  [("openapi", .str "3.0.0"), ("info", .obj []), ("paths", .obj []),
    ("components", .obj [("schemas", .obj [("Note", .obj note)])]), ("security", .arr []), ("tags", .arr [])]

/-- The guestbook when it has been converted. -/
def convertedGuestbook : Members Value :=
  [("swagger", .str "2.0"), ("info", .obj []), ("paths", .obj []), ("tags", .arr []), ("security", .arr []),
    ("definitions", .obj [("Note", .obj [("description", .str ""), ("type", .str "string"), ("x-nullable", .bool true)])]),
    ("x-components", .obj [])]

/-- The tags of the guestbook have passed its security, and the description of a note its type. -/
theorem guestbook_reordered : (Value.obj guestbook).WellFormed ∧
    Setting.convert ⟨⟨none, Files.none⟩, 10⟩ (.obj guestbook) = .ok ⟨.obj convertedGuestbook, []⟩ ∧
    ¬ InOrder guestbook.names convertedGuestbook.names ∧ (Value.obj note).WellFormed ∧
    Returns (Schema.rewrite 10 .response (.obj note))
      (.obj [("description", .str ""), ("type", .str "string"), ("x-nullable", .bool true)]) ∧
    ¬ InOrder note.names ["description", "type", "x-nullable"] := by
  have returned : Returns (Schema.rewrite 10 .response (.obj note))
      (.obj [("description", .str ""), ("type", .str "string"), ("x-nullable", .bool true)]) :=
    ⟨.empty, .empty, rfl⟩
  refine ⟨by decide, by decide +kernel, by decide +kernel, by decide, returned, by decide +kernel⟩

end Setting
end Conversion
end ApiDialect
