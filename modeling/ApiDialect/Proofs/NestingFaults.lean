import ApiDialect.Proofs.SchemaNodes

/-! When a schema is nested too deeply. Its rewriting fails on exactly those schemas that have a node
below the last level that is allowed, and what it reports is the first of these nodes. -/

namespace ApiDialect
open Rewriting Value

theorem findSome?_cons_or {α β : Type} (search : α → Option β) (item : α) (rest : List α) :
    (item :: rest).findSome? search = (search item).or (rest.findSome? search) := by
  rw [List.findSome?_cons]
  cases search item <;> rfl

namespace Rewriting
variable {α β : Type}

/-- Whatever has been queued before, a run fails for one cause, or it does not fail. -/
def Fails (rewriting : Rewriting α) (fault : Option Error) : Prop :=
  ∀ before, cause? (rewriting.run.run before).1 = fault

theorem fails_pure (value : α) : Fails (pure value) none :=
  fun _ => rfl

theorem fails_throw (error : Error) : Fails (throw error : Rewriting α) (some error) :=
  fun _ => rfl

/-- What comes next fails only where the first part does not. -/
theorem Fails.bind {first : Rewriting α} {next : α → Rewriting β} {one other : Option Error} (fails : Fails first one)
    (following : ∀ value, Returns first value → Fails (next value) other) : Fails (first >>= next) (one.or other) := by
  intro before
  have cause := fails before
  rw [run_bind]
  rcases ran : first.run.run before with ⟨error | value, after⟩
  · rw [ran] at cause
    rw [← cause]
    rfl
  · rw [ran] at cause
    rw [← cause]
    exact following value ⟨before, after, ran⟩ after

/-- What follows does not fail. -/
theorem Fails.bind_none {first : Rewriting α} {next : α → Rewriting β} {fault : Option Error} (fails : Fails first fault)
    (following : ∀ value, Fails (next value) none) : Fails (first >>= next) fault := by
  have both := fails.bind fun value _ => following value
  rwa [Option.or_none] at both

theorem Fails.bind_pure {first : Rewriting α} {next : α → β} {fault : Option Error} (fails : Fails first fault) :
    Fails (first >>= fun value => pure (next value)) fault :=
  fails.bind_none fun value => fails_pure (next value)

theorem Fails.forM_none {step : α → Rewriting Unit} (each : ∀ item, Fails (step item) none) (items : List α) :
    Fails (items.forM step) none := by
  induction items with
  | nil => exact fails_pure ()
  | cons item rest ih => exact (each item).bind_none fun _ => ih

end Rewriting

namespace Schema
variable {limit levels : Nat} {direction : Direction} {path : String} {members : Members Value} {schema value : Value}
  {rewrite : String → Value → Rewriting Value} {fault : String → Value → Option Error}

theorem queueTag_fails (payload : String) (target : Value) : Fails (queueTag payload target) none := by
  cases target <;> exact fun _ => rfl

theorem nameDiscriminator_fails {discriminator : Members Value} :
    Fails (match Members.get? discriminator "propertyName" with
      | some name => pure (Members.insert members "discriminator" name)
      | none => pure (Members.erase members "discriminator")) none := by
  split
  next => exact fails_pure _
  next => exact fails_pure _

/-- A discriminator is never a reason to fail. -/
theorem collapseDiscriminator_fails (members : Members Value) : Fails (collapseDiscriminator members) none := by
  unfold collapseDiscriminator
  split
  next =>
    dsimp only
    split
    next mapping _ =>
      apply (Fails.forM_none (fun entry => queueTag_fails entry.1 entry.2) mapping).bind_none
      intro _
      exact nameDiscriminator_fails
    next => exact nameDiscriminator_fails
  next => exact fails_pure _

theorem eachItem_fails (each : ∀ path value, Formed value → Fails (rewrite path value) (fault path value)) {items : List Value}
    (formed : ∀ item ∈ items, Formed item) (index : Nat) :
    Fails (eachItem rewrite path index items)
      ((items.zipIdx index).findSome? fun part => fault (path ++ (Branch.part part.2).text) part.1) := by
  induction items generalizing index with
  | nil => exact fails_pure []
  | cons item rest ih =>
    obtain ⟨first, later⟩ := List.forall_mem_cons.mp formed
    rw [List.zipIdx_cons, findSome?_cons_or, Branch.text, ← String.append_assoc]
    exact (each _ item first).bind fun _ _ => (ih later (index + 1)).bind_pure

theorem eachProperty_fails (each : ∀ path value, Formed value → Fails (rewrite path value) (fault path value))
    {properties : Members Value} (formed : ∀ entry ∈ properties, Formed entry.2) :
    Fails (eachProperty rewrite path properties)
      (properties.findSome? fun entry => fault (path ++ (Branch.property entry.1).text) entry.2) := by
  induction properties with
  | nil => exact fails_pure []
  | cons entry rest ih =>
    obtain ⟨first, later⟩ := List.forall_mem_cons.mp formed
    rw [findSome?_cons_or, Branch.text, ← String.append_assoc]
    exact (each _ entry.2 first).bind fun _ _ => (ih later).bind_pure

/-- The parts fail for the first of them that does. -/
theorem inParts_fails (each : ∀ path value, Formed value → Fails (rewrite path value) (fault path value))
    (formed : Formed (.obj members)) :
    Fails (inParts rewrite path members)
      ((partBranches members).findSome? fun below => fault (path ++ below.1.text) below.2) := by
  unfold inParts partBranches
  rw [List.findSome?_map]
  split
  next items seen =>
    rw [parts_of_listed seen]
    have inner : ∀ item ∈ items, Formed item := fun item member => (Sound.get? formed seen).item member
    exact (eachItem_fails each inner 0).bind_pure
  next other =>
    rw [parts_of_bare other]
    exact fails_pure members

theorem inContent_fails (each : ∀ path value, Formed value → Fails (rewrite path value) (fault path value))
    (object : ∀ held, Members.get? members "properties" = some held → Formed held)
    (array : ∀ held, Members.get? members "items" = some held → Formed held) :
    Fails (inContent rewrite direction path members)
      ((contentBranches direction members).findSome? fun below => fault (path ++ below.1.text) below.2) := by
  unfold inContent
  split
  next isObject =>
    split
    next properties seen =>
      have kept := keepProperties_sound direction (object _ seen)
      rw [contentBranches_object isObject seen, List.findSome?_map]
      exact (eachProperty_fails each fun entry member => (kept.entry member).2).bind_pure
    next other =>
      rw [contentBranches_of_bare isObject other]
      exact fails_pure members
  next isArray =>
    rw [contentBranches_array isArray]
    split
    next items seen =>
      rw [seen, Option.toList_some, List.map_singleton, findSome?_cons_or, List.findSome?_nil, Option.or_none]
      exact (each (path ++ "/items") items (array items seen)).bind_pure
    next absent =>
      rw [absent]
      exact fails_pure members
  next other another =>
    rw [contentBranches_of_scalar other another]
    exact fails_pure members

/-- What is reported when a node is the first to be too deep. -/
def excess (limit : Nat) (path : String) (nodes : List (Route × Value)) : Option Error :=
  nodes.head?.map fun node => .nestingExceeded (path ++ Route.text node.1) limit

/-- The nodes a level further down are those below the first branch, then those below the next. -/
theorem excess_succ (limit levels : Nat) (direction : Direction) (path : String) (members : Members Value) :
    excess limit path (nodesAt direction (levels + 1) (.obj members)) =
      (branches direction members).findSome? fun below =>
        excess limit (path ++ below.1.text) (nodesAt direction levels below.2) := by
  rw [excess, nodesAt, List.head?_flatMap, List.map_findSome?]
  congr 1
  funext below
  simp only [Function.comp_apply, List.head?_map, excess, Option.map_map]
  congr 1
  funext node
  simp only [Function.comp_apply, Route.text, String.append_assoc]

/-- The induction is on the levels that are left. -/
theorem rewriteWithin_fails (limit : Nat) (direction : Direction) (levels : Nat) (path : String) (value : Value)
    (formed : Formed value) :
    Fails (rewriteWithin limit direction levels path value) (excess limit path (nodesAt direction levels value)) := by
  induction levels generalizing path value with
  | zero =>
    have here : excess limit path (nodesAt direction 0 value) = some (.nestingExceeded path limit) := by
      simp only [excess, nodesAt, List.head?_cons, Option.map_some, Route.text, String.append_empty]
    rw [here]
    exact fails_throw _
  | succ levels ih =>
    cases value with
    | obj members =>
      have dropped := dropAlternatives_sound formed
      have bare {name : String} (other : name ∉ ["oneOf", "anyOf", "discriminator"]) :
          Members.get? (dropAlternatives members) name = Members.get? members name :=
        get?_dropAlternatives formed.distinct other
      have upper : partBranches (dropAlternatives members) = partBranches members := by
        simp only [partBranches, parts, bare (by decide : "allOf" ∉ _)]
      rw [excess_succ, branches, List.findSome?_append, ← upper]
      unfold rewriteWithin
      apply (inParts_fails ih dropped).bind
      intro parted returned
      have ready := prepared formed returned
      have lower : contentBranches direction (collapsed parted) = contentBranches direction members := by
        simp only [contentBranches, textAt?, ready.others "type" (by decide), ready.others "properties" (by decide),
          ready.others "items" (by decide)]
      -- The discriminator stands between the parts and the content, and it has no fault of its own.
      rw [← lower, ← Option.none_or (o := List.findSome? _ (contentBranches direction (collapsed parted)))]
      apply (collapseDiscriminator_fails parted).bind
      intro whole collapse
      obtain rfl := collapseDiscriminator_returns collapse
      apply Fails.bind_pure
      apply inContent_fails ih
      · intro properties seen
        exact Sound.get? formed ((ready.others _ (by decide)).symm.trans seen)
      · intro items seen
        exact Sound.get? formed ((ready.others _ (by decide)).symm.trans seen)
    | _ => exact fails_pure _

/-- A schema is refused when a route leads further down than the limit allows, and only then. The one
error there is names the limit and the first of the nodes that are one level too deep. -/
theorem rewrite_fails_iff (formed : schema.WellFormed) (limit : Nat) (direction : Direction) (before : Queue) :
    ((∃ error, ((Schema.rewrite limit direction schema).run.run before).1 = .error error) ↔
      ∃ route node, Reaches direction schema route node ∧ route.length = limit + 1) ∧
    ∀ error, ((Schema.rewrite limit direction schema).run.run before).1 = .error error ↔
      ∃ route node later, nodesAt direction (limit + 1) schema = (route, node) :: later ∧
        error = .nestingExceeded ("#" ++ route.text) limit := by
  have cause := rewriteWithin_fails limit direction (limit + 1) "#" schema (formed_iff.mpr formed) before
  have second : ∀ error, ((Schema.rewrite limit direction schema).run.run before).1 = .error error ↔
      ∃ route node later, nodesAt direction (limit + 1) schema = (route, node) :: later ∧
        error = .nestingExceeded ("#" ++ route.text) limit := by
    intro error
    rw [← cause?_eq_some_iff, Schema.rewrite, cause, excess]
    cases nodesAt direction (limit + 1) schema with
    | nil => simp
    | cons first later =>
      obtain ⟨route, node⟩ := first
      simp [eq_comm]
  refine ⟨?_, second⟩
  constructor
  · rintro ⟨error, failed⟩
    obtain ⟨route, node, later, same, _⟩ := (second error).mp failed
    have member : (route, node) ∈ nodesAt direction (limit + 1) schema := by
      rw [same]
      exact List.mem_cons_self
    exact ⟨route, node, mem_nodesAt_iff.mp member⟩
  · rintro ⟨route, node, reaches⟩
    obtain ⟨⟨first, found⟩, later, same⟩ := List.exists_cons_of_ne_nil (List.ne_nil_of_mem (mem_nodesAt_iff.mpr reaches))
    exact ⟨_, (second _).mpr ⟨first, found, later, same, rfl⟩⟩

/-- What is in a wardrobe is two levels down, and what its lock is made of only the owner says. -/
def wardrobe : Value :=
  .obj [("type", .str "object"),
    ("properties", .obj [
      ("lock", .obj [("writeOnly", .bool true), ("type", .str "array"),
        ("items", .obj [("type", .str "array"), ("items", .null)])]),
      ("shelves", .obj [("type", .str "array"), ("items", .obj [("type", .str "string")])])]),
    ("oneOf", .arr [.obj [("allOf", .arr [.obj [("allOf", .arr [.null])]])]]),
    ("allOf", .arr [.null, .obj [("type", .str "array"), ("items", .num (.int 5))]])]

/-- Two levels are enough for an answer, one level is not, and a request needs three. -/
theorem wardrobe_fails : wardrobe.WellFormed ∧
    ((Schema.rewrite 1 .response wardrobe).run.run .empty).1 = .error (.nestingExceeded "#/allOf/1/items" 1) ∧
    ((Schema.rewrite 2 .request wardrobe).run.run .empty).1 =
      .error (.nestingExceeded "#/properties/lock/items/items" 2) ∧
    ¬ ∃ error, ((Schema.rewrite 2 .response wardrobe).run.run .empty).1 = .error error := by
  have formed : wardrobe.WellFormed := by decide
  refine ⟨formed, ?_, ?_, ?_⟩
  · apply ((rewrite_fails_iff formed 1 .response .empty).2 _).mpr
    refine ⟨[.part 1, .items], .num (.int 5), [([.property "shelves", .items], .obj [("type", .str "string")])], ?_, ?_⟩
    · decide +kernel
    · decide +kernel
  · apply ((rewrite_fails_iff formed 2 .request .empty).2 _).mpr
    refine ⟨[.property "lock", .items, .items], .null, [], ?_, ?_⟩
    · decide +kernel
    · decide +kernel
  · intro failed
    obtain ⟨route, node, reaches⟩ := (rewrite_fails_iff formed 2 .response .empty).1.mp failed
    have none : nodesAt .response 3 wardrobe = [] := by decide +kernel
    have member := mem_nodesAt_iff.mpr reaches
    rw [none] at member
    cases member

end Schema
end ApiDialect
