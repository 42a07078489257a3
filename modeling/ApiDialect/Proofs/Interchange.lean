import ApiDialect.Proofs.Agreement
import ApiDialect.Proofs.OperationFrames
import ApiDialect.Proofs.SoundPaths

/-! When one document, with the files beside it, may stand for another while a path item is converted.
All that is read of them are the targets of references, so it is enough that those are the same. -/

namespace ApiDialect
open Rewriting Value

/-- Good references lead to the same good targets in both documents. What an item holds is good;
what has been made of it may only be fine. -/
structure Interchangeable (resolver deputy : Resolver) (root other : Value) (good : String → Value → Prop)
    (fine : Value → Prop) (queues : Queue → Prop) : Prop where
  shallow : Shallow fine
  refers : ∀ name value, good name value → atReference fine name value
  leads : ∀ reference target, fine (.str reference) → resolver.follow root reference = .ok target → target.Sound good
  agree : ∀ reference, fine (.str reference) → resolver.follow root reference = deputy.follow other reference
  may : Queues good queues

variable {resolver deputy : Resolver} {root other : Value} {good : String → Value → Prop} {fine : Value → Prop}
  {queues : Queue → Prop}

namespace Interchangeable
variable {node target : Value} (same : Interchangeable resolver deputy root other good fine queues)
include same

theorem refers_of_sound {value : Value} (sound : Sound good value) : Refers fine value := sound.weaken same.refers

theorem leadsGood : resolver.Leads root good :=
  fun reference target held found => same.leads reference target (same.refers _ _ held rfl) found

theorem leadsFine : resolver.Leads root (atReference fine) :=
  fun reference target held found => same.refers_of_sound (same.leads reference target (held rfl) found)

theorem resolve_eq (refers : Refers fine node) : resolver.resolve root node = deputy.resolve other node := by
  unfold Resolver.resolve
  split
  next reference seen => exact same.agree reference (refers.reference seen)
  next => rfl

theorem inlineExternal_eq (refers : Refers fine node) :
    resolver.inlineExternal root node = deputy.inlineExternal other node := by
  unfold Resolver.inlineExternal
  split
  next => exact same.resolve_eq refers
  next => rfl

end Interchangeable

theorem mapM_congr {ε α β : Type} {change other : α → Except ε β} {items : List α}
    (each : ∀ item ∈ items, change item = other item) : items.mapM change = items.mapM other := by
  induction items with
  | nil => rfl
  | cons item rest ih =>
    rw [List.mapM_cons, List.mapM_cons, each item List.mem_cons_self,
      ih fun item member => each item (List.mem_cons_of_mem _ member)]

/-- What comes next has to be the same only after success. -/
theorem except_bind_congr {ε α β : Type} {first second : Except ε α} {next rest : α → Except ε β}
    (same : first = second) (following : ∀ value, first = .ok value → next value = rest value) :
    first >>= next = second >>= rest := by
  subst same
  cases first with
  | error => rfl
  | ok value => exact following value rfl

namespace Parameter
variable {parameter owner : Members Value} {node : Value}

theorem flatten_eq (same : Interchangeable resolver deputy root other good fine queues) (refers : Refers fine (.obj parameter)) :
    flatten resolver root parameter = flatten deputy other parameter := by
  unfold flatten
  cases seen : Members.get? parameter "schema" with
  | none => rfl
  | some schema => rw [Option.mapM_some, Option.mapM_some, same.resolve_eq (refers.get? seen)]

theorem rewrite_eq (same : Interchangeable resolver deputy root other good fine queues) (refers : Refers fine (.obj parameter)) :
    rewrite resolver root parameter = rewrite deputy other parameter := by
  unfold rewrite
  rw [flatten_eq same refers]

theorem rewriteNode_eq (same : Interchangeable resolver deputy root other good fine queues) (refers : Refers fine node) :
    rewriteNode resolver root node = rewriteNode deputy other node := by
  refine except_bind_congr (same.resolve_eq refers) fun target found => ?_
  cases target with
  | obj parameter =>
    dsimp only
    rw [rewrite_eq same (refers.resolve same.leadsFine found)]
  | _ => rfl

theorem rewriteAll_eq (same : Interchangeable resolver deputy root other good fine queues) (refers : Refers fine (.obj owner)) :
    rewriteAll resolver root owner = rewriteAll deputy other owner := by
  unfold rewriteAll
  split
  next nodes seen => rw [mapM_congr fun node member => rewriteNode_eq same ((refers.get? seen).item member)]
  next => rfl

end Parameter

namespace RequestBody
namespace Setting
variable {limit : Nat} {parameter body content operation : Members Value} {schema : Option Value}

theorem asForm_agrees (same : Interchangeable resolver deputy root other good fine queues)
    (sound : ∀ node, schema = some node → Sound good node) :
    Agrees queues (asForm ⟨resolver, limit, root⟩ parameter schema) (asForm ⟨deputy, limit, other⟩ parameter schema) := by
  unfold asForm
  cases schema with
  | none => exact .pure same.may.closed _
  | some node =>
    have held := sound node rfl
    refine .bind same.may.closed (.lift same.may.closed (same.resolve_eq (same.refers_of_sound held))) fun target found => ?_
    refine .bind same.may.closed (Schema.rewrite_agrees same.may ?_) fun rewritten _ => ?_
    · exact held.resolve same.leadsGood (returns_lift.mp found)
    · split
      next => exact .pure same.may.closed _
      next => exact .pure same.may.closed _

theorem asJson_agrees (same : Interchangeable resolver deputy root other good fine queues)
    (sound : ∀ node, schema = some node → Sound good node) :
    Agrees queues (asJson ⟨resolver, limit, root⟩ parameter schema) (asJson ⟨deputy, limit, other⟩ parameter schema) := by
  unfold asJson
  cases schema with
  | none => exact .pure same.may.closed _
  | some node =>
    exact .bind same.may.closed (Schema.rewrite_agrees same.may (sound node rfl)) fun _ _ => .pure same.may.closed _

/-- The schema of bytes has no discriminator, so it queues nothing. -/
theorem binary_agrees (closed : Closed queues) :
    Agrees queues (Schema.rewrite limit .request binary) (Schema.rewrite limit .request binary) := by
  have may : Queues (fun name _ => name ≠ "discriminator") queues :=
    ⟨closed, fun _ _ impossible _ => absurd rfl impossible⟩
  have sound : Sound (fun name _ => name ≠ "discriminator") binary :=
    sound_obj_iff.mpr ⟨(by decide : ["type", "format"].Nodup), by simp [SoundEntry]⟩
  exact Schema.rewrite_agrees may sound

theorem asBytes_agrees (same : Interchangeable resolver deputy root other good fine queues)
    (sound : ∀ node, schema = some node → Sound good node) :
    Agrees queues (asBytes ⟨resolver, limit, root⟩ parameter schema)
      (asBytes ⟨deputy, limit, other⟩ parameter schema) := by
  unfold asBytes
  refine .bind same.may.closed ?_ fun _ _ => .pure same.may.closed _
  cases schema with
  | none => exact binary_agrees same.may.closed
  | some node => exact Schema.rewrite_agrees same.may (sound node rfl)

theorem parameters_agrees {key : String} {kind : MediaType.BodyKind}
    (same : Interchangeable resolver deputy root other good fine queues) (sound : Sound good (.obj content)) :
    Agrees queues (parameters ⟨resolver, limit, root⟩ body content key kind)
      (parameters ⟨deputy, limit, other⟩ body content key kind) := by
  have declared : ∀ node, schemaAt? content key = some node → Sound good node := by
    intro node seen
    obtain ⟨media, inside, held⟩ := Option.bind_eq_some_iff.mp seen
    exact (sound.get? inside).valueGet? held
  unfold parameters
  refine .bind same.may.closed ?_ fun schema found => ?_
  · cases seen : schemaAt? content key with
    | none => exact .pure same.may.closed none
    | some node =>
      rw [Option.mapM_some, Option.mapM_some, same.inlineExternal_eq (same.refers_of_sound (declared node seen))]
      rw [map_eq_pure_bind]
      exact .bind same.may.closed (.lift same.may.closed rfl) fun _ _ => .pure same.may.closed _
  · have inlined : ∀ node, schema = some node → Sound good node := by
      rintro node rfl
      rcases lift_mapM_returns found with ⟨_, impossible⟩ | ⟨held, made, seen, fetched, rest⟩
      · cases impossible
      · cases rest
        exact (declared held seen).inlineExternal same.leadsGood fetched
    cases kind with
    | form => exact asForm_agrees same inlined
    | json => exact asJson_agrees same inlined
    | other => exact asBytes_agrees same inlined

theorem replaceBody_agrees (same : Interchangeable resolver deputy root other good fine queues)
    (sound : ∀ node, Members.get? operation "requestBody" = some node → Sound good node) :
    Agrees queues (replaceBody ⟨resolver, limit, root⟩ operation) (replaceBody ⟨deputy, limit, other⟩ operation) := by
  unfold replaceBody
  split
  next => exact .pure same.may.closed _
  next node seen =>
    have held := sound node seen
    refine .bind same.may.closed (.lift same.may.closed (same.resolve_eq (same.refers_of_sound held))) fun target found => ?_
    have resolved := held.resolve same.leadsGood (returns_lift.mp found)
    dsimp only
    split
    next content inside =>
      have contained : Sound good (.obj content) := by
        rw [Members.get?_insert_of_ne (by decide)] at inside
        cases target with
        | obj members => exact resolved.get? inside
        | _ => cases inside
      split
      next => exact .pure same.may.closed _
      next => exact .bind same.may.closed (parameters_agrees same contained) fun _ _ => .pure same.may.closed _
    next => exact .pure same.may.closed _

theorem rewriteOperation_agrees (same : Interchangeable resolver deputy root other good fine queues)
    (sound : Sound good (.obj operation)) :
    Agrees queues (rewriteOperation ⟨resolver, limit, root⟩ operation)
      (rewriteOperation ⟨deputy, limit, other⟩ operation) := by
  have started := withParameters_refers (same.refers_of_sound sound)
  unfold rewriteOperation
  refine .bind same.may.closed (replaceBody_agrees same fun node seen => ?_) fun replaced made => ?_
  · rw [get?_withParameters (by decide)] at seen
    exact sound.get? seen
  · exact .lift same.may.closed
      (Parameter.rewriteAll_eq same (replaceBody_refers same.shallow same.leadsFine made started))

end Setting
end RequestBody

namespace Response
variable {response : Members Value} {produced : List String}

theorem rewriteHeader_eq {entry : String × Value} (same : Interchangeable resolver deputy root other good fine queues)
    (refers : Refers fine entry.2) : rewriteHeader resolver root entry = rewriteHeader deputy other entry := by
  unfold rewriteHeader
  rw [same.resolve_eq refers]

theorem rewriteHeaders_eq (same : Interchangeable resolver deputy root other good fine queues)
    (refers : ∀ headers, Members.get? response "headers" = some headers → Refers fine headers) :
    rewriteHeaders resolver root response = rewriteHeaders deputy other response := by
  unfold rewriteHeaders
  split
  next headers seen =>
    have each : ∀ entry ∈ headers, rewriteHeader resolver root entry = rewriteHeader deputy other entry :=
      fun entry member => rewriteHeader_eq same ((refers _ seen).entry member).2
    rw [mapM_congr each]
  next => rfl

namespace Setting
variable {limit : Nat} {operation : Members Value} {node : Value}

theorem setSchema_agrees {schema : Option Value} (same : Interchangeable resolver deputy root other good fine queues)
    (sound : ∀ node, schema = some node → Sound good node) :
    Agrees queues (setSchema ⟨resolver, limit, root⟩ response schema)
      (setSchema ⟨deputy, limit, other⟩ response schema) := by
  unfold setSchema
  cases schema with
  | none => exact .pure same.may.closed _
  | some node =>
    have held := sound node rfl
    refine .bind same.may.closed (.lift same.may.closed (same.inlineExternal_eq (same.refers_of_sound held)))
      fun target found => ?_
    have inlined := held.inlineExternal same.leadsGood (returns_lift.mp found)
    exact .bind same.may.closed (Schema.rewrite_agrees same.may inlined) fun _ _ => .pure same.may.closed _

theorem foldInto_agrees (same : Interchangeable resolver deputy root other good fine queues) (sound : Sound good (.obj response)) :
    Agrees queues (foldInto ⟨resolver, limit, root⟩ produced response)
      (foldInto ⟨deputy, limit, other⟩ produced response) := by
  unfold foldInto
  split
  next => exact .pure same.may.closed _
  next content seen =>
    cases content with
    | obj content =>
      refine .bind same.may.closed (setSchema_agrees same fun schema chosen => ?_) fun _ _ => .pure same.may.closed _
      obtain ⟨entry, inside, held⟩ := (foldContent_from produced content).schema? chosen
      exact ((sound.get? seen).entry inside).2.valueGet? held
    | _ => exact .pure same.may.closed _

/-- The headers are those that the response came with, although its content has been folded before. -/
theorem rewriteNode_agrees (same : Interchangeable resolver deputy root other good fine queues) (sound : Sound good node) :
    Agrees queues (rewriteNode ⟨resolver, limit, root⟩ produced node)
      (rewriteNode ⟨deputy, limit, other⟩ produced node) := by
  unfold rewriteNode
  refine .bind same.may.closed (.lift same.may.closed (same.resolve_eq (same.refers_of_sound sound))) fun target found => ?_
  have resolved := sound.resolve same.leadsGood (returns_lift.mp found)
  cases target with
  | obj response =>
    refine .bind same.may.closed (foldInto_agrees same resolved) fun folded made => ?_
    refine .bind same.may.closed (.lift same.may.closed (rewriteHeaders_eq same fun headers seen => ?_))
      fun _ _ => .pure same.may.closed _
    rw [get?_foldInto resolved.distinct made (by decide), if_neg (by decide)] at seen
    exact same.refers_of_sound (resolved.get? seen)
  | _ => exact .pure same.may.closed _

theorem rewriteEach_agrees {responses : List (String × Value)} (same : Interchangeable resolver deputy root other good fine queues)
    (sound : ∀ entry ∈ responses, Sound good entry.2) :
    Agrees queues (rewriteEach ⟨resolver, limit, root⟩ produced responses)
      (rewriteEach ⟨deputy, limit, other⟩ produced responses) := by
  induction responses generalizing produced with
  | nil => exact .pure same.may.closed _
  | cons entry rest ih =>
    refine .bind same.may.closed (rewriteNode_agrees same (sound entry List.mem_cons_self)) fun _ _ => ?_
    exact .bind same.may.closed (ih fun entry member => sound entry (List.mem_cons_of_mem _ member))
      fun _ _ => .pure same.may.closed _

theorem rewriteResponses_agrees (same : Interchangeable resolver deputy root other good fine queues)
    (sound : ∀ responses, Members.get? operation "responses" = some responses → Sound good responses) :
    Agrees queues (rewriteResponses ⟨resolver, limit, root⟩ operation)
      (rewriteResponses ⟨deputy, limit, other⟩ operation) := by
  unfold rewriteResponses
  split
  next responses seen =>
    refine .bind same.may.closed (rewriteEach_agrees same fun entry member => ((sound _ seen).entry member).2) fun _ _ => ?_
    dsimp only
    split
    next => exact .pure same.may.closed _
    next => exact .pure same.may.closed _
  next => exact .pure same.may.closed _

end Setting
end Response

namespace Conversion
namespace Setting
variable {limit : Nat} {node : Value} {item members : Members Value}

theorem operation_agrees (same : Interchangeable resolver deputy root other good fine queues) (sound : Sound good (.obj members)) :
    Agrees queues (operation ⟨resolver, limit⟩ root members) (operation ⟨deputy, limit⟩ other members) := by
  refine .bind same.may.closed (RequestBody.Setting.rewriteOperation_agrees same sound) fun bodiless made => ?_
  refine Response.Setting.rewriteResponses_agrees same fun responses seen => ?_
  rw [RequestBody.Setting.get?_rewriteOperation sound.distinct made (by decide)] at seen
  exact sound.get? seen

theorem operationNode_agrees (same : Interchangeable resolver deputy root other good fine queues) (sound : Sound good node) :
    Agrees queues (operationNode ⟨resolver, limit⟩ root node) (operationNode ⟨deputy, limit⟩ other node) := by
  unfold operationNode
  refine .bind same.may.closed (.lift same.may.closed (same.resolve_eq (same.refers_of_sound sound))) fun target found => ?_
  have resolved := sound.resolve same.leadsGood (returns_lift.mp found)
  cases target with
  | obj members => exact .bind same.may.closed (operation_agrees same resolved) fun _ _ => .pure same.may.closed _
  | _ => exact .pure same.may.closed _

/-- A method still finds the operation that the item came with: the methods before it have other keys. -/
theorem methods_agree {methods : List Method} (same : Interchangeable resolver deputy root other good fine queues)
    (distinct : methods.Nodup)
    (sound : ∀ method ∈ methods, ∀ node, Members.get? item method.key = some node → Sound good node) :
    Agrees queues (methods.foldlM (Setting.method ⟨resolver, limit⟩ root) item)
      (methods.foldlM (Setting.method ⟨deputy, limit⟩ other) item) := by
  induction methods generalizing item with
  | nil => exact .pure same.may.closed item
  | cons method rest ih =>
    obtain ⟨fresh, others⟩ := List.nodup_cons.mp distinct
    rw [List.foldlM_cons, List.foldlM_cons]
    refine .bind same.may.closed ?_ fun middle made => ih others fun later member node seen => ?_
    · unfold Setting.method
      split
      next => exact .pure same.may.closed _
      next node seen =>
        exact .bind same.may.closed (operationNode_agrees same (sound method List.mem_cons_self node seen))
          fun _ _ => .pure same.may.closed _
    · have apart : later.key ≠ method.key := fun equal => fresh (Method.key_injective equal ▸ member)
      rw [(method_turned made).2 later.key apart] at seen
      exact sound later (List.mem_cons_of_mem _ member) node seen

theorem pathItem_agrees (same : Interchangeable resolver deputy root other good fine queues) (sound : Sound good node) :
    Agrees queues (pathItem ⟨resolver, limit⟩ root node) (pathItem ⟨deputy, limit⟩ other node) := by
  unfold pathItem
  refine .bind same.may.closed (.lift same.may.closed (same.resolve_eq (same.refers_of_sound sound))) fun target found => ?_
  have resolved := sound.resolve same.leadsGood (returns_lift.mp found)
  cases target with
  | obj item =>
    refine .bind same.may.closed
      (.lift same.may.closed (Parameter.rewriteAll_eq same (same.refers_of_sound resolved))) fun listed made => ?_
    refine .bind same.may.closed (methods_agree same Method.nodup_all fun method _ node seen => ?_)
      fun _ _ => .pure same.may.closed _
    rw [Parameter.get?_rewriteAll (returns_lift.mp made) (Method.key_ne_parameters method)] at seen
    exact resolved.get? seen
  | _ => exact .pure same.may.closed _

/-- A document stands for itself where both resolvers lead to the same targets. -/
theorem interchangeable_self (shallow : Shallow fine) (leads : resolver.Leads root (atReference fine))
    (agree : ∀ reference, fine (.str reference) → resolver.follow root reference = deputy.follow root reference) :
    Interchangeable resolver deputy root root (atReference fine) fine fun _ => True where
  shallow := shallow
  refers _ _ held := held
  leads reference target held found := leads reference target (fun _ => held) found
  agree := agree
  may := queues_true _

/-- What the loop returns depends neither on what was queued before it nor on who follows the references. -/
theorem paths_agree {document : Members Value} {todo : List String} (textual : Textual fine)
    (loads : resolver.Loads (atReference fine))
    (agree : ∀ root reference, fine (.str reference) → resolver.follow root reference = deputy.follow root reference)
    (sound : Refers fine (.obj document)) :
    Agrees (fun _ => True) (todo.foldlM (Setting.path ⟨resolver, limit⟩) document)
      (todo.foldlM (Setting.path ⟨deputy, limit⟩) document) := by
  induction todo generalizing document with
  | nil => exact .pure (queues_true (atReference fine)).closed document
  | cons path rest ih =>
    have closed := (queues_true (atReference fine)).closed
    rw [List.foldlM_cons, List.foldlM_cons]
    apply Agrees.bind closed
    · unfold Setting.path
      split
      next => exact .pure closed document
      next node seen =>
        refine .bind closed ?_ fun item _ => .pure closed _
        have same := interchangeable_self textual.shallow (loads.leads sound) (agree (.obj document))
        exact pathItem_agrees same (Sound.get? (pathsOf_refers sound) seen)
    · intro middle step
      refine ih (path_refers textual ?_ step sound)
      exact loads

end Setting
end Conversion
end ApiDialect
