import ApiDialect.Proofs.Members
import ApiDialect.Proofs.OperationSteps

/-! What the steps of an operation's rewriting leave alone. -/

namespace ApiDialect
open Rewriting Value

namespace Parameter
variable {resolver : Resolver} {root : Value}

theorem get?_rewriteAll {owner listed : Members Value} {name : String}
    (made : rewriteAll resolver root owner = .ok listed) (other : name ≠ "parameters") :
    Members.get? listed name = Members.get? owner name := by
  rcases rewriteAll_eq_ok.mp made with ⟨_, rfl⟩ | ⟨sources, results, _, _, rfl⟩
  · rfl
  · exact Members.get?_insert_of_ne other.symm _

end Parameter

namespace RequestBody
namespace Setting
variable {setting : Setting} {operation result : Members Value} {name : String}

theorem get?_withParameters (other : name ≠ "parameters") :
    Members.get? (withParameters operation) name = Members.get? operation name := by
  unfold withParameters
  split
  next => rfl
  next => exact Members.get?_insert_of_ne other.symm _

/-- The parameters that an operation lists. -/
def listed (operation : Members Value) : List Value :=
  ((Members.get? operation "parameters").bind items?).getD []

theorem get?_withParameters_self (operation : Members Value) :
    Members.get? (withParameters operation) "parameters" = some (.arr (listed operation)) := by
  unfold withParameters listed
  split
  next nodes seen => rw [seen]; rfl
  next other =>
    rw [Members.get?_insert_self]
    cases seen : Members.get? operation "parameters" with
    | none => rfl
    | some held =>
      cases held with
      | arr nodes => exact absurd seen (other nodes)
      | _ => rfl

theorem get?_append {generated : List Value} (other : name ≠ "parameters") :
    Members.get? (append operation generated) name = Members.get? operation name := by
  unfold append
  split
  next => exact Members.get?_insert_of_ne other.symm _
  next => rfl

theorem get?_append_self {nodes generated : List Value} (seen : Members.get? operation "parameters" = some (.arr nodes)) :
    Members.get? (append operation generated) "parameters" = some (.arr (nodes ++ generated)) := by
  rw [append]
  simp only [seen]
  exact Members.get?_insert_self ..

theorem get?_replaceBody (distinct : Members.Distinct operation) (returned : Returns (setting.replaceBody operation) result)
    (other : name ∉ ["parameters", "requestBody", "consumes"]) :
    Members.get? result name = Members.get? operation name := by
  simp only [List.mem_cons, List.not_mem_nil, or_false, not_or] at other
  obtain ⟨one, two, three⟩ := other
  rcases replaceBody_returns returned with ⟨_, rfl⟩ | ⟨node, target, _, _, ⟨_, rfl⟩ | replaced⟩
  · rfl
  · exact distinct.get?_erase_of_ne (Ne.symm two)
  · obtain ⟨content, key, kind, generated, _, _, _, rfl⟩ := replaced
    rw [get?_append one, Members.get?_insert_of_ne (Ne.symm three), distinct.get?_erase_of_ne (Ne.symm two)]

theorem withParameters_distinct (distinct : Members.Distinct operation) :
    Members.Distinct (withParameters operation) := by
  unfold withParameters
  split
  next => exact distinct
  next => exact distinct.insert "parameters" (.arr [])

theorem get?_rewriteOperation (distinct : Members.Distinct operation)
    (returned : Returns (setting.rewriteOperation operation) result)
    (other : name ∉ ["parameters", "requestBody", "consumes"]) :
    Members.get? result name = Members.get? operation name := by
  obtain ⟨replaced, made, listed⟩ := rewriteOperation_returns returned
  have apart : name ≠ "parameters" := by
    rintro rfl
    exact other List.mem_cons_self
  rw [Parameter.get?_rewriteAll listed apart, get?_replaceBody (withParameters_distinct distinct) made other,
    get?_withParameters apart]

end Setting
end RequestBody

namespace Response
variable {resolver : Resolver} {root : Value} {response result : Members Value} {produced : List String}

theorem get?_rewriteHeaders {name : String} (made : rewriteHeaders resolver root response = .ok result)
    (other : name ≠ "headers") : Members.get? result name = Members.get? response name := by
  rcases rewriteHeaders_eq_ok.mp made with ⟨_, rfl⟩ | ⟨sources, results, _, _, rfl⟩
  · rfl
  · exact Members.get?_insert_of_ne other.symm _

theorem get?_addExample {entry : String × Value} {name : String} (other : name ≠ "examples") :
    Members.get? (addExample response entry) name = Members.get? response name := by
  have started : Members.get? (Members.insertIfAbsent response "examples" (.obj [])) name =
      Members.get? response name := by
    rw [Members.get?_insertIfAbsent, if_neg other.symm]
  unfold addExample
  dsimp only
  split
  next examples _ => rw [Members.get?_insert_of_ne other.symm, started]
  next => exact started

namespace Setting
variable {setting : Setting} {operation : Members Value}

theorem get?_withExamples (produced : List String) (content : Members Value) {name : String}
    (other : name ≠ "examples") :
    Members.get? (withExamples produced content response) name =
      Members.get? (Members.erase response "content") name := by
  have each : ∀ (shown : List (String × Value)) (response : Members Value),
      Members.get? (shown.foldl addExample response) name = Members.get? response name := by
    intro shown
    induction shown with
    | nil => exact fun _ => rfl
    | cons entry rest ih =>
      intro response
      rw [List.foldl_cons, ih, get?_addExample other]
  exact each _ _

/-- A folded response has no content left; its schema and its examples are all that may be new. -/
theorem get?_foldInto {folded : List String × Members Value} {name : String} (distinct : Members.Distinct response)
    (returned : Returns (setting.foldInto produced response) folded) (other : name ∉ ["schema", "examples"]) :
    Members.get? folded.2 name = if name = "content" then none else Members.get? response name := by
  simp only [List.mem_cons, List.not_mem_nil, or_false, not_or] at other
  have erased : Members.get? (Members.erase response "content") name =
      if name = "content" then none else Members.get? response name := by
    rw [distinct.get?_erase]
    simp only [eq_comm]
  rcases foldInto_returns returned with ⟨absent, rfl⟩ | ⟨_, _, _, rfl⟩ | ⟨content, filled, _, made, rfl⟩
  · split
    next same => rw [same]; exact absent
    next => rfl
  · exact erased
  · rw [← erased, ← get?_withExamples produced content other.2]
    rcases setSchema_returns made with ⟨_, rfl⟩ | ⟨_, _, rewritten, _, _, _, rfl⟩
    · rfl
    · exact Members.get?_insert_of_ne (Ne.symm other.1) rewritten

theorem get?_rewriteResponses {name : String} (returned : Returns (setting.rewriteResponses operation) result)
    (other : name ∉ ["responses", "produces"]) : Members.get? result name = Members.get? operation name := by
  simp only [List.mem_cons, List.not_mem_nil, or_false, not_or] at other
  rcases rewriteResponses_returns returned with ⟨_, rfl⟩ | ⟨responses, total, results, _, _, rfl⟩
  · rfl
  · split
    next => exact Members.get?_insert_of_ne (Ne.symm other.1) _
    next => rw [Members.get?_insert_of_ne (Ne.symm other.2), Members.get?_insert_of_ne (Ne.symm other.1)]

/-- Every response stays under its status. -/
theorem rewriteResponses_answers {responses : Members Value} (returned : Returns (setting.rewriteResponses operation) result)
    (listed : Members.get? operation "responses" = some (.obj responses)) :
    ∃ answers, Members.get? result "responses" = some (.obj answers) ∧
      List.Forall₂ (fun entry answer => answer.1 = entry.1 ∧
        ∃ before after, Returns (setting.rewriteNode before entry.2) (after, answer.2)) responses answers := by
  rcases rewriteResponses_returns returned with ⟨none, _⟩ | ⟨_, total, answers, seen, each, rfl⟩
  · exact absurd listed (none responses)
  cases listed.symm.trans seen
  refine ⟨answers, ?_, rewriteEach_returns each⟩
  split
  next => exact Members.get?_insert_self ..
  next => rw [Members.get?_insert_of_ne (by decide), Members.get?_insert_self]

end Setting
end Response
end ApiDialect
