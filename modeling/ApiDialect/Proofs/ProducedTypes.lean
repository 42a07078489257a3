import ApiDialect.Proofs.FoldedContents
import ApiDialect.Proofs.NameOrder
import ApiDialect.Proofs.Reconversion
import Mathlib.Data.List.Induction

/-! What an operation produces: the media types that it lists itself and then those of its responses in turn, each
where it comes first. -/

namespace ApiDialect
open Rewriting Value

/-- All elements of a list, each once and in the order in which they come first. -/
structure Unrepeated (all once : List String) : Prop where
  nodup : once.Nodup
  mem_iff : ∀ name, name ∈ once ↔ name ∈ all
  inOrder : InOrder all once

namespace Response
variable {names before after produced total : List String} {name : String} {content response operation : Members Value}

theorem eraseDups_concat (names : List String) (name : String) : (names ++ [name]).eraseDups = addNew names.eraseDups name := by
  rw [List.eraseDups_append, addNew]
  by_cases member : name ∈ names
  · rw [if_pos (List.mem_eraseDups.mpr member)]
    simp [List.removeAll, member]
  · rw [if_neg (mt List.mem_eraseDups.mp member)]
    simp [List.removeAll, List.eraseDups_cons, member]

/-- Elements that are added one by one leave what a list with all of them leaves. -/
theorem foldl_addNew_eraseDups (before after : List String) :
    after.foldl addNew before.eraseDups = (before ++ after).eraseDups := by
  induction after generalizing before with
  | nil => rw [List.foldl_nil, List.append_nil]
  | cons name rest ih => rw [List.foldl_cons, ← eraseDups_concat, ih, List.append_assoc, List.singleton_append]

theorem inOrder_eraseDups (names : List String) : InOrder names names.eraseDups := by
  induction names using List.reverseRecOn with
  | nil => simp [InOrder]
  | append_singleton names name ih =>
    rw [eraseDups_concat]
    intro first one _ second other _
    unfold addNew
    by_cases repeated : name ∈ names
    · -- a repetition changes neither side
      have inside : ∀ other, other ∈ names ++ [name] → other ∈ names := by
        intro other member
        rcases List.mem_append.mp member with member | last
        · exact member
        · exact List.mem_singleton.mp last ▸ repeated
      rw [if_pos (List.mem_eraseDups.mpr repeated), Move.ahead_append_singleton (inside first one) (inside second other)]
      exact ih first (inside first one) (List.mem_eraseDups.mpr (inside first one)) second (inside second other)
        (List.mem_eraseDups.mpr (inside second other))
    · have fresh : name ∉ names.eraseDups := mt List.mem_eraseDups.mp repeated
      rw [if_neg fresh]
      rcases List.mem_append.mp one with early | last <;> rcases List.mem_append.mp other with before | final
      · have here := List.mem_eraseDups.mpr early
        have there := List.mem_eraseDups.mpr before
        rw [Move.ahead_append_singleton early before, Move.ahead_append_singleton here there]
        exact ih first early here second before there
      · obtain rfl := List.mem_singleton.mp final
        rw [(Move.ahead_last repeated early).1, (Move.ahead_last fresh (List.mem_eraseDups.mpr early)).1]
      · obtain rfl := List.mem_singleton.mp last
        rw [(Move.ahead_last repeated before).2, (Move.ahead_last fresh (List.mem_eraseDups.mpr before)).2]
      · obtain rfl := List.mem_singleton.mp last
        obtain rfl := List.mem_singleton.mp final
        simp [ahead]

theorem unrepeated_eraseDups (names : List String) : Unrepeated names names.eraseDups where
  nodup := by
    rw [← List.nil_append names, ← foldl_addNew_eraseDups]
    exact (foldl_addNew_gathers _ _).nodup List.nodup_nil
  mem_iff _ := List.mem_eraseDups
  inOrder := inOrder_eraseDups names

namespace Setting
variable {setting : Setting} {node : Value} {responses : Members Value} {result : Members Value}

/-- The media types that an operation lists itself. -/
def listedTypes (operation : Members Value) : List String :=
  match Members.get? operation "produces" with
  | some (.arr types) => Value.texts types
  | _ => []

/-- The media types of the content of a response, which is looked up first. -/
def namedTypes (setting : Setting) (node : Value) : List String :=
  match setting.resolver.resolve setting.root node with
  | .ok (.obj response) =>
    match Members.get? response "content" with
    | some (.obj content) => (Members.names content).map MediaType.produced
    | _ => []
  | _ => []

/-- All media types that have a say in what an operation produces. -/
def gatheredTypes (setting : Setting) (operation responses : Members Value) : List String :=
  listedTypes operation ++ responses.flatMap fun entry => setting.namedTypes entry.2

theorem declared_eq (operation : Members Value) : declared operation = (listedTypes operation).eraseDups := by
  unfold declared listedTypes
  generalize Members.get? operation "produces" = listed
  cases listed with
  | none => rfl
  | some value =>
    cases value with
    | arr types => exact foldl_addNew_eraseDups [] _
    | _ => rfl

theorem rewriteNode_produces {outcome : List String × Value} (returned : Returns (setting.rewriteNode produced node) outcome) :
    outcome.1 = (setting.namedTypes node).foldl addNew produced := by
  obtain ⟨target, found, ⟨scalar, rfl⟩ | ⟨response, folded, headed, rfl, folds, _, rfl⟩⟩ := rewriteNode_returns returned
  · unfold namedTypes
    rw [found]
    cases target with
    | obj members => cases scalar
    | _ => rfl
  · unfold namedTypes
    rw [found]
    rcases foldInto_returns folds with ⟨absent, rfl⟩ | ⟨other, seen, scalar, rfl⟩ | ⟨content, filled, seen, _, rfl⟩
    · simp only [absent]
      rfl
    · simp only [seen]
      cases other with
      | obj members => cases scalar
      | _ => rfl
    · simp only [seen]
      exact foldContent_produced produced content

/-- The responses are gone through in order. -/
theorem rewriteEach_produces {results : List (String × Value)}
    (returned : Returns (setting.rewriteEach produced responses) (total, results)) :
    total = (responses.flatMap fun entry => setting.namedTypes entry.2).foldl addNew produced := by
  induction responses generalizing produced total results with
  | nil =>
    cases returns_pure.mp returned
    rfl
  | cons entry rest ih =>
    obtain ⟨⟨after, response⟩, first, returned⟩ := returned.bind
    obtain ⟨⟨total, others⟩, last, returned⟩ := returned.bind
    cases returns_pure.mp returned
    rw [List.flatMap_cons, List.foldl_append, ← rewriteNode_produces first]
    exact ih last

/-- An operation produces what it lists and what its responses name, each media type once and where it comes first. Where
there is nothing of that, its list stays as it was. -/
theorem rewriteResponses_produces (returned : Returns (setting.rewriteResponses operation) result) :
    (∀ responses, Members.get? operation "responses" = some (.obj responses) →
      setting.gatheredTypes operation responses ≠ [] →
        Members.get? result "produces" = some (.arr ((setting.gatheredTypes operation responses).eraseDups.map .str)) ∧
        Unrepeated (setting.gatheredTypes operation responses) (setting.gatheredTypes operation responses).eraseDups) ∧
    ((∀ responses, Members.get? operation "responses" = some (.obj responses) → setting.gatheredTypes operation responses = []) →
      Members.get? result "produces" = Members.get? operation "produces") := by
  rcases rewriteResponses_returns returned with ⟨bare, rfl⟩ | ⟨responses, total, results, seen, each, rfl⟩
  · exact ⟨fun responses seen => absurd seen (bare responses), fun _ => rfl⟩
  have gathered : total = (setting.gatheredTypes operation responses).eraseDups := by
    rw [rewriteEach_produces each, declared_eq, foldl_addNew_eraseDups, gatheredTypes]
  constructor
  · intro others again some
    cases seen.symm.trans again
    have heard : total.isEmpty = false := by
      obtain ⟨name, rest, same⟩ := List.exists_cons_of_ne_nil some
      rw [gathered, same, List.eraseDups_cons, List.isEmpty_cons]
    refine ⟨?_, unrepeated_eraseDups _⟩
    rw [if_neg (by rw [heard]; exact Bool.false_ne_true), Members.get?_insert_self, gathered]
  · intro none
    rw [none responses seen] at gathered
    rw [if_pos (by rw [gathered]; rfl), Members.get?_insert_of_ne (by decide)]

/-- Whoever complains is answered with a page, and is told what may have been found. -/
def complaint : Members Value :=
  [("produces", .arr [.str "text/html", .null, .str "text/html"]),
    ("responses", .obj [("200", .obj [("$ref", .str "#/components/responses/Found")]),
      ("404", .obj [("content", .obj [("text/*", .obj []), ("text/plain", .obj [])])]), ("default", .str "later")])]

def convertedComplaint : Members Value :=
  [("produces", .arr [.str "text/html", .str "application/octet-stream", .str "application/vnd.office+json",
      .str "application/json", .str "text/plain"]),
    ("responses", .obj [("200", .obj [("description", .str "All hats"),
        ("examples", .obj [("text/plain", .str "A hat"), ("application/octet-stream", .str "hat.gif")]),
        ("schema", .obj [("type", .str "object"), ("x-nullable", .bool true)])]),
      ("404", .obj []), ("default", .str "later")])]

/-- Pages come first, as the complaint has it, and whatever is of any kind comes once. -/
theorem complaint_produces :
    Returns (rewriteResponses ⟨⟨none, Files.none⟩, 0, lostProperty⟩ complaint) convertedComplaint ∧
    ∃ types, Members.get? convertedComplaint "produces" = some (.arr (types.map .str)) ∧
      types = ["text/html", "application/octet-stream", "application/vnd.office+json", "application/json", "text/plain"] ∧
      Unrepeated ["text/html", "text/html", "application/octet-stream", "application/octet-stream", "text/html",
        "application/vnd.office+json", "application/json", "application/octet-stream", "text/plain"] types := by
  have returned : Returns (rewriteResponses ⟨⟨none, Files.none⟩, 0, lostProperty⟩ complaint) convertedComplaint :=
    ⟨.empty, _, Prod.ext (by decide +kernel) rfl⟩
  have gathered : gatheredTypes ⟨⟨none, Files.none⟩, 0, lostProperty⟩ complaint
      [("200", .obj [("$ref", .str "#/components/responses/Found")]),
        ("404", .obj [("content", .obj [("text/*", .obj []), ("text/plain", .obj [])])]), ("default", .str "later")] =
      ["text/html", "text/html", "application/octet-stream", "application/octet-stream", "text/html",
        "application/vnd.office+json", "application/json", "application/octet-stream", "text/plain"] := by decide +kernel
  obtain ⟨produces, unrepeated⟩ := (rewriteResponses_produces returned).1 _ rfl (by rw [gathered]; exact List.cons_ne_nil _ _)
  rw [gathered] at produces unrepeated
  exact ⟨returned, _, produces, by decide, unrepeated⟩

end Setting
end Response
end ApiDialect
