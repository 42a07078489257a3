import ApiDialect.Proofs.SoundPaths

/-! Documents that are read have distinct names at every depth: both readers build their objects
from lists of pairs in one way, and no scalar is a container. -/

namespace ApiDialect
open Value

theorem Value.wellFormed_arr_iff {items : List Value} : (Value.arr items).WellFormed ↔ ∀ item ∈ items, item.WellFormed :=
  wellFormedItems_iff

theorem Value.wellFormed_ofList {pairs : List (String × Value)} (each : ∀ entry ∈ pairs, entry.2.WellFormed) :
    (Value.obj (Members.ofList pairs)).WellFormed :=
  ⟨.ofList pairs, wellFormedMembers_iff.mpr fun entry member => each entry (Members.mem_of_mem_ofList member)⟩

namespace Json

/-- What a token brings into a document. -/
def Token.WellFormed : Token → Prop
  | .scalar value => value.WellFormed
  | _ => True

theorem token?_wellFormed {input rest : List Char} {token : Token} (read : token? input = some (token, rest)) :
    token.WellFormed := by
  unfold token? at read
  split at read
  case h_7 =>
    obtain ⟨⟨text, behind⟩, _, same⟩ := Option.map_eq_some_iff.mp read
    cases same
    trivial
  case h_11 =>
    obtain ⟨⟨number, behind⟩, _, same⟩ := Option.map_eq_some_iff.mp read
    cases same
    trivial
  all_goals cases read; trivial

theorem scanFrom_wellFormed {fuel : Nat} {done tokens : List Token} {input : List Char}
    (scanned : scanFrom done fuel input = some tokens) (held : ∀ token ∈ done, token.WellFormed) :
    ∀ token ∈ tokens, token.WellFormed := by
  induction fuel generalizing done input with
  | zero =>
    cases input with
    | nil => cases scanned; simpa using held
    | cons char rest => cases scanned
  | succ fuel ih =>
    cases input with
    | nil => cases scanned; simpa using held
    | cons char rest =>
      unfold scanFrom at scanned
      split at scanned
      next => exact ih scanned held
      next =>
        split at scanned
        next token behind read =>
          refine ih scanned fun other member => ?_
          rcases List.mem_cons.mp member with rfl | member
          · exact token?_wellFormed read
          · exact held other member
        next => cases scanned

def Frame.WellFormed : Frame → Prop
  | .array done => ∀ item ∈ done, item.WellFormed
  | .object done => ∀ entry ∈ done, entry.2.WellFormed
  | .member done _ => ∀ entry ∈ done, entry.2.WellFormed

namespace State

def WellFormed : State → Prop
  | .within stack _ => ∀ frame ∈ stack, frame.WellFormed
  | .complete value => value.WellFormed

variable {limit : Nat} {stack : List Frame} {token : Token} {next : State}

theorem finish_wellFormed {value : Value} (finished : finish value stack = some next) (held : value.WellFormed)
    (open' : ∀ frame ∈ stack, frame.WellFormed) : next.WellFormed := by
  unfold finish at finished
  split at finished
  case h_1 => cases finished; exact held
  case h_2 done outer =>
    cases finished
    obtain ⟨inner, others⟩ := List.forall_mem_cons.mp open'
    exact List.forall_mem_cons.mpr ⟨List.forall_mem_cons.mpr ⟨held, inner⟩, others⟩
  case h_3 done name outer =>
    cases finished
    obtain ⟨inner, others⟩ := List.forall_mem_cons.mp open'
    exact List.forall_mem_cons.mpr ⟨List.forall_mem_cons.mpr ⟨held, inner⟩, others⟩
  case h_4 => cases finished

theorem enter_wellFormed {frame : Frame} {expected : Expected} (entered : enter limit stack frame expected = some next)
    (fresh : frame.WellFormed) (open' : ∀ frame ∈ stack, frame.WellFormed) : next.WellFormed := by
  unfold enter at entered
  split at entered
  next => cases entered; exact List.forall_mem_cons.mpr ⟨fresh, open'⟩
  next => cases entered

theorem value_wellFormed (stepped : value limit stack token = some next) (plain : token.WellFormed)
    (open' : ∀ frame ∈ stack, frame.WellFormed) : next.WellFormed := by
  cases token with
  | scalar scalar => exact finish_wellFormed stepped plain open'
  | beginArray => exact enter_wellFormed stepped (by simp [Frame.WellFormed]) open'
  | beginObject => exact enter_wellFormed stepped (by simp [Frame.WellFormed]) open'
  | _ => cases stepped

theorem close_wellFormed (stepped : close stack token = some next)
    (open' : ∀ frame ∈ stack, frame.WellFormed) : next.WellFormed := by
  unfold close at stepped
  split at stepped
  case h_1 done outer =>
    obtain ⟨inner, others⟩ := List.forall_mem_cons.mp open'
    refine finish_wellFormed stepped (wellFormed_arr_iff.mpr fun item member => ?_) others
    exact inner item (List.mem_reverse.mp member)
  case h_2 done outer =>
    obtain ⟨inner, others⟩ := List.forall_mem_cons.mp open'
    refine finish_wellFormed stepped (wellFormed_ofList fun entry member => ?_) others
    exact inner entry (List.mem_reverse.mp member)
  case h_3 => cases stepped

theorem name_wellFormed (stepped : name stack token = some next)
    (open' : ∀ frame ∈ stack, frame.WellFormed) : next.WellFormed := by
  unfold name at stepped
  split at stepped
  next done outer text =>
    cases stepped
    obtain ⟨inner, others⟩ := List.forall_mem_cons.mp open'
    exact List.forall_mem_cons.mpr ⟨inner, others⟩
  next => cases stepped

theorem comma_wellFormed (stepped : comma stack = some next)
    (open' : ∀ frame ∈ stack, frame.WellFormed) : next.WellFormed := by
  unfold comma at stepped
  split at stepped
  case h_1 => cases stepped; exact open'
  case h_2 => cases stepped; exact open'
  case h_3 => cases stepped

theorem step_wellFormed {state : State} (stepped : step limit state token = some next) (plain : token.WellFormed)
    (held : state.WellFormed) : next.WellFormed := by
  unfold step at stepped
  split at stepped
  case h_1 => exact value_wellFormed stepped plain held
  case h_2 => exact close_wellFormed stepped held
  case h_3 => exact value_wellFormed stepped plain held
  case h_4 => exact name_wellFormed stepped held
  case h_5 => exact close_wellFormed stepped held
  case h_6 => exact name_wellFormed stepped held
  case h_7 => cases stepped; exact held
  case h_8 => cases stepped
  case h_9 => exact comma_wellFormed stepped held
  case h_10 => exact close_wellFormed stepped held
  case h_11 => cases stepped

theorem steps_wellFormed {tokens : List Token} {state : State}
    (stepped : tokens.foldlM (step limit) state = some next) (plain : ∀ token ∈ tokens, token.WellFormed)
    (held : state.WellFormed) : next.WellFormed := by
  induction tokens generalizing state with
  | nil => cases stepped; exact held
  | cons token rest ih =>
    obtain ⟨middle, first, last⟩ := Option.bind_eq_some_iff.mp stepped
    obtain ⟨head, others⟩ := List.forall_mem_cons.mp plain
    exact ih last others (step_wellFormed first head held)

end State

theorem read_wellFormed {text : String} {value : Value} (parsed : read text = some value) : value.WellFormed := by
  obtain ⟨tokens, scanned, parsed⟩ := Option.bind_eq_some_iff.mp parsed
  obtain ⟨state, stepped, ended⟩ := Option.bind_eq_some_iff.mp parsed
  have held := State.steps_wellFormed stepped (scanFrom_wellFormed scanned (by simp)) (by simp [State.start, State.WellFormed])
  cases state with
  | within stack expected => cases ended
  | complete whole => cases ended; exact held

end Json

namespace Yaml
namespace Reading

theorem plain_wellFormed {plain : Plain} {text : String} {value : Value} (typed : plain.value? text = some value) :
    value.WellFormed := by
  cases plain with
  | null => cases typed; trivial
  | bool answer => cases typed; trivial
  | text => cases typed; trivial
  | int number =>
    rw [Plain.value?] at typed
    split at typed
    next => cases typed; trivial
    next => cases typed
  | float number =>
    rw [Plain.value?] at typed
    cases typed
    split <;> trivial

theorem untagged?_wellFormed {text : String} {isPlain : Bool} {value : Value}
    (typed : untagged? text isPlain = some value) : value.WellFormed := by
  unfold untagged? at typed
  split at typed
  next => exact plain_wellFormed typed
  next => cases typed; trivial

theorem scalar?_wellFormed {tag : Option Tag} {text : String} {isPlain : Bool} {value : Value}
    (typed : scalar? tag text isPlain = some value) : value.WellFormed := by
  unfold scalar? at typed
  split at typed
  next => exact untagged?_wellFormed typed
  next tag =>
    split at typed
    · cases typed
    split at typed
    · exact untagged?_wellFormed typed
    split at typed
    · obtain ⟨answer, _, rfl⟩ := Option.map_eq_some_iff.mp typed
      trivial
    split at typed
    · obtain ⟨number, _, typed⟩ := Option.bind_eq_some_iff.mp typed
      exact plain_wellFormed typed
    split at typed
    · obtain ⟨number, _, typed⟩ := Option.bind_eq_some_iff.mp typed
      exact plain_wellFormed typed
    split at typed
    · split at typed
      · cases typed; trivial
      · cases typed
    · cases typed; trivial

/-- Some run ends with the value. -/
def Reads {α : Type} (reading : Reading α) (value : α) : Prop :=
  ∃ before after, reading.run before = some (value, after)

theorem Reads.bind {α β : Type} {first : Reading α} {next : α → Reading β} {result : β}
    (reads : Reads (first >>= next) result) : ∃ value, Reads first value ∧ Reads (next value) result := by
  obtain ⟨before, after, ran⟩ := reads
  obtain ⟨⟨value, middle⟩, one, other⟩ := Option.bind_eq_some_iff.mp ran
  exact ⟨value, ⟨before, middle, one⟩, ⟨middle, after, other⟩⟩

theorem reads_pure {α : Type} {value result : α} (reads : Reads (pure value) result) : result = value := by
  obtain ⟨before, after, ran⟩ := reads
  cases ran
  rfl

theorem reads_lift {α : Type} {attempt : Option α} {result : α} (reads : Reads (liftM attempt) result) :
    attempt = some result := by
  obtain ⟨before, after, ran⟩ := reads
  obtain ⟨value, found, same⟩ := Option.bind_eq_some_iff.mp ran
  cases same
  exact found

theorem not_reads_failure {α : Type} {result : α} : ¬ Reads (failure : Reading α) result := by
  rintro ⟨before, after, ran⟩
  cases ran

theorem Reads.mapM {α β : Type} {change : α → Reading β} {items : List α} {results : List β}
    (reads : Reads (items.mapM change) results) :
    ∀ result ∈ results, ∃ item ∈ items, Reads (change item) result := by
  induction items generalizing results with
  | nil =>
    obtain rfl := reads_pure reads
    simp
  | cons item rest ih =>
    rw [List.mapM_cons] at reads
    obtain ⟨first, one, reads⟩ := reads.bind
    obtain ⟨others, all, reads⟩ := reads.bind
    obtain rfl := reads_pure reads
    intro result member
    rcases List.mem_cons.mp member with rfl | member
    · exact ⟨item, List.mem_cons_self, one⟩
    · obtain ⟨source, inside, made⟩ := ih all result member
      exact ⟨source, List.mem_cons_of_mem _ inside, made⟩

theorem scalarValue_wellFormed {node : Node Nat} {result : Value} (reads : Reads (scalarValue node) result) :
    result.WellFormed := by
  cases node with
  | scalar properties text isPlain => exact scalar?_wellFormed (reads_lift reads)
  | _ => exact absurd reads not_reads_failure

theorem nodeValue_wellFormed {anchors : List (Nat × Node Nat)} {below : Node Nat → Reading Value} {node : Node Nat}
    {result : Value} (inner : ∀ node result, Reads (below node) result → result.WellFormed)
    (reads : Reads (nodeValue anchors below node) result) : result.WellFormed := by
  unfold nodeValue at reads
  split at reads
  next properties items =>
    split at reads
    next => exact absurd reads not_reads_failure
    next =>
      obtain ⟨results, all, reads⟩ := reads.bind
      obtain rfl := reads_pure reads
      refine wellFormed_arr_iff.mpr fun item member => ?_
      obtain ⟨source, _, made⟩ := all.mapM item member
      exact inner source item made
  next properties pairs =>
    split at reads
    next => exact absurd reads not_reads_failure
    next =>
      obtain ⟨results, all, reads⟩ := reads.bind
      obtain rfl := reads_pure reads
      refine wellFormed_ofList fun entry member => ?_
      obtain ⟨source, _, made⟩ := all.mapM entry member
      obtain ⟨name, _, made⟩ := made.bind
      obtain ⟨held, read, made⟩ := made.bind
      obtain rfl := reads_pure made
      exact inner source.2 held read
  next => exact scalarValue_wellFormed reads

/-- The induction is on the depth that is left, because an alias may lead to any anchored node. -/
theorem value_wellFormed {anchors : List (Nat × Node Nat)} {depth : Nat} {node : Node Nat} {result : Value}
    (reads : Reads (value anchors depth node) result) : result.WellFormed := by
  induction depth generalizing node result with
  | zero =>
    obtain ⟨goal, _, reads⟩ := Reads.bind reads
    exact scalarValue_wellFormed reads
  | succ depth ih =>
    obtain ⟨goal, _, reads⟩ := Reads.bind reads
    exact nodeValue_wellFormed (fun _ _ inner => ih inner) reads

end Reading

theorem read_wellFormed {text : String} {value : Value} (parsed : read text = some value) : value.WellFormed := by
  obtain ⟨tokens, _, parsed⟩ := Option.bind_eq_some_iff.mp parsed
  obtain ⟨node, _, parsed⟩ := Option.bind_eq_some_iff.mp parsed
  obtain ⟨⟨_, linked⟩, _, parsed⟩ := Option.bind_eq_some_iff.mp parsed
  obtain ⟨⟨whole, left⟩, ran, same⟩ := Option.bind_eq_some_iff.mp parsed
  cases same
  exact Reading.value_wellFormed ⟨_, left, ran⟩

end Yaml

theorem parse?_wellFormed {text : String} {value : Value} (parsed : parse? text = some value) : value.WellFormed := by
  rcases Option.or_eq_some_iff.mp parsed with parsed | ⟨_, parsed⟩
  · exact Json.read_wellFormed parsed
  · exact Yaml.read_wellFormed parsed

namespace Resolver
variable {resolver : Resolver}

theorem load_wellFormed {reference file : String} {document : Value}
    (read : resolver.load reference file = .ok document) : document.WellFormed := by
  unfold load at read
  dsimp only at read
  split at read
  next =>
    obtain ⟨_, impossible, _⟩ := bind_eq_ok.mp read
    cases impossible
  next =>
    split at read
    next => cases read
    next =>
      split at read
      next => cases read
      next =>
        split at read
        next => cases read
        next parsed =>
          cases read
          exact parse?_wellFormed parsed

/-- A document without a directory has no files beside it. -/
theorem load_of_directory_none {files : Files} (reference file : String) (document : Value) :
    (⟨none, files⟩ : Resolver).load reference file ≠ .ok document := by
  intro read
  unfold load at read
  dsimp only at read
  split at read
  next =>
    obtain ⟨_, impossible, _⟩ := bind_eq_ok.mp read
    cases impossible
  next => cases read

/-- Where nothing is asked of references, every file will do. -/
theorem loads_formed (resolver : Resolver) : resolver.Loads (atReference fun _ => True) :=
  fun _ _ _ _ _ read => formed_iff.mpr (load_wellFormed read)

/-- Where only references inside a document are good, no file is ever read. -/
theorem loads_of_local {good : String → Value → Prop}
    (inside : ∀ reference, good "$ref" (.str reference) → (Text.strip? "#" reference).isSome) : resolver.Loads good := by
  intro reference file document held apart
  have here := inside reference held
  rw [apart] at here
  cases here

end Resolver

namespace Conversion
namespace Setting
open Rewriting

/-- Every state of the loop is well-formed, whatever the files hold. -/
theorem paths_formed {setting : Setting} {document result : Members Value} {todo : List String}
    (formed : Formed (.obj document)) (returned : Returns (todo.foldlM setting.path document) result) :
    Formed (.obj result) :=
  paths_refers textual_true setting.resolver.loads_formed returned formed

end Setting
end Conversion
end ApiDialect
