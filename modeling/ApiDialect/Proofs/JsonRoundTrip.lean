import ApiDialect.Parse
import ApiDialect.Proofs.JsonTokens
import ApiDialect.Proofs.SortedKeys
import ApiDialect.Render
import Mathlib.Data.List.Permutation

/-! A document that is written as JSON and read again is the document in the order in which it was
written. The reader is followed through the printed text: behind the text of a value it stands
where the value, once finished, has brought it. -/

namespace ApiDialect
namespace Json
open Value

variable {limit fuel : Nat} {state next : State} {stack : List Frame} {token : Token} {input rest : List Char}
  {char : Char} {value result : Value}

/-- From this state the reader takes the whole text and ends with the value. -/
inductive Reads (limit : Nat) (result : Value) : State → List Char → Prop
  | complete : Reads limit result (.complete result) []
  | blank {state : State} {char : Char} {rest : List Char} (blank : isBlank char) :
      Reads limit result state rest → Reads limit result state (char :: rest)
  | token {state next : State} {token : Token} {char : Char} {input rest : List Char} (starts : isBlank char = false)
      (read : token? (char :: input) = some (token, rest)) (shorter : rest.length ≤ input.length)
      (stepped : State.step limit state token = some next) :
      Reads limit result next rest → Reads limit result state (char :: input)

/-- Fuel that is not used changes nothing. -/
theorem Reads.scanFrom (reads : Reads limit result state input) :
    ∃ tokens, tokens.foldlM (State.step limit) state = some (.complete result) ∧
      ∀ fuel ≥ input.length, ∀ done, scanFrom done fuel input = some (done.reverse ++ tokens) := by
  induction reads with
  | complete =>
    refine ⟨[], rfl, fun fuel _ done => ?_⟩
    cases fuel <;> simp [Json.scanFrom]
  | blank blank _ ih =>
    obtain ⟨tokens, folded, scanned⟩ := ih
    refine ⟨tokens, folded, fun fuel enough done => ?_⟩
    cases fuel with
    | zero => simp at enough
    | succ fuel =>
      rw [Json.scanFrom, if_pos blank]
      exact scanned fuel (by simpa using enough) done
  | @token state next token char input rest starts read shorter stepped _ ih =>
    obtain ⟨tokens, folded, scanned⟩ := ih
    refine ⟨token :: tokens, by simp [stepped, folded], fun fuel enough done => ?_⟩
    cases fuel with
    | zero => simp at enough
    | succ fuel =>
      have left : fuel ≥ rest.length := by
        simp only [List.length_cons] at enough
        omega
      simp only [Json.scanFrom, starts, read]
      rw [if_neg (by simp), scanned fuel left]
      simp

theorem Reads.read {text : String} (reads : Reads nestingLimit result State.start text.toList) :
    read text = some result := by
  obtain ⟨tokens, folded, scanned⟩ := reads.scanFrom
  simp [Json.read, readWithin, scan, scanned _ (Nat.le_refl _), folded, State.value?]

/-! ### One step -/

variable {expected : Expected} {done : List (String × Value)} {label text : String} {indent : Nat}

theorem Reads.newline (reads : Reads limit result state rest) :
    Reads limit result state ((newline indent).toList ++ rest) := by
  have blanks (count : Nat) : Reads limit result state (List.replicate count ' ' ++ rest) := by
    induction count with
    | zero => exact reads
    | succ count ih => exact .blank rfl ih
  have line : Reads limit result state ('\n' :: (List.replicate indent ' ' ++ rest)) := .blank rfl (blanks indent)
  simpa [Json.newline] using line

/-- A text that is one token whatever follows. -/
theorem Reads.word {word : List Char} (starts : ∀ char ∈ word.head?, isBlank char = false) (filled : word ≠ [])
    (read : token? (word ++ rest) = some (token, rest)) (stepped : State.step limit state token = some next)
    (reads : Reads limit result next rest) : Reads limit result state (word ++ rest) := by
  cases word with
  | nil => exact absurd rfl filled
  | cons char others => exact .token (starts char rfl) read (by simp) stepped reads

theorem Reads.mark (char : Char) (starts : isBlank char = false) (read : token? (char :: rest) = some (token, rest))
    (stepped : State.step limit state token = some next) (reads : Reads limit result next rest) :
    Reads limit result state (char :: rest) :=
  .token starts read (Nat.le_refl _) stepped reads

/-- A value may start here. -/
def Expected.Opens (expected : Expected) : Prop :=
  expected = .value ∨ expected = .valueOrEnd

/-- A name may stand here. -/
def Expected.Names (expected : Expected) : Prop :=
  expected = .name ∨ expected = .nameOrEnd

theorem State.step_opens (opens : expected.Opens) (other : token ≠ .endArray) :
    step limit (.within stack expected) token = State.value limit stack token := by
  rcases opens with rfl | rfl
  · rfl
  · cases token <;> first | rfl | exact absurd rfl other

theorem State.step_names (names : expected.Names) :
    step limit (.within (.object done :: stack) expected) (.scalar (.str label)) =
      some (.within (.member done label :: stack) .colon) := by
  rcases names with rfl | rfl <;> rfl

theorem digit_of_isBlank (blank : ¬ isBlank char = false) : char.isDigit = false ∧ char ≠ '-' := by
  have four : char = ' ' ∨ char = '\t' ∨ char = '\n' ∨ char = '\r' := by
    rw [Bool.not_eq_false] at blank
    simpa [isBlank, or_assoc] using blank
  rcases four with rfl | rfl | rfl | rfl <;> decide

theorem Reads.quoted (stepped : State.step limit state (.scalar (.str text)) = some next)
    (reads : Reads limit result next rest) : Reads limit result state ((quote text).toList ++ rest) := by
  refine .word ?_ ?_ (token?_quote text rest) stepped reads
  · simp [quote, isBlank]
  · simp [quote]

theorem Reads.member (names : expected.Names)
    (reads : Reads limit result (.within (.member done label :: stack) .value) rest) :
    Reads limit result (.within (.object done :: stack) expected) ((quote label).toList ++ ':' :: ' ' :: rest) :=
  .quoted (State.step_names names) (.mark ':' rfl rfl rfl (.blank rfl reads))

theorem Reads.number {number : Number} (fits : Fits number) (ends : Ends rest)
    (stepped : State.step limit state (.scalar (.num number)) = some next) (reads : Reads limit result next rest) :
    Reads limit result state ((Notation.json.write number).toList ++ rest) := by
  have read := number?_write fits
  refine .word (fun char first => ?_) (fun empty => ?_) (token?_write fits ends) stepped reads
  · obtain ⟨others, same⟩ := List.head?_eq_some_iff.mp first
    rw [same] at read
    by_contra blank
    rw [number?_eq_none (digit_of_isBlank blank).1 (digit_of_isBlank blank).2] at read
    cases read
  · rw [empty] at read
    cases read

theorem ends_newline : Ends ((Json.newline indent).toList ++ rest) := by
  simp [Ends, Json.newline, continues]

theorem ends_items {items : List Value} (ends : Ends rest) : Ends ((prettyItems indent items).toList ++ rest) := by
  cases items with
  | nil => simpa [prettyItems] using ends
  | cons item others => simp [Ends, prettyItems, continues]

theorem ends_members {members : Members Value} (ends : Ends rest) :
    Ends ((prettyMembers indent members).toList ++ rest) := by
  cases members with
  | nil => simpa [prettyMembers] using ends
  | cons entry others => simp [Ends, prettyMembers, continues]

/-! ### A whole value -/

/-- Behind the text of the value the reader stands where the finished value has brought it. -/
def Taken (limit : Nat) (result value : Value) : Prop :=
  ∀ (indent : Nat) (stack : List Frame) (expected : Expected) (next : State) (rest : List Char), expected.Opens →
    stack.length + value.height ≤ limit → State.finish value stack = some next → Ends rest →
    Reads limit result next rest →
    Reads limit result (.within stack expected) ((pretty indent value).toList ++ rest)

/-- The texts of the constants, which no token reader but its own takes. -/
theorem Reads.constant {word : List Char} (starts : ∀ char ∈ word.head?, isBlank char = false) (filled : word ≠ [])
    (read : token? (word ++ rest) = some (.scalar value, rest)) (opens : expected.Opens)
    (finished : State.finish value stack = some next) (reads : Reads limit result next rest) :
    Reads limit result (.within stack expected) (word ++ rest) :=
  .word starts filled read ((State.step_opens opens (by simp)).trans finished) reads

theorem taken_null : Taken limit result .null := by
  intro indent stack expected next rest opens _ finished _ reads
  have read : token? (['n', 'u', 'l', 'l'] ++ rest) = some (.scalar .null, rest) := rfl
  simpa [pretty, scalar] using Reads.constant (by simp [isBlank]) (by simp) read opens finished reads

theorem taken_bool (truth : Bool) : Taken limit result (.bool truth) := by
  intro indent stack expected next rest opens _ finished _ reads
  cases truth with
  | true =>
    have read : token? (['t', 'r', 'u', 'e'] ++ rest) = some (.scalar (.bool true), rest) := rfl
    simpa [pretty, scalar] using Reads.constant (by simp [isBlank]) (by simp) read opens finished reads
  | false =>
    have read : token? (['f', 'a', 'l', 's', 'e'] ++ rest) = some (.scalar (.bool false), rest) := rfl
    simpa [pretty, scalar] using Reads.constant (by simp [isBlank]) (by simp) read opens finished reads

theorem taken_num {number : Number} (fits : Fits number) : Taken limit result (.num number) := by
  intro indent stack expected next rest opens _ finished ends reads
  exact .number fits ends ((State.step_opens opens (by simp)).trans finished) reads

theorem taken_str (text : String) : Taken limit result (.str text) := by
  intro indent stack expected next rest opens _ finished _ reads
  exact .quoted ((State.step_opens opens (by simp)).trans finished) reads

theorem Reads.array (opens : expected.Opens) (room : stack.length < limit)
    (reads : Reads limit result (.within (.array [] :: stack) .valueOrEnd) rest) :
    Reads limit result (.within stack expected) ('[' :: rest) := by
  refine .mark _ rfl rfl ?_ reads
  rw [State.step_opens opens (by simp)]
  exact if_pos room

theorem Reads.object (opens : expected.Opens) (room : stack.length < limit)
    (reads : Reads limit result (.within (.object [] :: stack) .nameOrEnd) rest) :
    Reads limit result (.within stack expected) ('\x7b' :: rest) := by
  refine .mark _ rfl rfl ?_ reads
  rw [State.step_opens opens (by simp)]
  exact if_pos room

/-- The items behind the first. -/
theorem reads_items (indent : Nat) {items : List Value} (earlier : List Value)
    (each : ∀ item ∈ items, Taken limit result item)
    (room : stack.length + 1 + heightOfItems items ≤ limit)
    (finished : State.finish (.arr (earlier.reverse ++ items)) stack = some next)
    (reads : Reads limit result next rest) :
    Reads limit result (.within (.array earlier :: stack) .commaOrEnd)
      ((prettyItems (indent + 2) items).toList ++ ((Json.newline indent).toList ++ ']' :: rest)) := by
  induction items generalizing earlier with
  | nil =>
    rw [List.append_nil] at finished
    exact .newline (.mark _ rfl rfl finished reads)
  | cons item others ih =>
    obtain ⟨first, later⟩ := List.forall_mem_cons.mp each
    simp only [heightOfItems] at room
    have behind := ih (item :: earlier) later (by omega) (by simpa using finished)
    have taken := first (indent + 2) (.array earlier :: stack) .value _ _ (.inl rfl)
      (by simp only [List.length_cons]; omega) rfl (ends_items ends_newline) behind
    simpa [prettyItems] using Reads.mark ',' rfl rfl rfl (.newline taken)

theorem taken_arr {items : List Value} (each : ∀ item ∈ items, Taken limit result item) :
    Taken limit result (.arr items) := by
  intro indent stack expected next rest opens room finished _ reads
  cases items with
  | nil =>
    simp only [height, heightOfItems] at room
    have room : stack.length < limit := by omega
    simpa [pretty, scalar] using Reads.array opens room (.mark ']' rfl rfl finished reads)
  | cons item others =>
    obtain ⟨first, later⟩ := List.forall_mem_cons.mp each
    simp only [height, heightOfItems] at room
    have behind := reads_items indent [item] later (by omega) finished reads
    have taken := first (indent + 2) (.array [] :: stack) .valueOrEnd _ _ (.inr rfl)
      (by simp only [List.length_cons]; omega) rfl (ends_items ends_newline) behind
    simpa [pretty] using Reads.array opens (by omega) (.newline taken)

/-- The members behind the first. -/
theorem reads_members (indent : Nat) {members : Members Value} (earlier : Members Value)
    (each : ∀ entry ∈ members, Taken limit result entry.2)
    (room : stack.length + 1 + heightOfMembers members ≤ limit)
    (finished : State.finish (.obj (Members.ofList (earlier.reverse ++ members))) stack = some next)
    (reads : Reads limit result next rest) :
    Reads limit result (.within (.object earlier :: stack) .commaOrEnd)
      ((prettyMembers (indent + 2) members).toList ++ ((Json.newline indent).toList ++ '\x7d' :: rest)) := by
  induction members generalizing earlier with
  | nil =>
    rw [List.append_nil] at finished
    exact .newline (.mark _ rfl rfl finished reads)
  | cons entry others ih =>
    obtain ⟨label, value⟩ := entry
    obtain ⟨first, later⟩ := List.forall_mem_cons.mp each
    simp only [heightOfMembers] at room
    have behind := ih ((label, value) :: earlier) later (by omega) (by simpa using finished)
    have taken := first (indent + 2) (.member earlier label :: stack) .value _ _ (.inl rfl)
      (by simp only [List.length_cons]; omega) rfl (ends_members ends_newline) behind
    simpa [prettyMembers] using Reads.mark ',' rfl rfl rfl (.newline (.member (.inl rfl) taken))

theorem taken_obj {members : Members Value} (distinct : Members.Distinct members)
    (each : ∀ entry ∈ members, Taken limit result entry.2) : Taken limit result (.obj members) := by
  intro indent stack expected next rest opens room finished _ reads
  rw [← Members.ofList_of_distinct distinct] at finished
  cases members with
  | nil =>
    simp only [height, heightOfMembers] at room
    have room : stack.length < limit := by omega
    simpa [pretty, scalar] using Reads.object opens room (.mark '\x7d' rfl rfl finished reads)
  | cons entry others =>
    obtain ⟨label, value⟩ := entry
    obtain ⟨first, later⟩ := List.forall_mem_cons.mp each
    simp only [height, heightOfMembers] at room
    have behind := reads_members indent [(label, value)] later (by omega) finished reads
    have taken := first (indent + 2) (.member [] label :: stack) .value _ _ (.inl rfl)
      (by simp only [List.length_cons]; omega) rfl (ends_members ends_newline) behind
    simpa [pretty] using Reads.object opens (by omega) (.newline (.member (.inr rfl) taken))

mutual
theorem taken (result : Value) :
    (value : Value) → value.WellFormed → value.EveryNumber Fits → Taken limit result value
  | .null, _, _ => taken_null
  | .bool truth, _, _ => taken_bool truth
  | .num _, _, fits => taken_num fits
  | .str text, _, _ => taken_str text
  | .arr items, formed, whole => taken_arr (taken_each result items formed whole)
  | .obj members, formed, whole => taken_obj formed.1 (taken_eachMember result members formed.2 whole)
termination_by structural value => value

theorem taken_each (result : Value) :
    (items : List Value) → WellFormedItems items → EveryNumberOfItems Fits items → ∀ item ∈ items, Taken limit result item
  | [], _, _ => fun _ member => nomatch member
  | item :: others, formed, whole =>
    List.forall_mem_cons.mpr ⟨taken result item formed.1 whole.1, taken_each result others formed.2 whole.2⟩
termination_by structural items => items

theorem taken_eachMember (result : Value) : (members : List (String × Value)) →
    WellFormedMembers members → EveryNumberOfMembers Fits members → ∀ entry ∈ members, Taken limit result entry.2
  | [], _, _ => fun _ member => nomatch member
  | (_, value) :: others, formed, whole =>
    List.forall_mem_cons.mpr ⟨taken result value formed.1 whole.1, taken_eachMember result others formed.2 whole.2⟩
termination_by structural members => members
end

/-- What is printed is read back. -/
theorem read_pretty {value : Value} (formed : value.WellFormed) (whole : value.EveryNumber Fits)
    (low : value.height ≤ nestingLimit) : read (pretty 0 value) = some value := by
  have reads := taken value value formed whole 0 [] .value (.complete value) [] (.inl rfl)
    (by simpa using low) rfl (by simp [Ends]) .complete
  rw [List.append_nil] at reads
  exact reads.read

end Json

/-- JSON text of a document gives the document back, with its keys in the order asked for. -/
theorem parse?_render_json {value : Value} (formed : value.WellFormed) (whole : value.EveryNumber Json.Fits)
    (low : value.height ≤ 127) (order : KeyOrder) :
    parse? (render ⟨.json, order⟩ value) = some (order.sortKeys value) ∧
      parse? (render ⟨.json, .asWritten⟩ value) = some value := by
  have each (order : KeyOrder) : parse? (render ⟨.json, order⟩ value) = some (order.sortKeys value) := by
    have plain := order.plain_sortKeys value 127 ⟨formed, whole, low⟩
    change (Json.read (Json.pretty 0 (order.sortKeys value))).or _ = _
    rw [Json.read_pretty plain.formed plain.whole plain.low]
    rfl
  exact ⟨each order, (each .asWritten).trans (congrArg some (KeyOrder.sortKeys_asWritten value))⟩

/-- Escapes of every kind, the first and the last integer, and containers that hold nothing. -/
def ledger : Value :=
  .obj [
    ("paths", .obj []),
    ("title", .str "say \"hi\"\\\n\x01\x1f/é𝄞"),
    ("limits", .arr [.num (.int (-9223372036854775808)), .num (.int 0), .num (.int 18446744073709551615)]),
    ("a\tb", .arr [.arr [], .obj [("", .null), ("x", .bool false)]])]

def sortedLedger : Value :=
  .obj [
    ("a\tb", .arr [.arr [], .obj [("", .null), ("x", .bool false)]]),
    ("limits", .arr [.num (.int (-9223372036854775808)), .num (.int 0), .num (.int 18446744073709551615)]),
    ("paths", .obj []),
    ("title", .str "say \"hi\"\\\n\x01\x1f/é𝄞")]

theorem ledger_reads_back :
    ledger.WellFormed ∧ ledger.EveryNumber Json.Fits ∧ ledger.height ≤ 127 ∧
      parse? (render ⟨.json, .alphabetical⟩ ledger) = some sortedLedger ∧
      parse? (render ⟨.json, .asWritten⟩ ledger) = some ledger := by
  have formed : ledger.WellFormed := by decide
  have whole : ledger.EveryNumber Json.Fits := by
    simp [ledger, Value.EveryNumber, Value.EveryNumberOfMembers, Value.EveryNumberOfItems, Json.Fits]
  have low : ledger.height ≤ 127 := by decide
  have sorted : KeyOrder.sortKeys .alphabetical ledger = sortedLedger := by cbv
  obtain ⟨alphabetical, asWritten⟩ := parse?_render_json formed whole low .alphabetical
  exact ⟨formed, whole, low, sorted ▸ alphabetical, asWritten⟩

end ApiDialect
