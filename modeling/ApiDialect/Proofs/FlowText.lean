import ApiDialect.Json.Printer
import ApiDialect.Proofs.FlowSteps
import ApiDialect.Proofs.LineEnds
import ApiDialect.Yaml.Reader

/-! JSON text that is read as YAML. The scanner stays inside of the outermost braces until it comes to
the last of them, so a line feed behind them is not part of any token. -/

namespace ApiDialect
namespace Yaml
namespace Scan
open Cursor Json
variable {depth column : Nat} {first second : Scan → Prop} {piece other space : List Char} {next last : Char}

theorem white_newline (indent : Nat) : White (newline indent).toList := by
  simp [White, newline]

theorem solid_of_isFlowIndicator (indicator : ScalarText.isFlowIndicator next = true) : Solid next := by
  simp only [ScalarText.isFlowIndicator, Bool.or_eq_true, decide_eq_true_eq, or_assoc] at indicator
  rcases indicator with rfl | rfl | rfl | rfl | rfl <;> decide

theorem within_spaced (space : List Char) {scan : Scan} (within : Within depth column scan) :
    Within depth 0 (scan.spaced space) := by
  induction space generalizing scan column with
  | nil => exact within.weaken (Nat.zero_le _)
  | cons char others ih =>
    rw [spaced]
    split
    · exact ih (within.moved (Nat.le_refl _))
    · exact ih (within.moved (Nat.le_refl _))

theorem within_blanks (count : Nat) {scan : Scan} (within : Within depth column scan) :
    Within depth (column + count) (scan.spaced (List.replicate count ' ')) := by
  induction count generalizing scan column with
  | zero => exact within
  | succ count ih =>
    have moved : Within depth (column + 1) { scan with cursor := scan.cursor.past [' '] } :=
      within.moved (Nat.succ_le_succ within.column)
    have further := ih moved
    rw [Nat.add_assoc, Nat.add_comm 1] at further
    exact further

/-- Behind a line feed and some blanks the column is their number. -/
theorem within_newline (indent : Nat) {scan : Scan} (within : Within depth column scan) :
    Within depth indent (scan.spaced (newline indent).toList) := by
  have line : (newline indent).toList = '\n' :: List.replicate indent ' ' := by simp [newline]
  have below : Within depth 0 { scan with cursor := scan.cursor.below '\n', keyAllowed := scan.keyAllowed || !scan.inFlow } :=
    within.moved (Nat.zero_le _)
  have moved := within_blanks indent below
  rw [Nat.zero_add] at moved
  rw [line]
  exact moved

/-- Lines inside a collection are indented. -/
theorem passes_newline (indent : Nat) (solid : Solid next) :
    Passes (Within depth column) (Within depth 1) (newline (indent + 2)).toList next :=
  passes_space solid (white_newline _) fun _ within => (within_newline (indent + 2) within).weaken (by omega)

theorem head?_newline (indent : Nat) : (newline indent).toList.head? = some '\n' := by
  simp [newline]

/-- White space behind a piece that may be followed by anything. -/
theorem Passes.behind (one : ∀ next, Passes first (Within depth column) piece next) (white : White space) (solid : Solid next) :
    Passes first (Within depth 0) (piece ++ space) next := by
  have spaces : Passes (Within depth column) (Within depth 0) space next :=
    passes_space solid white fun _ within => within_spaced space within
  cases space with
  | nil =>
    rw [List.append_nil]
    exact (one next).weaken fun _ within => within.weaken (Nat.zero_le _)
  | cons char others => exact (one char).append spaces rfl

/-- The text of an entry of a collection, which ends before an indicator or white space. -/
def Entry (text : List Char) : Prop :=
  (∃ char, text.head? = some char ∧ Solid char) ∧ ∀ (depth : Nat) (space : List Char) (next : Char), White space →
    ScalarText.isFlowIndicator next = true → Passes (Within (depth + 1) 1) (Within (depth + 1) 0) (text ++ space) next

/-- Entries with commas between them, each on a line of its own, and the line of the closing bracket. -/
def linesOf (indent : Nat) (text : List Char) (others : List (List Char)) : List Char :=
  text ++ (others.flatMap fun other => ',' :: ((newline (indent + 2)).toList ++ other) ) ++ (newline indent).toList

theorem head?_linesOf (indent : Nat) {text : List Char} {others : List (List Char)} (starts : text.head? = some next) :
    (linesOf indent text others).head? = some next := by
  obtain ⟨more, rfl⟩ := List.head?_eq_some_iff.mp starts
  rfl

theorem passes_lines (indent : Nat) {text : List Char} {others : List (List Char)} (entry : Entry text)
    (entries : ∀ other ∈ others, Entry other) (depth : Nat) (close : ScalarText.isFlowIndicator next = true) :
    Passes (Within (depth + 1) 1) (Within (depth + 1) 0) (linesOf indent text others) next := by
  induction others generalizing text with
  | nil =>
    rw [linesOf, List.flatMap_nil, List.append_nil]
    exact entry.2 depth _ next (white_newline indent) close
  | cons other more ih =>
    obtain ⟨⟨⟨head, starts, solid⟩, passes⟩, later⟩ := List.forall_mem_cons.mp entries
    have shape : linesOf indent text (other :: more) =
        (text ++ []) ++ ([','] ++ ((newline (indent + 2)).toList ++ linesOf indent other more)) := by
      simp [linesOf]
    have rest := ih ⟨⟨head, starts, solid⟩, passes⟩ later
    have line : Passes (Within (depth + 1) 1) (Within (depth + 1) 0) _ next :=
      (passes_newline indent solid).append rest (head?_linesOf indent starts)
    have comma : Passes (Within (depth + 1) 0) (Within (depth + 1) 0) _ next :=
      (passes_comma '\n').append line (by simp [head?_newline])
    rw [shape]
    exact (entry.2 depth [] ',' (List.forall_mem_nil _) rfl).append comma rfl

/-! ### Values -/

variable {text : List Char} {opening close : Char}

theorem entry_word {char : Char} {others : List Char} (starts : begins char = true)
    (inside : ∀ part ∈ char :: others, ScalarText.goesOn part = true) (hyphen : char = '-' → others ≠ []) :
    Entry (char :: others) :=
  ⟨⟨char, rfl, solid_of_begins starts⟩, fun _ _ _ white indicator =>
    passes_word starts inside hyphen white indicator⟩

theorem entry_quote (name : String) : Entry (quote name).toList := by
  refine ⟨⟨'"', by simp [quote], by decide⟩, fun depth space next white indicator => ?_⟩
  exact Passes.behind (passes_quoted name) white (solid_of_isFlowIndicator indicator)

theorem entry_pair (name : String) (entry : Entry text) : Entry ((quote name).toList ++ (':' :: ' ' :: text)) := by
  obtain ⟨⟨head, starts, solid⟩, passes⟩ := entry
  refine ⟨⟨'"', by simp [quote], by decide⟩, fun depth space next white indicator => ?_⟩
  have value := passes depth space next white indicator
  have blank : Passes (Within (depth + 1) 1) (Within (depth + 1) 0) ([' '] ++ (text ++ space)) next :=
    (passes_space solid (by simp [White]) fun _ within => (within_blanks 1 within).weaken (Nat.le_succ 1)).append value (by simp [starts])
  have colon : Passes (Within (depth + 1) 0) (Within (depth + 1) 0) ([':'] ++ ([' '] ++ (text ++ space))) next :=
    (passes_colon ' ').append blank rfl
  have key : Passes (Within (depth + 1) 1) (Within (depth + 1) 0) (quote name).toList ':' := passes_quoted name ':'
  rw [List.append_assoc]
  exact key.append colon rfl

/-- A collection up to its closing bracket. -/
def Front (front : List Char) (close : Char) : Prop :=
  (∃ char, front.head? = some char ∧ Solid char) ∧
    ∀ depth column, Passes (Within depth column) (Within (depth + 1) 0) front close

theorem entry_of_front {front : List Char} (passes : Front front close)
    (closes : ∀ depth column next, Passes (Within (depth + 1) column) (Within depth 1) [close] next) :
    Entry (front ++ [close]) := by
  obtain ⟨⟨char, starts, solid⟩, passes⟩ := passes
  refine ⟨⟨char, by simp [starts], solid⟩, fun depth space next white indicator => ?_⟩
  exact Passes.behind (fun next => (passes (depth + 1) 1).append (closes (depth + 1) 0 next) rfl) white
    (solid_of_isFlowIndicator indicator)

/-- A bracket and the lines behind it, up to the closing one. -/
def fullFront (opening : Char) (indent : Nat) (text : List Char) (others : List (List Char)) : List Char :=
  [opening] ++ ((newline (indent + 2)).toList ++ linesOf indent text others)

theorem front_lines (indent : Nat) {others : List (List Char)} (solid : Solid opening)
    (opens : ∀ depth column next, Passes (Within depth column) (Within (depth + 1) 1) [opening] next)
    (entry : Entry text) (entries : ∀ other ∈ others, Entry other) (indicator : ScalarText.isFlowIndicator close = true) :
    Front (fullFront opening indent text others) close := by
  refine ⟨⟨opening, rfl, solid⟩, fun depth column => ?_⟩
  obtain ⟨head, starts, firm⟩ := entry.1
  have line : Passes (Within (depth + 1) 1) (Within (depth + 1) 0) _ close :=
    (passes_newline indent firm).append (passes_lines indent entry entries depth indicator) (head?_linesOf indent starts)
  exact (opens depth column '\n').append line (by simp [head?_newline])

theorem front_empty (solid : Solid opening)
    (opens : ∀ depth column next, Passes (Within depth column) (Within (depth + 1) 1) [opening] next) :
    Front [opening] close :=
  ⟨⟨opening, rfl, solid⟩, fun depth column => (opens depth column close).weaken fun _ within => within.weaken (Nat.zero_le _)⟩

/-! ### Printed values -/

theorem toList_prettyItems (indent : Nat) (items : List Value) : (prettyItems indent items).toList =
    (items.map fun item => (pretty indent item).toList).flatMap fun other => ',' :: ((newline indent).toList ++ other) := by
  induction items with
  | nil => rfl
  | cons item others ih => simp [prettyItems, ih]

/-- The text of a member. -/
def pairText (indent : Nat) (member : String × Value) : List Char :=
  (quote member.1).toList ++ (':' :: ' ' :: (pretty indent member.2).toList)

theorem toList_prettyMembers (indent : Nat) (members : List (String × Value)) : (prettyMembers indent members).toList =
    (members.map (pairText indent)).flatMap fun other => ',' :: ((newline indent).toList ++ other) := by
  induction members with
  | nil => rfl
  | cons member others ih => simp [prettyMembers, pairText, ih]

theorem entry_number (number : Number) : Entry (Notation.json.write number).toList := by
  obtain ⟨numeric, char, member, other⟩ := Notation.written_write (by decide : Notation.Numeric Notation.json.plus) number
  cases same : (Notation.json.write number).toList with
  | nil => simp [same] at member
  | cons first others =>
    have inside : ∀ part ∈ first :: others, continues part = true := by rwa [← same]
    have starts : begins first = true := by simp [begins, inside first (by simp)]
    refine entry_word starts (fun part held => of_continues ScalarText.goesOn (by decide) (inside part held)) ?_
    rintro rfl rfl
    rw [same, List.mem_singleton] at member
    exact other member

theorem toList_pretty_arr (indent : Nat) (item : Value) (others : List Value) : (pretty indent (.arr (item :: others))).toList =
    fullFront '[' indent (pretty (indent + 2) item).toList (others.map fun item => (pretty (indent + 2) item).toList) ++ [']'] := by
  simp [pretty, fullFront, linesOf, toList_prettyItems]

theorem toList_pretty_obj (indent : Nat) (member : String × Value) (others : Members Value) :
    (pretty indent (.obj (member :: others))).toList =
      fullFront '\x7b' indent (pairText (indent + 2) member) (others.map (pairText (indent + 2))) ++ ['\x7d'] := by
  simp [pretty, fullFront, linesOf, pairText, toList_prettyMembers]

theorem entry_array {indent : Nat} {items : List Value} (entries : ∀ item ∈ items, Entry (pretty (indent + 2) item).toList) :
    Entry (pretty indent (.arr items)).toList := by
  cases items with
  | nil =>
    have empty : (pretty indent (.arr [])).toList = ['['] ++ [']'] := by simp [pretty, scalar]
    rw [empty]
    exact entry_of_front (front_empty (by decide) fun _ _ => passes_openBracket) fun _ _ => passes_closeBracket
  | cons item others =>
    obtain ⟨entry, later⟩ := List.forall_mem_cons.mp entries
    have front := front_lines indent (by decide) (fun _ _ => passes_openBracket) entry (List.forall_mem_map.mpr later)
      (by decide : ScalarText.isFlowIndicator ']' = true)
    rw [toList_pretty_arr]
    exact entry_of_front front fun _ _ => passes_closeBracket

/-- What is printed of an object before its closing brace. -/
theorem front_object {indent : Nat} {members : Members Value}
    (entries : ∀ member ∈ members, Entry (pretty (indent + 2) member.2).toList) :
    ∃ front, (pretty indent (.obj members)).toList = front ++ ['\x7d'] ∧ Front front '\x7d' := by
  cases members with
  | nil =>
    exact ⟨['\x7b'], by simp [pretty, scalar], front_empty (by decide) fun _ _ => passes_openBrace⟩
  | cons member others =>
    obtain ⟨entry, later⟩ := List.forall_mem_cons.mp entries
    have pairs : ∀ text ∈ others.map (pairText (indent + 2)), Entry text :=
      List.forall_mem_map.mpr fun other held => entry_pair other.1 (later other held)
    exact ⟨_, toList_pretty_obj indent member others,
      front_lines indent (by decide) (fun _ _ => passes_openBrace) (entry_pair member.1 entry) pairs (by decide)⟩

theorem entry_object {indent : Nat} {members : Members Value}
    (entries : ∀ member ∈ members, Entry (pretty (indent + 2) member.2).toList) : Entry (pretty indent (.obj members)).toList := by
  obtain ⟨front, text, passes⟩ := front_object entries
  rw [text]
  exact entry_of_front passes fun _ _ => passes_closeBrace

theorem entry_constant : ∀ word ∈ ["null", "true", "false"], Entry word.toList := by
  have begun : ∀ word ∈ ["null", "true", "false"], word.toList.head?.any begins = true ∧ '-' ∉ word.toList ∧
    word.toList.all ScalarText.goesOn = true := by decide
  intro word member
  obtain ⟨starts, positive, inside⟩ := begun word member
  rw [List.all_eq_true] at inside
  cases same : word.toList with
  | nil => simp [same] at starts
  | cons first others =>
    rw [same] at starts positive inside
    exact entry_word starts inside fun hyphen => absurd (hyphen ▸ List.mem_cons_self) positive

mutual
theorem entry_pretty (indent : Nat) : (value : Value) → Entry (pretty indent value).toList
  | .null => entry_constant "null" (by decide)
  | .bool true => entry_constant "true" (by decide)
  | .bool false => entry_constant "false" (by decide)
  | .num number => entry_number number
  | .str text => entry_quote text
  | .arr items => entry_array (entry_items (indent + 2) items)
  | .obj members => entry_object (entry_members (indent + 2) members)

theorem entry_items (indent : Nat) : (items : List Value) → ∀ item ∈ items, Entry (pretty indent item).toList
  | [] => List.forall_mem_nil _
  | item :: others => List.forall_mem_cons.mpr ⟨entry_pretty indent item, entry_items indent others⟩

theorem entry_members (indent : Nat) : (members : Members Value) → ∀ member ∈ members, Entry (pretty indent member.2).toList
  | [] => List.forall_mem_nil _
  | member :: others => List.forall_mem_cons.mpr ⟨entry_pretty indent member.2, entry_members indent others⟩
end

/-! ### The end of a document -/

theorem skipSpaceFrom_end (scan : Scan) (fuel : Nat) : skipSpaceFrom (fuel + 1) (scan.before []) = scan.before [] := by
  have none (class' : Char → Bool) : (scan.cursor.before []).skipWhile class' = scan.cursor.before [] := skipWhile_before ..
  unfold skipSpaceFrom
  simp only [before, startsWith, before_rest, List.head?_nil, none, atBreak, Option.any_none, reduceCtorEq, decide_false,
    Bool.and_false, Bool.false_eq_true, if_false]

/-- A line feed at the end of the text is passed over. -/
theorem skipSpace_end {scan : Scan} (within : Within depth column scan) {rest : List Char} (ended : rest = [] ∨ rest = ['\n']) :
    ∃ after : Scan, Within depth 0 after ∧ after.done = scan.done ∧ (scan.before rest).skipSpace = after.before [] := by
  rcases ended with rfl | rfl
  · exact ⟨scan, within.weaken (Nat.zero_le _), rfl, skipSpaceFrom_end scan _⟩
  · have left : (scan.before ['\n']).cursor.left = 1 := left_before scan.cursor ['\n']
    refine ⟨{ scan with cursor := scan.cursor.below '\n', keyAllowed := scan.keyAllowed || !scan.inFlow },
      within.moved (Nat.zero_le _), rfl, ?_⟩
    rw [skipSpace, left, skipSpaceFrom_newline, skipSpaceFrom_end]

/-- The end of the text ends the tokens. -/
theorem tokensFrom_end {scan : Scan} (within : Within depth column scan) (fuel : Nat) {rest : List Char}
    (ended : rest = [] ∨ rest = ['\n']) : tokensFrom (fuel + 1) (scan.before rest) = some scan.done.reverse := by
  obtain ⟨after, inside, same, skipped⟩ := skipSpace_end within ended
  obtain ⟨fresh, kept, done, expired⟩ := expireKeys?_before inside
  have closed (least : Int) : (fresh.before []).close least = fresh.before [] := close_before kept [] least
  have empty : (fresh.before []).cursor.rest = [] := rfl
  rw [tokensFrom, skipped, expired]
  simp only [Option.bind_eq_bind, Option.bind_some, closed, empty, dropKey?_before kept]
  exact congrArg (fun tokens => some tokens.reverse) (done.trans same)

theorem start_eq (text : List Char) : start text = (start []).before text := by
  simp [start, Cursor.start, before, Cursor.before]

/-- When a text is a collection up to the brace that is its last character, a line feed adds no token. -/
theorem tokensFrom_newline {front : List Char} (passes : Front front '\x7d') :
    tokensFrom (front.length + 3) (start (front ++ ['\x7d', '\n'])) = tokensFrom (front.length + 2) (start (front ++ ['\x7d'])) := by
  have outside : Within 0 0 (start []) := ⟨rfl, rfl, rfl, Nat.le_refl _, by simp [start], by simp [start]⟩
  obtain ⟨reached, steps, few, kept, goes⟩ := passes.2 0 0 (start []) outside
  obtain ⟨spare, enough⟩ := Nat.exists_eq_add_of_le few
  have more : front.length + 3 = (spare + 1 + 1) + 1 + steps := by omega
  have less : front.length + 2 = (spare + 1) + 1 + steps := by omega
  rw [start_eq, start_eq (front ++ ['\x7d']), more, less, goes, goes]
  cases reached with
  | none => rfl
  | some after =>
    obtain ⟨fresh, inside, step⟩ := tokensFrom_step (by decide : Solid '\x7d') (kept after rfl)
    obtain ⟨closed, outer, took⟩ := closeBrace_before inside
    simp only [Option.bind_some, step, took, tokensFrom_end outer _ (.inl rfl), tokensFrom_end outer _ (.inr rfl)]

theorem tokens?_newline (members : Members Value) :
    tokens? (pretty 0 (.obj members) ++ "\n") = tokens? (pretty 0 (.obj members)) := by
  obtain ⟨front, text, passes⟩ := front_object (entry_members (0 + 2) members)
  have longer : (pretty 0 (.obj members) ++ "\n").toList = front ++ ['\x7d', '\n'] := by simp [text]
  have allowed : (front ++ ['\x7d', '\n']).all isAllowed = (front ++ ['\x7d']).all isAllowed := by
    have brace : isAllowed '\x7d' = true := by decide
    have line : isAllowed '\n' = true := by decide
    simp only [List.all_append, List.all_cons, List.all_nil, brace, line, Bool.and_true]
  simp only [tokens?, text, longer, allowed, List.length_append, List.length_cons, List.length_nil]
  rw [tokensFrom_newline passes]

end Scan

/-- The printed text of an object is read as YAML in the same way with a line feed at its end. -/
theorem read_pretty_newline (members : Members Value) :
    read (Json.pretty 0 (.obj members) ++ "\n") = read (Json.pretty 0 (.obj members)) := by
  rw [read, Scan.tokens?_newline, read]

end Yaml
end ApiDialect
