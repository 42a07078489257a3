import ApiDialect.Proofs.FlowScalars
import ApiDialect.Yaml.Indentation

/-! Steps of the scanner inside flow collections. There are no blocks there and no key is required, so
a step depends on the text that it takes, whatever follows. -/

namespace ApiDialect
namespace Yaml
namespace Scan
open Cursor

/-- The same state before another text. -/
def before (scan : Scan) (rest : List Char) : Scan :=
  { scan with cursor := scan.cursor.before rest }

/-- Outside of blocks, inside this many flow collections and at least in this column. -/
structure Within (depth column : Nat) (scan : Scan) : Prop where
  indent : scan.indent = -1
  outer : scan.outer = []
  depth : scan.outerKeys.length = depth
  column : column ≤ scan.cursor.column
  key : ∀ key ∈ scan.key, key.required = false
  outerKeys : ∀ held ∈ scan.outerKeys, ∀ key ∈ held, key.required = false

variable {scan : Scan} {depth column : Nat} {rest : List Char}

theorem Within.weaken {least : Nat} (within : Within depth column scan) (less : least ≤ column) : Within depth least scan :=
  ⟨within.indent, within.outer, within.depth, Nat.le_trans less within.column, within.key, within.outerKeys⟩

theorem Within.moved {least count : Nat} {cursor : Cursor} {done : List Token} {allowed : Bool}
    (within : Within depth column scan) (enough : least ≤ cursor.column) :
    Within depth least { scan with cursor := cursor, done := done, count := count, keyAllowed := allowed } :=
  ⟨within.indent, within.outer, within.depth, enough, within.key, within.outerKeys⟩

theorem Within.keyed {key : Option PossibleKey} {allowed : Bool} (within : Within depth column scan)
    (loose : ∀ held ∈ key, held.required = false) : Within depth column { scan with key := key, keyAllowed := allowed } :=
  ⟨within.indent, within.outer, within.depth, within.column, loose, within.outerKeys⟩

theorem Within.inFlow (within : Within (depth + 1) column scan) : scan.inFlow = true := by
  have deep := within.depth
  unfold Scan.inFlow
  cases held : scan.outerKeys with
  | nil => simp [held] at deep
  | cons => rfl

/-! ### Keys -/

theorem dropKey?_before (within : Within depth column scan) (rest : List Char) :
    (scan.before rest).dropKey? = some ({ scan with key := none }.before rest) := by
  have loose : scan.key.any PossibleKey.required = false := by
    rw [Option.any_eq_false]
    exact fun key held => by simp [within.key key held]
  exact if_neg (by simpa [before] using loose)

/-- The current place as a key. -/
def here (scan : Scan) : PossibleKey :=
  ⟨false, scan.count, scan.cursor.line, scan.cursor.column, scan.cursor.offset⟩

theorem saveKey?_before (within : Within depth column scan) :
    ∃ saved, Within depth column saved ∧ ∀ rest, (scan.before rest).saveKey? = some (saved.before rest) := by
  cases allowed : scan.keyAllowed with
  | false =>
    refine ⟨scan, within, fun rest => ?_⟩
    exact if_neg (by simp [before, allowed])
  | true =>
    refine ⟨{ scan with key := some scan.here }, within.keyed (by simp [here]), fun rest => ?_⟩
    have required : decide ((scan.before rest).indent = ((scan.before rest).cursor.column : Int)) = false := by
      have outside : scan.indent = -1 := within.indent
      rw [decide_eq_false_iff_not]
      change ¬ scan.indent = (scan.cursor.column : Int)
      omega
    have allow : (scan.before rest).keyAllowed = true := allowed
    unfold saveKey?
    rw [if_pos allow]
    simp only [dropKey?_before within rest, required, Bool.and_false]
    rfl

theorem fresh?_loose (cursor : Cursor) {held : Option PossibleKey} (loose : ∀ key ∈ held, key.required = false) :
    ∃ kept, fresh? cursor held = some kept ∧ ∀ key ∈ kept, key.required = false := by
  cases held with
  | none => exact ⟨none, rfl, by simp⟩
  | some key =>
    have free := loose key rfl
    simp only [fresh?, free, Bool.false_eq_true, if_false]
    split
    next => exact ⟨none, rfl, by simp⟩
    next => exact ⟨some key, rfl, loose⟩

theorem mapM_fresh?_loose (cursor : Cursor) {keys : List (Option PossibleKey)}
    (loose : ∀ held ∈ keys, ∀ key ∈ held, key.required = false) :
    ∃ kept, keys.mapM (fresh? cursor) = some kept ∧ kept.length = keys.length ∧
      ∀ held ∈ kept, ∀ key ∈ held, key.required = false := by
  induction keys with
  | nil => exact ⟨[], rfl, rfl, by simp⟩
  | cons held others ih =>
    obtain ⟨first, later⟩ := List.forall_mem_cons.mp loose
    obtain ⟨one, same, free⟩ := fresh?_loose cursor first
    obtain ⟨more, rest, size, all⟩ := ih later
    refine ⟨one :: more, by simp [same, rest], by simp [size], List.forall_mem_cons.mpr ⟨free, all⟩⟩

/-- Keys expire by the line and the offset, not by what follows. -/
theorem expireKeys?_before (within : Within depth column scan) :
    ∃ fresh, Within depth column fresh ∧ fresh.done = scan.done ∧
      ∀ rest, (scan.before rest).expireKeys? = some (fresh.before rest) := by
  obtain ⟨key, one, free⟩ := fresh?_loose scan.cursor within.key
  obtain ⟨keys, others, size, all⟩ := mapM_fresh?_loose scan.cursor within.outerKeys
  refine ⟨{ scan with key := key, outerKeys := keys },
    ⟨within.indent, within.outer, size.trans within.depth, within.column, free, all⟩, rfl, fun rest => ?_⟩
  have same : fresh? (scan.cursor.before rest) = fresh? scan.cursor := rfl
  simp only [expireKeys?, before, same, one, others]
  rfl

theorem close_before (within : Within depth column scan) (rest : List Char) (least : Int) :
    (scan.before rest).close least = scan.before rest := by
  have none : (scan.before rest).outer = [] := within.outer
  rw [close, none]
  exact ite_self _

/-! ### One step -/

/-- Characters that start a token. -/
def Solid (char : Char) : Prop :=
  isBlank char = false ∧ isBreak char = false ∧ char ≠ '#' ∧ char ≠ '\uFEFF'

instance (char : Char) : Decidable (Solid char) :=
  inferInstanceAs (Decidable (_ ∧ _ ∧ _ ∧ _))

theorem skipSpaceFrom_solid {char : Char} (solid : Solid char) (scan : Scan) (fuel : Nat) (rest : List Char) :
    skipSpaceFrom (fuel + 1) (scan.before (char :: rest)) = scan.before (char :: rest) := by
  obtain ⟨blank, broken, comment, mark⟩ := solid
  simp only [isBlank, Bool.or_eq_false_iff, decide_eq_false_iff_not] at blank
  unfold skipSpaceFrom
  simp only [before, startsWith, before_rest, List.head?_cons, Option.some.injEq, mark, Bool.and_false,
    Bool.false_eq_true, if_false, decide_false]
  rw [skipWhile_stop (by simp [blank])]
  simp [atBreak, broken, comment]

theorem skipSpace_before {char : Char} (solid : Solid char) (scan : Scan) (rest : List Char) :
    (scan.before (char :: rest)).skipSpace = scan.before (char :: rest) :=
  skipSpaceFrom_solid solid scan _ rest

/-- A step takes one token, when the keys that are too old have gone. -/
theorem tokensFrom_step {char : Char} (solid : Solid char) (within : Within depth column scan) :
    ∃ fresh, Within depth column fresh ∧ ∀ fuel rest,
      tokensFrom (fuel + 1) (scan.before (char :: rest)) = ((fresh.before (char :: rest)).token? char).bind (tokensFrom fuel) := by
  obtain ⟨fresh, inside, _, expired⟩ := expireKeys?_before within
  refine ⟨fresh, inside, fun fuel rest => ?_⟩
  rw [tokensFrom, skipSpace_before solid, expired]
  simp only [Option.bind_eq_bind, Option.bind_some, close_before inside]
  rfl

/-! ### White space -/

/-- White space between the tokens of printed text. -/
def White (space : List Char) : Prop :=
  ∀ char ∈ space, char = ' ' ∨ char = '\n'

theorem White.isOpen {space : List Char} (white : White space) : ∀ char ∈ space, Gap.isOpen char = true := by
  intro char member
  rcases white char member with rfl | rfl <;> decide

/-- The state behind white space. -/
def spaced (scan : Scan) : List Char → Scan
  | [] => scan
  | char :: rest =>
    if char = '\n' then spaced { scan with cursor := scan.cursor.below char, keyAllowed := scan.keyAllowed || !scan.inFlow } rest
    else spaced { scan with cursor := scan.cursor.past [char] } rest

theorem skipSpaceFrom_blank (scan : Scan) (fuel : Nat) (rest : List Char) :
    skipSpaceFrom (fuel + 1) (scan.before (' ' :: rest)) =
      skipSpaceFrom (fuel + 1) ({ scan with cursor := scan.cursor.past [' '] }.before rest) := by
  have kept (class' : Char → Bool) (inside : class' ' ' = true) : (scan.cursor.before (' ' :: rest)).skipWhile class' =
      ((scan.cursor.past [' ']).before rest).skipWhile class' := by
    rw [skipWhile_before, skipWhile_before, List.takeWhile_cons_of_pos inside, List.dropWhile_cons_of_pos inside, past_past]
    rfl
  have inner : (scan.cursor.past [' ']).column ≠ 0 := Nat.succ_ne_zero _
  conv_lhs => unfold skipSpaceFrom
  conv_rhs => unfold skipSpaceFrom
  simp only [before, startsWith, before_rest, before_column, inner, List.head?_cons, Option.some.injEq]
  simp [inFlow, kept]

theorem skipSpaceFrom_newline (scan : Scan) (fuel : Nat) (rest : List Char) :
    skipSpaceFrom (fuel + 1) (scan.before ('\n' :: rest)) = skipSpaceFrom fuel
      ({ scan with cursor := scan.cursor.below '\n', keyAllowed := scan.keyAllowed || !scan.inFlow }.before rest) := by
  obtain ⟨_, taken⟩ := takeBreak_before (by decide : isBreak '\n' = true) (by decide)
  have mark : '\n' ≠ '\uFEFF' := by decide
  conv_lhs => unfold skipSpaceFrom
  simp only [before, startsWith, before_rest, List.head?_cons, Option.some.injEq, mark, Bool.and_false,
    Bool.false_eq_true, if_false, decide_false]
  rw [skipWhile_stop (by simp)]
  simp [atBreak, isBreak, taken, inFlow]

theorem newlines_le_byteCount (space rest : List Char) : space.count '\n' ≤ byteCount (space ++ rest) := by
  have most := List.count_le_length (a := '\n') (l := space)
  have size := length_le_byteCount (space ++ rest)
  rw [List.length_append] at size
  omega

theorem skipSpaceFrom_before {char : Char} (solid : Solid char) {space : List Char} (white : White space) (scan : Scan)
    (rest : List Char) {fuel : Nat} (enough : space.count '\n' < fuel) :
    skipSpaceFrom fuel (scan.before (space ++ char :: rest)) = (scan.spaced space).before (char :: rest) := by
  induction space generalizing scan fuel with
  | nil =>
    obtain ⟨fuel, rfl⟩ := Nat.exists_eq_add_one.mpr (Nat.zero_lt_of_lt enough)
    exact skipSpaceFrom_solid solid scan fuel rest
  | cons first others ih =>
    obtain ⟨one, later⟩ := List.forall_mem_cons.mp white
    obtain ⟨fuel, rfl⟩ := Nat.exists_eq_add_one.mpr (Nat.zero_lt_of_lt enough)
    rcases one with rfl | rfl
    · rw [List.cons_append, skipSpaceFrom_blank]
      exact ih later _ (by simpa using enough)
    · rw [List.cons_append, skipSpaceFrom_newline]
      exact ih later _ (by simpa using enough)

/-- White space before a token is passed over first. -/
theorem tokensFrom_space {char : Char} (solid : Solid char) {space : List Char} (white : White space) (scan : Scan)
    (rest : List Char) (fuel : Nat) :
    tokensFrom (fuel + 1) (scan.before (space ++ char :: rest)) =
      tokensFrom (fuel + 1) ((scan.spaced space).before (char :: rest)) := by
  have skipped : (scan.before (space ++ char :: rest)).skipSpace = (scan.spaced space).before (char :: rest) := by
    refine skipSpaceFrom_before solid white scan rest ?_
    change _ < (scan.cursor.before (space ++ char :: rest)).left + 1
    rw [left_before]
    exact Nat.lt_succ_of_le (newlines_le_byteCount space _)
  rw [tokensFrom, tokensFrom, skipped, skipSpace_before solid]

/-! ### Pieces of text -/

/-- From a state of the first kind the scanner comes over the piece to a state of the second kind, or
it fails there, and what stands behind the next character has no part in it. -/
def Passes (first second : Scan → Prop) (piece : List Char) (next : Char) : Prop :=
  ∀ scan, first scan → ∃ (reached : Option Scan) (steps : Nat), steps ≤ piece.length ∧ (∀ after ∈ reached, second after) ∧
    ∀ fuel rest, tokensFrom (fuel + 1 + steps) (scan.before (piece ++ next :: rest)) =
      reached.bind fun after => tokensFrom (fuel + 1) (after.before (next :: rest))

variable {first second third : Scan → Prop} {piece other : List Char} {next last : Char}

theorem Passes.append (one : Passes first second piece next) (two : Passes second third other last)
    (starts : other.head? = some next) : Passes first third (piece ++ other) last := by
  obtain ⟨others, rfl⟩ := List.head?_eq_some_iff.mp starts
  intro scan start
  obtain ⟨reached, steps, few, kept, goes⟩ := one scan start
  cases reached with
  | none =>
    refine ⟨none, steps, ?_, by simp, fun fuel rest => ?_⟩
    · rw [List.length_append]
      omega
    · rw [List.append_assoc, List.cons_append, goes]
      rfl
  | some middle =>
    obtain ⟨ended, more, fewer, all, ran⟩ := two middle (kept middle rfl)
    refine ⟨ended, steps + more, ?_, all, fun fuel rest => ?_⟩
    · rw [List.length_append]
      omega
    · have total : fuel + 1 + (steps + more) = (fuel + more) + 1 + steps := by omega
      have order : fuel + more + 1 = fuel + 1 + more := by omega
      rw [List.append_assoc, List.cons_append, total, goes, Option.bind_some, order, ← ran, List.cons_append]

theorem Passes.weaken {weaker : Scan → Prop} (passes : Passes first second piece next) (implies : ∀ scan, second scan → weaker scan) :
    Passes first weaker piece next := by
  intro scan start
  obtain ⟨reached, steps, few, kept, goes⟩ := passes scan start
  exact ⟨reached, steps, few, fun after held => implies after (kept after held), goes⟩

theorem passes_space (solid : Solid next) {space : List Char} (white : White space)
    (kept : ∀ scan, first scan → second (scan.spaced space)) : Passes first second space next := by
  intro scan start
  refine ⟨some (scan.spaced space), 0, Nat.zero_le _, ?_, fun fuel rest => tokensFrom_space solid white scan rest fuel⟩
  rintro after ⟨⟩
  exact kept scan start

/-- A token is passed when its reader does not look behind it. -/
theorem passes_token {char : Char} (solid : Solid char)
    (reads : ∀ scan, Within depth column scan → ∃ reached : Option Scan, (∀ after ∈ reached, second after) ∧
      ∀ rest, (scan.before (char :: (piece ++ next :: rest))).token? char = reached.map (before · (next :: rest))) :
    Passes (Within depth column) second (char :: piece) next := by
  intro scan start
  obtain ⟨fresh, within, step⟩ := tokensFrom_step solid start
  obtain ⟨reached, kept, took⟩ := reads fresh within
  refine ⟨reached, 1, Nat.succ_le_succ (Nat.zero_le _), kept, fun fuel rest => ?_⟩
  rw [List.cons_append, step, took]
  cases reached <;> rfl

/-! ### Single characters -/

/-- The state behind a character that is a token. -/
def behind (scan : Scan) (char : Char) (token : Token) : Scan :=
  { scan with cursor := scan.cursor.past [char] }.push token

theorem take_before (scan : Scan) (char : Char) (token : Token) (rest : List Char) :
    (scan.before (char :: rest)).take 1 token = (scan.behind char token).before rest := by
  have step : (scan.cursor.before (char :: rest)).skip 1 = (scan.cursor.past [char]).before rest :=
    skip_before scan.cursor [char] rest
  simp only [take, before, step]
  rfl

theorem Within.behind (within : Within depth column scan) (char : Char) (token : Token) :
    Within depth 1 (scan.behind char token) :=
  within.moved (Nat.succ_le_succ (Nat.zero_le _))

theorem flowStart?_before (within : Within depth column scan) (char : Char) (token : Token) :
    ∃ reached, Within (depth + 1) 1 reached ∧
      ∀ rest, (scan.before (char :: rest)).flowStart? token = some (reached.before rest) := by
  obtain ⟨saved, inside, saves⟩ := saveKey?_before within
  let opened : Scan := { saved with key := none, outerKeys := saved.key :: saved.outerKeys, keyAllowed := true }
  have deeper : Within (depth + 1) column opened :=
    ⟨inside.indent, inside.outer, congrArg (· + 1) inside.depth, inside.column, by simp [opened],
      List.forall_mem_cons.mpr ⟨inside.key, inside.outerKeys⟩⟩
  refine ⟨opened.behind char token, deeper.behind char token, fun rest => ?_⟩
  rw [flowStart?, saves]
  exact congrArg some (take_before opened char token rest)

theorem flowEnd?_before (within : Within (depth + 1) column scan) (char : Char) (token : Token) :
    ∃ reached, Within depth 1 reached ∧
      ∀ rest, (scan.before (char :: rest)).flowEnd? token = some (reached.before rest) := by
  obtain ⟨key, others, held⟩ := List.exists_cons_of_length_eq_add_one within.depth
  have loose := within.outerKeys
  rw [held] at loose
  obtain ⟨first, later⟩ := List.forall_mem_cons.mp loose
  let closed : Scan := { scan with key := key, outerKeys := others, keyAllowed := false }
  have flatter : Within depth column closed := by
    refine ⟨within.indent, within.outer, ?_, within.column, first, later⟩
    have deep := within.depth
    rw [held] at deep
    exact Nat.succ.inj deep
  refine ⟨closed.behind char token, flatter.behind char token, fun rest => ?_⟩
  have outer : ({ scan with key := none }.before (char :: rest)).outerKeys = key :: others := held
  rw [flowEnd?, dropKey?_before within]
  simp only [Option.bind_eq_bind, Option.bind_some, outer]
  exact congrArg some (take_before closed char token rest)

theorem flowEntry?_before (within : Within depth column scan) (char : Char) :
    ∃ reached, Within depth 1 reached ∧
      ∀ rest, Scan.flowEntry? (scan.before (char :: rest)) = some (reached.before rest) := by
  let ready : Scan := { scan with key := none, keyAllowed := true }
  have same : Within depth column ready := within.keyed (by simp)
  refine ⟨ready.behind char .flowEntry, same.behind char _, fun rest => ?_⟩
  rw [ flowEntry?, dropKey?_before within]
  exact congrArg some (take_before ready char .flowEntry rest)

theorem openBlock_before (within : Within (depth + 1) column scan) (rest : List Char) (place : Nat) (add : Scan → Scan) :
    (scan.before rest).openBlock place add = scan.before rest := by
  have flow : (scan.before rest).inFlow = true := within.inFlow
  rw [openBlock, flow]
  rfl

/-- A colon makes a key of the place that was kept for one, or it stands for itself. -/
theorem value?_before (within : Within (depth + 1) column scan) (char : Char) :
    ∃ reached, Within (depth + 1) 1 reached ∧
      ∀ rest, (scan.before (char :: rest)).value? = some (reached.before rest) := by
  cases held : scan.key with
  | some key =>
    let keyed : Scan := scan.insertAt key.number .key
    let ready : Scan := { keyed with key := none, keyAllowed := false }
    have inner : Within (depth + 1) column keyed := within.moved within.column
    have same : Within (depth + 1) column ready := inner.keyed (by simp)
    refine ⟨ready.behind char .value, same.behind char _, fun rest => ?_⟩
    have seen : (scan.before (char :: rest)).key = some key := held
    have inserted : (scan.before (char :: rest)).insertAt key.number .key = keyed.before (char :: rest) := rfl
    unfold value?
    simp only [seen, inserted, openBlock_before inner]
    exact congrArg some (take_before ready char .value rest)
  | none =>
    let ready : Scan := { scan with key := none, keyAllowed := false }
    have same : Within (depth + 1) column ready := within.keyed (by simp)
    refine ⟨ready.behind char .value, same.behind char _, fun rest => ?_⟩
    have seen : (scan.before (char :: rest)).key = none := held
    have flow : (scan.before (char :: rest)).inFlow = true := within.inFlow
    unfold value?
    simp only [seen, flow, openBlock_before within, Bool.not_true, Bool.false_and, Bool.false_eq_true, if_false]
    exact congrArg some (take_before ready char .value rest)

theorem passes_char {char : Char} (solid : Solid char) {deeper : Nat}
    (reads : ∀ scan, Within depth column scan → ∃ reached, Within deeper 1 reached ∧
      ∀ rest, (scan.before (char :: rest)).token? char = some (reached.before rest)) (next : Char) :
    Passes (Within depth column) (Within deeper 1) [char] next := by
  refine passes_token solid fun scan within => ?_
  obtain ⟨reached, inside, took⟩ := reads scan within
  refine ⟨some reached, ?_, fun rest => took _⟩
  rintro after ⟨⟩
  exact inside

theorem unmarked_before {char : Char} (hyphen : char ≠ '-') (dot : char ≠ '.') (scan : Scan) (rest : List Char) :
    (scan.before (char :: rest)).cursor.atDocumentMark = false :=
  ScalarText.atDocumentMark_eq_false hyphen dot scan.cursor rest

/-- The reader of an indicator of flow collections. -/
def indicator? (scan : Scan) (char : Char) : Option Scan :=
  match char with
  | '\x7b' => scan.flowStart? .flowMappingStart
  | '\x7d' => scan.flowEnd? .flowMappingEnd
  | '[' => scan.flowStart? .flowSequenceStart
  | ']' => scan.flowEnd? .flowSequenceEnd
  | ',' => scan.flowEntry?
  | '"' => scan.quotedScalar? false
  | ':' => scan.value?
  | _ => none

theorem token?_indicator {char : Char} (flow : char ≠ ':' ∨ scan.inFlow = true) (member : char ∈ "\x7b\x7d[],\":".toList)
    (rest : List Char) : (scan.before (char :: rest)).token? char = (scan.before (char :: rest)).indicator? char := by
  have inside : (scan.before (':' :: rest)).inFlow = scan.inFlow := rfl
  have every : char = '\x7b' ∨ char = '\x7d' ∨ char = '[' ∨ char = ']' ∨ char = ',' ∨ char = '"' ∨ char = ':' := by
    simpa using member
  rcases every with rfl | rfl | rfl | rfl | rfl | rfl | rfl
  case inr.inr.inr.inr.inr.inr => simp [token?, indicator?, unmarked_before, inside, flow.resolve_left (by simp)]
  all_goals simp [token?, indicator?, unmarked_before]

theorem passes_openBrace (next : Char) : Passes (Within depth column) (Within (depth + 1) 1) ['\x7b'] next := by
  refine passes_char (by decide) (fun scan within => ?_) next
  obtain ⟨reached, inside, took⟩ := flowStart?_before within '\x7b' .flowMappingStart
  refine ⟨reached, inside, fun rest => ?_⟩
  rw [token?_indicator (.inl (by decide)) (by decide)]
  exact took rest

theorem passes_openBracket (next : Char) : Passes (Within depth column) (Within (depth + 1) 1) ['['] next := by
  refine passes_char (by decide) (fun scan within => ?_) next
  obtain ⟨reached, inside, took⟩ := flowStart?_before within '[' .flowSequenceStart
  refine ⟨reached, inside, fun rest => ?_⟩
  rw [token?_indicator (.inl (by decide)) (by decide)]
  exact took rest

/-- The step is told apart, since nothing comes behind the last brace of a document. -/
theorem closeBrace_before (within : Within (depth + 1) column scan) :
    ∃ reached, Within depth 1 reached ∧ ∀ rest, (scan.before ('\x7d' :: rest)).token? '\x7d' = some (reached.before rest) := by
  obtain ⟨reached, inside, took⟩ := flowEnd?_before within '\x7d' .flowMappingEnd
  refine ⟨reached, inside, fun rest => ?_⟩
  rw [token?_indicator (.inl (by decide)) (by decide)]
  exact took rest

theorem passes_closeBrace (next : Char) : Passes (Within (depth + 1) column) (Within depth 1) ['\x7d'] next :=
  passes_char (by decide) (fun _ within => closeBrace_before within) next

theorem passes_closeBracket (next : Char) : Passes (Within (depth + 1) column) (Within depth 1) [']'] next := by
  refine passes_char (by decide) (fun scan within => ?_) next
  obtain ⟨reached, inside, took⟩ := flowEnd?_before within ']' .flowSequenceEnd
  refine ⟨reached, inside, fun rest => ?_⟩
  rw [token?_indicator (.inl (by decide)) (by decide)]
  exact took rest

theorem passes_comma (next : Char) : Passes (Within depth column) (Within depth 1) [','] next := by
  refine passes_char (by decide) (fun scan within => ?_) next
  obtain ⟨reached, inside, took⟩ := flowEntry?_before within ','
  refine ⟨reached, inside, fun rest => ?_⟩
  rw [token?_indicator (.inl (by decide)) (by decide)]
  exact took rest

theorem passes_colon (next : Char) : Passes (Within (depth + 1) column) (Within (depth + 1) 1) [':'] next := by
  refine passes_char (by decide) (fun scan within => ?_) next
  obtain ⟨reached, inside, took⟩ := value?_before within ':'
  refine ⟨reached, inside, fun rest => ?_⟩
  rw [token?_indicator (.inr within.inFlow) (by decide)]
  exact took rest

/-! ### Scalars -/

theorem passes_quoted (text : String) (next : Char) :
    Passes (Within (depth + 1) column) (Within (depth + 1) 0) (Json.quote text).toList next := by
  have shape : (Json.quote text).toList = '"' :: (text.toList.flatMap Json.escape ++ ['"']) := by
    simp [Json.quote]
  rw [shape]
  refine passes_token (by decide) fun scan within => ?_
  obtain ⟨saved, inside, saves⟩ := saveKey?_before within
  obtain ⟨outcome, reads⟩ := ScalarText.quoted_text text (saved.cursor.past ['"'])
  refine ⟨outcome.map fun scalar =>
    { saved with cursor := scalar.2, keyAllowed := false }.push (.scalar (String.ofList scalar.1) false), ?_, fun rest => ?_⟩
  · intro after held
    obtain ⟨scalar, _, rfl⟩ := Option.map_eq_some_iff.mp held
    exact inside.moved (Nat.zero_le _)
  · have step : (scan.before ('"' :: (text.toList.flatMap Json.escape ++ ['"'] ++ next :: rest))).token? '"' =
        (scan.before ('"' :: (text.toList.flatMap Json.escape ++ ['"'] ++ next :: rest))).quotedScalar? false :=
      token?_indicator (.inl (by decide)) (by decide) _
    have skip : (saved.before ('"' :: (text.toList.flatMap Json.escape ++ ['"'] ++ next :: rest))).cursor.skip 1 =
        (saved.cursor.past ['"']).before (text.toList.flatMap Json.escape ++ '"' :: next :: rest) := by
      rw [List.append_assoc]
      exact skip_before saved.cursor ['"'] _
    rw [step, quotedScalar?, saves]
    simp only [Option.bind_eq_bind, Option.bind_some, skip, reads]
    cases outcome <;> rfl

/-- How words and numbers start. -/
def begins (char : Char) : Bool :=
  Json.continues char || char = 'n' || char = 't' || char = 'f'

theorem mem_of_begins {char : Char} (starts : begins char = true) : char ∈ "0123456789.eE+-ntf".toList := by
  simp only [begins, Bool.or_eq_true, decide_eq_true_eq, or_assoc] at starts
  rcases starts with part | rfl | rfl | rfl
  · exact List.mem_append_left "ntf".toList (Json.mem_of_continues part)
  all_goals decide

theorem of_begins {char : Char} (holds : Char → Bool) (every : "0123456789.eE+-ntf".toList.all holds = true)
    (starts : begins char = true) : holds char = true :=
  List.all_eq_true.mp every char (mem_of_begins starts)

theorem begins_plain {char : Char} (starts : begins char = true) :
    isSeparator char = false ∧ (char = '-' ∨ isIndicator char = false) := by
  have plain := of_begins (fun char => !isSeparator char && (char = '-' || !isIndicator char)) (by decide) starts
  simpa using plain

theorem solid_of_begins {char : Char} (starts : begins char = true) : Solid char := by
  have solid := of_begins (fun char => decide (Solid char)) (by decide) starts
  exact of_decide_eq_true solid

/-- A hyphen starts a word when something stands behind it. -/
theorem token?_word {char : Char} (starts : begins char = true) (within : Within (depth + 1) 1 scan) (rest : List Char)
    (hyphen : char = '-' → separated rest = false) :
    (scan.before (char :: rest)).token? char = (scan.before (char :: rest)).plainScalar? := by
  have flow : (scan.before (char :: rest)).inFlow = true := within.inFlow
  have column : decide ((scan.before (char :: rest)).cursor.column = 0) = false := by
    rw [decide_eq_false_iff_not]
    exact Nat.ne_of_gt within.column
  have unmarked : (scan.before (char :: rest)).cursor.atDocumentMark = false := by
    rw [atDocumentMark, column]
    rfl
  have behind : (scan.before (char :: rest)).cursor.separatedNext = separated rest := rfl
  obtain ⟨visible, plain⟩ := begins_plain starts
  unfold token?
  simp only [column, unmarked, Bool.false_and, Bool.false_eq_true, if_false]
  split
  case h_11 =>
    rcases plain with rfl | plain
    · have solid : ((scan.before ('-' :: rest)).cursor.skip 1).atBlank = false := by
        have step : (scan.before ('-' :: rest)).cursor.skip 1 = (scan.cursor.past ['-']).before rest :=
          skip_before scan.cursor ['-'] rest
        have there := hyphen rfl
        rw [step]
        cases rest with
        | nil => cases there
        | cons first _ =>
          rw [separated, isSeparator, Bool.or_eq_false_iff] at there
          simp [atBlank, there.1]
      simp [behind, hyphen rfl, flow, startsPlain, solid]
    · have other : char ≠ '-' ∧ char ≠ '?' ∧ char ≠ ':' ∧ char ≠ '|' ∧ char ≠ '>' := by
        refine ⟨?_, ?_, ?_, ?_, ?_⟩ <;> (rintro rfl; exact absurd plain (by decide))
      simp [other, startsPlain, visible, plain]
  all_goals exact absurd starts (by decide)

/-- A word is passed with the white space behind it, up to the end of its entry. -/
theorem passes_word {char : Char} {others space : List Char} (starts : begins char = true)
    (inside : ∀ part ∈ char :: others, ScalarText.goesOn part = true) (hyphen : char = '-' → others ≠ [])
    (white : White space) (indicator : ScalarText.isFlowIndicator next = true) :
    Passes (Within (depth + 1) 1) (Within (depth + 1) 0) (char :: others ++ space) next := by
  refine passes_token (solid_of_begins starts) fun scan within => ?_
  obtain ⟨saved, inner, saves⟩ := saveKey?_before within
  obtain ⟨fresh, reached, reads⟩ := ScalarText.plain_word (List.cons_ne_nil char others) inside white.isOpen indicator saved.cursor
    inner.column
  refine ⟨some ({ saved with cursor := reached, keyAllowed := fresh }.push (.scalar (String.ofList (char :: others)) true)),
    ?_, fun rest => ?_⟩
  · rintro after ⟨⟩
    exact inner.moved (Nat.zero_le _)
  · have ran : ScalarText.plain (saved.indent + 1) saved.inFlow
        (saved.cursor.before (char :: (others ++ space ++ next :: rest))) =
          some ⟨char :: others, fresh, reached.before (next :: rest)⟩ := by
      rw [inner.indent, inner.inFlow, ← reads, List.append_assoc]
      rfl
    rw [token?_word starts within]
    · rw [plainScalar?, saves]
      exact congrArg (fun scalar : Option ScalarText => scalar.bind fun scalar => some
        ({ saved with cursor := scalar.cursor, keyAllowed := scalar.fresh }.push (.scalar (String.ofList scalar.text) true))) ran
    · intro minus
      obtain ⟨first, more, rfl⟩ := List.exists_cons_of_ne_nil (hyphen minus)
      have visible := inside first (by simp)
      simp only [ScalarText.goesOn, Bool.and_eq_true, Bool.not_eq_true'] at visible
      exact visible.1.1.1

end Scan
end Yaml
end ApiDialect
