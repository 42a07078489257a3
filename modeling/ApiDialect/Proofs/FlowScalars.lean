import ApiDialect.Proofs.JsonTokens
import ApiDialect.Yaml.Text
import Mathlib.Data.List.TakeWhile

/-! Quoted text of JSON, as YAML reads it: up to the closing quote, whatever follows. And the words
and numbers of JSON, which end before a separator or an indicator. -/

namespace ApiDialect
namespace Yaml

namespace Cursor
variable {cursor : Cursor} {taken rest : List Char} {char : Char}

theorem byteCount_cons (char : Char) (rest : List Char) : byteCount (char :: rest) = char.utf8Size + byteCount rest := by
  have shift (start : Nat) (text : List Char) :
      text.foldl (fun total char => total + char.utf8Size) start = start + byteCount text := by
    induction text generalizing start with
    | nil => rfl
    | cons char rest ih => rw [byteCount, List.foldl_cons, List.foldl_cons, ih, ih (0 + _)]; omega
  rw [byteCount, List.foldl_cons, shift, Nat.zero_add]

theorem byteCount_append (first second : List Char) : byteCount (first ++ second) = byteCount first + byteCount second := by
  induction first with
  | nil => exact (Nat.zero_add _).symm
  | cons char rest ih => rw [List.cons_append, byteCount_cons, byteCount_cons, ih, Nat.add_assoc]

theorem length_le_byteCount (text : List Char) : text.length ≤ byteCount text := by
  induction text with
  | nil => exact Nat.zero_le _
  | cons char rest ih =>
    have filled := char.utf8Size_pos
    rw [byteCount_cons, List.length_cons]
    omega

/-- The same place before another text. -/
def before (cursor : Cursor) (rest : List Char) : Cursor :=
  { cursor with rest, size := cursor.offset + byteCount rest }

/-- Behind some text of the line. -/
def past (cursor : Cursor) (taken : List Char) : Cursor :=
  { cursor with column := cursor.column + taken.length, offset := cursor.offset + byteCount taken }

/-- Behind a break. -/
def below (cursor : Cursor) (char : Char) : Cursor :=
  { cursor with line := cursor.line + 1, column := 0, offset := cursor.offset + byteCount [char] }

@[simp] theorem before_rest (cursor : Cursor) (rest : List Char) : (cursor.before rest).rest = rest := rfl

@[simp] theorem before_column (cursor : Cursor) (rest : List Char) : (cursor.before rest).column = cursor.column := rfl

theorem left_before (cursor : Cursor) (rest : List Char) : (cursor.before rest).left = byteCount rest :=
  Nat.add_sub_cancel_left ..

theorem forward_before (cursor : Cursor) (taken rest : List Char) :
    (cursor.before (taken ++ rest)).forward taken rest = (cursor.past taken).before rest := by
  simp only [forward, before, past, byteCount_append, Nat.add_assoc]

theorem skip_before (cursor : Cursor) (taken rest : List Char) :
    (cursor.before (taken ++ rest)).skip taken.length = (cursor.past taken).before rest := by
  rw [skip, before_rest, List.take_left, List.drop_left, forward_before]

theorem past_past (cursor : Cursor) (first second : List Char) :
    (cursor.past first).past second = cursor.past (first ++ second) := by
  simp only [past, byteCount_append, List.length_append, Nat.add_assoc]

theorem skipWhile_before (class' : Char → Bool) (cursor : Cursor) (rest : List Char) :
    (cursor.before rest).skipWhile class' = (cursor.past (rest.takeWhile class')).before (rest.dropWhile class') := by
  have whole := forward_before cursor (rest.takeWhile class') (rest.dropWhile class')
  rw [List.takeWhile_append_dropWhile] at whole
  rw [← whole, skipWhile, span, before_rest, List.span_eq_takeWhile_dropWhile]

theorem skipWhile_stop {class' : Char → Bool} (other : class' char = false) (cursor : Cursor) (rest : List Char) :
    (cursor.before (char :: rest)).skipWhile class' = cursor.before (char :: rest) := by
  rw [skipWhile_before, List.takeWhile_cons_of_neg (by simp [other]), List.dropWhile_cons_of_neg (by simp [other])]
  rfl

theorem nextLine_before (cursor : Cursor) (char : Char) (rest : List Char) :
    (cursor.before (char :: rest)).nextLine [char] rest = (cursor.below char).before rest := by
  have none : byteCount [] = 0 := rfl
  simp only [nextLine, before, below, byteCount_cons, none, Nat.add_assoc, Nat.zero_add]

theorem takeBreak_before (breaks : isBreak char = true) (other : char ≠ '\r') :
    ∃ text, ∀ (cursor : Cursor) (rest : List Char),
      (cursor.before (char :: rest)).takeBreak = (text, (cursor.below char).before rest) := by
  refine ⟨if char = '\u2028' ∨ char = '\u2029' then [char] else ['\n'], fun cursor rest => ?_⟩
  rw [← nextLine_before]
  unfold takeBreak
  rw [before_rest]
  split
  next same => exact absurd (List.cons.inj same).1 other
  next same =>
    obtain ⟨rfl, rfl⟩ := List.cons.inj same
    simp only [breaks, Bool.not_true, Bool.false_eq_true, if_false]
    split <;> simp_all
  next same => cases same

end Cursor

/-! ### Blank space inside a scalar -/

namespace Gap
open Cursor
variable {char next : Char} {run : List Char}

/-- Blank space as it stands in JSON, where tabs and carriage returns are escaped. -/
def isOpen (char : Char) : Bool :=
  char = ' ' || (isBreak char && char ≠ '\r')

theorem isBlank_of_isBreak (breaks : isBreak char = true) : isBlank char = false := by
  simp only [isBreak, Bool.or_eq_true, decide_eq_true_eq, or_assoc] at breaks
  rcases breaks with rfl | rfl | rfl | rfl | rfl <;> decide

/-- One blank or break becomes part of the gap. -/
theorem take_step (inside : isOpen char = true) (gap : Gap) (cursor : Cursor) :
    ∃ (after : Gap) (behind : Cursor), ∀ fuel rest,
      take 0 (fuel + 1) gap (cursor.before (char :: rest)) = take 0 fuel after (behind.before rest) := by
  simp only [isOpen, Bool.or_eq_true, Bool.and_eq_true, decide_eq_true_eq, ne_eq] at inside
  rcases inside with rfl | ⟨breaks, line⟩
  · refine ⟨if gap.broken then gap else { gap with blanks := gap.blanks ++ [' '] }, cursor.past [' '], fun fuel rest => ?_⟩
    have step : (cursor.before (' ' :: rest)).skip 1 = (cursor.past [' ']).before rest := skip_before cursor [' '] rest
    rw [← step]
    by_cases broken : gap.broken <;> simp [take, broken, isBlank]
  · obtain ⟨text, step⟩ := takeBreak_before breaks line
    refine ⟨if gap.broken then { gap with more := gap.more ++ text } else ⟨[], true, text, []⟩, cursor.below char,
      fun fuel rest => ?_⟩
    by_cases broken : gap.broken <;> simp [take, broken, isBlank_of_isBreak breaks, breaks, step]

/-- A run of blanks and breaks is passed over, whatever follows its end. -/
theorem take_run (inside : ∀ char ∈ run, isOpen char = true) (stop : isBlank next = false ∧ isBreak next = false)
    (gap : Gap) (cursor : Cursor) :
    ∃ (after : Gap) (behind : Cursor), ∀ fuel > run.length, ∀ rest,
      take 0 fuel gap (cursor.before (run ++ next :: rest)) = some (after, behind.before (next :: rest)) := by
  induction run generalizing gap cursor with
  | nil =>
    refine ⟨gap, cursor, fun fuel enough rest => ?_⟩
    obtain ⟨fuel, rfl⟩ := Nat.exists_eq_add_one.mpr (Nat.zero_lt_of_lt enough)
    simp [take, stop.1, stop.2]
  | cons char others ih =>
    obtain ⟨first, later⟩ := List.forall_mem_cons.mp inside
    obtain ⟨middle, place, step⟩ := take_step first gap cursor
    obtain ⟨after, behind, goes⟩ := ih later middle place
    refine ⟨after, behind, fun fuel enough rest => ?_⟩
    obtain ⟨fuel, rfl⟩ := Nat.exists_eq_add_one.mpr (Nat.zero_lt_of_lt enough)
    rw [List.cons_append, step, goes fuel (by simpa using enough)]

end Gap

/-! ### Quoted text -/

namespace ScalarText
open Cursor
variable {char : Char} {text done : List Char}

theorem doubleRun_plain (quote : char ≠ '"') (slash : char ≠ '\\') (solid : isSeparator char = false) (done : List Char)
    (cursor : Cursor) (fuel : Nat) (rest : List Char) :
    doubleRun done (fuel + 1) (cursor.before (char :: rest)) =
      doubleRun (char :: done) fuel ((cursor.past [char]).before rest) := by
  have step : (cursor.before (char :: rest)).skip 1 = (cursor.past [char]).before rest := skip_before cursor [char] rest
  rw [← step, doubleRun]
  simp only [before_rest]
  split
  next same => cases same
  next same => exact absurd (List.cons.inj same).1 quote
  next same => exact absurd (List.cons.inj same).1 slash
  next same =>
    obtain ⟨rfl, rfl⟩ := List.cons.inj same
    rw [solid]
    rfl

theorem doubleRun_special (special : char ∈ Json.special) (done : List Char) (cursor : Cursor) (fuel : Nat) (rest : List Char) :
    doubleRun done (fuel + 1) (cursor.before (Json.escape char ++ rest)) =
      doubleRun (char :: done) fuel ((cursor.past (Json.escape char)).before rest) := by
  rw [← skip_before]
  simp only [Json.special, List.mem_cons, List.not_mem_nil, or_false] at special
  rcases special with rfl | rfl | rfl | rfl | rfl | rfl | rfl <;>
    simp [Json.escape, doubleRun, escape?, isBreak]

theorem hexChar?_control {unit : Nat} (control : unit < 32) :
    hexChar? ['0', '0', Hex.lower (unit / 16), Hex.lower (unit % 16)] = some (Char.ofNat unit) := by
  rw [hexChar?, Json.ofDigits?_control control]
  simp
  omega

theorem doubleRun_control (special : char ∉ Json.special) (control : char < ' ') (done : List Char) (cursor : Cursor)
    (fuel : Nat) (rest : List Char) :
    doubleRun done (fuel + 1) (cursor.before (Json.escape char ++ rest)) =
      doubleRun (char :: done) fuel ((cursor.past (Json.escape char)).before rest) := by
  have small : char.toNat < 32 := control
  rw [← skip_before, Json.escape_of_not_special special, if_pos control]
  simp [doubleRun, escape?, isBreak, hexChar?_control small]

/-- Blank space that JSON does not escape. -/
def raw : List Char :=
  [' ', '\u0085', '\u2028', '\u2029']

theorem of_raw (blank : char ∈ raw) :
    Gap.isOpen char = true ∧ isSeparator char = true ∧ Json.escape char = [char] ∧ char ≠ '"' ∧ char ≠ '\\' := by
  simp only [raw, List.mem_cons, List.not_mem_nil, or_false] at blank
  rcases blank with rfl | rfl | rfl | rfl <;> decide

theorem not_isSeparator (solid : char ∉ raw) (special : char ∉ Json.special) (control : ¬ char < ' ') :
    isSeparator char = false := by
  have nul : isNul char = false := by
    rw [isNul, decide_eq_false_iff_not]
    intro zero
    exact control (show char.toNat < 32 by omega)
  simp only [raw, Json.special, List.mem_cons, List.not_mem_nil, or_false, not_or] at solid special
  simp [isSeparator, isBlank, isBreakOrNul, isBreak, nul, solid, special]

/-- One character of the text, in whatever spelling JSON has for it. -/
theorem doubleRun_escape (solid : char ∉ raw) (done : List Char) (cursor : Cursor) (fuel : Nat)
    (rest : List Char) :
    doubleRun done (fuel + 1) (cursor.before (Json.escape char ++ rest)) =
      doubleRun (char :: done) fuel ((cursor.past (Json.escape char)).before rest) := by
  by_cases special : char ∈ Json.special
  · exact doubleRun_special special done cursor fuel rest
  by_cases control : char < ' '
  · exact doubleRun_control special control done cursor fuel rest
  · rw [Json.escape_of_not_special special, if_neg control]
    refine doubleRun_plain ?_ ?_ ?_ done cursor fuel rest
    · rintro rfl
      exact special (by decide)
    · rintro rfl
      exact special (by decide)
    · exact not_isSeparator solid special control

theorem doubleRun_raw (blank : char ∈ raw) (done : List Char) (cursor : Cursor) (fuel : Nat) (rest : List Char) :
    doubleRun done (fuel + 1) (cursor.before (char :: rest)) = some ⟨done, cursor.before (char :: rest), false⟩ := by
  obtain ⟨_, separator, _, quote, slash⟩ := of_raw blank
  rw [doubleRun]
  simp only [before_rest]
  split
  next same => cases same
  next same => exact absurd (List.cons.inj same).1 quote
  next same => exact absurd (List.cons.inj same).1 slash
  next same =>
    obtain ⟨rfl, rfl⟩ := List.cons.inj same
    rw [separator]
    rfl

/-- A part of a quoted text ends at its first blank space, or at its end. -/
theorem doubleRun_text (text done : List Char) (cursor : Cursor) :
    ∃ (left after : List Char) (behind : Cursor), left.length ≤ text.length ∧
      (∀ char ∈ left.head?, char ∈ raw) ∧ ∀ fuel > text.length, ∀ rest,
        doubleRun done fuel (cursor.before (text.flatMap Json.escape ++ '"' :: rest)) =
          some ⟨after, behind.before (left.flatMap Json.escape ++ '"' :: rest), false⟩ := by
  induction text generalizing done cursor with
  | nil =>
    refine ⟨[], done, cursor, Nat.le_refl _, by simp, fun fuel enough rest => ?_⟩
    obtain ⟨fuel, rfl⟩ := Nat.exists_eq_add_one.mpr (Nat.zero_lt_of_lt enough)
    simp [doubleRun]
  | cons char others ih =>
    by_cases blank : char ∈ raw
    · refine ⟨char :: others, done, cursor, Nat.le_refl _, by simpa using blank, fun fuel enough rest => ?_⟩
      obtain ⟨fuel, rfl⟩ := Nat.exists_eq_add_one.mpr (Nat.zero_lt_of_lt enough)
      rw [List.flatMap_cons, (of_raw blank).2.2.1]
      exact doubleRun_raw blank done cursor fuel _
    · obtain ⟨left, after, behind, shorter, starts, goes⟩ := ih (char :: done) (cursor.past (Json.escape char))
      refine ⟨left, after, behind, Nat.le_succ_of_le shorter, starts, fun fuel enough rest => ?_⟩
      obtain ⟨fuel, rfl⟩ := Nat.exists_eq_add_one.mpr (Nat.zero_lt_of_lt enough)
      rw [List.flatMap_cons, List.append_assoc, doubleRun_escape blank, goes fuel (by simpa using enough)]

/-- A mark is seen in four characters. -/
theorem atDocumentMark_four (cursor : Cursor) (a b c d : Char) (first second : List Char) :
    (cursor.before (a :: b :: c :: d :: first)).atDocumentMark =
      (cursor.before (a :: b :: c :: d :: second)).atDocumentMark := by
  by_cases mark : (a = '-' ∧ b = '-' ∧ c = '-') ∨ (a = '.' ∧ b = '.' ∧ c = '.')
  · rcases mark with ⟨rfl, rfl, rfl⟩ | ⟨rfl, rfl, rfl⟩ <;> rfl
  · have none (rest : List Char) : (cursor.before (a :: b :: c :: d :: rest)).atDocumentMark = false := by
      rw [atDocumentMark, Bool.and_eq_false_iff, before_rest]
      right
      split
      next same => simp_all
      next same => simp_all
      next => rfl
    rw [none, none]

theorem atDocumentMark_eq_false {char : Char} (hyphen : char ≠ '-') (dot : char ≠ '.') (cursor : Cursor) (rest : List Char) :
    (cursor.before (char :: rest)).atDocumentMark = false := by
  simp [atDocumentMark, hyphen, dot]

/-- No mark reaches over a quote. -/
theorem atDocumentMark_quote (cursor : Cursor) (text rest : List Char) :
    (cursor.before (text ++ '"' :: rest)).atDocumentMark = (cursor.before (text ++ ['"'])).atDocumentMark := by
  rcases text with _ | ⟨a, _ | ⟨b, _ | ⟨c, _ | ⟨d, text⟩⟩⟩⟩
  · simp [atDocumentMark]
  · simp [atDocumentMark]
  · simp [atDocumentMark]
  · exact atDocumentMark_four ..
  · exact atDocumentMark_four ..

theorem escape_head (char : Char) (solid : char ∉ raw) :
    ∃ first others, Json.escape char = first :: others ∧ isBlank first = false ∧ isBreak first = false := by
  by_cases special : char ∈ Json.special
  · simp only [Json.special, List.mem_cons, List.not_mem_nil, or_false] at special
    rcases special with rfl | rfl | rfl | rfl | rfl | rfl | rfl <;> exact ⟨'\\', _, rfl, by decide⟩
  · rw [Json.escape_of_not_special special]
    by_cases control : char < ' '
    · rw [if_pos control]
      exact ⟨'\\', _, rfl, by decide⟩
    · rw [if_neg control]
      have visible := not_isSeparator solid special control
      simp only [isSeparator, isBreakOrNul, Bool.or_eq_false_iff] at visible
      exact ⟨char, [], rfl, visible.1, visible.2.1⟩

/-- The text up to the closing quote starts with a character that is no blank space. -/
theorem body_head {text : List Char} (solid : ∀ char ∈ text.head?, char ∉ raw) :
    ∃ first : Char, (isBlank first = false ∧ isBreak first = false) ∧
      ∃ others, ∀ rest, text.flatMap Json.escape ++ '"' :: rest = first :: (others ++ rest) := by
  cases text with
  | nil => exact ⟨'"', by decide, [], fun rest => rfl⟩
  | cons char more =>
    obtain ⟨first, others, same, plain⟩ := escape_head char (solid char rfl)
    exact ⟨first, plain, others ++ more.flatMap Json.escape ++ ['"'], fun rest => by simp [same]⟩

theorem length_le_body (text rest : List Char) :
    text.length < byteCount (text.flatMap Json.escape ++ '"' :: rest) := by
  refine Nat.lt_of_lt_of_le ?_ (length_le_byteCount _)
  induction text with
  | nil => simp
  | cons char others ih =>
    have filled : 0 < (Json.escape char).length := by
      by_cases blank : char ∈ raw
      · rw [(of_raw blank).2.2.1]
        exact Nat.one_pos
      · obtain ⟨_, _, same, _⟩ := escape_head char blank
        rw [same]
        exact Nat.succ_pos _
    simp only [List.flatMap_cons, List.length_append, List.length_cons] at ih ⊢
    omega

/-- Blank space at the start of a text, and what comes behind it. -/
theorem body_raw (text : List Char) : ∃ run next, text = run ++ next ∧ (∀ char ∈ run, Gap.isOpen char = true) ∧
    (∀ char ∈ next.head?, char ∉ raw) ∧ ((∃ char ∈ text.head?, char ∈ raw) → next.length < text.length) ∧
      text.flatMap Json.escape = run ++ next.flatMap Json.escape := by
  induction text with
  | nil => exact ⟨[], [], rfl, by simp, by simp, by simp, rfl⟩
  | cons char others ih =>
    by_cases blank : char ∈ raw
    · obtain ⟨run, next, rfl, inside, solid, _, body⟩ := ih
      obtain ⟨gap, _, same, _⟩ := of_raw blank
      refine ⟨char :: run, next, rfl, List.forall_mem_cons.mpr ⟨gap, inside⟩, solid, fun _ => ?_, ?_⟩
      · simp only [List.length_cons, List.length_append]
        omega
      · rw [List.flatMap_cons, same, body]
        rfl
    · refine ⟨[], char :: others, rfl, by simp, by simpa using blank, ?_, rfl⟩
      simpa using fun first => absurd first blank

/-- One round: a part of the text, and then its end or a gap. -/
theorem quotedFrom_round {cursor behind : Cursor} {done after : List Char} (unmarked : cursor.atDocumentMark = false)
    (filled : cursor.atEnd = false) (ran : doubleRun done (cursor.left + 1) cursor = some ⟨after, behind, false⟩) (fuel : Nat) :
    quotedFrom false (fuel + 1) done cursor =
      if behind.startsWith '"' then some ⟨after.reverse, false, behind.skip 1⟩
      else (Gap.take 0 (behind.left + 1) Gap.none behind).bind fun pair =>
        quotedFrom false fuel (pair.1.folded.reverse ++ after) pair.2 := by
  rw [quotedFrom, unmarked, filled]
  simp only [Bool.or_false, Bool.false_eq_true, if_false, ran]
  split
  next => rfl
  next => cases Gap.take 0 (behind.left + 1) Gap.none behind <;> rfl

/-- All the blank space at the start of a text is one gap. -/
theorem take_body {blank : Char} (starts : blank ∈ raw) (others : List Char) (behind : Cursor) :
    ∃ (next : List Char) (gap : Gap) (place : Cursor), next.length < (blank :: others).length ∧ ∀ rest,
      let cursor := behind.before ((blank :: others).flatMap Json.escape ++ '"' :: rest)
      Gap.take 0 (cursor.left + 1) Gap.none cursor = some (gap, place.before (next.flatMap Json.escape ++ '"' :: rest)) := by
  obtain ⟨run, next, _, inside, solid, fewer, body⟩ := body_raw (blank :: others)
  obtain ⟨first, plain, tail, shape⟩ := body_head solid
  obtain ⟨gap, place, taken⟩ := Gap.take_run inside plain Gap.none behind
  refine ⟨next, gap, place, fewer ⟨blank, rfl, starts⟩, fun rest => ?_⟩
  have text : (blank :: others).flatMap Json.escape ++ '"' :: rest = run ++ first :: (tail ++ rest) := by
    rw [body, List.append_assoc, shape]
  have room : run.length < byteCount (run ++ first :: (tail ++ rest)) + 1 := by
    have enough := length_le_byteCount (run ++ first :: (tail ++ rest))
    rw [List.length_append] at enough
    omega
  dsimp only
  rw [text, left_before, taken _ room, shape]

/-- A quoted text is read up to its closing quote, or it holds a mark and is not read at all. The
induction is on the length of the text, since a run of blank space is passed over at once. -/
theorem quotedFrom_text (text done : List Char) (cursor : Cursor) :
    ∃ outcome : Option (List Char × Cursor), ∀ fuel > text.length, ∀ rest,
      quotedFrom false fuel done (cursor.before (text.flatMap Json.escape ++ '"' :: rest)) =
        outcome.map fun scalar => ⟨scalar.1, false, scalar.2.before rest⟩ := by
  induction size : text.length using Nat.strong_induction_on generalizing text done cursor with
  | _ size ih =>
    subst size
    cases mark : (cursor.before (text.flatMap Json.escape ++ ['"'])).atDocumentMark with
    | true =>
      refine ⟨none, fun fuel enough rest => ?_⟩
      obtain ⟨fuel, rfl⟩ := Nat.exists_eq_add_one.mpr (Nat.zero_lt_of_lt enough)
      rw [quotedFrom, atDocumentMark_quote, mark]
      rfl
    | false =>
      obtain ⟨left, after, behind, shorter, starts, goes⟩ := doubleRun_text text done cursor
      have round (fuel : Nat) (rest : List Char) := quotedFrom_round ((atDocumentMark_quote cursor _ rest).trans mark)
        (by simp [atEnd]) (goes _ (Nat.lt_succ_of_lt (by rw [left_before]; exact length_le_body text rest)) rest) fuel
      cases left with
      | nil =>
        refine ⟨some (after.reverse, behind.past ['"']), fun fuel enough rest => ?_⟩
        obtain ⟨fuel, rfl⟩ := Nat.exists_eq_add_one.mpr (Nat.zero_lt_of_lt enough)
        rw [round]
        exact congrArg (fun place => some (ScalarText.mk after.reverse false place)) (skip_before behind ['"'] rest)
      | cons blank others =>
        obtain ⟨next, gap, place, fewer, taken⟩ := take_body (starts blank rfl) others behind
        obtain ⟨outcome, again⟩ := ih _ (Nat.lt_of_lt_of_le fewer shorter) next (gap.folded.reverse ++ after) place rfl
        refine ⟨outcome, fun fuel enough rest => ?_⟩
        obtain ⟨fuel, rfl⟩ := Nat.exists_eq_add_one.mpr (Nat.zero_lt_of_lt enough)
        have quote : (behind.before ((blank :: others).flatMap Json.escape ++ '"' :: rest)).startsWith '"' = false := by
          obtain ⟨_, _, single, other, _⟩ := of_raw (starts blank rfl)
          simp [startsWith, single, other]
        rw [round, quote]
        simp only [Bool.false_eq_true, if_false, taken, Option.bind_some]
        exact again fuel (by omega) rest

theorem quoted_text (text : String) (cursor : Cursor) :
    ∃ outcome : Option (List Char × Cursor), ∀ rest,
      quoted false (cursor.before (text.toList.flatMap Json.escape ++ '"' :: rest)) =
        outcome.map fun scalar => ⟨scalar.1, false, scalar.2.before rest⟩ := by
  obtain ⟨outcome, goes⟩ := quotedFrom_text text.toList [] cursor
  refine ⟨outcome, fun rest => goes _ ?_ rest⟩
  have room := length_le_body text.toList rest
  rw [left_before]
  omega

/-! ### Words and numbers -/

/-- A character that goes on with a plain scalar in a flow collection, whatever comes behind it. -/
def goesOn (char : Char) : Bool :=
  !isSeparator char && !isFlowIndicator char && char ≠ ':' && char ≠ '#'

/-- A character with which such a scalar ends. -/
def ends (char : Char) : Bool :=
  isSeparator char || isFlowIndicator char

variable {word space : List Char} {next : Char}

theorem plainRun_word (inside : ∀ char ∈ word, goesOn char = true) (stop : ends next = true) (done rest : List Char) :
    plainRun true done (word ++ next :: rest) = some (word.reverse ++ done, next :: rest) := by
  induction word generalizing done with
  | nil =>
    have colon : next ≠ ':' := by rintro rfl; exact absurd stop (by decide)
    rw [ends, Bool.or_eq_true] at stop
    rcases stop with separator | indicator
    · simp [plainRun, separator]
    · simp [plainRun, indicator, colon]
  | cons char others ih =>
    obtain ⟨first, later⟩ := List.forall_mem_cons.mp inside
    simp only [goesOn, Bool.and_eq_true, Bool.not_eq_true', decide_eq_true_eq, ne_eq] at first
    rw [List.cons_append, plainRun]
    simp [first, ih later]

theorem byteCount_reverse (text : List Char) : byteCount text.reverse = byteCount text := by
  induction text with
  | nil => rfl
  | cons char others ih =>
    rw [List.reverse_cons, byteCount_append, ih, byteCount_cons, byteCount_cons, Nat.add_comm]
    rfl

theorem forward_reverse (cursor : Cursor) (word rest : List Char) :
    (cursor.before (word ++ rest)).forward word.reverse rest = (cursor.past word).before rest := by
  rw [← forward_before]
  simp only [forward, byteCount_reverse, List.length_reverse]

theorem of_isFlowIndicator (indicator : isFlowIndicator next = true) :
    ends next = true ∧ isBlank next = false ∧ isBreak next = false ∧ next ≠ '#' ∧ next ≠ '-' ∧ next ≠ '.' := by
  simp only [isFlowIndicator, Bool.or_eq_true, decide_eq_true_eq, or_assoc] at indicator
  rcases indicator with rfl | rfl | rfl | rfl | rfl <;> decide

theorem of_isOpen (blank : Gap.isOpen next = true) : ends next = true ∧ (isBlank next || isBreak next) = true := by
  simp only [Gap.isOpen, Bool.or_eq_true, Bool.and_eq_true, decide_eq_true_eq] at blank
  rcases blank with rfl | ⟨breaks, _⟩
  · decide
  · simp [ends, isSeparator, isBreakOrNul, breaks]

/-- One round: a run of the word, and then its end or a gap. -/
theorem plainFrom_round {cursor : Cursor} {done run rest : List Char} {gap : Gap} (unmarked : cursor.atDocumentMark = false)
    (plain : cursor.startsWith '#' = false) (ran : plainRun true [] cursor.rest = some (run, rest)) (fuel : Nat) :
    plainFrom 0 true (fuel + 1) done gap cursor =
      let reached := cursor.forward run rest
      let state := if run.isEmpty then (done, gap) else (run ++ gap.folded.reverse ++ done, Gap.none)
      if !(reached.atBlank || reached.atBreak) then some ⟨state.1.reverse, state.2.broken, reached⟩
      else (Gap.take 0 (reached.left + 1) state.2 reached).bind fun pair => plainFrom 0 true fuel state.1 pair.1 pair.2 := by
  rw [plainFrom, unmarked, plain, ran]
  simp only [Bool.or_false, Bool.false_eq_true, if_false]
  split
  next => rfl
  next => cases Gap.take 0 ((cursor.forward run rest).left + 1) _ (cursor.forward run rest) <;> rfl

/-- At the end of an entry or of a collection a plain scalar is over. -/
theorem plainFrom_stop (indicator : isFlowIndicator next = true) (done : List Char) (gap : Gap) (cursor : Cursor) (fuel : Nat)
    (rest : List Char) :
    plainFrom 0 true (fuel + 1) done gap (cursor.before (next :: rest)) =
      some ⟨done.reverse, gap.broken, cursor.before (next :: rest)⟩ := by
  obtain ⟨stop, blank, broken, comment, hyphen, dot⟩ := of_isFlowIndicator indicator
  have ran : plainRun true [] (next :: rest) = some ([], next :: rest) := plainRun_word (List.forall_mem_nil _) stop [] rest
  have unmarked := atDocumentMark_eq_false hyphen dot cursor rest
  have same : (cursor.before (next :: rest)).forward [] (next :: rest) = cursor.before (next :: rest) :=
    forward_before cursor [] (next :: rest)
  rw [plainFrom_round unmarked (by simp [startsWith, comment]) ran]
  simp [same, atBlank, atBreak, blank, broken]

/-- The first round takes the whole word. -/
theorem plainFrom_word (filled : word ≠ []) (inside : ∀ char ∈ word, goesOn char = true) (stop : ends next = true)
    (cursor : Cursor) (inner : 0 < cursor.column) (fuel : Nat) (rest : List Char) :
    plainFrom 0 true (fuel + 1) [] Gap.none (cursor.before (word ++ next :: rest)) =
      if !(isBlank next || isBreak next) then some ⟨word, false, (cursor.past word).before (next :: rest)⟩
      else (Gap.take 0 (byteCount (next :: rest) + 1) Gap.none ((cursor.past word).before (next :: rest))).bind fun pair =>
        plainFrom 0 true fuel word.reverse pair.1 pair.2 := by
  have unmarked : (cursor.before (word ++ next :: rest)).atDocumentMark = false := by
    simp [atDocumentMark, Nat.ne_of_gt inner]
  have plain : (cursor.before (word ++ next :: rest)).startsWith '#' = false := by
    obtain ⟨char, others, rfl⟩ := List.exists_cons_of_ne_nil filled
    have first := inside char List.mem_cons_self
    simp only [goesOn, Bool.and_eq_true, decide_eq_true_eq, ne_eq] at first
    simp [startsWith, first]
  have ran : plainRun true [] (word ++ next :: rest) = some (word.reverse, next :: rest) := by
    rw [plainRun_word inside stop, List.append_nil]
  have held : word.reverse.isEmpty = false := by simpa using filled
  have start : Gap.none.folded = [] ∧ Gap.none.broken = false := ⟨rfl, rfl⟩
  rw [plainFrom_round unmarked plain ran, forward_reverse, held]
  simp [atBlank, atBreak, left_before, start]

/-- A word in a flow collection, with the blank space up to the end of its entry. -/
theorem plain_word (filled : word ≠ []) (inside : ∀ char ∈ word, goesOn char = true)
    (blank : ∀ char ∈ space, Gap.isOpen char = true) (indicator : isFlowIndicator next = true) (cursor : Cursor)
    (inner : 0 < cursor.column) :
    ∃ (fresh : Bool) (behind : Cursor), ∀ rest,
      plain 0 true (cursor.before (word ++ (space ++ next :: rest))) = some ⟨word, fresh, behind.before (next :: rest)⟩ := by
  obtain ⟨stop, visible, unbroken, _⟩ := of_isFlowIndicator indicator
  cases space with
  | nil =>
    refine ⟨false, cursor.past word, fun rest => ?_⟩
    rw [plain, List.nil_append, plainFrom_word filled inside stop cursor inner, visible, unbroken]
    rfl
  | cons char others =>
    obtain ⟨gap, behind, taken⟩ := Gap.take_run blank ⟨visible, unbroken⟩ Gap.none (cursor.past word)
    refine ⟨gap.broken, behind, fun rest => ?_⟩
    obtain ⟨separator, between⟩ := of_isOpen (blank char List.mem_cons_self)
    have room : (char :: others).length < byteCount (char :: others ++ next :: rest) + 1 := by
      have enough := length_le_byteCount (char :: others ++ next :: rest)
      rw [List.length_append] at enough
      omega
    obtain ⟨fuel, more⟩ : ∃ fuel, (cursor.before (word ++ (char :: others ++ next :: rest))).left = fuel + 1 := by
      have filled := char.utf8Size_pos
      refine Nat.exists_eq_add_one.mpr ?_
      rw [left_before, byteCount_append, List.cons_append, byteCount_cons]
      omega
    rw [plain, List.cons_append, plainFrom_word filled inside separator cursor inner, between, ← List.cons_append,
      taken _ room, more]
    simp [plainFrom_stop indicator]

end ScalarText
end Yaml
end ApiDialect
