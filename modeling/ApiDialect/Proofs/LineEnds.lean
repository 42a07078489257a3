import ApiDialect.Json.Printer
import ApiDialect.Proofs.JsonTokens
import ApiDialect.Json.Reader
import ApiDialect.Text.Blank
import Mathlib.Data.List.DropRight

/-! Texts that end without white space, and texts that end with one line feed and nothing else: white
space can be taken off their ends and a line feed put there. JSON text stays what it is behind a line
feed. -/

namespace ApiDialect
namespace Text
variable {text : String} {first second front chars : List Char} {char : Char}

/-- There is no white space at the end. -/
def Closed (chars : List Char) : Prop :=
  ∀ char ∈ chars.getLast?, isWhiteSpace char = false

instance (chars : List Char) : Decidable (Closed chars) :=
  Option.decidableForallMem _

theorem toList_trimEnd (text : String) : (trimEnd text).toList = text.toList.rdropWhile isWhiteSpace :=
  String.toList_ofList

theorem closed_iff : Closed chars ↔ chars.rdropWhile isWhiteSpace = chars := by
  rw [List.rdropWhile_eq_self_iff]
  constructor
  · intro closed filled
    simp [closed _ (List.getLast?_eq_getLast_of_ne_nil filled)]
  · intro last char member
    obtain ⟨filled, rfl⟩ := List.mem_getLast?_eq_getLast member
    simpa using last filled

theorem closed_append (filled : second ≠ []) : Closed (first ++ second) ↔ Closed second := by
  rw [Closed, List.getLast?_append_of_ne_nil _ filled]
  rfl

theorem closed_concat : Closed (front ++ [char]) ↔ isWhiteSpace char = false := by
  simp [Closed]

theorem trimEnd_eq_iff : trimEnd text = text ↔ Closed text.toList := by
  rw [← String.toList_inj, toList_trimEnd, closed_iff]

theorem toList_trimEnd_newline (same : text.toList = front ++ ['\n']) (closed : Closed front) :
    (trimEnd text).toList = front := by
  rw [toList_trimEnd, same, List.rdropWhile_concat_pos _ _ _ rfl, closed_iff.mp closed]

/-- Which texts keep their end when white space is taken off and a line feed is put there. -/
theorem trimEnd_newline_iff :
    trimEnd text ++ "\n" = text ↔ ∃ front, text.toList = front ++ ['\n'] ∧ Closed front := by
  rw [← String.toList_inj, String.toList_append]
  constructor
  · intro same
    refine ⟨_, same.symm, closed_iff.mpr ?_⟩
    rw [toList_trimEnd]
    exact List.rdropWhile_idempotent _ _
  · rintro ⟨front, same, closed⟩
    rw [toList_trimEnd_newline same closed, same]
    rfl

end Text

/-! ### Written numbers -/

namespace Notation
open Json
variable {style : Notation} {first second : String}

/-- There is nothing in the text but what numbers are made of. -/
def Numeric (text : String) : Prop :=
  ∀ char ∈ text.toList, continues char = true

instance (text : String) : Decidable (Numeric text) :=
  List.decidableBAll _ _

theorem Numeric.append (one : Numeric first) (other : Numeric second) : Numeric (first ++ second) := by
  intro char member
  rw [String.toList_append, List.mem_append] at member
  exact member.elim (one char) (other char)

theorem numeric_zeros (count : Nat) : Numeric (zeros count) := by
  intro char member
  rw [zeros, String.toList_ofList] at member
  rw [List.eq_of_mem_replicate member]
  rfl

theorem numeric_nat (number : Nat) : Numeric (toString number) := by
  intro char member
  have digits : (toString number).toList = Nat.toDigits 10 number := by
    rw [Nat.toString_eq_repr, Nat.repr_eq_ofList_toDigits, String.toList_ofList]
  rw [digits] at member
  simp [continues, Nat.isDigit_of_mem_toDigits (by omega) (by omega) member]

theorem numeric_take {text : String} (numeric : Numeric text) (count : Nat) : Numeric (text.take count).toString := by
  intro char member
  have inside : char ∈ text.toList.take count := by rwa [← String.toList_copy_take]
  exact numeric char (List.mem_of_mem_take inside)

theorem numeric_drop {text : String} (numeric : Numeric text) (count : Nat) : Numeric (text.drop count).toString := by
  intro char member
  have inside : char ∈ text.toList.drop count := by rwa [← String.toList_copy_drop]
  exact numeric char (List.mem_of_mem_drop inside)

theorem numeric_dropEndWhile {text : String} (numeric : Numeric text) : Numeric (text.dropEndWhile '0').toString := by
  intro char member
  have whole : (text.dropEndWhile '0').copy ++ (text.takeEndWhile '0').copy = text :=
    String.dropEndWhile_append_takeEndWhile
  refine numeric char ?_
  rw [← whole, String.toList_append]
  exact List.mem_append_left _ member

theorem numeric_positional {digits : String} (numeric : Numeric digits) (leading : Int) :
    Numeric (positional digits leading) := by
  have point : Numeric "." := by decide
  unfold positional
  split
  next => exact (Numeric.append (by decide) (numeric_zeros _)).append numeric
  next =>
    dsimp only
    split
    next => exact (numeric.append (numeric_zeros _)).append (by decide)
    next => exact ((numeric_take numeric _).append point).append (numeric_drop numeric _)

theorem numeric_scientific {digits : String} (plus : Numeric style.plus) (numeric : Numeric digits) (leading : Int) :
    Numeric (scientific style digits leading) := by
  have point : Numeric "." := by decide
  have mark : Numeric "e" := by decide
  have minus : Numeric "-" := by decide
  unfold scientific
  dsimp only
  refine (((?_ : Numeric _).append mark).append ?_).append (numeric_nat _)
  · split
    next => exact numeric
    next => exact ((numeric_take numeric _).append point).append (numeric_drop numeric _)
  · split
    next => exact minus
    next => exact plus

/-- A text of a number is more than a sign. -/
def Written (text : String) : Prop :=
  Numeric text ∧ ∃ char ∈ text.toList, char ≠ '-'

theorem written_positional {digits : String} (numeric : Numeric digits) (leading : Int) : Written (positional digits leading) := by
  refine ⟨numeric_positional numeric leading, '.', ?_, by decide⟩
  unfold positional
  dsimp only
  split
  next => simp
  next => split <;> simp

theorem written_scientific {digits : String} (plus : Numeric style.plus) (numeric : Numeric digits) (leading : Int) :
    Written (scientific style digits leading) := by
  refine ⟨numeric_scientific plus numeric leading, 'e', ?_, by decide⟩
  unfold scientific
  simp

theorem written_magnitude (plus : Numeric style.plus) (decimal : Decimal) : Written (magnitude style decimal) := by
  unfold magnitude
  dsimp only
  split
  next => exact ⟨by decide, '0', by decide, by decide⟩
  next =>
    have digits := numeric_dropEndWhile (numeric_nat decimal.digits)
    split
    next => exact written_positional digits _
    next => exact written_scientific plus digits _

theorem written_nat (number : Nat) : Written (toString number) := by
  obtain ⟨digit, others, same⟩ := List.exists_cons_of_ne_nil (Nat.toDigits_ne_nil (b := 10) (n := number))
  have text : (toString number).toList = digit :: others := by
    rw [Nat.toString_eq_repr, Nat.repr_eq_ofList_toDigits, String.toList_ofList, same]
  refine ⟨numeric_nat number, digit, text ▸ List.mem_cons_self, ?_⟩
  rintro rfl
  have digit : ('-' : Char).isDigit = true := Nat.isDigit_of_mem_toDigits (by omega) (by omega) (same ▸ List.mem_cons_self)
  cases digit

theorem Written.signed {sign text : String} (written : Written text) (plain : sign = "" ∨ sign = "-") : Written (sign ++ text) := by
  obtain ⟨numeric, char, member, other⟩ := written
  have sign : Numeric sign := by rcases plain with rfl | rfl <;> decide
  exact ⟨sign.append numeric, char, by simp [member], other⟩

theorem written_write (plus : Numeric style.plus) (number : Number) : Written (style.write number) := by
  cases number with
  | int value =>
    rw [write, Int.toString_eq_repr, Int.repr_eq_if]
    split
    next => exact written_nat _
    next => exact (written_nat _).signed (.inr rfl)
  | float bits =>
    refine (written_magnitude plus _).signed ?_
    split
    next => exact .inr rfl
    next => exact .inl rfl

end Notation

/-! ### JSON text before a line feed -/

namespace Hex

theorem ofDigits?_eq_none {digits : List Char} (char : Char) (other : value? char = none) (member : char ∈ digits) :
    ofDigits? digits = none := by
  have none (total : Nat) :
      digits.foldlM (fun total digit => (total * 16 + ·) <$> value? digit) total = none := by
    induction digits generalizing total with
    | nil => cases member
    | cons digit rest ih =>
      rw [List.foldlM_cons]
      cases value : value? digit with
      | none => rfl
      | some number =>
        refine ih ?_ _
        refine (List.mem_cons.mp member).resolve_left fun same => ?_
        rw [← same, other] at value
        cases value
  exact none 0

end Hex

namespace Json
variable {input rest : List Char} {done : List Char} {a b c d char : Char}

theorem unit?_eq_none (other : ¬ (a = '\\' ∧ b = 'u')) : unit? (a :: b :: rest) = none := by
  unfold unit?
  split
  next same => simp_all
  next => rfl

/-- Digits that are cut short by the end are no digits with the line feed either. -/
theorem unit?_newline : Local unit? ['\n'] := by
  intro input
  rcases input with _ | ⟨a, _ | ⟨b, rest⟩⟩
  · rfl
  · simp [unit?]
  · by_cases mark : a = '\\' ∧ b = 'u'
    · obtain ⟨rfl, rfl⟩ := mark
      rcases rest with _ | ⟨c, _ | ⟨d, _ | ⟨e, _ | ⟨f, rest⟩⟩⟩⟩
      · rfl
      · rfl
      · rfl
      · change (Hex.ofDigits? [c, d, e, '\n']).map _ = none
        rw [Hex.ofDigits?_eq_none '\n' rfl (by simp), Option.map_none]
      · change (Hex.ofDigits? [c, d, e, f]).map _ = ((Hex.ofDigits? [c, d, e, f]).map _).map _
        cases Hex.ofDigits? [c, d, e, f] <;> rfl
    · rw [List.cons_append, List.cons_append, unit?_eq_none mark, unit?_eq_none mark, Option.map_none]

theorem unquote_control (control : char < ' ') : unquote done (char :: rest) = none := by
  have quote : char ≠ '"' := by rintro rfl; exact absurd control (by decide)
  have slash : char ≠ '\\' := by rintro rfl; exact absurd control (by decide)
  rw [unquote_other quote slash, if_pos control]

/-- Behind the mark there are four digits or there is nothing. -/
theorem unquote_cut (few : rest.length < 4) : unquote done ('\\' :: 'u' :: rest) = none := by
  rcases rest with _ | ⟨a, _ | ⟨b, _ | ⟨c, _ | ⟨d, rest⟩⟩⟩⟩
  · rfl
  · rfl
  · rfl
  · rfl
  · simp only [List.length_cons] at few
    omega

theorem length_of_unit? {unit : Nat} {behind : List Char} (read : unit? input = some (unit, behind)) :
    behind.length < input.length := by
  unfold unit? at read
  split at read
  next =>
    obtain ⟨_, _, same⟩ := Option.map_eq_some_iff.mp read
    cases same
    simp only [List.length_cons]
    omega
  next => cases read

/-- A line feed behind the input makes no difference. -/
def Keeps (input : List Char) : Prop :=
  ∀ done, unquote done (input ++ ['\n']) = (unquote done input).map (Prod.map id (· ++ ['\n']))

theorem keeps_unit (again : ∀ behind : List Char, behind.length ≤ rest.length → Keeps behind) :
    Keeps ('\\' :: 'u' :: rest) := by
  intro done
  rcases rest with _ | ⟨a, _ | ⟨b, _ | ⟨c, _ | ⟨d, rest⟩⟩⟩⟩
  · rfl
  · rfl
  · rfl
  · have none : Hex.ofDigits? [a, b, c, '\n'] = none := Hex.ofDigits?_eq_none '\n' rfl (by simp)
    simp only [List.cons_append, List.nil_append, unquote_unit, none, unquote_cut (by simp : [a, b, c].length < 4),
      Option.bind_none, Option.map_none]
  · simp only [List.length_cons] at again
    simp only [List.cons_append, unquote_unit, Option.map_bind]
    congr 1
    funext unit
    simp only [Function.comp_apply]
    cases ofUnit? unit with
    | some char => exact again rest (by omega) _
    | none =>
      simp only [unit?_newline rest]
      cases read : unit? rest with
      | none => rfl
      | some pair =>
        have shorter := length_of_unit? read
        simp only [Option.map_some, Option.bind_some, Prod.map_fst, Prod.map_snd, id]
        cases ofSurrogates? unit pair.1 with
        | none => rfl
        | some char => exact again pair.2 (by omega) _

theorem keeps_slash (again : ∀ behind : List Char, behind.length ≤ rest.length → Keeps behind) :
    Keeps ('\\' :: rest) := by
  intro done
  rcases rest with _ | ⟨short, rest⟩
  · rfl
  · simp only [List.length_cons] at again
    by_cases unit : short = 'u'
    · subst unit
      exact keeps_unit (fun behind shorter => again behind (by omega)) done
    · simp only [List.cons_append, unquote_short unit, Option.map_bind]
      congr 1
      funext char
      exact again rest (by omega) _

/-- The induction is on the length of the text, since an escape is several characters. -/
theorem keeps (input : List Char) : Keeps input := by
  induction size : input.length using Nat.strong_induction_on generalizing input with
  | _ size ih =>
    subst size
    rcases input with _ | ⟨char, rest⟩
    · exact fun done => rfl
    have again (behind : List Char) (shorter : behind.length ≤ rest.length) : Keeps behind :=
      ih _ (Nat.lt_succ_of_le shorter) behind rfl
    by_cases quote : char = '"'
    · subst quote
      exact fun done => rfl
    by_cases slash : char = '\\'
    · subst slash
      exact keeps_slash again
    intro done
    by_cases control : char < ' '
    · rw [List.cons_append, unquote_control control, unquote_control control, Option.map_none]
    · rw [List.cons_append, unquote_plain quote slash control, unquote_plain quote slash control]
      exact again rest (Nat.le_refl _) _

theorem eq_append_of_newline {word : List Char} (clean : '\n' ∉ word) (whole : input ++ ['\n'] = word ++ rest) :
    ∃ behind, input = word ++ behind := by
  rcases List.append_eq_append_iff.mp whole with ⟨missing, same, line⟩ | ⟨behind, same, _⟩
  · cases missing with
    | nil => exact ⟨[], by simpa using same.symm⟩
    | cons char others =>
      obtain ⟨rfl, _⟩ := List.cons.inj line
      exact absurd (same ▸ List.mem_append_right _ List.mem_cons_self) clean
  · exact ⟨behind, same⟩

/-- What starts with no other token starts with none before a line feed, which is in no word. -/
theorem token?_newline : Local token? ['\n'] := by
  intro input
  fun_cases token? input with
  | case7 rest =>
    change (unquote [] (rest ++ ['\n'])).map _ = ((unquote [] rest).map _).map _
    rw [keeps]
    cases unquote [] rest <;> rfl
  | case11 _ _ _ _ _ _ _ _ noNull noTrue noFalse =>
    have same : token? (input ++ ['\n']) =
        (number? (input ++ ['\n'])).map fun number => (.scalar (.num number.1), number.2) := by
      generalize whole : input ++ ['\n'] = text
      fun_cases token? text with
      | case8 rest =>
        obtain ⟨behind, rfl⟩ := eq_append_of_newline (by decide : '\n' ∉ ['n', 'u', 'l', 'l']) whole
        exact absurd rfl (noNull behind)
      | case9 rest =>
        obtain ⟨behind, rfl⟩ := eq_append_of_newline (by decide : '\n' ∉ ['t', 'r', 'u', 'e']) whole
        exact absurd rfl (noTrue behind)
      | case10 rest =>
        obtain ⟨behind, rfl⟩ := eq_append_of_newline (by decide : '\n' ∉ ['f', 'a', 'l', 's', 'e']) whole
        exact absurd rfl (noFalse behind)
      | case11 => rfl
      | _ => simp_all [List.append_eq_cons_iff]
    rw [same, number?_local rfl]
    cases number? input <;> rfl
  | _ => rfl

theorem scanFrom_cons (fuel : Nat) (char : Char) (rest : List Char) (done : List Token) :
    scanFrom done (fuel + 1) (char :: rest) =
      if isBlank char then scanFrom done fuel rest
      else (token? (char :: rest)).bind fun pair => scanFrom (pair.1 :: done) fuel pair.2 := by
  rw [scanFrom]
  cases token? (char :: rest) <;> rfl

/-- Whatever is left of the fuel at the end of a text, a line feed takes one step more. -/
theorem scanFrom_newline (fuel : Nat) (input : List Char) (done : List Token) :
    scanFrom done (fuel + 1) (input ++ ['\n']) = scanFrom done fuel input := by
  have spent (done : List Token) (rest : List Char) : scanFrom done 0 (rest ++ ['\n']) = none := by
    cases rest <;> rfl
  induction fuel generalizing input done with
  | zero =>
    cases input with
    | nil => rfl
    | cons char rest =>
      have step := token?_newline (char :: rest)
      rw [List.cons_append] at step
      rw [List.cons_append, scanFrom_cons, step, spent]
      cases token? (char :: rest) with
      | none => exact ite_self _
      | some pair => exact (congrArg _ (spent _ pair.2)).trans (ite_self _)
  | succ fuel ih =>
    cases input with
    | nil => rfl
    | cons char rest =>
      have step := token?_newline (char :: rest)
      rw [List.cons_append] at step
      rw [List.cons_append, scanFrom_cons, scanFrom_cons, step, ih]
      cases token? (char :: rest) with
      | none => rfl
      | some pair => exact congrArg _ (ih pair.2 (pair.1 :: done))

/-- A line feed behind a document is not part of it. -/
theorem read_newline (text : String) : read (text ++ "\n") = read text := by
  have same : scan (text ++ "\n").toList = scan text.toList := by
    have line : (text ++ "\n").toList = text.toList ++ ['\n'] := String.toList_append
    rw [scan, scan, line, List.length_append]
    exact scanFrom_newline ..
  rw [read, read, readWithin, readWithin, same]

/-! ### The end of printed text -/

variable {style : Notation} {value : Value}

theorem not_isWhiteSpace_of_continues (part : continues char = true) : Text.isWhiteSpace char = false := by
  have solid := of_continues (fun char => !Text.isWhiteSpace char) (by decide) part
  simpa using solid

theorem write_closed (plus : Notation.Numeric style.plus) (number : Number) :
    style.write number ≠ "" ∧ Text.Closed (style.write number).toList := by
  obtain ⟨numeric, char, member, _⟩ := Notation.written_write plus number
  refine ⟨fun empty => ?_, fun char last => not_isWhiteSpace_of_continues (numeric char (List.mem_of_getLast? last))⟩
  rw [empty] at member
  cases member

theorem closed_scalar (value : Value) : Text.Closed (scalar value).toList := by
  fun_cases scalar value with
  | case1 => decide
  | case2 => decide
  | case3 => decide
  | case4 number => exact (write_closed (by decide) number).2
  | case5 text =>
    rw [quote, String.toList_append, Text.closed_append (by simp)]
    decide
  | case6 => decide
  | case7 => decide

theorem closed_pretty (indent : Nat) (value : Value) : Text.Closed (pretty indent value).toList := by
  fun_cases pretty indent value with
  | case1 =>
    rw [String.toList_append, Text.closed_append (by simp)]
    decide
  | case2 =>
    rw [String.toList_append, Text.closed_append (by simp)]
    decide
  | case3 => exact closed_scalar value

end Json
end ApiDialect
