import ApiDialect.Json.Printer
import ApiDialect.Json.Reader
import Mathlib.Algebra.Group.Int.Defs
import Mathlib.Data.List.Basic
import Mathlib.Data.List.TakeDrop
import Mathlib.Data.List.TakeWhile

/-! What the printer writes for one scalar, the scanner takes for one token. Quoted text ends at
its quote; a number ends where a character follows that no number has. -/

namespace ApiDialect
namespace Decimal

theorem ofDigits_toDigits (number : Nat) : ofDigits (Nat.toDigits 10 number) = number := by
  have read := Nat.ofDigitChars_ten_toDigits (n := number)
  rw [Nat.ofDigitChars_eq_foldl] at read
  simp only [Nat.mul_comm 10] at read
  exact read

/-- Only zero is written with a leading zero. -/
theorem eq_zero_of_toDigits {number : Nat} (leading : (Nat.toDigits 10 number).head? = some '0') : number = 0 := by
  induction number using Nat.strongRecOn with
  | ind number ih =>
    rw [Nat.toDigits_eq_if (by omega)] at leading
    by_cases small : number < 10
    · have every : ∀ digit < 10, digit.digitChar = '0' → digit = 0 := by decide
      rw [if_pos small] at leading
      exact every number small (Option.some.inj leading)
    · rw [if_neg small, List.head?_append_of_ne_nil _ Nat.toDigits_ne_nil] at leading
      have shorter := ih (number / 10) (by omega) leading
      omega

end Decimal

namespace Json

/-- Integers are kept as such when 64 bits hold them, with a sign or without. -/
def Fits : Number → Prop
  | .int value => -2 ^ 63 ≤ value ∧ value < 2 ^ 64
  | .float _ => False

instance (number : Number) : Decidable (Fits number) :=
  match number with
  | .int _ => inferInstanceAs (Decidable (_ ∧ _))
  | .float _ => inferInstanceAs (Decidable False)

/-- The characters with which a number may go on. -/
def continues (char : Char) : Bool :=
  char.isDigit || char = '.' || char = 'e' || char = 'E' || char = '+' || char = '-'

/-- What a reader takes from a text does not depend on what is appended to the text. -/
def Local {α : Type} (read : List Char → Option (α × List Char)) (rest : List Char) : Prop :=
  ∀ input, read (input ++ rest) = (read input).map (Prod.map id (· ++ rest))

variable {done input rest : List Char} {a b c d char : Char}

theorem mem_of_continues (part : continues char = true) : char ∈ "0123456789.eE+-".toList := by
  simp only [continues, Bool.or_eq_true, decide_eq_true_eq, or_assoc] at part
  rcases part with digit | rfl | rfl | rfl | rfl | rfl
  · have bounds : 48 ≤ char.toNat ∧ char.toNat ≤ 57 := by
      simpa [Char.isDigit, UInt32.le_iff_toNat_le] using digit
    have every : ∀ code ∈ List.range' 48 10, Char.ofNat code ∈ "0123456789.eE+-".toList := by decide
    rw [← Char.ofNat_toNat char]
    exact every char.toNat (List.mem_range'_1.mpr (by omega))
  all_goals decide

/-- What holds of each of these characters. -/
theorem of_continues (holds : Char → Bool) (every : "0123456789.eE+-".toList.all holds = true) (part : continues char = true) :
    holds char = true :=
  List.all_eq_true.mp every char (mem_of_continues part)

/-! ### Numbers -/

theorem continues_eq_false (other : continues char = false) :
    char.isDigit = false ∧ char ≠ '.' ∧ char ≠ 'e' ∧ char ≠ 'E' ∧ char ≠ '+' ∧ char ≠ '-' := by
  simpa [continues, and_assoc] using other

theorem digitsOf_append (other : char.isDigit = false) (input : List Char) :
    digitsOf (input ++ char :: rest) = Prod.map id (· ++ char :: rest) (digitsOf input) := by
  unfold digitsOf
  simp only [List.span_eq_takeWhile_dropWhile, Prod.map_apply, Prod.mk.injEq, id]
  induction input with
  | nil => simp [other]
  | cons first others ih =>
    by_cases digit : first.isDigit
    · simpa [digit] using ih
    · simp [digit]

theorem fraction?_local (other : continues char = false) : Local fraction? (char :: rest) := by
  intro input
  obtain ⟨digit, point, _⟩ := continues_eq_false other
  by_cases mark : ∃ tail, input = '.' :: tail
  · obtain ⟨tail, rfl⟩ := mark
    simp only [fraction?, List.cons_append, digitsOf_append digit, Prod.map_fst, Prod.map_snd, id]
    split <;> rfl
  · cases input with
    | nil => simp [fraction?, point]
    | cons first tail =>
      have point : first ≠ '.' := by rintro rfl; exact mark ⟨tail, rfl⟩
      simp [fraction?, point]

theorem exponentDigits?_local (negative : Bool) (other : continues char = false) :
    Local (exponentDigits? negative) (char :: rest) := by
  intro input
  obtain ⟨digit, _⟩ := continues_eq_false other
  simp only [exponentDigits?, digitsOf_append digit, Prod.map_fst, Prod.map_snd, id]
  split <;> rfl

/-- The size of an exponent behind its sign. -/
def signed? : List Char → Option (Int × List Char)
  | '+' :: rest => exponentDigits? false rest
  | '-' :: rest => exponentDigits? true rest
  | rest => exponentDigits? false rest

theorem exponent?_eq (input : List Char) :
    exponent? input = match input with
      | 'e' :: rest | 'E' :: rest => (signed? rest).map fun (size, rest) => (some size, rest)
      | _ => some (none, input) := by
  have same (rest : List Char) : signed? rest = match rest with
      | '+' :: rest => exponentDigits? false rest
      | '-' :: rest => exponentDigits? true rest
      | _ => exponentDigits? false rest := by
    fun_cases signed? rest <;> simp
  simp only [same]
  rfl

theorem signed?_local (other : continues char = false) : Local signed? (char :: rest) := by
  intro input
  obtain ⟨_, _, _, _, plus, minus⟩ := continues_eq_false other
  fun_cases signed? input with
  | case1 tail => exact exponentDigits?_local false other tail
  | case2 tail => exact exponentDigits?_local true other tail
  | case3 _ noPlus noMinus =>
    have same : signed? (input ++ char :: rest) = exponentDigits? false (input ++ char :: rest) := by
      cases input <;> simp_all [signed?]
    rw [same]
    exact exponentDigits?_local false other input

theorem exponent?_local (other : continues char = false) : Local exponent? (char :: rest) := by
  intro input
  obtain ⟨_, _, small, large, _⟩ := continues_eq_false other
  have marked (tail : List Char) :
      ((signed? (tail ++ char :: rest)).map fun (size, rest) => (some size, rest)) =
        ((signed? tail).map fun (size, rest) => (some size, rest)).map (Prod.map id (· ++ char :: rest)) := by
    rw [signed?_local other]
    cases signed? tail <;> rfl
  rw [exponent?_eq, exponent?_eq]
  cases input with
  | nil => simp [small, large]
  | cons first tail =>
    by_cases mark : first = 'e' ∨ first = 'E'
    · rcases mark with rfl | rfl <;> exact marked tail
    · rw [not_or] at mark
      simp [mark.1, mark.2]

theorem magnitude?_local (negative : Bool) (other : continues char = false) :
    Local (magnitude? negative) (char :: rest) := by
  intro input
  obtain ⟨digit, _⟩ := continues_eq_false other
  simp only [magnitude?, digitsOf_append digit, Prod.map_fst, Prod.map_snd, id]
  split
  next => rfl
  next =>
    rw [fraction?_local other]
    cases fraction? (digitsOf input).2 with
    | none => rfl
    | some fraction =>
      simp only [Option.map_some, Option.bind_eq_bind, Option.bind_some, Prod.map_fst, Prod.map_snd, id,
        exponent?_local other fraction.2]
      cases exponent? fraction.2 with
      | none => rfl
      | some exponent =>
        simp only [Option.map_some, Option.bind_some, Prod.map_fst, Prod.map_snd, id]
        split
        next => cases whole? negative (digitsOf input).1 <;> rfl
        next => cases Decimal.scaledParts (digitsOf input).1 fraction.1 (exponent.1.getD 0) <;> rfl

theorem number?_eq (unsigned : input.head? ≠ some '-') : number? input = magnitude? false input := by
  cases input with
  | nil => rfl
  | cons first tail => simp_all [number?]

theorem number?_local (other : continues char = false) : Local number? (char :: rest) := by
  intro input
  obtain ⟨_, _, _, _, _, minus⟩ := continues_eq_false other
  fun_cases number? input with
  | case1 tail => exact magnitude?_local true other tail
  | case2 unsigned =>
    have same : number? (input ++ char :: rest) = magnitude? false (input ++ char :: rest) := by
      refine number?_eq ?_
      cases input <;> simp_all
    rw [same]
    exact magnitude?_local false other input

theorem whole?_toDigits {number : Nat} (small : number < Nat.pow 2 64) :
    whole? false (Nat.toDigits 10 number) = some (.int number) := by
  simp only [whole?, Decimal.ofDigits_toDigits]
  simp [small]

theorem whole?_neg_toDigits {number : Nat} (positive : 0 < number) (small : number ≤ Nat.pow 2 63) :
    whole? true (Nat.toDigits 10 number) = some (.int (-number)) := by
  simp only [whole?, Decimal.ofDigits_toDigits]
  simp [small, positive]

theorem digitsOf_toDigits (number : Nat) : digitsOf (Nat.toDigits 10 number) = (Nat.toDigits 10 number, []) := by
  have digits : ∀ char ∈ Nat.toDigits 10 number, char.isDigit = true :=
    fun char member => Nat.isDigit_of_mem_toDigits (by omega) (by omega) member
  rw [digitsOf, List.span_eq_takeWhile_dropWhile, List.takeWhile_eq_self_iff.mpr digits,
    List.dropWhile_eq_nil_iff.mpr digits]

theorem magnitude?_toDigits (negative : Bool) (number : Nat) :
    magnitude? negative (Nat.toDigits 10 number) =
      (whole? negative (Nat.toDigits 10 number)).map fun value => (value, []) := by
  have plain : ((Nat.toDigits 10 number).isEmpty ||
      (Nat.toDigits 10 number).length > 1 && (Nat.toDigits 10 number).head? = some '0') = false := by
    have filled : (Nat.toDigits 10 number).isEmpty = false := by simp [Nat.toDigits_ne_nil]
    rw [filled, Bool.false_or]
    by_cases leading : (Nat.toDigits 10 number).head? = some '0'
    · rw [Decimal.eq_zero_of_toDigits leading]
      decide
    · simp [leading]
  simp only [magnitude?, digitsOf_toDigits]
  rw [plain]
  cases whole? negative (Nat.toDigits 10 number) <;> rfl

theorem number?_toDigits (number : Nat) :
    number? (Nat.toDigits 10 number) = magnitude? false (Nat.toDigits 10 number) := by
  refine number?_eq fun sign => ?_
  have digit := Nat.isDigit_of_mem_toDigits (by omega) (by omega) (List.mem_of_head? sign)
  contradiction

/-- Every integer that fits is read back from its decimal text. -/
theorem number?_write {number : Number} (fits : Fits number) :
    number? (Notation.json.write number).toList = some (number, []) := by
  cases number with
  | float bits => cases fits
  | int value =>
    obtain ⟨low, high⟩ := fits
    rw [Notation.write, Int.toString_eq_repr, Int.repr_eq_if]
    by_cases negative : value < 0
    · have size : (-value).toNat ≤ Nat.pow 2 63 := by
        have : Nat.pow 2 63 = 2 ^ 63 := rfl
        omega
      have same : -((-value).toNat : Int) = value := by omega
      rw [if_neg (by omega), String.toList_append, Nat.repr_eq_ofList_toDigits,
        String.toList_ofList (l := Nat.toDigits 10 (-value).toNat)]
      change magnitude? true (Nat.toDigits 10 (-value).toNat) = some (.int value, [])
      rw [magnitude?_toDigits, whole?_neg_toDigits (by omega) size, same]
      rfl
    · have size : value.toNat < Nat.pow 2 64 := by
        have : Nat.pow 2 64 = 2 ^ 64 := rfl
        omega
      have same : (value.toNat : Int) = value := by omega
      rw [if_pos (by omega), Nat.repr_eq_ofList_toDigits, String.toList_ofList, number?_toDigits,
        magnitude?_toDigits, whole?_toDigits size, same]
      rfl

/-! ### Quoted text -/

/-- A UTF-16 unit in its escaped spelling. -/
def unit? : List Char → Option (Nat × List Char)
  | '\\' :: 'u' :: a :: b :: c :: d :: rest => (Hex.ofDigits? [a, b, c, d]).map fun unit => (unit, rest)
  | _ => none

/-- A character with no meaning of its own is text, and control characters are errors. -/
theorem unquote_other (quote : char ≠ '"') (slash : char ≠ '\\') :
    unquote done (char :: rest) = if char < ' ' then none else unquote (char :: done) rest := by
  rw [unquote.eq_def]
  simp [slash]

theorem unquote_plain (quote : char ≠ '"') (slash : char ≠ '\\') (plain : ¬ char < ' ') :
    unquote done (char :: rest) = unquote (char :: done) rest := by
  rw [unquote_other quote slash, if_neg plain]

theorem unquote_short {short : Char} (other : short ≠ 'u') :
    unquote done ('\\' :: short :: rest) = (escaped? short).bind fun char => unquote (char :: done) rest := by
  have read := unquote.eq_5 done short rest (fun _ _ _ _ _ _ _ _ _ same _ => other same) fun _ _ _ _ _ same _ => other same
  rw [read]
  cases escaped? short <;> rfl

/-- One unit is a character by itself or the first of two. -/
theorem unquote_unit : unquote done ('\\' :: 'u' :: a :: b :: c :: d :: rest) =
    (Hex.ofDigits? [a, b, c, d]).bind fun unit =>
      match ofUnit? unit with
      | some char => unquote (char :: done) rest
      | none => (unit? rest).bind fun (low, rest) =>
        (ofSurrogates? unit low).bind fun char => unquote (char :: done) rest := by
  by_cases pair : ∃ e f g h others, rest = '\\' :: 'u' :: e :: f :: g :: h :: others
  · obtain ⟨e, f, g, h, others, rfl⟩ := pair
    rw [unquote.eq_3]
    cases Hex.ofDigits? [a, b, c, d] with
    | none => rfl
    | some unit =>
      simp only [Option.bind_some, unit?]
      cases ofUnit? unit with
      | some char => rfl
      | none =>
        cases Hex.ofDigits? [e, f, g, h] with
        | none => rfl
        | some low =>
          simp only [Option.bind_some, Option.map_some]
          cases ofSurrogates? unit low <;> rfl
  · have single : unit? rest = none := by
      fun_cases unit? rest with
      | case1 e f g h others => exact absurd ⟨e, f, g, h, others, rfl⟩ pair
      | case2 => rfl
    have read := unquote.eq_4 done a b c d rest fun e f g h others same => pair ⟨e, f, g, h, others, same⟩
    rw [read, single]
    cases Hex.ofDigits? [a, b, c, d] with
    | none => rfl
    | some unit => cases read : ofUnit? unit <;> simp only [Option.bind_some, Option.bind_none, read]

/-- The characters that have a spelling of their own. -/
def special : List Char :=
  ['"', '\\', '\x08', '\x0c', '\n', '\r', '\t']

theorem escape_of_not_special (other : char ∉ special) :
    escape char = if char < ' ' then
      ['\\', 'u', '0', '0', Hex.lower (char.toNat / 16), Hex.lower (char.toNat % 16)]
    else [char] := by
  unfold escape
  split <;> simp_all [special]

theorem unquote_special (short : char ∈ special) :
    unquote done (escape char ++ rest) = unquote (char :: done) rest := by
  simp only [special, List.mem_cons, List.not_mem_nil, or_false] at short
  rcases short with rfl | rfl | rfl | rfl | rfl | rfl | rfl <;>
    simp [escape, unquote_short, escaped?]

theorem ofDigits?_control {unit : Nat} (control : unit < 32) :
    Hex.ofDigits? ['0', '0', Hex.lower (unit / 16), Hex.lower (unit % 16)] = some unit := by
  have every : ∀ unit < 32, Hex.ofDigits? ['0', '0', Hex.lower (unit / 16), Hex.lower (unit % 16)] = some unit := by
    decide
  exact every unit control

/-- Every escape is undone. -/
theorem unquote_escape (char : Char) (done rest : List Char) :
    unquote done (escape char ++ rest) = unquote (char :: done) rest := by
  by_cases short : char ∈ special
  · exact unquote_special short
  rw [escape_of_not_special short]
  by_cases control : char < ' '
  · have small : char.toNat < 32 := control
    have unit : ofUnit? char.toNat = some char := by
      rw [ofUnit?, if_neg (by omega), Char.ofNat_toNat]
    rw [if_pos control]
    calc unquote done (_ :: _ :: '0' :: '0' :: _ :: _ :: rest)
      _ = unquote (char :: done) rest := by
        rw [unquote_unit, ofDigits?_control small, Option.bind_some, unit]
  · rw [if_neg control]
    refine unquote_plain ?_ ?_ control
    · rintro rfl; exact short (by decide)
    · rintro rfl; exact short (by decide)

theorem unquote_escaped (text done rest : List Char) :
    unquote done (text.flatMap escape ++ '"' :: rest) = some (String.ofList (done.reverse ++ text), rest) := by
  induction text generalizing done with
  | nil => rw [List.append_nil]; rfl
  | cons char others ih =>
    rw [List.flatMap_cons, List.append_assoc, unquote_escape, ih]
    simp

/-! ### Tokens -/

/-- No number goes on in the text. -/
def Ends (rest : List Char) : Prop :=
  ∀ char ∈ rest.head?, continues char = false

theorem token?_quote (text : String) (rest : List Char) :
    token? ((quote text).toList ++ rest) = some (.scalar (.str text), rest) := by
  have shape : (quote text).toList ++ rest = '"' :: (text.toList.flatMap escape ++ '"' :: rest) := by
    simp [quote]
  rw [shape]
  simp [token?, unquote_escaped]

theorem number?_eq_none (digit : char.isDigit = false) (minus : char ≠ '-') : number? (char :: rest) = none := by
  have none : (digitsOf (char :: rest)).1 = [] := by
    rw [digitsOf, List.span_eq_takeWhile_dropWhile, List.takeWhile_cons_of_neg (by simp [digit])]
  rw [number?_eq (by simpa using minus)]
  simp [magnitude?, none]

/-- A text that starts with a number starts with nothing else. -/
theorem token?_number {number : Number} {left : List Char} (read : number? input = some (number, left)) :
    token? input = some (.scalar (.num number), left) := by
  fun_cases token? input with
  | case11 => rw [read]; rfl
  | _ => rw [number?_eq_none (by decide) (by decide)] at read; cases read

theorem token?_write {number : Number} (fits : Fits number) (ends : Ends rest) :
    token? ((Notation.json.write number).toList ++ rest) = some (.scalar (.num number), rest) := by
  refine token?_number ?_
  cases rest with
  | nil => rw [List.append_nil, number?_write fits]
  | cons char others =>
    rw [number?_local (ends char rfl), number?_write fits]
    rfl

end Json
end ApiDialect
