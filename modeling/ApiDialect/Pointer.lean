import ApiDialect.Text.Search
import ApiDialect.Value

/-!
Pointers into a document: names of members and positions in arrays, one behind the other. The
empty pointer is the whole document.
-/

namespace ApiDialect

/-- The steps from the root of a document to one of its nodes. -/
abbrev Pointer := List String

namespace Pointer

/-- A slash and a tilde inside a name are written `~1` and `~0`. -/
def unescape (token : String) : String :=
  Text.replace "~0" "~" (Text.replace "~1" "/" token)

def escape (name : String) : String :=
  Text.replace "/" "~1" (Text.replace "~" "~0" name)

/-- The steps of a fragment. One slash at its start may be left out. -/
def ofFragment (fragment : String) : Pointer :=
  if fragment.isEmpty then []
  else (Text.split '/' ((Text.strip? "/" fragment).getD fragment)).map unescape

private def indexDigits? (digits : List Char) : Option Nat :=
  if digits.isEmpty || !digits.all Char.isDigit then none
  else
    let value := digits.foldl (fun total digit => total * 10 + (digit.toNat - '0'.toNat)) 0
    if value < Nat.pow 2 64 then some value else none

/-- A position in decimal, perhaps with a plus sign or zeros before it. -/
def index? (token : String) : Option Nat :=
  match token.toList with
  | '+' :: digits => indexDigits? digits
  | digits => indexDigits? digits

/-- Digits of a number in decimal, perhaps with a plus sign before them. -/
def Numeral (text : List Char) (number : Nat) : Prop :=
  ∃ digits, digits ≠ [] ∧ (∀ digit ∈ digits, digit.isDigit = true) ∧ Nat.ofDigitChars 10 digits 0 = number ∧
    (text = digits ∨ text = '+' :: digits)

private theorem indexDigits?_eq_some_iff {digits : List Char} {index : Nat} :
    indexDigits? digits = some index ↔ digits ≠ [] ∧ (∀ digit ∈ digits, digit.isDigit = true) ∧
      Nat.ofDigitChars 10 digits 0 = index ∧ index < UInt64.size := by
  have value : digits.foldl (fun total digit => total * 10 + (digit.toNat - '0'.toNat)) 0 = Nat.ofDigitChars 10 digits 0 := by
    rw [Nat.ofDigitChars_eq_foldl]
    simp only [Nat.mul_comm]
  have plain : (digits.isEmpty || !digits.all Char.isDigit) = false ↔ digits ≠ [] ∧ ∀ digit ∈ digits, digit.isDigit = true := by
    simp
  unfold indexDigits?
  rw [value, ← and_assoc, ← plain]
  cases digits.isEmpty || !digits.all Char.isDigit with
  | true => simp
  | false =>
    have power : Nat.pow 2 64 = UInt64.size := rfl
    simp only [Bool.false_eq_true, if_false, true_and, power]
    split
    next fits =>
      rw [Option.some.injEq]
      exact ⟨fun same => ⟨same, same ▸ fits⟩, And.left⟩
    next large =>
      refine iff_of_false (fun found => nomatch found) ?_
      intro found
      exact large (found.1 ▸ found.2)

/-- A position is read from every numeral that gives it, as long as 64 bits hold it. -/
theorem index?_eq_some_iff {token : String} {index : Nat} :
    index? token = some index ↔ Numeral token.toList index ∧ index < UInt64.size := by
  unfold index?
  split
  next digits signed =>
    rw [indexDigits?_eq_some_iff, signed]
    constructor
    · intro found
      exact ⟨⟨digits, found.1, found.2.1, found.2.2.1, Or.inr rfl⟩, found.2.2.2⟩
    · rintro ⟨⟨others, filled, numeric, value, same | same⟩, fits⟩
      · have sign := numeric '+' (same ▸ List.mem_cons_self)
        exact absurd sign (by decide)
      · cases same
        exact ⟨filled, numeric, value, fits⟩
  next unsigned =>
    rw [indexDigits?_eq_some_iff]
    constructor
    · intro found
      exact ⟨⟨_, found.1, found.2.1, found.2.2.1, Or.inl rfl⟩, found.2.2.2⟩
    · rintro ⟨⟨others, filled, numeric, value, same | same⟩, fits⟩
      · rw [same]
        exact ⟨filled, numeric, value, fits⟩
      · exact absurd same (unsigned others)

end Pointer

namespace Value

/-- One step down from a node. -/
def child? : Value → String → Option Value
  | .obj members, token => Members.get? members token
  | .arr items, token => (Pointer.index? token).bind fun index => items[index]?
  | _, _ => none

def walk? (value : Value) : Pointer → Option Value
  | [] => some value
  | token :: rest => (value.child? token).bind fun child => child.walk? rest

/-- Puts a node in the place of a child. -/
def setChild (value : Value) (token : String) (child : Value) : Value :=
  match value with
  | .obj members => .obj (Members.modify members token fun _ => child)
  | .arr items =>
    match Pointer.index? token with
    | some index => .arr (items.set index child)
    | none => value
  | _ => value

/-- Changes the node that a pointer leads to and leaves every other node alone. -/
def modifyAt? (change : Value → Value) (value : Value) : Pointer → Option Value
  | [] => some (change value)
  | token :: rest => do
    let child ← value.child? token
    let changed ← child.modifyAt? change rest
    return value.setChild token changed

end Value
end ApiDialect
