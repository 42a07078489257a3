import ApiDialect.Proofs.LineEnds
import ApiDialect.Yaml.Printer

/-! The last line of a text in block style belongs to the last scalar, and what is taken off its end is
taken off the scalar. Quotes protect a scalar; in the other styles its white space is at stake. -/

namespace ApiDialect

namespace Value

mutual
/-- The scalar or the empty collection that is written last. -/
def last : Value → Value
  | .arr (item :: rest) => lastOfItems item.last rest
  | .obj ((_, value) :: rest) => lastOfMembers value.last rest
  | value => value
termination_by structural value => value

def lastOfItems (earlier : Value) : List Value → Value
  | [] => earlier
  | item :: rest => lastOfItems item.last rest
termination_by structural items => items

def lastOfMembers (earlier : Value) : List (String × Value) → Value
  | [] => earlier
  | (_, value) :: rest => lastOfMembers value.last rest
termination_by structural members => members
end

end Value

namespace Yaml
open Text

/-- Quotes keep what stands between them. A string without quotes has no white space at its end but
for a single line feed behind other text. -/
def Settled : Value → Prop
  | .str text => Style.ofText text = .single ∨ Style.ofText text = .double ∨ trimEnd text = text ∨
      (trimEnd text ≠ "" ∧ trimEnd text ++ "\n" = text)
  | _ => True

instance : DecidablePred Settled
  | .str _ => inferInstanceAs (Decidable (_ ∨ _ ∨ _ ∨ _))
  | .null | .bool _ | .num _ | .arr _ | .obj _ => isTrue trivial

/-- The text ends with the lines of a leaf. -/
def EndsWith (text : String) (leaf : Value) : Prop :=
  ∃ front indent, text = front ++ line (inline indent leaf)

variable {text front : String} {leaf value : Value} {chars : List Char} {char : Char}

theorem EndsWith.behind (ends : EndsWith text leaf) (before : String) : EndsWith (before ++ text) leaf := by
  obtain ⟨front, indent, rfl⟩ := ends
  exact ⟨before ++ front, indent, (String.append_assoc ..).symm⟩

theorem endsWith_line (indent : Nat) (leaf : Value) : EndsWith (line (inline indent leaf)) leaf :=
  ⟨"", indent, (String.empty_append ..).symm⟩

mutual
theorem compact_ends (indent : Nat) : (value : Value) → EndsWith (compact indent value) value.last
  | .arr (item :: rest) => sequence_ends indent rest ((compact_ends (indent + 2) item).behind _)
  | .obj ((name, value) :: rest) => mapping_ends indent rest (member_ends indent name value)
  | .arr [] | .obj [] | .null | .bool _ | .num _ | .str _ => endsWith_line indent _
termination_by structural value => value

theorem sequence_ends (indent : Nat) {text : String} {leaf : Value} : (items : List Value) → EndsWith text leaf →
    EndsWith (text ++ sequence indent items) (Value.lastOfItems leaf items)
  | [], ends => by rwa [sequence, String.append_empty]
  | item :: rest, _ => by
    have ends := sequence_ends indent rest ((compact_ends (indent + 2) item).behind (spaces indent ++ "- "))
    exact ends.behind text
termination_by structural items => items

theorem member_ends (indent : Nat) (name : String) : (value : Value) → EndsWith (member indent name value) value.last
  | .arr (item :: rest) => by
    rw [member]
    split
    next => exact sequence_ends indent rest ((compact_ends (indent + 2) item).behind _)
    next => exact sequence_ends (indent + 2) rest ((compact_ends (indent + 4) item).behind _)
  | .obj ((first, value) :: rest) => by
    rw [member]
    split
    next => exact mapping_ends (indent + 2) rest ((member_ends (indent + 2) first value).behind _)
    next => exact mapping_ends (indent + 2) rest ((member_ends (indent + 2) first value).behind _)
  | .arr [] | .obj [] | .null | .bool _ | .num _ | .str _ => by
    rw [member]
    · split
      next => exact (endsWith_line (indent + 2) _).behind _
      next => exact (endsWith_line (indent + 2) _).behind _
    · nofun
    · nofun
termination_by structural value => value

theorem mapping_ends (indent : Nat) {text : String} {leaf : Value} : (members : List (String × Value)) → EndsWith text leaf →
    EndsWith (text ++ mapping indent members) (Value.lastOfMembers leaf members)
  | [], ends => by rwa [mapping, String.append_empty]
  | (name, value) :: rest, _ => by
    have ends := mapping_ends indent rest ((member_ends indent name value).behind (spaces indent))
    exact ends.behind text
termination_by structural members => members
end

theorem print_ends : (value : Value) → EndsWith (print value) value.last
  | .arr (_ :: _) | .obj (_ :: _) => compact_ends 0 _
  | .arr [] | .obj [] | .null | .bool _ | .num _ | .str _ => endsWith_line 2 _

/-! ### One line -/

theorem isWhiteSpace_of_isBreak (breaks : isBreak char = true) : isWhiteSpace char = true := by
  simp only [isBreak, Bool.or_eq_true, decide_eq_true_eq, or_assoc] at breaks
  rcases breaks with rfl | rfl | rfl | rfl | rfl <;> decide

/-- A line that a break ends only behind it. -/
theorem line_kept_iff (filled : text ≠ "") (unbroken : text.toList.getLast?.any isBreak = false) (front : String) :
    trimEnd (front ++ line text) ++ "\n" = front ++ line text ↔ Closed text.toList := by
  have plain : line text = text ++ "\n" := by
    rw [line, unbroken]
    rfl
  have filled : text.toList ≠ [] := by simpa using filled
  rw [trimEnd_newline_iff, plain, ← String.append_assoc, String.toList_append]
  constructor
  · rintro ⟨kept, same, closed⟩
    rw [← (List.append_inj' same rfl).1, String.toList_append, closed_append filled] at closed
    exact closed
  · intro closed
    refine ⟨_, rfl, ?_⟩
    rwa [String.toList_append, closed_append filled]

/-- A line that has its break already. -/
theorem broken_kept_iff (same : text.toList = chars ++ [char]) (filled : chars ≠ []) (breaks : isBreak char = true)
    (front : String) :
    trimEnd (front ++ line text) ++ "\n" = front ++ line text ↔ char = '\n' ∧ Closed chars := by
  have plain : line text = text := by
    rw [line, if_pos]
    simp [same, breaks]
  rw [trimEnd_newline_iff, plain, String.toList_append, same, ← List.append_assoc]
  constructor
  · rintro ⟨kept, whole, closed⟩
    obtain ⟨rfl, last⟩ := List.append_inj' whole rfl
    exact ⟨by simpa using last, (closed_append filled).mp closed⟩
  · rintro ⟨rfl, closed⟩
    exact ⟨_, rfl, (closed_append filled).mpr closed⟩

/-! ### The last leaf -/

theorem settled_of_quoted (quoted : Style.ofText text = .single ∨ Style.ofText text = .double) : Settled (.str text) :=
  quoted.elim .inl fun double => .inr (.inl double)

theorem settled_iff_of_unquoted (unquoted : Style.ofText text = .plain ∨ Style.ofText text = .literal) :
    Settled (.str text) ↔
      Closed text.toList ∨ ∃ front, front ≠ [] ∧ text.toList = front ++ ['\n'] ∧ Closed front := by
  have single : Style.ofText text ≠ .single := by rcases unquoted with style | style <;> simp [style]
  have double : Style.ofText text ≠ .double := by rcases unquoted with style | style <;> simp [style]
  rw [Settled, or_iff_right single, or_iff_right double, trimEnd_eq_iff, trimEnd_newline_iff]
  refine or_congr_right ?_
  constructor
  · rintro ⟨filled, front, same, closed⟩
    refine ⟨front, fun empty => filled ?_, same, closed⟩
    rw [← String.toList_inj, toList_trimEnd_newline same closed, empty]
    rfl
  · rintro ⟨front, filled, same, closed⟩
    refine ⟨fun empty => filled ?_, front, same, closed⟩
    rw [← toList_trimEnd_newline same closed, empty]
    rfl

theorem literalLines_ne_nil (indent : Nat) (fresh : Bool) (filled : chars ≠ []) : literalLines indent fresh chars ≠ [] := by
  cases chars with
  | nil => exact absurd rfl filled
  | cons char rest =>
    rw [literalLines]
    split <;> simp

theorem getLast?_literalLines (indent : Nat) (fresh : Bool) (chars : List Char) :
    (literalLines indent fresh chars).getLast? = chars.getLast? := by
  induction chars generalizing fresh with
  | nil => rfl
  | cons char rest ih =>
    have behind (fresh : Bool) : (char :: literalLines indent fresh rest).getLast? = (char :: rest).getLast? := by
      rw [List.getLast?_cons, List.getLast?_cons, ih]
    rw [literalLines]
    split
    next => exact behind true
    next => rw [List.getLast?_append_of_ne_nil _ (by simp), behind]

theorem literalLines_concat (indent : Nat) (fresh : Bool) (chars : List Char) (breaks : isBreak char = true) :
    literalLines indent fresh (chars ++ [char]) = literalLines indent fresh chars ++ [char] := by
  induction chars generalizing fresh with
  | nil => simp [literalLines, breaks]
  | cons first rest ih =>
    simp only [List.cons_append, literalLines, ih]
    split <;> simp

/-- The lines of a literal stand on lines of their own. -/
theorem closed_literalLines (indent : Nat) (chars : List Char) :
    Closed ('\n' :: literalLines indent true chars) ↔ chars ≠ [] ∧ Closed chars := by
  by_cases filled : chars = []
  · subst filled
    rw [literalLines]
    decide
  · have lines := literalLines_ne_nil indent true filled
    rw [and_iff_right filled, ← List.singleton_append, closed_append lines, Closed, Closed, getLast?_literalLines]

/-- What is written plainly is there, and on one line. -/
theorem of_plain (style : Style.ofText text = .plain) : text ≠ "" ∧ text.toList.any isBreak = false := by
  unfold Style.ofText at style
  dsimp only at style
  split at style
  next => split at style <;> cases style
  next =>
    split at style
    next plain =>
      rw [Bool.and_eq_true, Style.mayBePlain, Bool.not_eq_true'] at plain
      obtain ⟨reads, may⟩ := plain
      simp only [Bool.or_eq_false_iff] at may
      refine ⟨?_, may.1.1.1.1⟩
      rintro rfl
      exact absurd reads (by decide)
    next => split at style <;> cases style

theorem ne_empty_of_literal (style : Style.ofText text = .literal) : text ≠ "" := by
  rintro rfl
  exact absurd style (by decide)

theorem plain_kept_iff (style : Style.ofText text = .plain) (front : String) :
    trimEnd (front ++ line text) ++ "\n" = front ++ line text ↔ Settled (.str text) := by
  obtain ⟨filled, unbroken⟩ := of_plain style
  rw [List.any_eq_false] at unbroken
  rw [settled_iff_of_unquoted (.inl style), line_kept_iff filled]
  · refine (or_iff_left ?_).symm
    rintro ⟨front, _, same, _⟩
    exact unbroken '\n' (by simp [same]) rfl
  · rw [Option.any_eq_false]
    exact fun char last => by simpa using unbroken char (List.mem_of_getLast? last)

/-- The lines of a literal end with its text, so its own last break is the last of the line. -/
theorem literal_kept_iff (style : Style.ofText text = .literal) (front : String) (indent : Nat) :
    trimEnd (front ++ line (string indent text)) ++ "\n" = front ++ line (string indent text) ↔ Settled (.str text) := by
  have shape : (string indent text).toList =
      '|' :: hints text.toList ++ '\n' :: literalLines indent true text.toList := by
    simp [string, style]
  obtain empty | ⟨chars, char, same⟩ := List.eq_nil_or_concat' text.toList
  · exact absurd (String.toList_eq_nil_iff.mp empty) (ne_empty_of_literal style)
  rw [settled_iff_of_unquoted (.inr style)]
  by_cases breaks : isBreak char
  · have cut : ¬ Closed text.toList := by
      rw [same, closed_concat, isWhiteSpace_of_isBreak breaks]
      simp
    have parts : (string indent text).toList =
        ('|' :: hints text.toList ++ '\n' :: literalLines indent true chars) ++ [char] := by
      rw [shape, same, literalLines_concat indent true chars breaks]
      simp
    rw [broken_kept_iff parts (by simp) breaks, or_iff_right cut, closed_append (by simp), closed_literalLines]
    constructor
    · rintro ⟨rfl, filled, closed⟩
      exact ⟨chars, filled, same, closed⟩
    · rintro ⟨front, filled, whole, closed⟩
      obtain ⟨rfl, last⟩ := List.append_inj' (same.symm.trans whole) rfl
      exact ⟨by simpa using last, filled, closed⟩
  · have ends : (string indent text).toList.getLast? = some char := by
      rw [shape, List.getLast?_append_of_ne_nil _ (by simp), ← List.singleton_append,
        List.getLast?_append_of_ne_nil _ (literalLines_ne_nil indent true (by simp [same])), getLast?_literalLines, same]
      simp
    rw [line_kept_iff (by simp [← String.toList_eq_nil_iff, shape]) (by simp [ends, breaks])]
    have closed : Closed (string indent text).toList ↔ Closed text.toList := by
      rw [same, closed_concat, Closed, ends]
      simp
    rw [closed]
    refine (or_iff_left ?_).symm
    rintro ⟨front, _, whole, _⟩
    obtain ⟨_, last⟩ := List.append_inj' (same.symm.trans whole) rfl
    obtain rfl : char = '\n' := by simpa using last
    exact breaks rfl

/-- A text that ends with a character of its own keeps its line. -/
theorem kept_of_closed (ends : text ≠ "" ∧ Closed text.toList) (front : String) :
    trimEnd (front ++ line text) ++ "\n" = front ++ line text := by
  obtain ⟨filled, closed⟩ := ends
  refine (line_kept_iff filled ?_ front).mpr closed
  rw [Option.any_eq_false]
  intro char last
  by_contra breaks
  have white := isWhiteSpace_of_isBreak (by simpa using breaks)
  rw [closed char last] at white
  cases white

/-- All leaves but strings without quotes end with a character of their own. -/
theorem inline_closed (indent : Nat) {leaf : Value}
    (quoted : ∀ text, leaf = .str text → Style.ofText text = .single ∨ Style.ofText text = .double) :
    inline indent leaf ≠ "" ∧ Closed (inline indent leaf).toList := by
  fun_cases inline indent leaf with
  | case1 => decide
  | case2 => decide
  | case3 => decide
  | case4 number => exact Json.write_closed (by decide) number
  | case5 text =>
    rcases quoted text rfl with style | style
    · simp only [string, style]
      rw [String.toList_append, closed_append (by simp)]
      exact ⟨by simp, by decide⟩
    · simp only [string, style]
      rw [String.toList_append, closed_append (by simp)]
      exact ⟨by simp, by decide⟩
  | case6 => decide
  | case7 => decide

/-- Which leaves come out of the trimming as they were. -/
theorem leaf_kept_iff (front : String) (indent : Nat) (leaf : Value) :
    trimEnd (front ++ line (inline indent leaf)) ++ "\n" = front ++ line (inline indent leaf) ↔ Settled leaf := by
  cases leaf with
  | str text =>
    have quoted (style : Style.ofText text = .single ∨ Style.ofText text = .double) :
        trimEnd (front ++ line (inline indent (.str text))) ++ "\n" = front ++ line (inline indent (.str text)) ↔
          Settled (.str text) := by
      refine iff_of_true (kept_of_closed (inline_closed indent fun other same => ?_) front) (settled_of_quoted style)
      cases same
      exact style
    cases style : Style.ofText text with
    | plain =>
      have same : string indent text = text := by simp only [string, style]
      rw [inline, same]
      exact plain_kept_iff style front
    | literal => exact literal_kept_iff style front indent
    | single => exact quoted (.inl style)
    | double => exact quoted (.inr style)
  | null | bool _ | num _ | arr _ | obj _ => exact iff_of_true (kept_of_closed (inline_closed indent (by simp)) front) trivial

/-- Trimming and one line feed leave a document as it is exactly when its last leaf is settled. -/
theorem print_kept_iff (value : Value) : trimEnd (print value) ++ "\n" = print value ↔ Settled value.last := by
  obtain ⟨front, indent, same⟩ := print_ends value
  rw [same]
  exact leaf_kept_iff front indent value.last

end Yaml
end ApiDialect
