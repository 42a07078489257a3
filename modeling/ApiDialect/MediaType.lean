import ApiDialect.Text.Search
import ApiDialect.Value

/-!
Media types as the names of a body's contents, and the choice of one among several.
-/

namespace ApiDialect
namespace MediaType

def urlEncodedForm : String := "application/x-www-form-urlencoded"
def multipartForm : String := "multipart/form-data"
def octetStream : String := "application/octet-stream"

private def isBlank (char : Char) : Bool :=
  char = ' ' || char = '\t'

/-- Letters that case folding identifies with an ASCII letter; the long s is one. -/
private def fold (char : Char) : Char :=
  if char = 'ſ' then 's' else char.toLower

/-- The part before the parameters, without the blanks that follow it. -/
private def essence (text : List Char) : List Char :=
  ((text.takeWhile (· ≠ ';')).reverse.dropWhile isBlank).reverse

/-- A subtype of something, written as a JSON suffix. -/
private def isJsonSuffixed (text : List Char) : Bool :=
  match Text.splitChars '/' text with
  | [top, sub] =>
    !top.isEmpty && sub.length > 5 && (sub.reverse.take 5).reverse.map fold = "+json".toList
  | _ => false

/-- `application/json` or any type with the suffix `+json`, in any case and with any parameters on
one line. -/
def isJson (mediaType : String) : Bool :=
  let text := mediaType.toList
  let name := essence text
  let parameters := text.dropWhile (· ≠ ';')
  !parameters.contains '\n' && !name.any isBlank &&
    (name.map fold = "application/json".toList || isJsonSuffixed name)

/-- A text whose letters are those of a text in lower case, with the long s for an s. -/
def SameLetters (text lower : List Char) : Prop :=
  text.map fold = lower

/-- A media type, cut into its name, the blanks behind it and its parameters, which are on one line. -/
structure Cut (text name blanks parameters : List Char) : Prop where
  joined : name ++ blanks ++ parameters = text
  blanks : ∀ char ∈ blanks, char = ' ' ∨ char = '\t'
  parameters : parameters = [] ∨ ∃ line, parameters = ';' :: line ∧ '\n' ∉ line

/-- A name has neither semicolons nor blanks in it. -/
def Solid (name : List Char) : Prop :=
  ∀ char ∈ name, char ≠ ';' ∧ char ≠ ' ' ∧ char ≠ '\t'

theorem sameLetters_iff {text lower : List Char} (short : 'ſ' ∉ text) :
    SameLetters text lower ↔ text.map Char.toLower = lower := by
  have same : text.map fold = text.map Char.toLower := by
    apply List.map_congr_left
    intro char member
    exact if_neg fun (long : char = 'ſ') => short (long ▸ member)
  rw [SameLetters, same]

private theorem isBlank_eq_false_iff {char : Char} : isBlank char = false ↔ char ≠ ' ' ∧ char ≠ '\t' := by
  simp [isBlank]

private theorem isJsonSuffixed_iff {name : List Char} : isJsonSuffixed name = true ↔
    ∃ top sub, Text.splitChars '/' name = [top, sub] ∧ top ≠ [] ∧ 5 < sub.length ∧
      SameLetters (sub.drop (sub.length - 5)) "+json".toList := by
  unfold isJsonSuffixed SameLetters
  split
  next top sub same =>
    rw [List.take_reverse, List.reverse_reverse]
    simp [same, and_assoc]
  next other =>
    refine iff_of_false Bool.false_ne_true ?_
    intro ⟨top, sub, same, _⟩
    exact other top sub same

/-- What stands before the first semicolon is the name, without the blanks at its end. -/
private theorem essence_cut {text : List Char} (line : '\n' ∉ text.dropWhile (· ≠ ';'))
    (unbroken : ∀ char ∈ essence text, isBlank char = false) :
    (∃ blanks, Cut text (essence text) blanks (text.dropWhile (· ≠ ';'))) ∧ Solid (essence text) := by
  obtain ⟨blanks, front, blank⟩ : ∃ blanks, essence text ++ blanks = text.takeWhile (· ≠ ';') ∧
      ∀ char ∈ blanks, char = ' ' ∨ char = '\t' := by
    refine ⟨((text.takeWhile (· ≠ ';')).reverse.takeWhile isBlank).reverse, ?_, ?_⟩
    · rw [essence, ← List.reverse_append, List.takeWhile_append_dropWhile, List.reverse_reverse]
    · intro char member
      have blank := List.all_eq_true.mp List.all_takeWhile char (List.mem_reverse.mp member)
      simpa [isBlank] using blank
  have plain : ∀ char ∈ text.takeWhile (· ≠ ';'), char ≠ ';' := by
    intro char member
    simpa using List.all_eq_true.mp List.all_takeWhile char member
  refine ⟨⟨blanks, ?_, blank, ?_⟩, ?_⟩
  · rw [front, List.takeWhile_append_dropWhile]
  · have first := List.head?_dropWhile_not (· ≠ ';') text
    cases same : text.dropWhile (· ≠ ';') with
    | nil => exact Or.inl rfl
    | cons char rest =>
      rw [same] at first line
      have semicolon : char = ';' := by simpa using first
      exact Or.inr ⟨rest, by rw [semicolon], fun later => line (List.mem_cons_of_mem _ later)⟩
  · intro char member
    exact ⟨plain char (front ▸ List.mem_append_left _ member), isBlank_eq_false_iff.mp (unbroken char member)⟩

/-- There is one way to cut a text behind a solid name. -/
private theorem essence_of_cut {text name blanks parameters : List Char} (cut : Cut text name blanks parameters) (solid : Solid name) :
    essence text = name ∧ text.dropWhile (· ≠ ';') = parameters := by
  have plain : ∀ char ∈ name ++ blanks, decide (char ≠ ';') = true := by
    intro char member
    rw [decide_eq_true_eq]
    rcases List.mem_append.mp member with inside | behind
    · exact (solid char inside).1
    · rcases cut.blanks char behind with rfl | rfl <;> decide
  have stops : parameters.takeWhile (· ≠ ';') = [] ∧ parameters.dropWhile (· ≠ ';') = parameters := by
    rcases cut.parameters with rfl | ⟨line, rfl, _⟩ <;> simp
  have behind : ∀ char ∈ blanks.reverse, isBlank char = true := by
    intro char member
    simpa [isBlank] using cut.blanks char (List.mem_reverse.mp member)
  have last : name.reverse.dropWhile isBlank = name.reverse := by
    cases same : name.reverse with
    | nil => rfl
    | cons char rest =>
      have inside : char ∈ name := List.mem_reverse.mp (same ▸ List.mem_cons_self)
      rw [List.dropWhile_cons, isBlank_eq_false_iff.mpr (solid char inside).2]
      rfl
  rw [← cut.joined]
  constructor
  · rw [essence, List.takeWhile_append_of_pos plain, stops.1, List.append_nil, List.reverse_append,
      List.dropWhile_append_of_pos behind, last, List.reverse_reverse]
  · rw [List.dropWhile_append_of_pos plain, stops.2]

/-- A text is JSON when its name is, whatever stands behind the name. -/
theorem isJson_eq_true_iff {mediaType : String} : isJson mediaType = true ↔
    ∃ name blanks parameters, Cut mediaType.toList name blanks parameters ∧ Solid name ∧
      (SameLetters name "application/json".toList ∨ ∃ top sub, Text.splitChars '/' name = [top, sub] ∧ top ≠ [] ∧
        5 < sub.length ∧ SameLetters (sub.drop (sub.length - 5)) "+json".toList) := by
  have checks : isJson mediaType = true ↔ '\n' ∉ mediaType.toList.dropWhile (· ≠ ';') ∧
      (∀ char ∈ essence mediaType.toList, isBlank char = false) ∧
      (SameLetters (essence mediaType.toList) "application/json".toList ∨ isJsonSuffixed (essence mediaType.toList) = true) := by
    simp only [isJson, SameLetters, Bool.and_eq_true, Bool.or_eq_true, Bool.not_eq_true', decide_eq_true_eq, decide_eq_false_iff_not,
      List.contains_eq_mem, List.any_eq_false, Bool.not_eq_true, and_assoc]
  rw [checks, isJsonSuffixed_iff]
  constructor
  · intro ⟨line, unbroken, named⟩
    obtain ⟨⟨blanks, cut⟩, solid⟩ := essence_cut line unbroken
    exact ⟨_, blanks, _, cut, solid, named⟩
  · intro ⟨name, blanks, parameters, cut, solid, named⟩
    obtain ⟨rfl, rfl⟩ := essence_of_cut cut solid
    refine ⟨?_, fun char member => isBlank_eq_false_iff.mpr (solid char member).2, named⟩
    rcases cut.parameters with none | ⟨line, some, clean⟩
    · rw [none]
      exact List.not_mem_nil
    · rw [some]
      exact List.not_mem_cons_of_ne_of_not_mem (by decide) clean

def isWildcard (mediaRange : String) : Bool :=
  mediaRange.toList.contains '*'

/-- A slash with something before it. -/
def isRange (key : String) : Bool :=
  match key.toList with
  | [] => false
  | first :: rest => first ≠ '/' && rest.contains '/'

/-- How the content of a request is passed on. -/
inductive BodyKind where
  | form
  | json
  | other
  deriving DecidableEq

/-- Forms come before JSON, JSON before all other media ranges. -/
def preferred? (content : Members Value) : Option (String × BodyKind) :=
  if Members.has content urlEncodedForm then some (urlEncodedForm, .form)
  else if Members.has content multipartForm then some (multipartForm, .form)
  else
    match content.names.find? isJson with
    | some key => some (key, .json)
    | none => (content.names.find? isRange).map (·, .other)

/-- The type that a response is said to produce: wildcards stand for bytes of any kind. -/
def produced (mediaRange : String) : String :=
  if isWildcard mediaRange then octetStream else mediaRange

end MediaType
end ApiDialect
