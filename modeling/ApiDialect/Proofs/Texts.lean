import ApiDialect.Pointer
import ApiDialect.Relocation
import Mathlib.Data.List.Basic
import Mathlib.Data.List.Infix

/-! How pointers are cut and put together. Escaping is undone exactly, escaped names hold no
separator, and what a relocation replaces in a reference is its beginning. -/

namespace ApiDialect
namespace Text
variable {pattern replacement text rest : List Char} {char : Char}

theorem stripChars?_append (beginning rest : List Char) : stripChars? beginning (beginning ++ rest) = some rest := by
  induction beginning with
  | nil => rfl
  | cons char more ih => simpa [stripChars?] using ih

theorem eq_append_of_stripChars? (stripped : stripChars? pattern text = some rest) : text = pattern ++ rest := by
  induction pattern generalizing text with
  | nil => cases stripped; rfl
  | cons wanted more ih =>
    cases text with
    | nil => cases stripped
    | cons char behind =>
      rw [stripChars?] at stripped
      split at stripped
      next same => rw [same, ih stripped, List.cons_append]
      next => cases stripped

theorem strip?_append (beginning rest : String) : strip? beginning (beginning ++ rest) = some rest := by
  simp [strip?, String.toList_append, stripChars?_append]

theorem splitChars_cases (separator : Char) (text : List Char) :
    ∃ piece pieces, splitChars separator text = piece :: pieces ∧ piece <+: text ∧ ∀ other ∈ pieces, other <:+: text := by
  induction text with
  | nil => exact ⟨[], [], rfl, List.prefix_refl [], fun _ member => nomatch member⟩
  | cons char rest ih =>
    obtain ⟨piece, pieces, same, first, others⟩ := ih
    have deeper : ∀ other ∈ pieces, other <:+: char :: rest := fun other member =>
      (others other member).trans (List.suffix_cons ..).isInfix
    by_cases cut : char = separator
    · refine ⟨[], piece :: pieces, by rw [splitChars, if_pos cut, same], List.nil_prefix, ?_⟩
      exact List.forall_mem_cons.mpr ⟨first.isInfix.trans (List.suffix_cons ..).isInfix, deeper⟩
    · exact ⟨char :: piece, pieces, by rw [splitChars, if_neg cut, same], List.cons_prefix_cons.mpr ⟨rfl, first⟩, deeper⟩

theorem splitChars_append_cons (separator : Char) (before rest : List Char) :
    splitChars separator (before ++ separator :: rest) = splitChars separator before ++ splitChars separator rest := by
  induction before with
  | nil => simp [splitChars]
  | cons char before ih =>
    obtain ⟨first, others, same, _⟩ := splitChars_cases separator before
    rw [List.cons_append, splitChars, splitChars, ih, same]
    by_cases cut : char = separator
    · rw [if_pos cut, if_pos cut]
      rfl
    · rw [if_neg cut, if_neg cut]
      rfl

theorem splitChars_of_not_mem {separator : Char} {piece : List Char} (clean : separator ∉ piece) :
    splitChars separator piece = [piece] := by
  induction piece with
  | nil => rfl
  | cons char more ih =>
    obtain ⟨other, apart⟩ := List.ne_and_not_mem_of_not_mem_cons clean
    rw [splitChars, if_neg (Ne.symm other), ih apart]

/-- A piece without separators ends at the first one. -/
theorem splitChars_append {separator : Char} {piece : List Char} (clean : separator ∉ piece) (rest : List Char) :
    splitChars separator (piece ++ separator :: rest) = piece :: splitChars separator rest := by
  rw [splitChars_append_cons, splitChars_of_not_mem clean, List.singleton_append]

theorem split_append {piece : String} (clean : '/' ∉ piece.toList) (rest : String) :
    split '/' (piece ++ "/" ++ rest) = piece :: split '/' rest := by
  have cut : (piece ++ "/" ++ rest).toList = piece.toList ++ '/' :: rest.toList := by simp [String.toList_append]
  rw [split, cut, splitChars_append clean, List.map_cons, String.ofList_toList]
  rfl

theorem split_of_not_mem {piece : String} (clean : '/' ∉ piece.toList) : split '/' piece = [piece] := by
  rw [split, splitChars_of_not_mem clean, List.map_singleton, String.ofList_toList]

/-! Replacing, with the fuel out of sight. -/

theorem replaceFrom_length (fuel : Nat) (enough : text.length ≤ fuel) (nonempty : pattern ≠ []) :
    replaceFrom pattern replacement fuel text = replaceChars pattern replacement text := by
  induction fuel using Nat.strongRecOn generalizing text with
  | ind fuel ih =>
    unfold replaceChars
    cases text with
    | nil => cases fuel <;> rfl
    | cons char more =>
      cases fuel with
      | zero => cases enough
      | succ fuel =>
        have room : more.length ≤ fuel := Nat.le_of_succ_le_succ enough
        rw [List.length_cons, replaceFrom, replaceFrom]
        split
        next behind stripped =>
          have shorter : behind.length ≤ more.length := by
            have whole := congrArg List.length (eq_append_of_stripChars? stripped)
            have some := List.length_pos_iff.mpr nonempty
            rw [List.length_cons, List.length_append] at whole
            omega
          rw [ih fuel (Nat.lt_succ_self fuel) (Nat.le_trans shorter room)]
          rcases Nat.lt_or_ge more.length (fuel + 1) with inside | outside
          · rw [ih more.length inside shorter]
          · omega
        next =>
          rw [ih fuel (Nat.lt_succ_self fuel) room]
          rfl

theorem replaceChars_append (nonempty : pattern ≠ []) (rest : List Char) :
    replaceChars pattern replacement (pattern ++ rest) = replacement ++ replaceChars pattern replacement rest := by
  cases pattern with
  | nil => exact absurd rfl nonempty
  | cons wanted more =>
    have found : stripChars? (wanted :: more) (wanted :: (more ++ rest)) = some rest := stripChars?_append (wanted :: more) rest
    rw [List.cons_append, replaceChars, List.length_cons, replaceFrom, found]
    dsimp only
    rw [replaceFrom_length _ (by simp) nonempty]

theorem replaceChars_cons (apart : stripChars? pattern (char :: rest) = none) :
    replaceChars pattern replacement (char :: rest) = char :: replaceChars pattern replacement rest := by
  rw [replaceChars, List.length_cons, replaceFrom, apart]
  rfl

theorem replaceChars_cons_of_ne {wanted : Char} {more : List Char} (other : char ≠ wanted) :
    replaceChars (wanted :: more) replacement (char :: rest) = char :: replaceChars (wanted :: more) replacement rest :=
  replaceChars_cons (by rw [stripChars?, if_neg other])

theorem replaceChars_of_not_mem {wanted : Char} {more : List Char} (clean : wanted ∉ text) :
    replaceChars (wanted :: more) replacement text = text := by
  induction text with
  | nil => rfl
  | cons char rest ih =>
    obtain ⟨other, apart⟩ := List.ne_and_not_mem_of_not_mem_cons clean
    rw [replaceChars_cons_of_ne (Ne.symm other), ih apart]

/-- One character is replaced wherever it stands. -/
theorem replaceChars_singleton (wanted : Char) (text : List Char) :
    replaceChars [wanted] replacement text = text.flatMap fun char => if char = wanted then replacement else [char] := by
  induction text with
  | nil => rfl
  | cons char rest ih =>
    rw [List.flatMap_cons, ← ih]
    by_cases same : char = wanted
    · rw [if_pos same, same]
      exact replaceChars_append (by simp) rest
    · rw [if_neg same, replaceChars_cons_of_ne same]
      rfl

/-- Where neither the first character of a pattern nor its replacement is left, there was nothing
to replace. -/
theorem not_mem_of_replaceChars {wanted second instead : Char}
    (first : wanted ∉ replaceChars [wanted, second] [instead] text)
    (other : instead ∉ replaceChars [wanted, second] [instead] text) : wanted ∉ text := by
  induction text with
  | nil => simp
  | cons char rest ih =>
    cases found : stripChars? [wanted, second] (char :: rest) with
    | some behind =>
      rw [eq_append_of_stripChars? found, replaceChars_append (by simp)] at other
      exact absurd (List.mem_append_left _ List.mem_cons_self) other
    | none =>
      rw [replaceChars_cons found] at first other
      obtain ⟨apart, first⟩ := List.ne_and_not_mem_of_not_mem_cons first
      obtain ⟨_, other⟩ := List.ne_and_not_mem_of_not_mem_cons other
      exact List.not_mem_cons_of_ne_of_not_mem apart (ih first other)

theorem replaceFirstChars_append (nonempty : pattern ≠ []) (rest : List Char) :
    replaceFirstChars pattern replacement (pattern ++ rest) = replacement ++ rest := by
  cases pattern with
  | nil => exact absurd rfl nonempty
  | cons wanted more =>
    have found : stripChars? (wanted :: more) (wanted :: (more ++ rest)) = some rest := stripChars?_append (wanted :: more) rest
    rw [List.cons_append, replaceFirstChars, found]

theorem replaceFirstChars_cons (apart : stripChars? pattern (char :: rest) = none) :
    replaceFirstChars pattern replacement (char :: rest) = char :: replaceFirstChars pattern replacement rest := by
  rw [replaceFirstChars, apart]

/-- A text in which the pattern does not occur stays as it is. -/
theorem replaceFirstChars_of_absent (absent : behindChars? pattern text = none) :
    replaceFirstChars pattern replacement text = text := by
  induction text with
  | nil => rfl
  | cons char rest ih =>
    obtain ⟨apart, later⟩ := Option.or_eq_none_iff.mp absent
    rw [replaceFirstChars_cons apart, ih later]

/-- The pattern is looked for no earlier than where its first character is. -/
theorem replaceFirstChars_behind {first : Char} {more before : List Char} (clean : first ∉ before) (rest : List Char) :
    replaceFirstChars (first :: more) replacement (before ++ rest) =
      before ++ replaceFirstChars (first :: more) replacement rest := by
  induction before with
  | nil => rfl
  | cons char others ih =>
    obtain ⟨apart, clean⟩ := List.ne_and_not_mem_of_not_mem_cons clean
    rw [List.cons_append, replaceFirstChars_cons (by rw [stripChars?, if_neg (Ne.symm apart)]), ih clean, List.cons_append]

section Occurrence
variable {word before behind : List Char} {separator : Char}

/-- A word without separators stands on one side of a separator. -/
theorem infix_append_iff (clean : separator ∉ word) :
    word <:+: before ++ separator :: behind ↔ word <:+: before ∨ word <:+: behind := by
  constructor
  · intro inside
    induction before with
    | nil =>
      rcases List.infix_cons_iff.mp inside with start | later
      · cases word with
        | nil => exact Or.inl (List.infix_refl [])
        | cons first others =>
          obtain ⟨more, same⟩ := start
          cases same
          exact absurd List.mem_cons_self clean
      · exact Or.inr later
    | cons first others ih =>
      rcases List.infix_cons_iff.mp inside with start | later
      · have whole : first :: others <+: first :: others ++ separator :: behind := List.prefix_append ..
        rcases List.prefix_or_prefix_of_prefix start whole with shorter | longer
        · exact Or.inl shorter.isInfix
        · obtain ⟨more, rfl⟩ := longer
          have front : more <+: separator :: behind := (List.prefix_append_right_inj _).mp start
          cases more with
          | nil => exact Or.inl (by simp)
          | cons next others =>
            obtain ⟨tail, same⟩ := front
            cases same
            exact absurd (by simp) clean
      · exact (ih later).imp (fun found => found.trans (List.suffix_cons ..).isInfix) id
  · rintro (found | found)
    · exact found.trans (List.prefix_append ..).isInfix
    · exact found.trans ((List.suffix_cons ..).trans (List.suffix_append ..)).isInfix

theorem behindChars?_of_infix (filled : pattern ≠ []) (inside : pattern <:+: text) :
    (behindChars? pattern text).isSome := by
  induction text with
  | nil => exact absurd (List.infix_nil.mp inside) filled
  | cons char rest ih =>
    rw [behindChars?, Option.isSome_or, Bool.or_eq_true]
    rcases List.infix_cons_iff.mp inside with ⟨more, same⟩ | later
    · exact Or.inl (by rw [← same, stripChars?_append]; rfl)
    · exact Or.inr (ih later)

theorem infix_of_behindChars? (found : (behindChars? pattern text).isSome) : pattern <:+: text := by
  induction text with
  | nil => cases found
  | cons char rest ih =>
    rw [behindChars?, Option.isSome_or, Bool.or_eq_true] at found
    rcases found with here | later
    · obtain ⟨behind, stripped⟩ := Option.isSome_iff_exists.mp here
      exact eq_append_of_stripChars? stripped ▸ (List.prefix_append pattern behind).isInfix
    · exact (ih later).trans (List.suffix_cons ..).isInfix

/-- What does not occur is not found with more behind it. -/
theorem behindChars?_append_eq_none {more : List Char} (filled : pattern ≠ []) (absent : behindChars? pattern text = none) :
    behindChars? (pattern ++ more) text = none := by
  cases found : behindChars? (pattern ++ more) text with
  | none => rfl
  | some behind =>
    have inside := infix_of_behindChars? (Option.isSome_iff_exists.mpr ⟨behind, found⟩)
    have shorter := behindChars?_of_infix filled ((List.prefix_append pattern more).isInfix.trans inside)
    rw [absent] at shorter
    cases shorter

theorem occurs_eq_false_iff {pattern text : String} : occurs pattern text = false ↔
    behindChars? pattern.toList text.toList = none := by
  rw [occurs, Option.isSome_eq_false_iff, Option.isNone_iff_eq_none]

theorem replaceFirst_of_absent {pattern replacement text : String} (absent : occurs pattern text = false) :
    replaceFirst pattern replacement text = text := by
  rw [replaceFirst, replaceFirstChars_of_absent (occurs_eq_false_iff.mp absent), String.ofList_toList]

theorem occurs_eq_false_of_not_mem {pattern text : String} {char : Char} (inside : char ∈ pattern.toList)
    (clean : char ∉ text.toList) : occurs pattern text = false := by
  by_contra occurring
  have found : (behindChars? pattern.toList text.toList).isSome := (Bool.not_eq_false _).mp occurring
  exact clean ((infix_of_behindChars? found).subset inside)

theorem infix_of_mem_splitChars {piece : List Char} (member : piece ∈ splitChars separator text) : piece <:+: text := by
  obtain ⟨first, others, same, start, each⟩ := splitChars_cases separator text
  rw [same] at member
  rcases List.mem_cons.mp member with rfl | member
  · exact start.isInfix
  · exact each piece member

theorem replaceFirstChars_cases (pattern replacement text : List Char) :
    replaceFirstChars pattern replacement text = text ∨ ∃ before behind, text = before ++ pattern ++ behind ∧
      replaceFirstChars pattern replacement text = before ++ replacement ++ behind := by
  induction text with
  | nil => exact Or.inl rfl
  | cons char rest ih =>
    cases found : stripChars? pattern (char :: rest) with
    | some behind =>
      refine Or.inr ⟨[], behind, eq_append_of_stripChars? found, ?_⟩
      rw [replaceFirstChars, found]
      rfl
    | none =>
      rw [replaceFirstChars_cons found]
      rcases ih with same | ⟨before, behind, same, replaced⟩
      · exact Or.inl (congrArg (char :: ·) same)
      · exact Or.inr ⟨char :: before, behind, by rw [same]; rfl, by rw [replaced]; rfl⟩

end Occurrence

end Text

namespace Pointer

/-- How a character of a name is written in a pointer. -/
def escapeChar (char : Char) : List Char :=
  if char = '~' then ['~', '0'] else if char = '/' then ['~', '1'] else [char]

theorem escape_eq (name : String) : escape name = String.ofList (name.toList.flatMap escapeChar) := by
  simp only [escape, Text.replace, String.toList_ofList]
  change String.ofList (Text.replaceChars ['/'] ['~', '1'] (Text.replaceChars ['~'] ['~', '0'] name.toList)) = _
  rw [Text.replaceChars_singleton, Text.replaceChars_singleton, List.flatMap_assoc]
  congr 2
  funext char
  unfold escapeChar
  by_cases tilde : char = '~'
  · simp [tilde]
  · by_cases slash : char = '/'
    · simp [slash]
    · simp [tilde, slash]

theorem slash_not_mem_escape (name : String) : '/' ∉ (escape name).toList := by
  rw [escape_eq, String.toList_ofList]
  intro member
  obtain ⟨char, _, inside⟩ := List.mem_flatMap.mp member
  unfold escapeChar at inside
  by_cases tilde : char = '~'
  · simp [tilde] at inside
  · by_cases slash : char = '/'
    · simp [slash] at inside
    · simp [tilde, slash, eq_comm] at inside

theorem unescape_escape (name : String) : unescape (escape name) = name := by
  have first : ∀ text : List Char, Text.replaceChars ['~', '1'] ['/'] (text.flatMap escapeChar) =
      text.flatMap fun char => if char = '~' then ['~', '0'] else [char] := by
    intro text
    induction text with
    | nil => rfl
    | cons char rest ih =>
      rw [List.flatMap_cons, List.flatMap_cons, ← ih, escapeChar]
      by_cases tilde : char = '~'
      · rw [if_pos tilde, if_pos tilde, List.cons_append, List.cons_append, Text.replaceChars_cons (by rfl),
          List.nil_append, Text.replaceChars_cons_of_ne (by decide)]
        rfl
      · rw [if_neg tilde, if_neg tilde]
        by_cases slash : char = '/'
        · rw [if_pos slash, slash]
          exact Text.replaceChars_append (by simp) _
        · rw [if_neg slash, List.singleton_append, Text.replaceChars_cons_of_ne tilde, List.singleton_append]
  have second : ∀ text : List Char, Text.replaceChars ['~', '0'] ['~']
      (text.flatMap fun char => if char = '~' then ['~', '0'] else [char]) = text := by
    intro text
    induction text with
    | nil => rfl
    | cons char rest ih =>
      rw [List.flatMap_cons]
      by_cases tilde : char = '~'
      · rw [if_pos tilde, tilde, Text.replaceChars_append (by simp), ih]
        rfl
      · rw [if_neg tilde, List.singleton_append, Text.replaceChars_cons_of_ne tilde, ih]
  rw [escape_eq]
  simp only [unescape, Text.replace, String.toList_ofList]
  change String.ofList (Text.replaceChars ['~', '0'] ['~'] (Text.replaceChars ['~', '1'] ['/']
    (name.toList.flatMap escapeChar))) = _
  rw [first, second, String.ofList_toList]

theorem ofFragment_slash (rest : String) : ofFragment ("/" ++ rest) = (Text.split '/' rest).map unescape := by
  have nonempty : ("/" ++ rest).isEmpty = false := by simp
  rw [ofFragment, nonempty, Text.strip?_append]
  rfl

/-- A name without special characters is written in one way only. -/
theorem unescape_eq_iff {token name : String} (slash : '/' ∉ name.toList) (tilde : '~' ∉ name.toList) :
    unescape token = name ↔ token = name := by
  have unchanged : ∀ text : String, '~' ∉ text.toList → unescape text = text := by
    intro text clean
    simp only [unescape, Text.replace, String.toList_ofList]
    change String.ofList (Text.replaceChars ['~', '0'] ['~'] (Text.replaceChars ['~', '1'] ['/'] text.toList)) = _
    rw [Text.replaceChars_of_not_mem clean, Text.replaceChars_of_not_mem clean, String.ofList_toList]
  constructor
  · intro same
    have outer : '~' ∉ (Text.replace "~1" "/" token).toList := by
      rw [← same, unescape, Text.replace, String.toList_ofList] at tilde
      exact Text.not_mem_of_replaceChars tilde tilde
    have plain : Text.replace "~1" "/" token = name := by
      rw [← same, unescape]
      change _ = String.ofList (Text.replaceChars ['~', '0'] ['~'] (Text.replace "~1" "/" token).toList)
      rw [Text.replaceChars_of_not_mem outer, String.ofList_toList]
    have inner : '~' ∉ token.toList := by
      rw [← plain, Text.replace, String.toList_ofList] at tilde slash
      exact Text.not_mem_of_replaceChars tilde slash
    rw [← same, unchanged token inner]
  · rintro rfl
    exact unchanged token tilde

end Pointer
end ApiDialect
