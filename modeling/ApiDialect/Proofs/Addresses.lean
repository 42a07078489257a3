import ApiDialect.Proofs.Places
import ApiDialect.Proofs.Texts
import ApiDialect.Reference
import Mathlib.Data.List.Forall2

/-! Every node of a document has an address. The steps that lead to a node are written down one behind the other, and the fragment
that they make leads back to the node. Whatever a fragment leads to is, the other way round, the node at the place that its tokens
name, where one token may name a member or an item and an item has several tokens. -/

namespace ApiDialect

namespace Text
variable {separator : Char} {piece text : List Char} {pieces : List (List Char)}

/-- A text, cut wherever a separator stands. -/
structure Cut (separator : Char) (text : List Char) (pieces : List (List Char)) : Prop where
  filled : pieces ≠ []
  clean : ∀ piece ∈ pieces, separator ∉ piece
  joined : List.intercalate [separator] pieces = text

theorem stripChars?_eq_none {pattern : List Char} (apart : ∀ rest, text ≠ pattern ++ rest) : stripChars? pattern text = none := by
  cases found : stripChars? pattern text with
  | none => rfl
  | some rest => exact absurd (eq_append_of_stripChars? found) (apart rest)

theorem not_mem_of_mem_splitChars (member : piece ∈ splitChars separator text) : separator ∉ piece := by
  induction text generalizing piece with
  | nil =>
    rw [splitChars, List.mem_singleton] at member
    simp [member]
  | cons char rest ih =>
    obtain ⟨first, others, same, _⟩ := splitChars_cases separator rest
    rw [splitChars, same] at member
    rw [same] at ih
    by_cases cut : char = separator
    · rw [if_pos cut] at member
      rcases List.mem_cons.mp member with rfl | member
      · exact List.not_mem_nil
      · exact ih member
    · rw [if_neg cut] at member
      rcases List.mem_cons.mp member with rfl | member
      · exact List.not_mem_cons_of_ne_of_not_mem (Ne.symm cut) (ih List.mem_cons_self)
      · exact ih (List.mem_cons_of_mem _ member)

theorem intercalate_splitChars (separator : Char) (text : List Char) :
    List.intercalate [separator] (splitChars separator text) = text := by
  induction text with
  | nil => rfl
  | cons char rest ih =>
    obtain ⟨first, others, same, _⟩ := splitChars_cases separator rest
    rw [splitChars, same]
    rw [same] at ih
    by_cases cut : char = separator
    · rw [if_pos cut, List.intercalate_cons_cons, ih, cut]
      rfl
    · rw [if_neg cut]
      cases others with
      | nil =>
        rw [List.intercalate_singleton] at ih ⊢
        rw [ih]
      | cons second others =>
        rw [List.intercalate_cons_cons] at ih ⊢
        rw [← ih]
        rfl

theorem splitChars_intercalate (filled : pieces ≠ []) (clean : ∀ piece ∈ pieces, separator ∉ piece) :
    splitChars separator (List.intercalate [separator] pieces) = pieces := by
  induction pieces with
  | nil => exact absurd rfl filled
  | cons first others ih =>
    obtain ⟨here, clean⟩ := List.forall_mem_cons.mp clean
    cases others with
    | nil => rw [List.intercalate_singleton, splitChars_of_not_mem here]
    | cons second others =>
      rw [List.intercalate_cons_cons, List.append_assoc, List.singleton_append, splitChars_append here,
        ih (List.cons_ne_nil _ _) clean]

theorem flatMap_eq_intercalate (filled : pieces ≠ []) (separator : Char) :
    (pieces.flatMap fun piece => separator :: piece) = separator :: List.intercalate [separator] pieces := by
  induction pieces with
  | nil => exact absurd rfl filled
  | cons first others ih =>
    cases others with
    | nil => simp
    | cons second others =>
      rw [List.flatMap_cons, ih (List.cons_ne_nil _ _), List.intercalate_cons_cons]
      simp

/-- There is one way to cut a text, and it is the one that is taken. -/
theorem splitChars_eq_iff : splitChars separator text = pieces ↔ Cut separator text pieces := by
  constructor
  · intro same
    obtain ⟨first, others, filled, _⟩ := splitChars_cases separator text
    refine ⟨?_, ?_, ?_⟩
    · rw [← same, filled]
      exact List.cons_ne_nil _ _
    · intro piece member
      exact not_mem_of_mem_splitChars (same ▸ member)
    · rw [← same, intercalate_splitChars]
  · intro cut
    rw [← cut.joined, splitChars_intercalate cut.filled cut.clean]

end Text

namespace Pointer
variable {text : List Char} {fragment name : String} {tokens : Pointer}

/-- A fragment without the slash that it may begin with. -/
def withoutSlash : List Char → List Char
  | '/' :: rest => rest
  | text => text

/-- What a token stands for, in one pass. -/
def decode : List Char → List Char
  | '~' :: '1' :: rest => '/' :: decode rest
  | '~' :: '0' :: rest => '~' :: decode rest
  | char :: rest => char :: decode rest
  | [] => []

/-- A fragment that is not empty has a token between every two slashes. -/
inductive Spells : List Char → Pointer → Prop where
  | root : Spells [] []
  | steps {fragment : List Char} {pieces : List (List Char)} (filled : fragment ≠ [])
      (cut : Text.Cut '/' (withoutSlash fragment) pieces) :
      Spells fragment (pieces.map fun piece => String.ofList (decode piece))

theorem decode_cons {char : Char} (plain : char ≠ '~') (rest : List Char) : decode (char :: rest) = char :: decode rest := by
  rw [decode]
  · intro _ tilde
    exact absurd tilde plain
  · intro _ tilde
    exact absurd tilde plain

theorem decode_of_not_mem (clean : '~' ∉ text) : decode text = text := by
  induction text with
  | nil => rfl
  | cons char rest ih =>
    obtain ⟨plain, clean⟩ := List.ne_and_not_mem_of_not_mem_cons clean
    rw [decode_cons (Ne.symm plain), ih clean]

theorem decode_escape (text : List Char) : decode (text.flatMap escapeChar) = text := by
  induction text with
  | nil => rfl
  | cons char rest ih =>
    rw [List.flatMap_cons, escapeChar]
    by_cases tilde : char = '~'
    · rw [if_pos tilde, List.cons_append, List.cons_append, List.nil_append, decode, ih, tilde]
    · rw [if_neg tilde]
      by_cases slash : char = '/'
      · rw [if_pos slash, List.cons_append, List.cons_append, List.nil_append, decode, ih, slash]
      · rw [if_neg slash, List.singleton_append, decode_cons tilde, ih]

/-- A slash that is put in makes no text with a tilde before it. -/
theorem head?_replaceChars (text : List Char) (zero : (Text.replaceChars ['~', '1'] ['/'] text).head? = some '0') :
    text.head? = some '0' := by
  cases text with
  | nil => cases zero
  | cons char rest =>
    cases found : Text.stripChars? ['~', '1'] (char :: rest) with
    | some behind =>
      rw [Text.eq_append_of_stripChars? found, Text.replaceChars_append (List.cons_ne_nil _ _)] at zero
      cases zero
    | none => rwa [Text.replaceChars_cons found] at zero

/-- Nothing that the first replacement puts in is touched by the second one. -/
theorem replaceChars_replaceChars (text : List Char) :
    Text.replaceChars ['~', '0'] ['~'] (Text.replaceChars ['~', '1'] ['/'] text) = decode text := by
  fun_induction decode text with
  | case1 rest ih =>
    have first : Text.replaceChars ['~', '1'] ['/'] ('~' :: '1' :: rest) = '/' :: Text.replaceChars ['~', '1'] ['/'] rest :=
      Text.replaceChars_append (List.cons_ne_nil _ _) rest
    rw [first, Text.replaceChars_cons_of_ne (by decide), ih]
  | case2 rest ih =>
    have first : Text.replaceChars ['~', '1'] ['/'] ('~' :: '0' :: rest) = ['~', '0'] ++ Text.replaceChars ['~', '1'] ['/'] rest := by
      rw [Text.replaceChars_cons (by rfl), Text.replaceChars_cons_of_ne (by decide)]
      rfl
    rw [first, Text.replaceChars_append (List.cons_ne_nil _ _), ih]
    rfl
  | case3 char rest one zero ih =>
    have first : Text.stripChars? ['~', '1'] (char :: rest) = none := by
      apply Text.stripChars?_eq_none
      intro more same
      obtain ⟨tilde, digit⟩ := List.cons.inj same
      exact one more tilde digit
    have second : Text.stripChars? ['~', '0'] (char :: Text.replaceChars ['~', '1'] ['/'] rest) = none := by
      apply Text.stripChars?_eq_none
      intro more same
      obtain ⟨tilde, digit⟩ := List.cons.inj same
      obtain ⟨behind, begins⟩ := List.head?_eq_some_iff.mp (head?_replaceChars rest (congrArg List.head? digit))
      exact zero behind tilde begins
    rw [Text.replaceChars_cons first, Text.replaceChars_cons second, ih]
  | case4 => rfl

theorem unescape_eq (token : List Char) : unescape (String.ofList token) = String.ofList (decode token) := by
  simp only [unescape, Text.replace, String.toList_ofList]
  exact congrArg String.ofList (replaceChars_replaceChars token)

theorem withoutSlash_of_ne {char : Char} (other : char ≠ '/') (rest : List Char) : withoutSlash (char :: rest) = char :: rest := by
  unfold withoutSlash
  split
  next same =>
    cases same
    exact absurd rfl other
  next => rfl

theorem strip?_slash (fragment : String) :
    (Text.strip? "/" fragment).getD fragment = String.ofList (withoutSlash fragment.toList) := by
  have pattern : "/".toList = ['/'] := rfl
  rw [Text.strip?, pattern]
  cases seen : fragment.toList with
  | nil => exact String.toList_eq_nil_iff.mp seen
  | cons char rest =>
    by_cases slash : char = '/'
    · rw [slash, Text.stripChars?, if_pos rfl]
      rfl
    · rw [Text.stripChars?, if_neg slash, withoutSlash_of_ne slash, ← seen, String.ofList_toList]
      rfl

theorem ofFragment_of_ne (filled : fragment ≠ "") :
    ofFragment fragment = (Text.splitChars '/' (withoutSlash fragment.toList)).map fun piece => String.ofList (decode piece) := by
  have occupied : ¬ fragment.isEmpty = true := by simpa using filled
  rw [ofFragment, if_neg occupied, strip?_slash, Text.split, String.toList_ofList, List.map_map]
  apply List.map_congr_left
  intro piece _
  exact unescape_eq piece

/-- The steps of a fragment are its tokens. -/
theorem ofFragment_eq_iff : ofFragment fragment = tokens ↔ Spells fragment.toList tokens := by
  constructor
  · intro same
    subst same
    by_cases empty : fragment = ""
    · subst empty
      exact .root
    · have filled : fragment.toList ≠ [] := fun none => empty (String.toList_eq_nil_iff.mp none)
      rw [ofFragment_of_ne empty]
      exact .steps filled (Text.splitChars_eq_iff.mp rfl)
  · intro spells
    generalize seen : fragment.toList = text at spells
    cases spells with
    | root =>
      rw [String.toList_eq_nil_iff.mp seen]
      rfl
    | steps filled cut =>
      have occupied : fragment ≠ "" := by
        intro empty
        apply filled
        rw [← seen, empty]
        rfl
      rw [ofFragment_of_ne occupied, seen, Text.splitChars_eq_iff.mpr cut]

end Pointer

/-! ### Places and the fragments that spell them -/

/-- How a step is written. -/
def Step.spelling : Step → List Char
  | .member name => name.toList.flatMap Pointer.escapeChar
  | .item index => (toString index).toList

/-- What is read of a step that is written. -/
def Step.token (step : Step) : String :=
  String.ofList (Pointer.decode step.spelling)

/-- A token names a member by its name and an item by a numeral. -/
def Step.NamedBy : Step → String → Prop
  | .member name, token => token = name
  | .item index, token => Pointer.Numeral token.toList index ∧ index < UInt64.size

namespace Place

/-- The address of a place inside its document. -/
def fragment (place : Place) : String :=
  String.ofList (place.flatMap fun step => '/' :: step.spelling)

/-- No index is larger than an array can be: 64 bits hold it. -/
def Narrow (place : Place) : Prop :=
  ∀ index, Step.item index ∈ place → index < UInt64.size

end Place

variable {step : Step} {place : Place} {value child node : Value} {token : String} {tokens : Pointer}

theorem Step.spelling_item (index : Nat) : (Step.item index).spelling = Nat.toDigits 10 index := by
  rw [spelling, Nat.toString_eq_repr, Nat.repr_eq_ofList_toDigits, String.toList_ofList]

theorem Step.isDigit_of_mem {index : Nat} {char : Char} (member : char ∈ (Step.item index).spelling) : char.isDigit = true := by
  rw [spelling_item] at member
  exact Nat.isDigit_of_mem_toDigits (by omega) (by omega) member

theorem Step.slash_not_mem_spelling (step : Step) : '/' ∉ step.spelling := by
  cases step with
  | member name =>
    have clean := Pointer.slash_not_mem_escape name
    rwa [Pointer.escape_eq, String.toList_ofList] at clean
  | item index =>
    intro member
    exact absurd (isDigit_of_mem member) (by decide)

/-- A step is found again by the token that it leaves. -/
theorem Step.namedBy_token (narrow : ∀ index, step = .item index → index < UInt64.size) : step.NamedBy step.token := by
  cases step with
  | member name =>
    change String.ofList (Pointer.decode (name.toList.flatMap Pointer.escapeChar)) = name
    rw [Pointer.decode_escape, String.ofList_toList]
  | item index =>
    have clean : '~' ∉ (Step.item index).spelling := fun member => absurd (isDigit_of_mem member) (by decide)
    have digits : (Step.item index).token.toList = Nat.toDigits 10 index := by
      rw [token, Pointer.decode_of_not_mem clean, String.toList_ofList, spelling_item]
    refine ⟨⟨Nat.toDigits 10 index, Nat.toDigits_ne_nil, ?_, Nat.ofDigitChars_ten_toDigits, Or.inl digits⟩, narrow index rfl⟩
    intro digit member
    exact Nat.isDigit_of_mem_toDigits (by omega) (by omega) member

theorem Place.spells_fragment (place : Place) : Pointer.Spells place.fragment.toList (place.map Step.token) := by
  cases place with
  | nil => exact .root
  | cons step rest =>
    have filled : (step :: rest).map Step.spelling ≠ [] := List.cons_ne_nil _ _
    have pieces : (Place.fragment (step :: rest)).toList =
        '/' :: List.intercalate ['/'] ((step :: rest).map Step.spelling) := by
      rw [← Text.flatMap_eq_intercalate filled, List.flatMap_map, fragment, String.toList_ofList]
    rw [pieces]
    have tokens : (step :: rest).map Step.token =
        ((step :: rest).map Step.spelling).map fun piece => String.ofList (Pointer.decode piece) := by
      rw [List.map_map]
      rfl
    rw [tokens]
    refine .steps (List.cons_ne_nil _ _) ⟨filled, ?_, rfl⟩
    intro piece member
    obtain ⟨step, _, rfl⟩ := List.mem_map.mp member
    exact step.slash_not_mem_spelling

theorem Place.namedBy_tokens (narrow : place.Narrow) : List.Forall₂ Step.NamedBy place (place.map Step.token) := by
  rw [List.forall₂_map_right_iff, List.forall₂_same]
  intro step member
  apply step.namedBy_token
  intro index same
  exact narrow index (same ▸ member)

namespace Value

/-- A token leads where the step leads that it names. -/
theorem child?_eq_some_iff : value.child? token = some child ↔ ∃ step : Step, step.NamedBy token ∧ value.childAt? step = some child := by
  constructor
  · intro seen
    cases value with
    | obj members => exact ⟨.member token, rfl, seen⟩
    | arr items =>
      obtain ⟨index, read, found⟩ := Option.bind_eq_some_iff.mp seen
      exact ⟨.item index, Pointer.index?_eq_some_iff.mp read, found⟩
    | _ => cases seen
  · intro ⟨step, named, seen⟩
    cases value with
    | obj members =>
      cases step with
      | member name => exact named ▸ seen
      | item index => cases seen
    | arr items =>
      cases step with
      | member name => cases seen
      | item index => exact Option.bind_eq_some_iff.mpr ⟨index, Pointer.index?_eq_some_iff.mpr named, seen⟩
    | _ => cases seen

/-- The induction is on the tokens, each of which is a step. -/
theorem walk?_eq_some_iff : value.walk? tokens = some node ↔
    ∃ place, List.Forall₂ Step.NamedBy place tokens ∧ value.at? place = some node := by
  induction tokens generalizing value with
  | nil =>
    constructor
    · intro here
      exact ⟨[], .nil, here⟩
    · intro ⟨place, named, here⟩
      cases named
      exact here
  | cons token rest ih =>
    constructor
    · intro leads
      obtain ⟨child, seen, leads⟩ := Option.bind_eq_some_iff.mp leads
      obtain ⟨step, named, taken⟩ := child?_eq_some_iff.mp seen
      obtain ⟨place, others, reached⟩ := ih.mp leads
      exact ⟨step :: place, .cons named others, Option.bind_eq_some_iff.mpr ⟨child, taken, reached⟩⟩
    · intro ⟨place, named, reached⟩
      cases named with
      | cons named others =>
        obtain ⟨child, taken, reached⟩ := Option.bind_eq_some_iff.mp reached
        have seen := child?_eq_some_iff.mpr ⟨_, named, taken⟩
        exact Option.bind_eq_some_iff.mpr ⟨child, seen, ih.mpr ⟨_, others, reached⟩⟩

end Value

namespace Resolver

/-- Every node is found under the address of its place, and whatever a fragment leads to is the node at the place that its tokens
name. -/
theorem follow_addresses (resolver : Resolver) (root : Value) :
    (∀ (place : Place) (node : Value), place.Narrow → root.at? place = some node →
      resolver.follow root ("#" ++ place.fragment) = .ok node) ∧
    ∀ (fragment : String) (node : Value), resolver.follow root ("#" ++ fragment) = .ok node ↔
      ∃ tokens place, Pointer.Spells fragment.toList tokens ∧ List.Forall₂ Step.NamedBy place tokens ∧
        root.at? place = some node := by
  have leads (fragment : String) (node : Value) : resolver.follow root ("#" ++ fragment) = .ok node ↔
      ∃ tokens place, Pointer.Spells fragment.toList tokens ∧ List.Forall₂ Step.NamedBy place tokens ∧
        root.at? place = some node := by
    rw [follow, Text.strip?_append]
    dsimp only
    rw [walk_eq_ok, Value.walk?_eq_some_iff]
    constructor
    · intro ⟨place, named, reached⟩
      exact ⟨_, place, Pointer.ofFragment_eq_iff.mp rfl, named, reached⟩
    · intro ⟨tokens, place, spells, named, reached⟩
      rw [Pointer.ofFragment_eq_iff.mpr spells]
      exact ⟨place, named, reached⟩
  refine ⟨?_, leads⟩
  intro place node narrow reached
  apply (leads place.fragment node).mpr
  exact ⟨_, place, place.spells_fragment, place.namedBy_tokens narrow, reached⟩

/-- One drawer has no name, and one name is written with both special characters. -/
def cabinet : Value :=
  .obj [("", .arr [.null, .obj [("~1/", .str "deed")]])]

def drawer : Place :=
  [.member "", .item 1, .member "~1/"]

theorem cabinet_addresses : cabinet.at? drawer = some (.str "deed") ∧ drawer.fragment = "//1/~01~1" ∧
    follow ⟨none, Files.none⟩ cabinet ("#" ++ drawer.fragment) = .ok (.str "deed") := by
  have narrow : drawer.Narrow := by
    intro index member
    simp only [drawer, List.mem_cons, List.not_mem_nil, Step.item.injEq, reduceCtorEq, or_false, false_or] at member
    rw [member]
    decide
  have reached : cabinet.at? drawer = some (.str "deed") := by rfl
  refine ⟨reached, by decide +kernel, ?_⟩
  exact (follow_addresses ⟨none, Files.none⟩ cabinet).1 drawer _ narrow reached

end Resolver

end ApiDialect
