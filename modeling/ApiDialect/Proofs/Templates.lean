import ApiDialect.Proofs.Texts
import ApiDialect.Proofs.Trees
import ApiDialect.Server

/-! URLs with variables. Variables are replaced one after the other, each over all of the text that those before it have left.
That text stays made of literals and placeholders as long as no brace is put in, so a later variable finds the placeholders that
were written and no others, and the result is that of replacing all of them at once. -/

namespace ApiDialect
namespace Server
open Value

/-- Braces stand around the name of a variable and nowhere else. -/
def Unbraced (text : String) : Prop :=
  '\x7b' ∉ text.toList ∧ '\x7d' ∉ text.toList

/-- A part of a URL with variables. -/
inductive Piece where
  | literal (text : String)
  | placeholder (name : String)
  deriving DecidableEq

namespace Piece

def Clean : Piece → Prop
  | .literal text => Unbraced text
  | .placeholder name => Unbraced name

def spelling : Piece → List Char
  | .literal text => text.toList
  | .placeholder name => '\x7b' :: (name.toList ++ ['\x7d'])

/-- A placeholder gives way to the value of its variable and stays when that has none. -/
def filled (value? : String → Option String) : Piece → Piece
  | .literal text => .literal text
  | .placeholder name =>
    match value? name with
    | some value => .literal value
    | none => .placeholder name

end Piece

def textOf (pieces : List Piece) : String :=
  String.ofList (pieces.flatMap Piece.spelling)

/-- What is put in for a variable. -/
def default? (declared : Value) : Option String :=
  ((declared.get? "default").bind text?).filter fun text => !text.isEmpty

def declarations (server : Value) : Members Value :=
  match server.get? "variables" with
  | some (.obj declared) => declared
  | _ => []

/-- The value of each variable that has one. -/
def values (declared : Members Value) (name : String) : Option String :=
  (Members.get? declared name).bind default?

variable {pieces : List Piece} {piece : Piece} {name other value : String} {text rest : List Char} {declared : Members Value}

/-! ### One variable -/

theorem substitute_eq (text : String) (entry : String × Value) : substitute text entry =
    match default? entry.2 with
    | some value => Text.replace ("\x7b" ++ entry.1 ++ "\x7d") value text
    | none => text := by
  unfold substitute default?
  cases (entry.2.get? "default").bind text? with
  | none => rfl
  | some value => cases empty : value.isEmpty <;> simp [Option.filter, empty]

/-- What a variable is looked for by. -/
def pattern (name : String) : List Char :=
  (Piece.placeholder name).spelling

theorem pattern_ne_nil (name : String) : pattern name ≠ [] :=
  List.cons_ne_nil _ _

theorem toList_braced (name : String) : ("\x7b" ++ name ++ "\x7d").toList = pattern name := by
  simp [pattern, Piece.spelling, String.toList_append]

/-- A text without an opening brace is passed over. -/
theorem replace_behind (clean : '\x7b' ∉ text) (rest : List Char) : Text.replaceChars (pattern name) value.toList (text ++ rest) =
    text ++ Text.replaceChars (pattern name) value.toList rest := by
  induction text with
  | nil => rfl
  | cons char more ih =>
    obtain ⟨apart, clean⟩ := List.ne_and_not_mem_of_not_mem_cons clean
    rw [List.cons_append, pattern, Piece.spelling, Text.replaceChars_cons_of_ne (Ne.symm apart)]
    exact congrArg (char :: ·) (ih clean)

/-- Names without braces are told apart by the brace behind them. -/
theorem stripped_eq (one : '\x7d' ∉ name.toList) (two : '\x7d' ∉ other.toList)
    (found : Text.stripChars? (pattern name) (pattern other ++ rest) = some text) : name = other := by
  have same := Text.eq_append_of_stripChars? found
  simp only [pattern, Piece.spelling, List.cons_append, List.append_assoc, List.cons.injEq, true_and] at same
  have front (word behind : List Char) (clean : '\x7d' ∉ word) : (word ++ '\x7d' :: behind).takeWhile (· ≠ '\x7d') = word := by
    rw [List.takeWhile_append_of_pos]
    · simp
    · intro char member
      apply decide_eq_true
      intro brace
      exact clean (brace ▸ member)
  have cut := congrArg (List.takeWhile (· ≠ '\x7d')) same
  rw [front _ _ two, front _ _ one] at cut
  exact String.toList_inj.mp cut.symm

/-- The placeholder of another variable is passed over. -/
theorem replace_other (one : '\x7d' ∉ name.toList) (two : Unbraced other) (apart : name ≠ other) (rest : List Char) :
    Text.replaceChars (pattern name) value.toList (pattern other ++ rest) =
      pattern other ++ Text.replaceChars (pattern name) value.toList rest := by
  have missed : Text.stripChars? (pattern name) ('\x7b' :: (other.toList ++ ['\x7d'] ++ rest)) = none := by
    cases found : Text.stripChars? (pattern name) ('\x7b' :: (other.toList ++ ['\x7d'] ++ rest)) with
    | none => rfl
    | some behind => exact absurd (stripped_eq one two.2 found) apart
  have clean : '\x7b' ∉ other.toList ++ ['\x7d'] := by simp [two.1]
  calc Text.replaceChars (pattern name) value.toList (pattern other ++ rest)
      = '\x7b' :: Text.replaceChars (pattern name) value.toList (other.toList ++ ['\x7d'] ++ rest) :=
        Text.replaceChars_cons missed
    _ = pattern other ++ Text.replaceChars (pattern name) value.toList rest := by
        rw [replace_behind clean]
        rfl

/-- In a text made of pieces just the placeholders of the variable are replaced. -/
theorem replace_pieces (named : '\x7d' ∉ name.toList) (clean : ∀ piece ∈ pieces, piece.Clean) :
    Text.replaceChars (pattern name) value.toList (pieces.flatMap Piece.spelling) =
      (pieces.map (Piece.filled fun wanted => if wanted = name then some value else none)).flatMap Piece.spelling := by
  induction pieces with
  | nil => rfl
  | cons piece rest ih =>
    obtain ⟨head, clean⟩ := List.forall_mem_cons.mp clean
    rw [List.flatMap_cons, List.map_cons, List.flatMap_cons, ← ih clean]
    cases piece with
    | literal text => exact replace_behind head.1 _
    | placeholder other =>
      by_cases same : other = name
      · simp only [Piece.filled, if_pos same]
        rw [same]
        exact Text.replaceChars_append (pattern_ne_nil name) _
      · simp only [Piece.filled, if_neg same]
        exact replace_other named head (Ne.symm same) _

/-- The value that a single declaration gives. -/
def valueOf (entry : String × Value) (wanted : String) : Option String :=
  if wanted = entry.1 then default? entry.2 else none

theorem filled_none (pieces : List Piece) : pieces.map (Piece.filled fun _ => none) = pieces := by
  apply List.map_id''
  intro piece
  cases piece <;> rfl

theorem substitute_pieces {entry : String × Value} (named : Unbraced entry.1) (clean : ∀ piece ∈ pieces, piece.Clean) :
    substitute (textOf pieces) entry = textOf (pieces.map (Piece.filled (valueOf entry))) := by
  rw [substitute_eq]
  unfold valueOf
  cases default? entry.2 with
  | none =>
    simp only [ite_self]
    rw [filled_none]
  | some value =>
    dsimp only
    rw [Text.replace, toList_braced, textOf, String.toList_ofList, replace_pieces named.2 clean]
    rfl

/-! ### All variables -/

theorem clean_filled {value? : String → Option String} (plain : ∀ name value, value? name = some value → Unbraced value)
    (clean : piece.Clean) : (piece.filled value?).Clean := by
  cases piece with
  | literal text => exact clean
  | placeholder name =>
    cases seen : value? name with
    | none => simpa only [Piece.filled, seen] using clean
    | some value => simpa only [Piece.filled, seen, Piece.Clean] using plain name value seen

/-- A variable and then those behind it give what all of them give. -/
theorem filled_filled {entry : String × Value} {declared : Members Value} (fresh : entry.1 ∉ declared.names) (piece : Piece) :
    (piece.filled (valueOf entry)).filled (values declared) = piece.filled (values (entry :: declared)) := by
  cases piece with
  | literal text => rfl
  | placeholder name =>
    obtain ⟨first, held⟩ := entry
    by_cases same : name = first
    · have absent : values declared name = none := by
        rw [values, same, Members.get?_eq_none_iff.mpr fresh, Option.bind_none]
      have here : values ((first, held) :: declared) name = default? held := by
        rw [values, Members.get?_cons, if_pos same.symm, Option.bind_some]
      simp only [Piece.filled, valueOf, if_pos same, here]
      cases default? held with
      | none => simp only [absent]
      | some value => rfl
    · have behind : values ((first, held) :: declared) name = values declared name := by
        rw [values, Members.get?_cons, if_neg (Ne.symm same), values]
      simp only [Piece.filled, valueOf, if_neg same, behind]

/-- No name and no value brings a brace into the text. -/
def Plain (declared : Members Value) : Prop :=
  ∀ entry ∈ declared, Unbraced entry.1 ∧ ∀ value, (entry.2.get? "default").bind text? = some value → Unbraced value

theorem Plain.unbraced {entry : String × Value} (plain : Plain declared) (member : entry ∈ declared)
    (seen : default? entry.2 = some value) : Unbraced value :=
  (plain entry member).2 value (Option.filter_eq_some_iff.mp seen).1

/-- Step by step, each variable is put in for what the others have left of the text. -/
theorem foldl_substitute (distinct : Members.Distinct declared) (plain : Plain declared)
    (clean : ∀ piece ∈ pieces, piece.Clean) :
    declared.foldl substitute (textOf pieces) = textOf (pieces.map (Piece.filled (values declared))) := by
  -- Replacing a variable leaves pieces without braces again, so the hypothesis is needed for all pieces.
  induction declared generalizing pieces with
  | nil => exact congrArg textOf (filled_none pieces).symm
  | cons entry rest ih =>
    obtain ⟨fresh, others⟩ := Members.distinct_cons_iff.mp distinct
    have later : Plain rest := fun other member => plain other (List.mem_cons_of_mem _ member)
    have put : ∀ name value, valueOf entry name = some value → Unbraced value := by
      intro name value seen
      unfold valueOf at seen
      split at seen
      · exact plain.unbraced List.mem_cons_self seen
      · cases seen
    have stays : ∀ piece ∈ pieces.map (Piece.filled (valueOf entry)), piece.Clean := by
      intro piece member
      obtain ⟨before, inside, rfl⟩ := List.mem_map.mp member
      exact clean_filled put (clean before inside)
    rw [List.foldl_cons, substitute_pieces (plain entry List.mem_cons_self).1 clean, ih others later stays, List.map_map]
    apply congrArg textOf
    apply List.map_congr_left
    intro piece _
    exact filled_filled fresh piece

theorem url?_eq {server : Value} {url : String} (written : server.get? "url" = some (.str url)) :
    url? server = some ((declarations server).foldl substitute url) := by
  unfold url? declarations
  rw [written]
  cases server.get? "variables" with
  | none => rfl
  | some held => cases held <;> rfl

theorem declarations_distinct {server : Value} (formed : server.WellFormed) : Members.Distinct (declarations server) := by
  unfold declarations
  split
  next declared seen => exact (Sound.valueGet? (formed_iff.mpr formed) seen).distinct
  next => exact .nil

/-- Where neither the variables nor their defaults have braces, every placeholder of a variable with a default that is not empty
is replaced by that, all else stays as it is written, and the order of the variables does not matter. -/
theorem url?_simultaneous {server : Value} {pieces : List Piece} (formed : server.WellFormed)
    (written : server.get? "url" = some (.str (textOf pieces))) (clean : ∀ piece ∈ pieces, piece.Clean)
    (plain : Plain (declarations server)) :
    url? server = some (textOf (pieces.map (Piece.filled (values (declarations server))))) ∧
      ∀ other : Value, other.get? "url" = server.get? "url" → (declarations server).Perm (declarations other) →
        url? other = url? server := by
  have distinct := declarations_distinct formed
  have result : url? server = some (textOf (pieces.map (Piece.filled (values (declarations server))))) := by
    rw [url?_eq written, foldl_substitute distinct plain clean]
  refine ⟨result, ?_⟩
  intro other same order
  have reordered : Plain (declarations other) := fun entry member => plain entry (order.mem_iff.mpr member)
  have alike : values (declarations other) = values (declarations server) := by
    funext name
    rw [values, values, distinct.get?_perm order]
  rw [result, url?_eq (same.trans written), foldl_substitute (distinct.perm order) reordered clean, alike]

/-- One variable stands in two places, one has nothing to put in, and one placeholder has no variable. -/
def harbour : Value :=
  .obj [("url", .str "\x7bscheme\x7d://\x7bberth\x7d.example.com:\x7bport\x7d/\x7bberth\x7d/\x7bpier\x7d"),
    ("variables", .obj [("scheme", .obj [("default", .str "https")]), ("berth", .obj [("default", .str "pier")]),
      ("port", .obj [("default", .str "")])])]

def harbourPieces : List Piece :=
  [.placeholder "scheme", .literal "://", .placeholder "berth", .literal ".example.com:", .placeholder "port", .literal "/",
    .placeholder "berth", .literal "/", .placeholder "pier"]

def turnedHarbour : Value :=
  .obj [("variables", .obj [("port", .obj [("default", .str "")]), ("berth", .obj [("default", .str "pier")]),
      ("scheme", .obj [("default", .str "https")])]),
    ("url", .str "\x7bscheme\x7d://\x7bberth\x7d.example.com:\x7bport\x7d/\x7bberth\x7d/\x7bpier\x7d")]

theorem harbour_simultaneous :
    url? harbour = some "https://pier.example.com:\x7bport\x7d/pier/\x7bpier\x7d" ∧ url? turnedHarbour = url? harbour := by
  have clean : ∀ piece ∈ harbourPieces, piece.Clean := by simp [harbourPieces, Piece.Clean, Unbraced]
  have plain : Plain (declarations harbour) := by
    simp [Plain, declarations, harbour, Value.get?, Members.get?, text?, Unbraced]
  obtain ⟨result, orders⟩ := url?_simultaneous (by decide) (by rfl) clean plain
  refine ⟨result.trans (by decide +kernel), orders turnedHarbour (by rfl) ?_⟩
  exact (List.reverse_perm (declarations harbour)).symm

end Server
end ApiDialect
