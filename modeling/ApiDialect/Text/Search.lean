/-!
Cutting texts at a character and replacing parts of them. Everything works on the list of
characters, from the left and without overlap.
-/

namespace ApiDialect
namespace Text

/-- The pieces between the separators; there is always at least one. -/
def splitChars (separator : Char) : List Char → List (List Char)
  | [] => [[]]
  | char :: rest =>
    if char = separator then [] :: splitChars separator rest
    else
      match splitChars separator rest with
      | [] => [[char]]
      | piece :: pieces => (char :: piece) :: pieces

def split (separator : Char) (text : String) : List String :=
  (splitChars separator text.toList).map String.ofList

/-- The text before and behind the first separator. -/
def splitOnceChars? (separator : Char) : List Char → Option (List Char × List Char)
  | [] => none
  | char :: rest =>
    if char = separator then some ([], rest)
    else (splitOnceChars? separator rest).map fun (before, behind) => (char :: before, behind)

def splitOnce? (separator : Char) (text : String) : Option (String × String) :=
  (splitOnceChars? separator text.toList).map fun (before, behind) =>
    (String.ofList before, String.ofList behind)

/-- What follows a beginning, when the text has it. -/
def stripChars? : (beginning text : List Char) → Option (List Char)
  | [], text => some text
  | _ :: _, [] => none
  | wanted :: more, char :: rest => if char = wanted then stripChars? more rest else none

def strip? (beginning text : String) : Option String :=
  (stripChars? beginning.toList text.toList).map String.ofList

/-- What follows the first occurrence of a pattern that is not empty. -/
def behindChars? (pattern : List Char) : List Char → Option (List Char)
  | [] => none
  | char :: rest => (stripChars? pattern (char :: rest)).or (behindChars? pattern rest)

/-- Whether a pattern that is not empty occurs. -/
def occurs (pattern text : String) : Bool :=
  (behindChars? pattern.toList text.toList).isSome

def replaceFrom (pattern replacement : List Char) : Nat → List Char → List Char
  | _, [] => []
  | 0, rest => rest
  | fuel + 1, char :: rest =>
    match stripChars? pattern (char :: rest) with
    | some behind => replacement ++ replaceFrom pattern replacement fuel behind
    | none => char :: replaceFrom pattern replacement fuel rest

/-- Replaces every occurrence of a pattern that is not empty. -/
def replaceChars (pattern replacement text : List Char) : List Char :=
  replaceFrom pattern replacement text.length text

def replace (pattern replacement text : String) : String :=
  String.ofList (replaceChars pattern.toList replacement.toList text.toList)

/-- Replaces the first occurrence of a pattern. -/
def replaceFirstChars (pattern replacement : List Char) : List Char → List Char
  | [] => []
  | char :: rest =>
    match stripChars? pattern (char :: rest) with
    | some behind => replacement ++ behind
    | none => char :: replaceFirstChars pattern replacement rest

def replaceFirst (pattern replacement text : String) : String :=
  String.ofList (replaceFirstChars pattern.toList replacement.toList text.toList)

end Text
end ApiDialect
