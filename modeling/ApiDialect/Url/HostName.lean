import ApiDialect.Text.Search
import ApiDialect.Url.Punycode

/-!
Names of hosts. In a URL they are ASCII, and a name in other letters is written in ASCII instead, as IDNA
says. That takes tables of all characters, which grow with every edition of them, so a reader of URLs is
given the answers. It asks only for a name that is not plain. One that is plain has the same answer by
every table: itself, in small letters.
-/

namespace ApiDialect

/-- What a name that is not plain is in ASCII; `none` when it is no name. -/
abbrev HostNames := String → Option String

namespace HostNames

/-- The beginning of a label that stands for one in other letters. -/
def encoded : List Char := "xn--".toList

def isPlain (name : List Char) : Bool :=
  name.all Punycode.isBasic &&
    (Text.splitChars '.' (name.map Char.toLower)).all fun label => !encoded.isPrefixOf label

/-- A name in ASCII. The case of letters does not matter in it. -/
def ascii? (names : HostNames) (name : String) : Option String :=
  if isPlain name.toList then some (String.ofList (name.toList.map Char.toLower)) else names name

/-- The marks that divide a user, a host and a port stand for themselves in every table, and no character
joins them into another one: a name that has one has it in ASCII too, unless it is refused. -/
def KeepsMarks (names : HostNames) : Prop :=
  ∀ name ascii, names name = some ascii → ∀ mark ∈ [':', '@'], mark ∈ name.toList → mark ∈ ascii.toList

theorem KeepsMarks.mem {names : HostNames} (keeps : names.KeepsMarks) {name ascii : String} {mark : Char}
    (divides : mark ∈ [':', '@']) (written : names.ascii? name = some ascii) (member : mark ∈ name.toList) :
    mark ∈ ascii.toList := by
  have caseless : ∀ mark ∈ [':', '@'], mark.toLower = mark := by
    rw [List.forall_mem_cons, List.forall_mem_singleton]
    decide
  unfold ascii? at written
  split at written
  · cases written
    rw [String.toList_ofList, ← caseless mark divides]
    exact List.mem_map_of_mem member
  · exact keeps name ascii written mark divides member

/-- Letters that every table leaves as they are and that no other character joins: small ones of the
Latin, the Greek and the Cyrillic script, kana, ideographs and syllables. -/
def letters : List (Nat × Nat) :=
  [(0xDF, 0xF6), (0xF8, 0xFF), (0x3AC, 0x3CE), (0x430, 0x45F), (0x3041, 0x3096), (0x30A1, 0x30FA),
    (0x4E00, 0x9FFF), (0xAC00, 0xD7A3)]

/-- Capital letters, wide forms of ASCII and full stops, with the characters that every table puts in
their place. -/
def replaced : List (Nat × Nat × Nat) :=
  [(0xC0, 0xD6, 0xE0), (0xD8, 0xDE, 0xF8), (0x391, 0x3A1, 0x3B1), (0x3A3, 0x3A9, 0x3C3),
    (0x400, 0x40F, 0x450), (0x410, 0x42F, 0x430), (0xFF01, 0xFF5E, 0x21), (0x3002, 0x3002, 0x2E),
    (0xFF61, 0xFF61, 0x2E)]

/-- Characters that no one sees. They do not count in any table. -/
def ignored : List Nat :=
  [0xAD, 0x200B, 0x2060, 0xFEFF]

def isLetter (char : Char) : Bool :=
  letters.any fun (first, last) => first ≤ char.toNat && char.toNat ≤ last

def isSettled (char : Char) : Bool :=
  char.isAlphanum || "!\"$&\x27()*+,-.;=_\x60\x7b\x7d~".toList.contains char || isLetter char

/-- What a character stands for; `none` when it does not count. -/
def meant (char : Char) : Option Char :=
  if ignored.contains char.toNat then none
  else
    let within := replaced.find? fun (first, last, _) => first ≤ char.toNat && char.toNat ≤ last
    let other := within.map fun (first, _, start) => Char.ofNat (start + (char.toNat - first))
    some (other.getD char).toLower

private def read? (label : List Char) : Option (List Char) :=
  if encoded.isPrefixOf label then
    (Punycode.decode? (label.drop encoded.length)).filter fun text => text.any isLetter && text.all isSettled
  else some label

private def write (label : List Char) : List Char :=
  if label.all Punycode.isBasic then label else encoded ++ Punycode.encode label

/-- The names in settled characters, in the one writing or the other. -/
def settled : HostNames := fun name =>
  let name := name.toList.filterMap meant
  if name.all isSettled then
    ((Text.splitChars '.' name).mapM read?).map fun labels => String.ofList (['.'].intercalate (labels.map write))
  else none

theorem settled_keepsMarks : settled.KeepsMarks := by
  have themselves : ∀ mark ∈ [':', '@'], meant mark = some mark ∧ isSettled mark = false := by
    rw [List.forall_mem_cons, List.forall_mem_singleton]
    decide
  intro name ascii written mark divides member
  obtain ⟨same, unsettled⟩ := themselves mark divides
  unfold settled at written
  dsimp only at written
  split at written
  next every =>
    have inside : mark ∈ name.toList.filterMap meant := List.mem_filterMap.mpr ⟨mark, member, same⟩
    exact absurd (List.all_eq_true.mp every mark inside) (by rw [unsettled]; exact Bool.false_ne_true)
  next => cases written

end HostNames
end ApiDialect
