import ApiDialect.Url.Address
import ApiDialect.Url.HostName
import ApiDialect.Url.Percent

/-!
Absolute URLs as browsers read them. Reading repairs spellings rather than rejecting them, so the
parts of a URL may differ from the text they were written as.
-/

namespace ApiDialect

/-- The parts of a URL that say where something is. A port that the scheme implies is left out. -/
structure Url where
  scheme : String
  host : Option String
  port : Option Nat
  path : String
  deriving DecidableEq, Repr

namespace Url

inductive Kind where
  /-- Schemes whose URLs always have a host. -/
  | web
  | file
  | other
  deriving DecidableEq

def Kind.ofScheme (scheme : String) : Kind :=
  if scheme ∈ ["http", "https", "ws", "wss", "ftp"] then .web
  else if scheme = "file" then .file
  else .other

def defaultPort? (scheme : String) : Option Nat :=
  match scheme with
  | "http" | "ws" => some 80
  | "https" | "wss" => some 443
  | "ftp" => some 21
  | _ => none

/-- A backslash separates like a slash in the schemes that are known. -/
def Kind.isSeparator (kind : Kind) (char : Char) : Bool :=
  char = '/' || (char = '\\' && kind ≠ .other)

def isTail (char : Char) : Bool :=
  char = '?' || char = '#'

/-- Where the authority ends. -/
def Kind.endsAuthority (kind : Kind) (char : Char) : Bool :=
  kind.isSeparator char || isTail char

def isBreak (char : Char) : Bool :=
  char = '\t' || char = '\n' || char = '\r'

/-- Tabs and breaks inside a URL do not count. -/
def withoutBreaks (text : List Char) : List Char :=
  text.filter fun char => !isBreak char

/-- Blanks and controls around a URL do not count either. -/
def trim (text : List Char) : List Char :=
  ((text.dropWhile (· ≤ ' ')).reverse.dropWhile (· ≤ ' ')).reverse

def isSchemeChar (char : Char) : Bool :=
  char.isAlphanum || char = '+' || char = '-' || char = '.'

/-- The scheme in lower case and what follows the colon. -/
def splitScheme? (text : List Char) : Option (String × List Char) :=
  match text with
  | first :: _ =>
    if first.isAlpha then
      match text.span isSchemeChar with
      | (scheme, ':' :: rest) => some (String.ofList (scheme.map Char.toLower), rest)
      | _ => none
    else none
  | [] => none

/-- Characters that no name of a host has. -/
def isForbidden (char : Char) : Bool :=
  "\x00\t\n\r #/:<>?@[\\]^|".toList.contains char

def isForbiddenDomain (char : Char) : Bool :=
  isForbidden char || char < ' ' || char = '%' || char = '\x7f'

def bracketed? (text : List Char) : Option String :=
  match text.reverse with
  | ']' :: inner => (Address.wide? (inner.reverse.drop 1)).map fun pieces =>
      "[" ++ Address.showWide pieces ++ "]"
  | _ => none

/-- A domain name as it is meant. -/
def decoded? (text : List Char) : Option String :=
  String.fromUTF8? ⟨(Percent.decode text).toArray⟩

/-- A name in ASCII that ends in a number is an address. -/
def asciiHost? (name : String) : Option String :=
  if name.isEmpty || name.toList.any isForbiddenDomain then none
  else if Address.endsInNumber name.toList then (Address.bytes? name.toList).map Address.showBytes
  else some name

/-- A domain name is decoded and put in ASCII before it is looked through. -/
def domain? (names : HostNames) (text : List Char) : Option String := do
  let name ← decoded? text
  let ascii ← names.ascii? name
  asciiHost? ascii

/-- The host of a scheme that is not known is kept as it is. -/
def plainHost? (text : List Char) : Option String :=
  if text.any isForbidden then none
  else some (String.ofList (Percent.encode Percent.isControl text))

def host? (names : HostNames) (kind : Kind) (text : List Char) : Option String :=
  if text.head? = some '[' then bracketed? text
  else if kind = .other then plainHost? text
  else domain? names text

/-- A letter with a mark behind it names a drive. -/
def isDrive (segment : List Char) : Bool :=
  match segment with
  | [letter, mark] => letter.isAlpha && (mark = ':' || mark = '|')
  | _ => false

/-- Behind a drive a backslash may follow, which is a character like any other in the schemes that
are not known. -/
private def beginsWithDrive (segment : List Char) : Bool :=
  isDrive (segment.take 2) && (segment.drop 2).head?.all (· = '\\')

private def isDouble (segment : List Char) : Bool :=
  String.ofList (segment.map Char.toLower) ∈ ["..", "%2e.", ".%2e", "%2e%2e"]

private def isSingle (segment : List Char) : Bool :=
  String.ofList (segment.map Char.toLower) ∈ [".", "%2e"]

/-- Segments up to the tail of a URL. -/
def splitPath (kind : Kind) : List Char → List (List Char)
  | [] => [[]]
  | char :: rest =>
    if isTail char then [[]]
    else if kind.isSeparator char then [] :: splitPath kind rest
    else
      match splitPath kind rest with
      | [] => [[char]]
      | segment :: segments => (char :: segment) :: segments

/-- The segments that a path has so far. `onDrive` says that its first segment was a drive. -/
structure Segments where
  list : List (List Char)
  onDrive : Bool

namespace Segments

def empty : Segments := ⟨[], false⟩

/-- A double dot leaves the segment before it out, unless that begins with a drive. -/
private def drop (done : Segments) : Segments :=
  if done.list.getLast?.any beginsWithDrive then done
  else { done with list := done.list.dropLast }

/-- Tabs and breaks behind the colon of a drive cut the drive off from the text that follows. -/
private def cutDrive? (segment : List Char) : Option (List Char × List Char) :=
  match segment.dropWhile isBreak with
  | letter :: rest =>
    match rest.dropWhile isBreak with
    | ':' :: rest =>
      let behind := withoutBreaks rest
      if letter.isAlpha && rest.head?.any isBreak && !behind.isEmpty then
        some ([letter, ':'], behind)
      else none
    | _ => none
  | [] => none

private def encode (segment : List Char) : List Char :=
  Percent.encode Percent.inPath (withoutBreaks segment)

/-- Appends a segment. The path of a file can begin with a drive, whose mark is a colon from then
on. -/
private def add (kind : Kind) (done : Segments) (segment : List Char) : Segments :=
  let text := encode segment
  if kind = .file && done.list.isEmpty then
    match cutDrive? segment with
    | some (drive, behind) => { done with list := [drive, encode behind] }
    | none => if isDrive text then ⟨[text.take 1 ++ [':']], true⟩ else { done with list := [text] }
  else { done with list := done.list ++ [text] }

/-- Resolves dots; dots at the end leave an empty segment. -/
private def addAll (kind : Kind) (done : Segments) : List (List Char) → Segments
  | [] => done
  | segment :: rest =>
    let close (done : Segments) : Segments :=
      if rest.isEmpty then { done with list := done.list ++ [[]] } else done
    let text := withoutBreaks segment
    if isDouble text then addAll kind (close done.drop) rest
    else if isSingle text then addAll kind (close done) rest
    else addAll kind (done.add kind segment) rest

/-- The segments of a text up to the tail of the URL. -/
def ofText (kind : Kind) (text : List Char) : Segments :=
  addAll kind empty (splitPath kind text)

end Segments

private def joinSegments (segments : List (List Char)) : String :=
  "/" ++ String.intercalate "/" (segments.map String.ofList)

private def pathOf (kind : Kind) (text : List Char) : String :=
  joinSegments (Segments.ofText kind text).list

/-- The path of a URL with an authority. Only schemes that are not known have an empty one. -/
private def absolutePath (kind : Kind) (text : List Char) : String :=
  match text with
  | [] => if kind = .other then "" else "/"
  | char :: rest =>
    if kind = .other && isTail char then ""
    else if kind.isSeparator char then pathOf kind rest
    else pathOf kind text

/-- The path of a URL that is not hierarchical. -/
private def flatPath (text : List Char) : String :=
  String.ofList (Percent.encode Percent.isControl (text.takeWhile fun char => !isTail char))

def portNumber? (digits : List Char) : Option (Option Nat) :=
  if digits.isEmpty then some none
  else
    let value := digits.foldl (fun total digit => total * 10 + (digit.toNat - '0'.toNat)) 0
    if value < Nat.pow 2 16 then some (some value) else none

/-- What follows the host: perhaps a port, which must end where a path or a tail begins. -/
def port? (text : List Char) : Option (Option Nat × List Char) :=
  match text with
  | ':' :: rest =>
    let (digits, rest) := rest.span Char.isDigit
    if rest.head?.any fun char => !(char = '/' || char = '\\' || isTail char) then none
    else (portNumber? digits).map fun port => (port, rest)
  | _ => some (none, text)

/-- The host ends at a colon that stands outside of brackets. -/
def spanHost (inside : Bool) : List Char → List Char × List Char
  | [] => ([], [])
  | char :: rest =>
    if char = ':' && !inside then ([], char :: rest)
    else
      let inside := char = '[' || (inside && char ≠ ']')
      let (host, rest) := spanHost inside rest
      (char :: host, rest)

/-- User information and host, divided at the last at sign. -/
def splitUser (authority : List Char) : Option (List Char) × List Char :=
  let behind := (authority.reverse.takeWhile (· ≠ '@')).reverse
  if behind.length = authority.length then (none, authority)
  else (some (authority.take (authority.length - behind.length - 1)), behind)

/-- A lone colon is no user. -/
def hasUser (user : Option (List Char)) : Bool :=
  user.any fun text => !(text.isEmpty || text = [':'])

/-- A URL behind the two slashes of its authority. -/
def withAuthority? (names : HostNames) (kind : Kind) (scheme : String) (text : List Char) : Option Url := do
  let (authority, tail) := text.span fun char => !kind.endsAuthority char
  let (user, place) := splitUser authority
  let (hostText, behind) := spanHost false place
  if hostText.isEmpty then
    if kind ≠ .other || hasUser user || !behind.isEmpty || (user = some [] && (tail ≠ [])) then none
    else return ⟨scheme, none, none, absolutePath kind tail⟩
  else
    let host ← host? names kind hostText
    let (port, rest) ← port? (behind ++ tail)
    let port := if port = defaultPort? scheme then none else port
    return ⟨scheme, some host, port, absolutePath kind rest⟩

/-- Of the segments of a file's path, empty ones at the start do not count. -/
private def filePath (segments : List (List Char)) : String :=
  joinSegments (segments.dropWhile List.isEmpty)

/-- What follows a separator, when the text begins with one. -/
def behindSeparator? (text : List Char) : Option (List Char) :=
  match text.dropWhile isBreak with
  | char :: rest => if Kind.file.isSeparator char then some rest else none
  | [] => none

def onThisMachine (text : List Char) : Url :=
  ⟨"file", none, none, filePath (Segments.ofText .file text).list⟩

/-- A file on another machine, unless its path begins with a drive. -/
def onHost (host : String) (text : List Char) : Url :=
  let segments := Segments.ofText .file ((behindSeparator? text).getD text)
  ⟨"file", if segments.onDrive then none else some host, none, filePath segments.list⟩

/-- A URL of a file, with its tabs and breaks. The local host is no host, and neither is a drive in
its place. -/
def file? (names : HostNames) (text : List Char) : Option Url :=
  match behindSeparator? text with
  | none => some (onThisMachine text)
  | some rest =>
    match behindSeparator? rest with
    | none => some (onThisMachine rest)
    | some rest =>
      let (hostText, tail) := rest.span fun char => !Kind.file.endsAuthority char
      let hostText := withoutBreaks hostText
      if hostText.isEmpty || isDrive hostText then some (onThisMachine rest)
      else
        (host? names .file hostText).map fun host =>
          if host = "localhost" then onThisMachine tail else onHost host tail

/-- A URL of a scheme that is not known. -/
def other? (names : HostNames) (scheme : String) (text : List Char) : Option Url :=
  match text with
  | '/' :: '/' :: rest => withAuthority? names .other scheme rest
  | '/' :: rest => some ⟨scheme, none, none, pathOf .other rest⟩
  | _ => some ⟨scheme, none, none, flatPath text⟩

/-- A path is empty or begins at the root. -/
def Rooted (path : String) : Prop :=
  path = "" ∨ ∃ rest, path = "/" ++ rest

private theorem rooted_joinSegments (segments : List (List Char)) : Rooted (joinSegments segments) :=
  .inr ⟨_, rfl⟩

private theorem rooted_absolutePath (kind : Kind) (text : List Char) : Rooted (absolutePath kind text) := by
  unfold absolutePath
  split
  · split
    · exact .inl rfl
    · exact .inr ⟨"", rfl⟩
  · split
    · exact .inl rfl
    · split
      · exact rooted_joinSegments _
      · exact rooted_joinSegments _

/-- Behind an authority a path does not go on without a slash. -/
theorem rooted_of_withAuthority? {names : HostNames} {kind : Kind} {scheme : String} {text : List Char} {url : Url}
    (read : withAuthority? names kind scheme text = some url) : Rooted url.path := by
  simp only [withAuthority?] at read
  split at read
  · split at read
    · cases read
    · cases read
      exact rooted_absolutePath _ _
  · simp only [Option.bind_eq_bind, Option.bind_eq_some_iff] at read
    obtain ⟨host, _, ⟨port, rest⟩, _, made⟩ := read
    cases made
    exact rooted_absolutePath _ _

theorem rooted_of_file? {names : HostNames} {text : List Char} {url : Url} (read : file? names text = some url) :
    Rooted url.path := by
  have here (text : List Char) : Rooted (onThisMachine text).path := rooted_joinSegments _
  simp only [file?] at read
  split at read
  · cases read
    exact here _
  · split at read
    · cases read
      exact here _
    · split at read
      · cases read
        exact here _
      · obtain ⟨host, _, rfl⟩ := Option.map_eq_some_iff.mp read
        split
        · exact here _
        · exact rooted_joinSegments _

/-- Reads a URL that names its scheme; `none` when it is relative or cannot be repaired. -/
def read? (names : HostNames) (text : String) : Option Url := do
  let text := trim text.toList
  let (scheme, rest) ← splitScheme? (withoutBreaks text)
  match Kind.ofScheme scheme with
  | .web => withAuthority? names .web scheme (rest.dropWhile Kind.web.isSeparator)
  | .file => file? names ((text.dropWhile (· ≠ ':')).drop 1)
  | .other => other? names scheme rest

end Url
end ApiDialect
