import ApiDialect.Url.Basic
import ApiDialect.Value

/-!
The place of an API. Where one dialect lists servers by URL, the other has a host, a scheme and a
base path, and all three come from the first server.
-/

namespace ApiDialect
namespace Server

structure Location where
  host : Option String
  scheme : Option String
  basePath : Option String
  deriving DecidableEq

def portDigits? (text : List Char) : Option Nat :=
  let digits := match text with
    | '+' :: rest => rest
    | _ => text
  if digits.isEmpty || !digits.all Char.isDigit then none
  else
    let value := digits.foldl (fun total digit => total * 10 + (digit.toNat - '0'.toNat)) 0
    if value < Nat.pow 2 16 then some value else none

def afterLast (separator : Char) (text : List Char) : List Char :=
  (text.reverse.takeWhile (· ≠ separator)).reverse

/-- The port as it is written, which a URL forgets when its scheme implies it. -/
def writtenPort? (serverUrl : String) : Option Nat := do
  let rest ← Text.behindChars? "://".toList serverUrl.toList
  let authority := rest.takeWhile fun char => !(char = '/' || char = '?' || char = '#')
  let place := afterLast '@' authority
  if place.contains ':' then
    let port := afterLast ':' place
    let host := place.take (place.length - port.length - 1)
    if host.head? = some '[' && host.getLast? ≠ some ']' then none else portDigits? port
  else none

def nonEmpty? (text : String) : Option String :=
  if text.isEmpty then none else some text

/-- A text that is no URL is taken for a path. -/
def Location.ofUrl (names : HostNames) (serverUrl : String) : Location :=
  match Url.read? names serverUrl with
  | some url =>
    let port := url.port.or (writtenPort? serverUrl)
    let withPort (host : String) : String :=
      match port with
      | some port => host ++ ":" ++ toString port
      | none => host
    ⟨url.host.map withPort, some url.scheme, nonEmpty? url.path⟩
  | none =>
    let path := serverUrl.toList.takeWhile fun char => !(char = '?' || char = '#')
    ⟨none, none, nonEmpty? (String.ofList path)⟩

def substitute (text : String) (entry : String × Value) : String :=
  match (entry.2.get? "default").bind Value.text? with
  | some value => if value.isEmpty then text else Text.replace ("\x7b" ++ entry.1 ++ "\x7d") value text
  | none => text

/-- The URL of a server with its variables, one after the other, replaced by their defaults. An
empty default replaces nothing. -/
def url? (server : Value) : Option String := do
  let url ← (server.get? "url").bind Value.text?
  match server.get? "variables" with
  | some (.obj defaults) => return defaults.foldl substitute url
  | _ => return url

def first? (servers : Value) : Option Value :=
  servers.items?.bind List.head?

/-- Sets a member that is known and removes one that is not. -/
def setOrErase (document : Members Value) (name : String) (value : Option Value) :
    Members Value :=
  match value with
  | some value => Members.insert document name value
  | none => Members.erase document name

/-- A server without a path leaves the base path as it is. -/
def place (document : Members Value) (location : Location) : Members Value :=
  let document := setOrErase document "host" (location.host.map .str)
  let document := setOrErase document "schemes" (location.scheme.map fun scheme => .arr [.str scheme])
  match location.basePath with
  | some path => Members.insert document "basePath" (.str path)
  | none => document

/-- Replaces the servers of a document, and drops the version of the newer dialect. -/
def rewrite (names : HostNames) (document : Members Value) : Members Value :=
  let document :=
    match (((Members.get? document "servers").bind first?).bind url?).map (Location.ofUrl names) with
    | some location => place document location
    | none => document
  Members.erase (Members.erase document "servers") "openapi"

end Server
end ApiDialect
