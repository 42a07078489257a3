import ApiDialect.CommandLine.Arguments
import ApiDialect.Files.Snapshot
import ApiDialect.Reference

/-!
The files that a conversion may look at, so that they can be fetched before it starts: the settings,
the input, and what a document that was fetched refers to.
-/

namespace ApiDialect
namespace CommandLine

private def ownText (name : String) (value : Value) : List String :=
  if name = "$ref" then value.text?.toList else []

private def mapped (name : String) (value : Value) : List String :=
  match value with
  | .obj members => if name = "mapping" then members.filterMap (·.2.text?) else []
  | _ => []

mutual
/-- Every text of a document that can be followed as a reference. -/
def mentioned : Value → List String
  | .arr items => mentionedInItems items
  | .obj members => mentionedInMembers members
  | _ => []
termination_by structural value => value

def mentionedInItems : List Value → List String
  | [] => []
  | item :: rest => mentioned item ++ mentionedInItems rest
termination_by structural items => items

def mentionedInMembers : List (String × Value) → List String
  | [] => []
  | (name, value) :: rest =>
    ownText name value ++ mapped name value ++ mentioned value ++ mentionedInMembers rest
termination_by structural members => members
end

/-- The file that a reference leads to. -/
private def path? (names : HostNames) (directory reference : String) : Option String :=
  let file := ((Text.splitOnce? '#' reference).map Prod.fst).getD reference
  if file.isEmpty || Reference.isRemote names file then none else some (Path.join directory file)

namespace Arguments

private def directory? (arguments : Arguments) : Option String :=
  if arguments.options.text then none else Path.parent? arguments.input

private def own (arguments : Arguments) : List String :=
  arguments.options.config.toList ++ if arguments.options.text then [] else [arguments.input]

private def linked (arguments : Arguments) (snapshot : Snapshot) : List String :=
  match arguments.directory? with
  | none => []
  | some directory =>
    ((snapshot.texts.filterMap parse?).flatMap mentioned).filterMap (path? snapshot.files.hostNames directory)

/-- The paths that are still to be looked at. -/
def demand (arguments : Arguments) (snapshot : Snapshot) : List String :=
  ((arguments.own ++ arguments.linked snapshot).filter fun path =>
    !Members.has snapshot path).eraseDups

end Arguments
end CommandLine
end ApiDialect
