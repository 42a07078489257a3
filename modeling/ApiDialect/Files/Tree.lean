import ApiDialect.Files.Basic
import ApiDialect.Members

/-!
A directory held in memory. Looking up a path follows its names one by one, so that it fails at
the first of them that leads nowhere.
-/

namespace ApiDialect

inductive Tree where
  | file (content : ByteArray)
  | directory (entries : List (String × Tree))
  deriving Inhabited

namespace Tree

def empty : Tree := .directory []

/-- Directories on the way to a file come into being with it. -/
def add (content : ByteArray) : List String → Tree → Tree
  | [], _ => .file content
  | name :: rest, .directory entries =>
    let inner := (Members.get? entries name).getD empty
    .directory (Members.insert entries name (add content rest inner))
  | name :: rest, .file _ => .directory [(name, add content rest empty)]

/-- A place that a path has led to: in the tree, with the directories around it, or above it. -/
private inductive Place where
  | inside (here : Tree) (around : List Tree)
  | above

private def names (path : String) : List String :=
  (Text.split '/' path).filter (!·.isEmpty)

/-- The longest name that a file can have, in bytes. -/
private def nameLimit : Nat := 255

private def pathLimit : Nat := 4096

private def enter (place : Place) (name : String) : Except FileFault Place :=
  match place with
  | .inside (.file _) _ => .error .notDirectory
  | .above =>
    if name = "." ∨ name = ".." then .ok .above
    else if name.utf8ByteSize > nameLimit then .error .nameTooLong
    else .error .notFound
  | .inside (.directory entries) around =>
    if name = "." then .ok place
    else if name = ".." then
      match around with
      | [] => .ok .above
      | outer :: rest => .ok (.inside outer rest)
    else if name.utf8ByteSize > nameLimit then .error .nameTooLong
    else
      match Members.get? entries name with
      | some inner => .ok (.inside inner (.directory entries :: around))
      | none => .error .notFound

/-- Whether a path can be looked up at all. -/
private def check (path : String) : Except FileFault Unit := do
  if path.toList.contains '\x00' then throw .nameWithNul
  if path.isEmpty then throw .notFound
  if path.utf8ByteSize ≥ pathLimit then throw .nameTooLong

/-- Follows names from where the path starts. -/
private def follow (tree : Tree) (path : String) (names : List String) : Except FileFault Place :=
  names.foldlM enter (if path.startsWith "/" then Place.above else .inside tree [])

/-- A path that ends in a separator leads to a directory. -/
private def find (tree : Tree) (path : String) : Except FileFault Place := do
  check path
  let place ← tree.follow path (names path)
  match place with
  | .inside (.file _) _ => if path.endsWith "/" then throw .notDirectory else return place
  | _ => return place

def read (tree : Tree) (path : String) : Except FileFault ByteArray := do
  match (← tree.find path) with
  | .inside (.file content) _ => return content
  | _ => throw .isDirectory

def files (tree : Tree) : Files where
  readText := fun path => do decodeText (← tree.read path)
  exists? := fun path => (tree.find path).toBool

/-- Names from the tree's own directory down, with dots resolved; `none` for a place above it. -/
private def address? (path : String) : Option (List String) :=
  (names path).foldlM (fun done name =>
    if name = "." then some done
    else if name = ".." then (if done.isEmpty then none else some done.dropLast)
    else some (done ++ [name])) []

/-- Replaces a file or puts a new one into a directory that is there already. A path that can only
lead to a directory is not looked up to its end. What is written above the tree leaves the tree as
it is. -/
def write (tree : Tree) (path : String) (content : ByteArray) : Except FileFault Tree := do
  check path
  match (names path).getLast? with
  | none => throw .isDirectory
  | some last =>
    match (← tree.follow path (names path).dropLast) with
    | .inside (.file _) _ => throw .notDirectory
    | parent =>
      if last = "." || last = ".." || path.endsWith "/" then throw .isDirectory
      match enter parent last with
      | .ok (.inside (.file _) _) | .error .notFound =>
        match address? path with
        | some address => return tree.add content address
        | none => return tree
      | .ok _ => throw .isDirectory
      | .error fault => throw fault

end Tree
end ApiDialect
