import ApiDialect.Text.Search

/-!
Paths as texts: they are shown as they were spelled, so joining and taking the parent directory
keep the spelling of what they keep.
-/

namespace ApiDialect
namespace Path

/-- A file name below a directory; an absolute file name replaces the directory. -/
def join (directory file : String) : String :=
  if file.startsWith "/" then file
  else if directory.isEmpty || directory.endsWith "/" then directory ++ file
  else directory ++ "/" ++ file

/-- Separators and single dots at the end of a path, which is kept from the second character on
when it starts with a dot of its own. -/
private def trimReversed : List Char → List Char
  | '/' :: rest => if rest.isEmpty then ['/'] else trimReversed rest
  | '.' :: '/' :: rest => if rest.isEmpty then ['/'] else trimReversed ('/' :: rest)
  | path => path

/-- The path without its last name. The root and the empty path have no parent. -/
def parent? (path : String) : Option String :=
  let trimmed := trimReversed path.toList.reverse
  if trimmed.isEmpty || trimmed = ['/'] then none
  else
    let front := trimmed.dropWhile (· ≠ '/')
    some (String.ofList (trimReversed front).reverse)

end Path
end ApiDialect
