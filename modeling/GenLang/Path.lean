/-!
# Paths of files

A path is a text of names with slashes between them; one that begins with a slash is absolute. What
is said here follows from the text alone and looks at no file.
-/

namespace GenLang.Path

def isAbsolute (path : String) : Bool :=
  path.startsWith "/"

/-- Names that say nothing at the end of a path. -/
def isIdle (name : String) : Bool :=
  name.isEmpty || name == "."

/-- Names without the idle ones at the end. -/
def trimNames (names : List String) : List String :=
  (names.reverse.dropWhile isIdle).reverse

/-- The directory that a path lies in: the path without its last name. -/
def parent? (path : String) : Option String :=
  match path.splitOn "/" with
  | [] => none
  | first :: others =>
    let names := trimNames others
    if names.isEmpty then
      if first.isEmpty then none else some ""
    else
      match first, trimNames names.dropLast with
      | "", [] => some "/"
      | first, rest => some ("/".intercalate (first :: rest))

/-- A path seen from a directory. -/
def join (directory path : String) : String :=
  if isAbsolute path || directory.isEmpty then path
  else if directory.endsWith "/" then directory ++ path
  else directory ++ "/" ++ path

end GenLang.Path
