import GenLang.Files

/-!
# Files in memory

A tree of files given as a list of paths with their bytes; a directory may be listed without bytes,
and is there as well if anything lies in it. It answers as the files of a system do.
-/

namespace GenLang.Files

/-- The names on a path, without `.` and with `..` carried out. -/
def pathNames (path : String) : List String :=
  ((path.splitOn "/").foldl
    (fun names n =>
      if n == "" || n == "." then names else if n == ".." then names.drop 1 else n :: names)
    []).reverse

def notDirectory : String :=
  "Not a directory (os error 20)"

def isDirectory : String :=
  "Is a directory (os error 21)"

/-- What is at a path: a file with its bytes, or a directory. -/
def lookup (tree : List LibrarySource.DirectoryEntry) (path : String) :
    Except String (Option (List UInt8)) :=
  let names := pathNames path
  match tree.find? fun f => pathNames f.1 == names with
  | some (_, some bytes) => if path.endsWith "/" then .error notDirectory else .ok (some bytes)
  | some (_, none) => .ok none
  | none =>
    if path.isEmpty || path.startsWith "/" then .error noSuchFile
    else if names.isEmpty || tree.any (fun f => names.isPrefixOf (pathNames f.1)) then .ok none
    else if tree.any (fun f => f.2.isSome && (pathNames f.1).isPrefixOf names) then
      .error notDirectory
    else .error noSuchFile

/-- The entries of a tree that lie directly in a directory. -/
def children (tree : List LibrarySource.DirectoryEntry) (directory : List String) :
    List LibrarySource.DirectoryEntry :=
  tree.filterMap fun f =>
    match (pathNames f.1).reverse with
    | name :: parents => if parents.reverse == directory then some (name, f.2) else none
    | [] => none

/-- A tree as it is seen from its root. -/
def ofTree (tree : List LibrarySource.DirectoryEntry) : Files Id where
  read path :=
    match lookup tree path with
    | .ok (some bytes) => .ok bytes
    | .ok none => .error isDirectory
    | .error cause => .error cause
  entries path :=
    match lookup tree path with
    | .ok (some _) => .error notDirectory
    | .ok none => .ok (children tree (pathNames path))
    | .error cause => .error cause

end GenLang.Files
