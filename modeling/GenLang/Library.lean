import GenLang.Library.Standard

/-!
# Library sources

A library source lists the libraries it has and gives the bytes of each. A source is what it answers
at one moment: the libraries of a directory, for one, may be others later.
-/

namespace GenLang

/-- Why a source does not give a library. -/
inductive LibraryError where
  /-- A file or directory that cannot be read, and why. -/
  | unreadable (path cause : String)
  | notFound (name : String)
  | invalidUtf8 (name : String)
deriving DecidableEq, Repr, Inhabited

def LibraryError.message : LibraryError → String
  | unreadable path cause => "failed to read " ++ path ++ ": " ++ cause
  | notFound name => "library '" ++ name ++ "' is not available"
  | invalidUtf8 name => "library '" ++ name ++ "' is not valid UTF-8"

/-- The operating system's word for a file that is not there. -/
def noSuchFile : String :=
  "No such file or directory (os error 2)"

/-- What a source of libraries answers. -/
structure LibrarySource where
  /-- Names in the order of compilation. -/
  names : Except LibraryError (List String)
  bytes : String → Except LibraryError (List UInt8)

namespace LibrarySource

/-- A source that lists some names, with the bytes it has. -/
def ofList (libraries : List (String × Option (List UInt8))) : LibrarySource where
  names := .ok (libraries.map (·.1))
  bytes name :=
    match libraries.find? (·.1 == name) with
    | some (_, some bytes) => .ok bytes
    | _ => .error (.notFound name)

/-- The libraries that come with the compiler. -/
def standard : LibrarySource :=
  ofList (StandardLibrary.all.map fun (name, text) => (name, some text.toUTF8.data.toList))

/-- What is in a directory under a name: a file with its bytes, or a directory. -/
abbrev DirectoryEntry := String × Option (List UInt8)

/-- The name of a file without `.gen`; that alone is not a library's file. -/
def libraryName? (file : String) : Option String :=
  match file.toList.reverse with
  | 'n' :: 'e' :: 'g' :: '.' :: rest =>
    if rest.isEmpty then none else some (String.ofList rest.reverse)
  | _ => none

/-- The `.gen` files of a directory, by file name; or why the directory cannot be read. -/
def ofDirectory (path : String) (entries : Except String (List DirectoryEntry)) :
    LibrarySource where
  names := do
    let entries ← entries.mapError (.unreadable path)
    let files := (entries.filter (·.2.isSome)).map (·.1)
    return (files.mergeSort fun a b => !(b < a)).filterMap libraryName?
  bytes name :=
    match (entries.toOption.getD []).find? (·.1 == name ++ ".gen") with
    | some (_, some bytes) => .ok bytes
    | _ => .error (.notFound name)

end LibrarySource

end GenLang
