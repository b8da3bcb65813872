import GenLang.Library

/-!
# Files

What the commands ask of files, in whatever monad the answers come: reading a file and listing a
directory, each of which may fail for a reason given by the system.
-/

namespace GenLang

/-- Access to files. -/
structure Files (m : Type → Type) where
  /-- The bytes of a file. -/
  read : String → m (Except String (List UInt8))
  /-- What is in a directory. -/
  entries : String → m (Except String (List LibrarySource.DirectoryEntry))

namespace Files

variable {m : Type → Type} [Monad m]

/-- The complaint about bytes that are no text. -/
def invalidText : String :=
  "stream did not contain valid UTF-8"

/-- The text of a file. -/
def readText (files : Files m) (path : String) : m (Except String String) := do
  match ← files.read path with
  | .error cause => return .error cause
  | .ok bytes =>
    match String.fromUTF8? ⟨bytes.toArray⟩ with
    | some text => return .ok text
    | none => return .error invalidText

/-- The bundled libraries and those of a directory, if one is given. -/
def librarySources (files : Files m) (directory : Option String) : m (List LibrarySource) := do
  match directory with
  | none => return [.standard]
  | some path => return [.standard, .ofDirectory path (← files.entries path)]

end Files

end GenLang
