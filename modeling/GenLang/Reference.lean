import GenLang.Compilation
import GenLang.Library

/-!
# Reference libraries

The libraries of all sources, compiled one after the other, each against those before it. A resolver
keeps the set it has once resolved; a failure leaves it as it was.
-/

namespace GenLang

/-- Why the libraries cannot be resolved. -/
inductive ReferenceError where
  | library (error : LibraryError)
  /-- A library that does not compile, with its errors. -/
  | compile (library : String) (errors : List Diagnostic)
  | emit (library : String) (error : EmitError)
  | decode (library : String) (error : DecodeError)
  | cancelled
deriving DecidableEq, Repr, Inhabited

namespace ReferenceError

def message : ReferenceError → String
  | library e => e.message
  | compile name errors =>
    "library '" ++ name ++ "' has " ++ toString errors.length ++ " error(s): " ++
      (match errors with
       | e :: _ => e.render
       | [] => "")
  | emit name e => "library '" ++ name ++ "' could not be emitted: " ++ e.message
  | decode name e => "library '" ++ name ++ "' could not be loaded: " ++ e.message
  | cancelled => Cancelled.message {}

/-- The message and, where there is one, the cause it repeats. -/
def messages (e : ReferenceError) : List String :=
  e.message ::
    match e with
    | library (.unreadable _ cause) => [cause]
    | emit _ e => [e.message]
    | decode _ e => [e.message]
    | _ => []

end ReferenceError

/-- Compiled libraries in the order of their resolution. -/
abbrev References := List Image

namespace References

def names (r : References) : List String :=
  r.map (·.name)

def contains (r : References) (name : String) : Bool :=
  r.any (·.name == name)

/-- The libraries of all sources; of two with one name the first counts. -/
def enumerate : List String → List LibrarySource →
    Except LibraryError (List (LibrarySource × String))
  | _, [] => .ok []
  | seen, source :: rest => do
    let names ← source.names
    let fresh := (names.filter (!seen.contains ·)).eraseDups
    let others ← enumerate (seen ++ fresh) rest
    return fresh.map (source, ·) ++ others

/-- The image of a compiled library, as a reader of its bytes gets it. -/
def readBack (name : String) (c : Compilation) : Except ReferenceError Image := do
  if c.hasErrors then throw (.compile name c.errors)
  let bytes ← c.emit.mapError (.emit name)
  (Image.decode bytes).mapError (.decode name)

/-- Compiles a library against those before it. -/
def compileLibrary (references : References) (name text : String) (patience : Patience) :
    Except ReferenceError (Image × Patience) := do
  let (c, patience) ← (Compilation.create name [⟨name ++ ".gen", text⟩] references
    .referenceLibrary patience).mapError fun _ => .cancelled
  return (← readBack name c, patience)

/-- The text of a library. -/
def fetch (source : LibrarySource) (name : String) : Except LibraryError String := do
  let bytes ← source.bytes name
  match String.fromUTF8? ⟨bytes.toArray⟩ with
  | some text => return text
  | none => throw (.invalidUtf8 name)

/-- Adds libraries to those there are. -/
def extend : References → List (LibrarySource × String) → Patience →
    Except ReferenceError (References × Patience)
  | references, [], patience => .ok (references, patience)
  | references, (source, name) :: rest, patience => do
    let patience ← patience.check.mapError fun _ => .cancelled
    let text ← (fetch source name).mapError .library
    let (image, patience) ← compileLibrary references name text patience
    extend (references ++ [image]) rest patience

/-- All libraries of some sources. -/
def resolve (sources : List LibrarySource) (patience : Patience) :
    Except ReferenceError (References × Patience) := do
  let libraries ← (enumerate [] sources).mapError .library
  extend [] libraries patience

/-- As `resolve`, never cancelled. -/
def resolveToEnd (sources : List LibrarySource) : Except ReferenceError References :=
  (resolve sources none).map (·.1)

/-- The libraries that come with the compiler. -/
def standard : Except ReferenceError References :=
  resolveToEnd [.standard]

end References

/-- Libraries that are resolved at first use. -/
structure Resolver where
  resolved : Option References := none
deriving Inhabited

/-- The set that is there, or the one that the sources give now. -/
def Resolver.get (r : Resolver) (sources : List LibrarySource) (patience : Patience) :
    Except ReferenceError (References × Patience) × Resolver :=
  match r.resolved with
  | some set => (.ok (set, patience), r)
  | none =>
    match References.resolve sources patience with
    | .ok (set, patience) => (.ok (set, patience), ⟨some set⟩)
    | .error e => (.error e, r)

end GenLang
