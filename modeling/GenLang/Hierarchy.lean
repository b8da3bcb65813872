import GenLang.Compilation

/-!
# The class hierarchy of a loaded module

A module is loaded together with the libraries it was compiled against. Classes are found by
module and name, members in a class and then in its base classes; references in a module are read
from that module.
-/

namespace GenLang

/-- A loaded class, by its module and its place there. -/
structure ClassId where
  module : Nat
  index : Nat
deriving DecidableEq, Repr, Inhabited

/-- Why a module is not loaded. -/
inductive LoadError where
  | decode (error : DecodeError)
  | missingLibrary (module library : String)
deriving DecidableEq, Repr, Inhabited

def LoadError.message : LoadError → String
  | decode e => e.message
  | missingLibrary module library =>
    "module '" ++ module ++ "' references library '" ++ library ++ "' which is not loaded"

/-- Libraries by number, and the module that is run behind them. -/
structure Hierarchy where
  libraries : List Image
  main : Image
deriving Inhabited

namespace Hierarchy

/-- A module with the libraries there are, if they are those it needs. -/
def load (image : Image) (libraries : List Image) : Except LoadError Hierarchy :=
  match image.references.find? fun r => !libraries.any (·.name == r) with
  | some library => .error (.missingLibrary image.name library)
  | none => .ok ⟨libraries, image⟩

def loadBytes (bytes : List UInt8) (libraries : List Image) : Except LoadError Hierarchy := do
  let image ← (Image.decode bytes).mapError .decode
  load image libraries

def mainIndex (h : Hierarchy) : Nat :=
  h.libraries.length

def module (h : Hierarchy) (index : Nat) : Image :=
  h.libraries.getD index h.main

/-- The definition of a class. -/
def typeDef (h : Hierarchy) (c : ClassId) : TypeDef :=
  (h.module c.module).types.getD c.index default

/-- The class of a name in a module. -/
def findIn? (h : Hierarchy) (module : Nat) (name : String) : Option ClassId :=
  ((h.module module).types.findIdx? (·.name == name)).map (⟨module, ·⟩)

/-- A class of the module that is run. -/
def findClass? (h : Hierarchy) (name : String) : Option ClassId :=
  h.findIn? h.mainIndex name

/-- The place of a library. If there are several of its name the last counts. -/
def libraryIndex? (h : Hierarchy) (library : String) : Option Nat :=
  (List.range h.libraries.length).reverse.find? fun i => (h.module i).name == library

def findLibraryClass? (h : Hierarchy) (library name : String) : Option ClassId :=
  (h.libraryIndex? library).bind (h.findIn? · name)

/-- The class a reference stands for in a module. -/
def resolve? (h : Hierarchy) (module : Nat) (type : TypeRef) : Option ClassId :=
  match type.library with
  | some library => h.findLibraryClass? library type.name
  | none => h.findIn? module type.name

/-- Classes of the module that is run. -/
def classes (h : Hierarchy) : List ClassId :=
  (List.range h.main.types.length).map (⟨h.mainIndex, ·⟩)

/-- Number of classes of all modules. -/
def classCount (h : Hierarchy) : Nat :=
  ((h.libraries ++ [h.main]).flatMap (·.types)).length

def base? (h : Hierarchy) (c : ClassId) : Option ClassId :=
  (h.typeDef c).base.bind (h.resolve? c.module)

/-- A class and its base classes, the nearest first. -/
def ancestors (h : Hierarchy) (c : ClassId) : List ClassId :=
  Graph.chain h.base? (h.classCount + 1) [] (some c)

def isSubclassOf (h : Hierarchy) (c base : ClassId) : Bool :=
  (h.ancestors c).contains base

/-- The base class and the capabilities that a class names. -/
def supers (h : Hierarchy) (c : ClassId) : List ClassId :=
  ((h.typeDef c).base.toList ++ (h.typeDef c).capabilities).filterMap (h.resolve? c.module)

/-- Bound for work lists: a class is expanded once. -/
def edgeBound (h : Hierarchy) : Nat :=
  (((h.libraries ++ [h.main]).flatMap (·.types)).flatMap
    fun t => t.base.toList ++ t.capabilities).length + 2

/-- Whether a class is, inherits or has a class or capability. -/
def implements (h : Hierarchy) (c capability : ClassId) : Bool :=
  (Graph.visit h.supers h.edgeBound [c] []).contains capability

/-- A method of a class or of its base classes, with the class that declares it. -/
def findMethod? (h : Hierarchy) (c : ClassId) (name : String) : Option (ClassId × MethodDef) :=
  (h.ancestors c).findSome? fun owner => ((h.typeDef owner).findMethod? name).map (owner, ·)

/-- The class that declares a static field for a class. -/
def staticOwner? (h : Hierarchy) (c : ClassId) (name : String) : Option ClassId :=
  (h.ancestors c).find? fun owner => ((h.typeDef owner).findField? name).any (·.isStatic)

/-- The class of exceptions, where there is one. -/
def exceptionClass? (h : Hierarchy) : Option ClassId :=
  h.findLibraryClass? "System" "Exception"

end Hierarchy

end GenLang
