import GenLang.Syntax.Tree

/-!
# Module images

What a compilation produces: the libraries it was compiled against and, for every type, its fields
and methods with their bodies. Names in bodies are resolved: locals are slots, static accesses carry
the type that declares them, and only the members of a value are left to be found at run time.
-/

namespace GenLang

inductive OutputKind where
  | library
  | executable
deriving DecidableEq, Repr, Inhabited

/-- A type, by the library that declares it (`none`: the module itself) and its name. -/
structure TypeRef where
  library : Option String
  name : String
deriving DecidableEq, Repr, Inhabited

inductive ClassKind where
  | class_
  | capability
deriving DecidableEq, Repr, Inhabited

/-- How the result of a method is used: not at all, awaited, or as a value. -/
inductive ReturnShape where
  | void
  | awaitable
  | value
deriving DecidableEq, Repr, Inhabited

namespace Image

inductive Expr where
  | const (value : Literal)
  | slot (slot : Nat)
  | self
  | type (type : TypeRef)
  | list (items : List Expr)
  | new (type : TypeRef) (args : List Expr)
  /-- A member of a value, found at run time. -/
  | field (target : Expr) (name : String)
  | staticField (owner : TypeRef) (name : String)
  /-- A method of a value, found at run time. -/
  | call (target : Expr) (method : String) (args : List Expr)
  | staticCall (owner : TypeRef) (method : String) (args : List Expr)
  | index (target index : Expr)
  | unary (op : UnaryOp) (operand : Expr)
  | binary (op : BinaryOp) (lhs rhs : Expr)
  | await (operand : Expr)
deriving Repr, Inhabited

/-- What can be assigned to. -/
inductive Place where
  | slot (slot : Nat)
  | field (target : Expr) (name : String)
  | staticField (owner : TypeRef) (name : String)
  | index (target index : Expr)
deriving Repr, Inhabited

/-- Statements; each knows its source line. -/
inductive Stmt where
  | declare (line : Nat) (slot : Nat) (init : Option Expr)
  | assign (line : Nat) (place : Place) (value : Expr)
  | expr (line : Nat) (value : Expr)
  | cond (line : Nat) (cond : Expr) (thenBody elseBody : List Stmt)
  | whileLoop (line : Nat) (cond : Expr) (body : List Stmt)
  | forLoop (line : Nat) (slot : Nat) (iterable : Expr) (body : List Stmt)
  | ret (line : Nat) (value : Option Expr)
  | throw (line : Nat) (value : Expr)
  | tryCatch (line : Nat) (body : List Stmt) (slot : Option Nat) (handler : List Stmt)
  | breakLoop (line : Nat)
  | continueLoop (line : Nat)
  | block (line : Nat) (body : List Stmt)
deriving Repr, Inhabited

def Stmt.line : Stmt → Nat
  | declare l _ _ | assign l _ _ | expr l _ | cond l _ _ _ | whileLoop l _ _ | forLoop l _ _ _
  | ret l _ | throw l _ | tryCatch l _ _ _ | breakLoop l | continueLoop l | block l _ => l

end Image

structure ParamDef where
  name : String
  typeName : Option String
  default : Option Literal
deriving DecidableEq, Repr, Inhabited

structure FieldDef where
  name : String
  isStatic : Bool
  init : Option Image.Expr
  line : Nat
deriving Repr, Inhabited

structure MethodDef where
  name : String
  isStatic : Bool
  isAsync : Bool
  isNative : Bool
  params : List ParamDef
  returns : Option String
  shape : ReturnShape
  /-- Local slots, parameters first. -/
  slots : Nat
  /-- Missing in signatures and native methods. -/
  body : Option (List Image.Stmt)
  line : Nat
deriving Repr, Inhabited

namespace MethodDef

/-- Parameters without a default value. -/
def requiredParams (m : MethodDef) : Nat :=
  (m.params.filter (·.default.isNone)).length

/-- Whether that many arguments may be given. -/
def accepts (m : MethodDef) (count : Nat) : Bool :=
  m.requiredParams ≤ count && count ≤ m.params.length

end MethodDef

structure TypeDef where
  name : String
  kind : ClassKind
  isAbstract : Bool
  isStatic : Bool
  generics : List String
  base : Option TypeRef
  capabilities : List TypeRef
  fields : List FieldDef
  methods : List MethodDef
  /-- The file that declares the type. -/
  file : String
deriving Repr, Inhabited

namespace TypeDef

def findMethod? (t : TypeDef) (name : String) : Option MethodDef :=
  t.methods.find? (·.name == name)

def findField? (t : TypeDef) (name : String) : Option FieldDef :=
  t.fields.find? (·.name == name)

/-- Whether there can be objects of exactly this type. -/
def isActivatable (t : TypeDef) : Bool :=
  t.kind == .class_ && !t.isAbstract && !t.isStatic && t.generics.isEmpty

end TypeDef

/-- A compiled module. -/
structure Image where
  version : Nat
  name : String
  kind : OutputKind
  references : List String
  types : List TypeDef
deriving Repr, Inhabited

namespace Image

/-- The version of the images made here. -/
def currentVersion : Nat := 1

end Image

end GenLang
