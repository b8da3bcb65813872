import GenLang.Text.Span

/-!
# Syntax trees

The tree of a Gen source. Every node knows the bytes it was read from. An `else if` chain is a
conditional inside a conditional, so that nothing else can stand there.
-/

namespace GenLang

open Text

/-- A name where it is written. -/
structure Ident where
  name : String
  span : Span
deriving DecidableEq, Repr, Inhabited

/-- Literal values; escapes in strings are resolved. -/
inductive Literal where
  | null
  | bool (value : Bool)
  | int (value : Int64)
  | float (value : Float)
  | str (value : String)
deriving DecidableEq, Repr, Inhabited

inductive UnaryOp where
  | not
  | neg
deriving DecidableEq, Repr, Inhabited

def UnaryOp.text : UnaryOp → String
  | not => "!"
  | neg => "-"

inductive BinaryOp where
  | or
  | and
  | eq
  | notEq
  | lt
  | ltEq
  | gt
  | gtEq
  | add
  | sub
  | mul
  | div
  | rem
deriving DecidableEq, Repr, Inhabited

namespace BinaryOp

/-- How tightly an operator binds, from 1 to 6. -/
def precedence : BinaryOp → Nat
  | or => 1
  | and => 2
  | eq | notEq => 3
  | lt | ltEq | gt | gtEq => 4
  | add | sub => 5
  | mul | div | rem => 6

def text : BinaryOp → String
  | or => "||"
  | and => "&&"
  | eq => "=="
  | notEq => "!="
  | lt => "<"
  | ltEq => "<="
  | gt => ">"
  | gtEq => ">="
  | add => "+"
  | sub => "-"
  | mul => "*"
  | div => "/"
  | rem => "%"

end BinaryOp

inductive Expr where
  | lit (span : Span) (value : Literal)
  /-- A bare name: a local, a parameter, a member of the enclosing type, or a type. -/
  | name (span : Span) (text : String)
  | self (span : Span)
  | list (span : Span) (items : List Expr)
  | new (span : Span) (type : Ident) (args : List Expr)
  | member (span : Span) (target : Expr) (name : Ident)
  | call (span : Span) (callee : Expr) (args : List Expr)
  | index (span : Span) (target : Expr) (index : Expr)
  | unary (span : Span) (op : UnaryOp) (operand : Expr)
  | binary (span : Span) (op : BinaryOp) (lhs rhs : Expr)
  | await (span : Span) (operand : Expr)
deriving Repr, Inhabited

def Expr.span : Expr → Span
  | lit s _ | name s _ | self s | list s _ | new s _ _ | member s _ _ | call s _ _ | index s _ _
  | unary s _ _ | binary s _ _ _ | await s _ => s

mutual

inductive Stmt where
  | declare (span : Span) (name : Ident) (init : Option Expr)
  | assign (span : Span) (target value : Expr)
  | expr (span : Span) (value : Expr)
  | cond (branch : Conditional)
  | whileLoop (span : Span) (cond : Expr) (body : Block)
  | forLoop (span : Span) (item : Ident) (iterable : Expr) (body : Block)
  | ret (span : Span) (value : Option Expr)
  | throw (span : Span) (value : Expr)
  | tryCatch (span : Span) (body : Block) (binding : Option Ident) (handler : Block)
  | breakLoop (span : Span)
  | continueLoop (span : Span)
  | nested (block : Block)

/-- Statements in braces. -/
inductive Block where
  | mk (span : Span) (stmts : List Stmt)

inductive Conditional where
  | mk (span : Span) (cond : Expr) (thenBlock : Block) (otherwise : Alternative)

/-- What follows the block of a condition that holds. -/
inductive Alternative where
  | none
  | block (block : Block)
  | chain (next : Conditional)

end

instance : Inhabited Block := ⟨.mk default []⟩

def Block.span : Block → Span
  | mk s _ => s

def Block.stmts : Block → List Stmt
  | mk _ ss => ss

def Conditional.span : Conditional → Span
  | mk s _ _ _ => s

def Stmt.span : Stmt → Span
  | declare s _ _ | assign s _ _ | expr s _ | whileLoop s _ _ | forLoop s _ _ _ | ret s _
  | throw s _ | tryCatch s _ _ _ | breakLoop s | continueLoop s => s
  | cond c => c.span
  | nested b => b.span

structure Param where
  name : Ident
  typeName : Option Ident
  default : Option Literal
deriving DecidableEq, Repr, Inhabited

structure FieldDecl where
  name : Ident
  isStatic : Bool
  init : Option Expr
  span : Span
deriving Inhabited

structure MethodDecl where
  name : Ident
  isStatic : Bool
  isAsync : Bool
  isNative : Bool
  params : List Param
  returns : Option Ident
  /-- Missing in signatures and native methods. -/
  body : Option Block
  span : Span
deriving Inhabited

/-- Parameters without a default value. -/
def MethodDecl.requiredParams (m : MethodDecl) : Nat :=
  (m.params.filter (·.default.isNone)).length

inductive Member where
  | field (decl : FieldDecl)
  | method (decl : MethodDecl)
deriving Inhabited

def Member.name : Member → Ident
  | field f => f.name
  | method m => m.name

/-- Classes are declared with `type`, interfaces with `capability`. -/
inductive TypeKind where
  | type
  | capability
deriving DecidableEq, Repr, Inhabited

structure TypeDecl where
  kind : TypeKind
  name : Ident
  isAbstract : Bool
  isStatic : Bool
  generics : List Ident
  bases : List Ident
  members : List Member
  span : Span
deriving Inhabited

namespace TypeDecl

def fields (t : TypeDecl) : List FieldDecl :=
  t.members.filterMap fun
    | .field f => some f
    | .method _ => none

def methods (t : TypeDecl) : List MethodDecl :=
  t.members.filterMap fun
    | .field _ => none
    | .method m => some m

end TypeDecl

end GenLang
