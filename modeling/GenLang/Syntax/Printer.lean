import GenLang.Syntax.Source

/-!
# The canonical layout

A tree is laid out as tokens with white space between some of them: four spaces for each level,
one statement to a line, methods set apart by an empty line, and only the parentheses that the tree
needs. Comments are not part of the tree, so none is printed.
-/

namespace GenLang

/-- A piece of a layout. -/
inductive Piece where
  | token (token : Token)
  | blank (text : String)
deriving DecidableEq, Repr, Inhabited

def Piece.text : Piece → String
  | token t => t.text
  | blank s => s

namespace Printer

/-- A text in quotes, with the escapes that the lexer reads back. -/
def escape : List Char → List Char
  | [] => []
  | c :: rest =>
    (match c with
     | '\n' => ['\\', 'n']
     | '\t' => ['\\', 't']
     | '\r' => ['\\', 'r']
     | '\x00' => ['\\', '0']
     | '\\' => ['\\', '\\']
     | '"' => ['\\', '"']
     | c => [c]) ++ escape rest

def kw (k : Keyword) : Piece := .token (.keyword k)

def sym (s : Symbol) : Piece := .token (.symbol s)

def word (name : String) : Piece := .token (.ident name)

def space : Piece := .blank " "

/-- The pieces of a literal; a number below zero has a minus of its own. -/
def literal : Literal → List Piece
  | .null => [kw .null]
  | .bool true => [kw .true_]
  | .bool false => [kw .false_]
  | .int n =>
    if n < 0 then [sym .minus, .token (.int (toString (-n.toInt)))]
    else [.token (.int (toString n.toInt))]
  | .float x =>
    let text := Decimal.literal x
    if text.startsWith "-" then [sym .minus, .token (.float (String.ofList (text.toList.drop 1)))]
    else [.token (.float text)]
  | .str s => [.token (.str ("\"" ++ String.ofList (escape s.toList) ++ "\""))]

/-- Items with a comma and a space between them. -/
def commaSep : List (List Piece) → List Piece
  | [] => []
  | [x] => x
  | x :: xs => x ++ sym .comma :: space :: commaSep xs

/-- Binding strength of prefix operators; binary ones have 1 to 6. -/
def prefixStrength : Nat := 7

/-- Binding strength of everything that no operator reaches into. -/
def atomStrength : Nat := 8

def strength : Expr → Nat
  | .binary _ op _ _ => op.precedence
  | .unary .. | .await .. => prefixStrength
  | _ => atomStrength

def parenthesize (needed : Bool) (pieces : List Piece) : List Piece :=
  if needed then sym .leftParen :: pieces ++ [sym .rightParen] else pieces

mutual

/-- An expression, in parentheses if it binds looser than `least`. -/
def expr (least : Nat) (e : Expr) : List Piece :=
  parenthesize (strength e < least) (bare e)

/-- An expression without parentheses around it. -/
def bare : Expr → List Piece
  | .lit _ l => literal l
  | .name _ n => [word n]
  | .self _ => [kw .self_]
  | .list _ items => sym .leftBracket :: commaSep (args items) ++ [sym .rightBracket]
  | .new _ type items =>
    [kw .new_, space, word type.name, sym .leftParen] ++ commaSep (args items) ++
      [sym .rightParen]
  | .member _ target name => expr atomStrength target ++ [sym .dot, word name.name]
  | .call _ callee items =>
    expr atomStrength callee ++ [sym .leftParen] ++ commaSep (args items) ++ [sym .rightParen]
  | .index _ target i =>
    expr atomStrength target ++ [sym .leftBracket] ++ expr 0 i ++ [sym .rightBracket]
  | .unary _ .not operand => sym .bang :: expr prefixStrength operand
  | .unary _ .neg operand => sym .minus :: expr prefixStrength operand
  | .await _ operand => [kw .await, space] ++ expr prefixStrength operand
  | .binary _ op lhs rhs =>
    -- Operators group to the left, so one of the same precedence needs parentheses on the right.
    expr op.precedence lhs ++ [space, sym op.symbol, space] ++ expr (op.precedence + 1) rhs

def args : List Expr → List (List Piece)
  | [] => []
  | e :: es => expr 0 e :: args es

end

/-! ## Lines -/

/-- A line, indented by four spaces for each level. -/
def line (depth : Nat) (pieces : List Piece) : List Piece :=
  (if depth = 0 then [] else [.blank (String.ofList (List.replicate (4 * depth) ' '))]) ++
    pieces ++ [.blank "\n"]

/-- A line that opens a block behind the given pieces. -/
def opened (depth : Nat) (lead : List Piece) : List Piece :=
  line depth (lead ++ [space, sym .leftBrace])

mutual

/-- A block behind `lead`, on one line if it is empty. -/
def blockAfter (depth : Nat) (lead : List Piece) : Block → List Piece
  | .mk _ [] => line depth (lead ++ [sym .leftBrace, sym .rightBrace])
  | .mk _ (s :: ss) =>
    line depth (lead ++ [sym .leftBrace]) ++ stmt (depth + 1) s ++ stmts (depth + 1) ss ++
      line depth [sym .rightBrace]

/-- The statements of a block whose opening line is written. -/
def body (depth : Nat) : Block → List Piece
  | .mk _ ss => stmts (depth + 1) ss

/-- A conditional behind `lead`, which closes the block before it or is empty. -/
def conditional (depth : Nat) (lead : List Piece) : Conditional → List Piece
  | .mk _ cond thenBlock otherwise =>
    let header := lead ++ [kw .if_, space] ++ expr 0 cond
    match otherwise with
    | .none =>
      if lead.isEmpty then blockAfter depth (header ++ [space]) thenBlock
      else opened depth header ++ body depth thenBlock ++ line depth [sym .rightBrace]
    | .chain next =>
      opened depth header ++ body depth thenBlock ++
        conditional depth [sym .rightBrace, space, kw .else_, space] next
    | .block other =>
      opened depth header ++ body depth thenBlock ++
        opened depth [sym .rightBrace, space, kw .else_] ++ body depth other ++
        line depth [sym .rightBrace]

def stmt (depth : Nat) : Stmt → List Piece
  | .declare _ name none => line depth [kw .let_, space, word name.name, sym .semicolon]
  | .declare _ name (some init) =>
    line depth ([kw .let_, space, word name.name, space, sym .assign, space] ++ expr 0 init ++
      [sym .semicolon])
  | .assign _ target value =>
    line depth (expr 0 target ++ [space, sym .assign, space] ++ expr 0 value ++ [sym .semicolon])
  | .expr _ value => line depth (expr 0 value ++ [sym .semicolon])
  | .cond branch => conditional depth [] branch
  | .whileLoop _ cond b => blockAfter depth ([kw .while_, space] ++ expr 0 cond ++ [space]) b
  | .forLoop _ item iterable b =>
    blockAfter depth
      ([kw .for_, space, word item.name, space, kw .in_, space] ++ expr 0 iterable ++ [space]) b
  | .ret _ none => line depth [kw .return_, sym .semicolon]
  | .ret _ (some value) =>
    line depth ([kw .return_, space] ++ expr 0 value ++ [sym .semicolon])
  | .throw _ value => line depth ([kw .throw_, space] ++ expr 0 value ++ [sym .semicolon])
  | .tryCatch _ b binding handler =>
    opened depth [kw .try_] ++ body depth b ++
      opened depth ([sym .rightBrace, space, kw .catch_] ++
        match binding with
        | some name => [space, sym .leftParen, word name.name, sym .rightParen]
        | none => []) ++
      body depth handler ++ line depth [sym .rightBrace]
  | .breakLoop _ => line depth [kw .break_, sym .semicolon]
  | .continueLoop _ => line depth [kw .continue_, sym .semicolon]
  | .nested b => blockAfter depth [] b

def stmts (depth : Nat) : List Stmt → List Piece
  | [] => []
  | s :: ss => stmt depth s ++ stmts depth ss

end

/-! ## Declarations -/

/-- A keyword and a space, if `present`. -/
def modifier (present : Bool) (k : Keyword) : List Piece :=
  if present then [kw k, space] else []

def param (p : Param) : List Piece :=
  [word p.name.name] ++
    (match p.typeName with
     | some t => [sym .colon, space, word t.name]
     | none => []) ++
    (match p.default with
     | some l => [space, sym .assign, space] ++ literal l
     | none => [])

def field (depth : Nat) (f : FieldDecl) : List Piece :=
  line depth
    (modifier f.isStatic .static_ ++ [kw .let_, space, word f.name.name] ++
      (match f.init with
       | some e => [space, sym .assign, space] ++ expr 0 e
       | none => []) ++ [sym .semicolon])

def method (depth : Nat) (m : MethodDecl) : List Piece :=
  let header :=
    modifier m.isStatic .static_ ++ modifier m.isAsync .async_ ++ modifier m.isNative .native ++
      [kw .fn_, space, word m.name.name, sym .leftParen] ++ commaSep (m.params.map param) ++
      [sym .rightParen] ++
      (match m.returns with
       | some t => [space, sym .arrow, space, word t.name]
       | none => [])
  match m.body with
  | some b => blockAfter depth (header ++ [space]) b
  | none => line depth (header ++ [sym .semicolon])

def member (depth : Nat) : Member → List Piece
  | .field f => field depth f
  | .method m => method depth m

def isMethod : Member → Bool
  | .method _ => true
  | .field _ => false

/-- Members in order; runs of fields stay together, a method is set apart by an empty line. -/
def members (depth : Nat) : List Member → List Piece
  | [] => []
  | [m] => member depth m
  | m :: m' :: rest =>
    member depth m ++ (if isMethod m || isMethod m' then [.blank "\n"] else []) ++
      members depth (m' :: rest)

def names (ids : List Ident) : List Piece :=
  commaSep (ids.map fun i => [word i.name])

def typeDecl (t : TypeDecl) : List Piece :=
  let header :=
    modifier t.isAbstract .abstract_ ++ modifier t.isStatic .static_ ++
      [kw (match t.kind with
        | .type => .type_
        | .capability => .capability), space, word t.name.name] ++
      (if t.generics.isEmpty then [] else [sym .less] ++ names t.generics ++ [sym .greater]) ++
      (if t.bases.isEmpty then [] else [space, sym .colon, space] ++ names t.bases) ++ [space]
  if t.members.isEmpty then line 0 (header ++ [sym .leftBrace, sym .rightBrace])
  else
    line 0 (header ++ [sym .leftBrace]) ++ members 1 t.members ++ line 0 [sym .rightBrace]

/-- Declarations with an empty line between them. -/
def typeDecls : List TypeDecl → List Piece
  | [] => []
  | [t] => typeDecl t
  | t :: rest => typeDecl t ++ .blank "\n" :: typeDecls rest

end Printer

/-- The canonical text of declarations. -/
def formatTypes (types : List TypeDecl) : String :=
  String.join ((Printer.typeDecls types).map Piece.text)

/-- The canonical text of a source; `none` if it has syntax errors. -/
def format? (source : String) : Option String :=
  let parsed := Parsed.ofSource source
  if parsed.isOk then some (formatTypes parsed.types) else none

end GenLang
