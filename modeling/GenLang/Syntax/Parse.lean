import GenLang.Token.Lexer
import GenLang.Syntax.Tree
import GenLang.Decimal.Shortest

/-!
# Reading tokens

The parser never goes back: one token, or two before a field, decide how to go on. So a failure is
a token that nothing could be done with, or a literal without a value, and it is known at the
farthest place the text makes sense up to.

A `Parse` reads from the front of a list of tokens. Repetitions are bounded by a number that the
caller keeps above the number of tokens left; each round takes at least one token.
-/

namespace GenLang

open Text

/-- Why a reading stopped. -/
inductive Failure where
  /-- At a token that does not fit, or at the end. -/
  | unexpected (found : Option Lexeme)
  | invalid (message : String) (span : Span)
deriving DecidableEq, Repr, Inhabited

/-- Reads from the front of the tokens left. -/
abbrev Parse := StateT (List Lexeme) (Except Failure)

namespace Parse

/-- The next token does not fit. -/
def stop {α : Type} : Parse α
  | ts => .error (.unexpected ts.head?)

/-- The next token, which stays. -/
def peek : Parse (Option Token)
  | ts => .ok (ts.head?.map (·.token), ts)

/-- Takes the next token if `f` can use it. -/
def take {α : Type} (f : Lexeme → Option α) : Parse α
  | [] => .error (.unexpected none)
  | t :: ts =>
    match f t with
    | some a => .ok (a, ts)
    | none => .error (.unexpected (some t))

def keyword (k : Keyword) : Parse Span :=
  take fun t => if t.token = .keyword k then some t.span else none

def symbol (s : Symbol) : Parse Span :=
  take fun t => if t.token = .symbol s then some t.span else none

def ident : Parse Ident :=
  take fun t =>
    match t.token with
    | .ident name => some ⟨name, t.span⟩
    | _ => none

/-- Takes the next token if it is the keyword. -/
def keyword? (k : Keyword) : Parse (Option Span)
  | [] => .ok (none, [])
  | t :: ts => if t.token = .keyword k then .ok (some t.span, ts) else .ok (none, t :: ts)

/-- Takes the next token if it is the symbol. -/
def symbol? (s : Symbol) : Parse (Option Span)
  | [] => .ok (none, [])
  | t :: ts => if t.token = .symbol s then .ok (some t.span, ts) else .ok (none, t :: ts)

/-- Goes on with `item` behind the symbol, if that is next. -/
def after? {α : Type} (s : Symbol) (item : Parse α) : Parse (Option α) := do
  match ← symbol? s with
  | some _ => return some (← item)
  | none => return none

/-- Reads `item` if the next token can begin one. -/
def when? {α : Type} (starts : Token → Bool) (item : Parse α) : Parse (Option α) := do
  match ← peek with
  | some t => if starts t then return some (← item) else return none
  | none => return none

/-- Items as long as the next token can begin one. -/
def many {α : Type} (starts : Token → Bool) (item : Parse α) : Nat → Parse (List α)
  | 0 => pure []
  | n + 1 => do
    match ← when? starts item with
    | some a => return a :: (← many starts item n)
    | none => return []

/-- Items with commas between them, perhaps none, perhaps with a comma behind the last. -/
def commaList {α : Type} (starts : Token → Bool) (item : Parse α) : Nat → Parse (List α)
  | 0 => pure []
  | n + 1 => do
    match ← when? starts item with
    | none => return []
    | some a =>
      match ← symbol? .comma with
      | some _ => return a :: (← commaList starts item n)
      | none => return [a]

/-- At least one item, with commas between them only. -/
def commaList1 {α : Type} (item : Parse α) : Nat → Parse (List α)
  | 0 => stop
  | n + 1 => do
    let a ← item
    match ← symbol? .comma with
    | some _ => return a :: (← commaList1 item n)
    | none => return [a]

end Parse

/-- The text of a quoted string without its escapes. An escape with no meaning stays as it is. -/
def unescape : List Char → List Char
  | [] => []
  | '\\' :: c :: rest =>
    match c with
    | 'n' => '\n' :: unescape rest
    | 't' => '\t' :: unescape rest
    | 'r' => '\r' :: unescape rest
    | '0' => '\x00' :: unescape rest
    | '\\' => '\\' :: unescape rest
    | '"' => '"' :: unescape rest
    | c => '\\' :: c :: unescape rest
  | ['\\'] => []
  | c :: rest => c :: unescape rest

/-- Each doubled quote is one. -/
def undouble : List Char → List Char
  | [] => []
  | '"' :: '"' :: rest => '"' :: undouble rest
  | c :: rest => c :: undouble rest

/-- The largest integer of the language. -/
def maxInt : Nat := 9223372036854775807

/-- The value of a literal token. Only an integer can lack one. -/
def Token.literal? : Token → Option (Except String Literal)
  | .int text =>
    let n := Decimal.natOfDigits text.toList
    if n ≤ maxInt then some (.ok (.int (Int64.ofNat n)))
    else some (.error ("integer literal '" ++ text ++ "' is out of range"))
  | .float text => some (.ok (.float (Decimal.read text)))
  | .str text => some (.ok (.str (String.ofList (unescape (text.toList.drop 1).dropLast))))
  | .verbatim text => some (.ok (.str (String.ofList (undouble (text.toList.drop 2).dropLast))))
  | .keyword .true_ => some (.ok (.bool true))
  | .keyword .false_ => some (.ok (.bool false))
  | .keyword .null => some (.ok .null)
  | _ => none

/-- The operator a symbol stands for between two operands. -/
def BinaryOp.ofSymbol? : Symbol → Option BinaryOp
  | .or => some .or
  | .and => some .and
  | .equal => some .eq
  | .notEqual => some .notEq
  | .less => some .lt
  | .lessEqual => some .ltEq
  | .greater => some .gt
  | .greaterEqual => some .gtEq
  | .plus => some .add
  | .minus => some .sub
  | .star => some .mul
  | .slash => some .div
  | .percent => some .rem
  | _ => none

/-- The symbol of an operator. -/
def BinaryOp.symbol : BinaryOp → Symbol
  | .or => .or
  | .and => .and
  | .eq => .equal
  | .notEq => .notEqual
  | .lt => .less
  | .ltEq => .lessEqual
  | .gt => .greater
  | .gtEq => .greaterEqual
  | .add => .plus
  | .sub => .minus
  | .mul => .star
  | .div => .slash
  | .rem => .percent

theorem BinaryOp.ofSymbol?_symbol (op : BinaryOp) : ofSymbol? op.symbol = some op := by
  cases op <;> rfl

namespace Parse

/-- A literal and its place. -/
def literal : Parse (Literal × Span)
  | [] => .error (.unexpected none)
  | t :: ts =>
    match t.token.literal? with
    | some (.ok value) => .ok ((value, t.span), ts)
    | some (.error message) => .error (.invalid message t.span)
    | none => .error (.unexpected (some t))

/-- The default value of a parameter: a literal, before which a number may have a minus. -/
def defaultLiteral : Parse Literal := do
  match ← symbol? .minus with
  | none => return (← literal).1
  | some minus =>
    match ← literal with
    | (.int n, _) => return .int (-n)
    | (.float x, _) => return .float (-x)
    | (_, span) => throw (.invalid "only numbers can be negated" (minus.merge span))

/-! ## Expressions -/

/-- Whether an expression can begin with the token. -/
def startsExpr : Token → Bool
  | .int _ | .float _ | .str _ | .verbatim _ | .ident _ => true
  | .keyword .true_ | .keyword .false_ | .keyword .null => true
  | .keyword .self_ | .keyword .new_ | .keyword .await => true
  | .symbol .leftParen | .symbol .leftBracket | .symbol .bang | .symbol .minus => true
  | _ => false

/-- Arguments in parentheses, and the place of the closing one. -/
def arguments (expr : Parse Expr) (n : Nat) : Parse (List Expr × Span) := do
  let _ ← symbol .leftParen
  let args ← commaList startsExpr expr n
  let close ← symbol .rightParen
  return (args, close)

/-- What no operator reaches into. -/
def primary (expr : Parse Expr) (n : Nat) : Parse Expr := do
  match ← peek with
  | some (.keyword .self_) => return .self (← keyword .self_)
  | some (.keyword .new_) =>
    let new ← keyword .new_
    let type ← ident
    let (args, close) ← arguments expr n
    return .new (new.merge close) type args
  | some (.ident _) =>
    let name ← ident
    return .name name.span name.name
  | some (.symbol .leftParen) =>
    let _ ← symbol .leftParen
    let inner ← expr
    let _ ← symbol .rightParen
    -- Parentheses leave no trace in the tree.
    return inner
  | some (.symbol .leftBracket) =>
    let opening ← symbol .leftBracket
    let items ← commaList startsExpr expr n
    let close ← symbol .rightBracket
    return .list (opening.merge close) items
  | _ =>
    let (value, span) ← literal
    return .lit span value

/-- Member accesses, calls and indexing behind an expression. -/
def postfixes (expr : Parse Expr) : Nat → Expr → Parse Expr
  | 0, target => pure target
  | n + 1, target => do
    match ← peek with
    | some (.symbol .dot) =>
      let _ ← symbol .dot
      let name ← ident
      postfixes expr n (.member (target.span.merge name.span) target name)
    | some (.symbol .leftParen) =>
      let (args, close) ← arguments expr n
      postfixes expr n (.call (target.span.merge close) target args)
    | some (.symbol .leftBracket) =>
      let _ ← symbol .leftBracket
      let index ← expr
      let close ← symbol .rightBracket
      postfixes expr n (.index (target.span.merge close) target index)
    | _ => return target

/-- Prefix operators bind tighter than every binary one, and looser than what stands behind an
expression. -/
def unary (expr : Parse Expr) : Nat → Parse Expr
  | 0 => stop
  | n + 1 => do
    match ← peek with
    | some (.symbol .bang) =>
      let sign ← symbol .bang
      let operand ← unary expr n
      return .unary (sign.merge operand.span) .not operand
    | some (.symbol .minus) =>
      let sign ← symbol .minus
      let operand ← unary expr n
      return .unary (sign.merge operand.span) .neg operand
    | some (.keyword .await) =>
      let word ← keyword .await
      let operand ← unary expr n
      return .await (word.merge operand.span) operand
    | _ => postfixes expr n (← primary expr n)

/-- The binary operator of one precedence that is next, if one is. -/
def operator? (precedence : Nat) : Parse (Option BinaryOp)
  | [] => .ok (none, [])
  | t :: ts =>
    match t.token with
    | .symbol s =>
      match BinaryOp.ofSymbol? s with
      | some op => if op.precedence = precedence then .ok (some op, ts) else .ok (none, t :: ts)
      | none => .ok (none, t :: ts)
    | _ => .ok (none, t :: ts)

/-- More operands of operators of one precedence, grouped to the left. -/
def chain (precedence : Nat) (operand : Parse Expr) : Nat → Expr → Parse Expr
  | 0, lhs => pure lhs
  | n + 1, lhs => do
    match ← operator? precedence with
    | some op =>
      let rhs ← operand
      chain precedence operand n (.binary (lhs.span.merge rhs.span) op lhs rhs)
    | none => return lhs

/-- Operators of the given precedences, the loosest first. -/
def binary (operand : Parse Expr) (n : Nat) : List Nat → Parse Expr
  | [] => operand
  | p :: tighter => do
    let first ← binary operand n tighter
    chain p (binary operand n tighter) n first

/-- An expression. -/
def expr : Nat → Parse Expr
  | 0 => stop
  | n + 1 => binary (unary (expr n) (n + 1)) n [1, 2, 3, 4, 5, 6]

/-! ## Statements -/

/-- Whether a statement can begin with the token. -/
def startsStmt : Token → Bool
  | .keyword .let_ | .keyword .if_ | .keyword .while_ | .keyword .for_ => true
  | .keyword .return_ | .keyword .throw_ | .keyword .try_ => true
  | .keyword .break_ | .keyword .continue_ => true
  | .symbol .leftBrace => true
  | t => startsExpr t

/-- A condition, its block and what is to happen otherwise. -/
def conditional (block : Parse Block) : Nat → Parse Conditional
  | 0 => stop
  | n + 1 => do
    let word ← keyword .if_
    let cond ← expr (n + 1)
    let thenBlock ← block
    match ← keyword? .else_ with
    | none => return .mk (word.merge thenBlock.span) cond thenBlock .none
    | some _ =>
      match ← peek with
      | some (.keyword .if_) =>
        let next ← conditional block n
        return .mk (word.merge next.span) cond thenBlock (.chain next)
      | _ =>
        let other ← block
        return .mk (word.merge other.span) cond thenBlock (.block other)

/-- An assignment, or an expression for its effect. -/
def simpleStmt (n : Nat) : Parse Stmt := do
  let target ← expr n
  let value ← after? .assign (expr n)
  let close ← symbol .semicolon
  match value with
  | some value => return .assign (target.span.merge close) target value
  | none => return .expr (target.span.merge close) target

/-- A statement, given how to read a block in it. -/
def stmt (block : Parse Block) (n : Nat) : Parse Stmt := do
  match ← peek with
  | some (.keyword .let_) =>
    let word ← keyword .let_
    let name ← ident
    let init ← after? .assign (expr n)
    let close ← symbol .semicolon
    return .declare (word.merge close) name init
  | some (.keyword .if_) => return .cond (← conditional block n)
  | some (.keyword .while_) =>
    let word ← keyword .while_
    let cond ← expr n
    let body ← block
    return .whileLoop (word.merge body.span) cond body
  | some (.keyword .for_) =>
    let word ← keyword .for_
    let item ← ident
    let _ ← keyword .in_
    let iterable ← expr n
    let body ← block
    return .forLoop (word.merge body.span) item iterable body
  | some (.keyword .return_) =>
    let word ← keyword .return_
    let value ← when? startsExpr (expr n)
    let close ← symbol .semicolon
    return .ret (word.merge close) value
  | some (.keyword .throw_) =>
    let word ← keyword .throw_
    let value ← expr n
    let close ← symbol .semicolon
    return .throw (word.merge close) value
  | some (.keyword .try_) =>
    let word ← keyword .try_
    let body ← block
    let _ ← keyword .catch_
    -- The variable of the handler may be left out together with its parentheses.
    let binding ← after? .leftParen do
      let name ← ident
      let _ ← symbol .rightParen
      return name
    let handler ← block
    return .tryCatch (word.merge handler.span) body binding handler
  | some (.keyword .break_) =>
    let word ← keyword .break_
    let close ← symbol .semicolon
    return .breakLoop (word.merge close)
  | some (.keyword .continue_) =>
    let word ← keyword .continue_
    let close ← symbol .semicolon
    return .continueLoop (word.merge close)
  | some (.symbol .leftBrace) => return .nested (← block)
  | _ => simpleStmt n

/-- Statements in braces. -/
def block : Nat → Parse Block
  | 0 => stop
  | n + 1 => do
    let opening ← symbol .leftBrace
    let stmts ← many startsStmt (stmt (block n) n) n
    let close ← symbol .rightBrace
    return .mk (opening.merge close) stmts

/-! ## Declarations -/

def param : Parse Param := do
  let name ← ident
  let typeName ← after? .colon ident
  let default ← after? .assign defaultLiteral
  return { name, typeName, default }

def isIdent : Token → Bool
  | .ident _ => true
  | _ => false

/-- The modifiers a method may have, each as often as it likes. -/
def isMethodModifier : Token → Bool
  | .keyword .static_ | .keyword .async_ | .keyword .native => true
  | _ => false

/-- The modifiers a type may have, each as often as it likes. -/
def isTypeModifier : Token → Bool
  | .keyword .abstract_ | .keyword .static_ => true
  | _ => false

/-- The tokens at the front that satisfy `p`. -/
def run (p : Token → Bool) : Parse (List Lexeme)
  | ts => .ok (ts.takeWhile (p ·.token), ts.dropWhile (p ·.token))

/-- The place where a declaration begins: at its first modifier, if it has any. -/
def firstSpan (modifiers : List Lexeme) (word : Span) : Span :=
  match modifiers with
  | m :: _ => m.span
  | [] => word

def hasModifier (modifiers : List Lexeme) (k : Keyword) : Bool :=
  modifiers.any (·.token == .keyword k)

def field (n : Nat) : Parse FieldDecl := do
  let modifier ← keyword? .static_
  let word ← keyword .let_
  let name ← ident
  let init ← after? .assign (expr n)
  let close ← symbol .semicolon
  return { name, isStatic := modifier.isSome, init, span := (modifier.getD word).merge close }

def method (n : Nat) : Parse MethodDecl := do
  let modifiers ← run isMethodModifier
  let word ← keyword .fn_
  let name ← ident
  let _ ← symbol .leftParen
  let params ← commaList isIdent param n
  let _ ← symbol .rightParen
  let returns ← after? .arrow ident
  let start := firstSpan modifiers word
  let decl (body : Option Block) (stop : Span) : MethodDecl :=
    { name
      isStatic := hasModifier modifiers .static_
      isAsync := hasModifier modifiers .async_
      isNative := hasModifier modifiers .native
      params, returns, body
      span := start.merge stop }
  -- Whether a body has to be there is not for the parser to say.
  match ← symbol? .semicolon with
  | some close => return decl none close
  | none =>
    let body ← block n
    return decl (some body) body.span

/-- Whether a member can begin with the token. -/
def startsMember : Token → Bool
  | .keyword .let_ | .keyword .fn_ => true
  | .keyword .static_ | .keyword .async_ | .keyword .native => true
  | _ => false

/-- A field begins with `let` or `static let`, any other member is a method. -/
def isField : List Lexeme → Bool
  | ⟨.keyword .let_, _⟩ :: _ => true
  | ⟨.keyword .static_, _⟩ :: ⟨.keyword .let_, _⟩ :: _ => true
  | _ => false

def member (n : Nat) : Parse Member := do
  if isField (← get) then return .field (← field n)
  else return .method (← method n)

def typeKind : Parse (TypeKind × Span) :=
  take fun t =>
    match t.token with
    | .keyword .type_ => some (.type, t.span)
    | .keyword .capability => some (.capability, t.span)
    | _ => none

/-- A declaration of a type or a capability. -/
def typeDecl (n : Nat) : Parse TypeDecl := do
  let modifiers ← run isTypeModifier
  let (kind, word) ← typeKind
  let name ← ident
  let generics ← after? .less do
    let names ← commaList1 ident n
    let _ ← symbol .greater
    return names
  let bases ← after? .colon (commaList1 ident n)
  let _ ← symbol .leftBrace
  let members ← many startsMember (member n) n
  let close ← symbol .rightBrace
  return {
    kind, name
    isAbstract := hasModifier modifiers .abstract_
    isStatic := hasModifier modifiers .static_
    generics := generics.getD []
    bases := bases.getD []
    members
    span := (firstSpan modifiers word).merge close }

/-- All declarations. A broken one is given up: its first token is skipped, then all up to the next
word that starts a type. -/
def typeDecls : Nat → List Lexeme → List TypeDecl × List Failure
  | 0, _ => ([], [])
  | _, [] => ([], [])
  | n + 1, t :: ts =>
    match typeDecl (n + 1) (t :: ts) with
    | .ok (d, rest) =>
      let (ds, fs) := typeDecls n rest
      (d :: ds, fs)
    | .error f =>
      let (ds, fs) := typeDecls n (ts.dropWhile (!·.token.startsType))
      (ds, f :: fs)

end Parse

end GenLang
