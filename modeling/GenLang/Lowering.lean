import GenLang.Declaration

/-!
# Lowering

Bodies and initialisers become the code of a module image. A bare name is a local, else a member of
the enclosing type or its bases, else a type. Static accesses are bound to the type that declares
the member; access through a value is left to run time. Calls are recorded as they are met.
-/

namespace GenLang

open Text

/-- A local: parameters, loop and catch variables may stay unused. -/
structure LocalVariable where
  name : String
  span : Span
  used : Bool
  warnUnused : Bool
deriving DecidableEq, Repr, Inhabited

/-- Where a body is lowered. -/
structure LoweringContext where
  sources : Sources
  table : SymbolTable
  owner : TypeSymbol
  file : String
  /-- The member being lowered, as `Type.Member`. -/
  caller : String
  isStatic : Bool

/-- What lowering a body has found so far. -/
structure LoweringState where
  diagnostics : Array Diagnostic := #[]
  invocations : Array Invocation := #[]
  locals : Array LocalVariable := #[]
  /-- Slots in scope, innermost scope first, each in the order of declaration. -/
  scopes : List (List Nat) := []
  loopDepth : Nat := 0
deriving Inhabited

/-- The slot of the innermost local of a name. -/
def LoweringState.lookup (s : LoweringState) (name : String) : Option Nat :=
  (s.scopes.flatMap (·.reverse)).find? fun slot =>
    match s.locals[slot]? with
    | some l => l.name == name
    | none => false

abbrev Lowering := ReaderT LoweringContext (StateM LoweringState)

namespace Lowering

def report (code : Code) (span : Span) (message : String) : Lowering Unit := do
  let c ← read
  let d := c.sources.diagnostic code c.file span message
  modify fun s => { s with diagnostics := s.diagnostics.push d }

def lineOf (span : Span) : Lowering Nat := do
  let c ← read
  return c.sources.line c.file span.start

/-! ## Scopes -/

def lookup (name : String) : Lowering (Option Nat) := do
  return (← get).lookup name

def pushScope : Lowering Unit :=
  modify fun s => { s with scopes := [] :: s.scopes }

/-- Warns of a local that was never read. -/
def reportUnused (slot : Nat) : Lowering Unit := do
  match (← get).locals[slot]? with
  | some l =>
    if l.warnUnused && !l.used then
      report .unusedLocal l.span ("The variable '" ++ l.name ++ "' is declared but never used")
  | none => return

/-- Closes the innermost scope. -/
def popScope : Lowering Unit := do
  match (← get).scopes with
  | [] => return
  | scope :: rest =>
    modify fun s => { s with scopes := rest }
    scope.forM reportUnused

/-- Runs in a scope of its own. -/
def inScope {α : Type} (body : Lowering α) : Lowering α := do
  pushScope
  let a ← body
  popScope
  return a

/-- Gives a local the next slot. -/
def declare (name : Ident) (warnUnused : Bool) : Lowering Nat := do
  if (← lookup name.name).isSome then
    report .duplicateLocal name.span
      ("A local variable named '" ++ name.name ++ "' is already defined in this scope")
  let slot := (← get).locals.size
  modify fun s =>
    { s with
      locals := s.locals.push ⟨name.name, name.span, false, warnUnused⟩
      scopes :=
        match s.scopes with
        | scope :: rest => (scope ++ [slot]) :: rest
        | [] => [] }
  return slot

def markUsed (slot : Nat) : Lowering Unit :=
  modify fun s => { s with locals := s.locals.modify slot fun l => { l with used := true } }

/-! ## Names -/

/-- What a bare name stands for. -/
inductive Resolved where
  | slot (slot : Nat)
  | staticField (owner : TypeRef) (name : String)
  | instanceField (name : String)
  | type (type : TypeRef)

/-- What is in front of a dot. -/
inductive Receiver where
  | type (type : TypeSymbol)
  | value (value : Image.Expr)
  | unresolved

def needsInstance (declaring : TypeSymbol) (member : String) (span : Span) : Lowering Unit :=
  report .instanceMemberInStaticContext span
    ("An object reference is required for the non-static member '" ++ declaring.name ++ "." ++
      member ++ "'")

def unknownName (name : String) (span : Span) : Lowering Unit :=
  report .unknownName span ("The name '" ++ name ++ "' does not exist in the current context")

def notAValue (declaring : TypeSymbol) (method : String) (span : Span) : Lowering Unit :=
  report .unknownName span
    ("Method '" ++ declaring.name ++ "." ++ method ++ "' cannot be used as a value")

def unknownStatic (type : TypeSymbol) (name : Ident) : Lowering Unit :=
  report .unknownMember name.span
    ("'" ++ type.name ++ "' does not contain a static member named '" ++ name.name ++ "'")

def invalidTarget (span : Span) : Lowering Unit :=
  report .invalidAssignmentTarget span
    "The left-hand side of an assignment must be a variable, field or indexer"

def resolve (name : String) (span : Span) : Lowering (Option Resolved) := do
  let c ← read
  -- Locals hide members, and members hide types.
  match ← lookup name with
  | some slot => return some (.slot slot)
  | none =>
    match c.table.member? c.owner.name name with
    | some (declaring, .field f) =>
      if f.isStatic then return some (.staticField declaring.ref f.name)
      else if c.isStatic then
        needsInstance declaring f.name span
        return none
      else return some (.instanceField f.name)
    | some (declaring, .method m) =>
      notAValue declaring m.name span
      return none
    | none =>
      match c.table.find? name with
      | some t => return some (.type t.ref)
      | none =>
        unknownName name span
        return none

/-- A name that is neither a local nor a member of the enclosing type. -/
def isFree (name : String) : Lowering Bool := do
  let c ← read
  return (← lookup name).isNone && (c.table.member? c.owner.name name).isNone

/-- What is in front of a dot, given how to lower it as a value. -/
def receiver (e : Expr) (value : Lowering Image.Expr) : Lowering Receiver := do
  match e with
  | .name span name =>
    -- A local or a member of the name hides the type.
    if ← isFree name then
      match (← read).table.find? name with
      | some t => return .type t
      | none =>
        unknownName name span
        return .unresolved
    else return .value (← value)
  | _ => return .value (← value)

/-! ## Calls -/

/-- Stands in for an expression that cannot be lowered. -/
def nullExpr : Image.Expr := .const .null

/-- The type a call is made on, as far as the text tells. -/
def calledType (target : Expr) : Lowering (Option String) := do
  match target with
  | .name _ n => if ← isFree n then return some n else return none
  | .self _ => return some (← read).owner.name
  | _ => return none

def literal? : Expr → Option Literal
  | .lit _ value => some value
  | _ => none

def recordInvocation (typeName : Option String) (method : String) (args : List Expr)
    (span : Span) : Lowering Unit := do
  let c ← read
  let line ← lineOf span
  -- Of an argument that is no literal only its place is known.
  let invocation : Invocation :=
    { typeName, method, arguments := args.map literal?, caller := c.caller, file := c.file, line }
  modify fun s => { s with invocations := s.invocations.push invocation }

def checkArity (m : MethodSymbol) (count : Nat) (span : Span) : Lowering Unit :=
  if m.accepts count then pure ()
  else
    report .argumentCount span
      ("No overload for method '" ++ m.name ++ "' takes " ++ toString count ++ " arguments")

def staticRead (type : TypeSymbol) (name : Ident) : Lowering Image.Expr := do
  match (← read).table.member? type.name name.name with
  | some (declaring, .field f) =>
    if f.isStatic then return .staticField declaring.ref f.name
    else
      needsInstance declaring name.name name.span
      return nullExpr
  | some (declaring, .method m) =>
    if m.isStatic then notAValue declaring name.name name.span
    else needsInstance declaring name.name name.span
    return nullExpr
  | none =>
    unknownStatic type name
    return nullExpr

def staticCall (type : TypeSymbol) (name : Ident) (args : List Image.Expr) :
    Lowering Image.Expr := do
  match (← read).table.method? type.name name.name with
  | some (declaring, m) =>
    if m.isStatic then
      checkArity m args.length name.span
      return .staticCall declaring.ref m.name args
    else
      needsInstance declaring m.name name.span
      return nullExpr
  | none =>
    unknownStatic type name
    return nullExpr

/-- A call of a bare name: a method of the enclosing type or of its bases. -/
def ownCall (name : String) (span : Span) (args : List Image.Expr) : Lowering Image.Expr := do
  let c ← read
  if (← lookup name).isSome then
    report .unknownName span ("'" ++ name ++ "' is a variable but is used like a method")
    return nullExpr
  match c.table.method? c.owner.name name with
  | none =>
    unknownName name span
    return nullExpr
  | some (declaring, m) =>
    checkArity m args.length span
    if m.isStatic then return .staticCall declaring.ref name args
    else if c.isStatic then
      needsInstance declaring name span
      return nullExpr
    else return .call .self name args

def newObject (type : Ident) (args : List Image.Expr) : Lowering Image.Expr := do
  let table := (← read).table
  match table.find? type.name with
  | none =>
    unknownName type.name type.span
    return nullExpr
  | some t =>
    if t.isCapability || t.isAbstract || t.isStatic then
      report .cannotInstantiate type.span
        ("Cannot create an instance of the abstract, static or capability type '" ++ type.name ++
          "'")
      return nullExpr
    -- Without a constructor there is nothing that could take arguments.
    let fits :=
      match table.constructor? t.name with
      | some m => m.accepts args.length
      | none => args.isEmpty
    if !fits then
      report .argumentCount type.span
        ("'" ++ type.name ++ "' does not contain a constructor that takes " ++
          toString args.length ++ " arguments")
    return .new t.ref args

/-! ## Expressions -/

mutual

def expr : Expr → Lowering Image.Expr
  | .lit _ value => return .const value
  | .name span name => do
    match ← resolve name span with
    | some (.slot slot) =>
      markUsed slot
      return .slot slot
    | some (.staticField owner name) => return .staticField owner name
    | some (.instanceField name) => return .field .self name
    | some (.type t) => return .type t
    | none => return nullExpr
  | .self span => do
    if (← read).isStatic then
      report .selfInStaticContext span "Keyword 'self' is not valid in a static context"
    return .self
  | .list _ items => return .list (← exprs items)
  | .new _ type args => do
    -- Arguments are lowered for what they report even if there is no such type.
    let args ← exprs args
    newObject type args
  | .member _ target name => do
    match ← receiver target (expr target) with
    | .type t => staticRead t name
    | .value target => return .field target name.name
    | .unresolved => return nullExpr
  | .call span callee args => do
    match callee with
    | .member _ target name =>
      -- Recorded before its parts are lowered: a call comes before those in its parts.
      recordInvocation (← calledType target) name.name args span
      let r ← receiver target (expr target)
      let args ← exprs args
      match r with
      | .type t => staticCall t name args
      | .value target => return .call target name.name args
      | .unresolved => return nullExpr
    | .name nameSpan name =>
      recordInvocation (some (← read).owner.name) name args span
      let args ← exprs args
      ownCall name nameSpan args
    | other =>
      -- A value cannot be called; its parts are lowered for what they report.
      let _ ← expr other
      let _ ← exprs args
      report .unknownName other.span "Only methods can be invoked"
      return nullExpr
  | .index _ target i => do
    let target ← expr target
    return .index target (← expr i)
  | .unary _ op operand => return .unary op (← expr operand)
  | .binary _ op lhs rhs => do
    let lhs ← expr lhs
    return .binary op lhs (← expr rhs)
  | .await _ operand => return .await (← expr operand)

def exprs : List Expr → Lowering (List Image.Expr)
  | [] => return []
  | e :: es => do
    let e ← expr e
    return e :: (← exprs es)

end

def expr? : Option Expr → Lowering (Option Image.Expr)
  | some e => return some (← expr e)
  | none => return none

/-- What an assignment assigns to. -/
def place (target : Expr) : Lowering (Option Image.Place) := do
  match target with
  | .name span name =>
    match ← resolve name span with
    -- To assign to a local is not to use it.
    | some (.slot slot) => return some (.slot slot)
    | some (.staticField owner name) => return some (.staticField owner name)
    | some (.instanceField name) => return some (.field .self name)
    | some (.type _) =>
      invalidTarget span
      return none
    | none => return none
  | .member span inner name =>
    match ← receiver inner (expr inner) with
    | .type t =>
      match (← read).table.member? t.name name.name with
      | some (declaring, .field f) =>
        if f.isStatic then return some (.staticField declaring.ref f.name)
        else
          needsInstance declaring f.name name.span
          return none
      | some (_, .method _) =>
        invalidTarget span
        return none
      | none =>
        unknownStatic t name
        return none
    | .value inner => return some (.field inner name.name)
    | .unresolved => return none
  | .index _ target i =>
    let target ← expr target
    return some (.index target (← expr i))
  | other =>
    invalidTarget other.span
    return none

/-! ## Statements -/

/-- Nothing behind such a statement is reached. -/
def isJump : Stmt → Bool
  | .ret .. | .throw .. | .breakLoop _ | .continueLoop _ => true
  | _ => false

/-- What is known of the statements before one in its block. -/
inductive Reach where
  | reachable
  /-- Behind a jump, and not yet reported. -/
  | cutOff
  | reported
deriving DecidableEq

def Reach.after (r : Reach) (jump : Bool) : Reach :=
  match r, jump with
  | .reachable, true => .cutOff
  | r, _ => r

/-- Reports the first statement behind a jump. -/
def Reach.enter (r : Reach) (span : Span) : Lowering Reach := do
  match r with
  | .cutOff =>
    report .unreachableCode span "Unreachable code detected"
    return .reported
  | r => return r

/-- Runs inside one more loop. -/
def inLoop {α : Type} (body : Lowering α) : Lowering α := do
  modify fun s => { s with loopDepth := s.loopDepth + 1 }
  let a ← body
  modify fun s => { s with loopDepth := s.loopDepth - 1 }
  return a

/-- Reports a jump that no loop encloses. -/
def checkLoop (span : Span) (word : String) : Lowering Unit := do
  if (← get).loopDepth = 0 then
    report .jumpOutsideLoop span ("No enclosing loop out of which to " ++ word)

mutual

def stmt : Stmt → Lowering Image.Stmt
  | .declare span name init => do
    let line ← lineOf span
    -- The local is not in scope in its own initialiser.
    let init ← expr? init
    let slot ← declare name true
    return .declare line slot init
  | .assign span target value => do
    let line ← lineOf span
    let p ← place target
    let value ← expr value
    match p with
    | some p => return .assign line p value
    -- The target was reported; what the value does is kept.
    | none => return .expr line value
  | .expr span e => do
    let line ← lineOf span
    return .expr line (← expr e)
  | .cond branch => conditional branch
  | .whileLoop span cond body => do
    let line ← lineOf span
    let cond ← expr cond
    let body ← inLoop (block body)
    return .whileLoop line cond body
  | .forLoop span item iterable body => do
    let line ← lineOf span
    -- What is gone through is lowered outside the scope of the loop variable.
    let iterable ← expr iterable
    inScope do
      let slot ← declare item false
      let body ← inLoop (block body)
      return .forLoop line slot iterable body
  | .ret span value => do
    let line ← lineOf span
    return .ret line (← expr? value)
  | .throw span value => do
    let line ← lineOf span
    return .throw line (← expr value)
  | .tryCatch span body binding handler => do
    let line ← lineOf span
    let body ← block body
    inScope do
      let slot ←
        match binding with
        | some name => some <$> declare name false
        | none => pure none
      let handler ← block handler
      return .tryCatch line body slot handler
  | .breakLoop span => do
    let line ← lineOf span
    checkLoop span "break"
    return .breakLoop line
  | .continueLoop span => do
    let line ← lineOf span
    checkLoop span "continue"
    return .continueLoop line
  | .nested b => do
    let line ← lineOf b.span
    return .block line (← block b)

def block : Block → Lowering (List Image.Stmt)
  | .mk _ ss => inScope (stmts .reachable ss)

def conditional : Conditional → Lowering Image.Stmt
  | .mk span cond thenBlock otherwise => do
    let line ← lineOf span
    let cond ← expr cond
    let thenBody ← block thenBlock
    match otherwise with
    | .none => return .cond line cond thenBody []
    | .block b => return .cond line cond thenBody (← block b)
    | .chain next => return .cond line cond thenBody [← conditional next]

def stmts (r : Reach) : List Stmt → Lowering (List Image.Stmt)
  | [] => return []
  | s :: ss => do
    let r ← r.enter s.span
    let lowered ← stmt s
    return lowered :: (← stmts (r.after (isJump s)) ss)

end

/-! ## Members -/

def returnShape (m : MethodDecl) : ReturnShape :=
  if m.isAsync then .awaitable
  else
    match m.returns.map (·.name) with
    | none | some "void" => .void
    | some "Task" => .awaitable
    | some _ => .value

def param (p : Param) : Lowering ParamDef := do
  let _ ← declare p.name false
  return { name := p.name.name, typeName := p.typeName.map (·.name), default := p.default }

def body? : Option Block → Lowering (Option (List Image.Stmt))
  | some b => return some (← block b)
  | none => return none

def method (m : MethodDecl) : Lowering MethodDef := do
  let (params, body) ← inScope do
    let params ← m.params.mapM param
    return (params, ← body? m.body)
  return {
    name := m.name.name
    isStatic := m.isStatic
    isAsync := m.isAsync
    isNative := m.isNative
    params
    returns := m.returns.map (·.name)
    shape := returnShape m
    slots := (← get).locals.size
    body
    line := ← lineOf m.name.span }

def field (f : FieldDecl) : Lowering FieldDef := do
  let init ← inScope (expr? f.init)
  return { name := f.name.name, isStatic := f.isStatic, init, line := ← lineOf f.span }

/-- What lowering reports besides code. -/
structure Notes where
  diagnostics : List Diagnostic := []
  invocations : List Invocation := []
deriving Inhabited

def Notes.append (a b : Notes) : Notes :=
  ⟨a.diagnostics ++ b.diagnostics, a.invocations ++ b.invocations⟩

/-- Lowers one member from a fresh state. -/
def member {α : Type} (c : LoweringContext) (body : Lowering α) : α × Notes :=
  let (a, s) := (body.run c).run {}
  (a, ⟨s.diagnostics.toList, s.invocations.toList⟩)

/-- Lowers all of a list in order. -/
def members {α β : Type} (f : α → β × Notes) : List α → List β × Notes
  | [] => ([], {})
  | a :: rest =>
    let (b, notes) := f a
    let (bs, others) := members f rest
    (b :: bs, notes.append others)

def type (sources : Sources) (table : SymbolTable) (owner : TypeSymbol) (d : Declaration) :
    TypeDef × Notes :=
  -- Bases that are not known have been reported and are left out.
  let known := d.decl.bases.filterMap fun b => table.find? b.name
  let context (name : Ident) (isStatic : Bool) : LoweringContext :=
    { sources, table, owner, file := d.file, caller := d.decl.name.name ++ "." ++ name.name,
      isStatic }
  let (fields, notes) :=
    members (fun f => member (context f.name f.isStatic) (field f)) d.decl.fields
  let (methods, others) :=
    members (fun m => member (context m.name m.isStatic) (method m)) d.decl.methods
  ({ name := d.decl.name.name
     kind := owner.kind
     isAbstract := d.decl.isAbstract
     isStatic := d.decl.isStatic
     generics := owner.generics
     base := (known.find? (!·.isCapability)).map (·.ref)
     capabilities := (known.filter (·.isCapability)).map (·.ref)
     fields, methods, file := d.file },
   notes.append others)

/-- Lowers the declarations that a table holds. -/
def types (sources : Sources) (table : SymbolTable) (accepted : List Declaration) :
    List TypeDef × Notes :=
  members (fun (owner, d) => type sources table owner d)
    (accepted.filterMap fun d => (table.find? d.decl.name.name).map (·, d))

end Lowering

end GenLang
