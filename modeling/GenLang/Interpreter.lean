import GenLang.Machine.Call

/-!
# The interpreter

Evaluation of the code in module images. The rules for expressions and statements are written over
an evaluator for their parts; `Evaluator.ofFuel` ties the knot, each level of nesting and each round
of a loop taking from the fuel. Fuel only bounds how far a run is followed: `Stop.outOfFuel` is told
apart from everything a program can do.
-/

namespace GenLang

namespace Evaluator

/-! ## Expressions -/

/-- A binary operation. `&&` and `||` look at their second operand only if they need it, and `+`
joins as soon as one side is a text. -/
def binary (k : Evaluator) (op : BinaryOp) (lhs rhs : Image.Expr) : Run Value := do
  let a ← k.eval lhs
  if op == .and && !a.isTruthy then return .bool false
  if op == .or && a.isTruthy then return .bool true
  let b ← k.eval rhs
  if op == .add && (a.asString?.isSome || b.asString?.isSome) then
    let left ← k.display a
    let right ← k.display b
    return .str (left ++ right)
  let (v, heap) ← Run.ofExcept ((← Run.heap).binary op a b)
  Run.modifyHeap fun _ => heap
  return v

def evalExpr (k : Evaluator) (e : Image.Expr) : Run Value := do
  match e with
  | .const c => return .ofLiteral c
  | .slot slot => Run.getLocal slot
  | .self => Run.getThis
  | .type t =>
    let c ← Run.resolve t
    return .type c t.name
  | .list items => Run.newList (← items.mapM k.eval).toArray
  | .new t args =>
    let c ← Run.resolve t
    let args ← args.mapM k.eval
    k.construct c args
  | .field target name =>
    let target ← k.eval target
    k.getMember target name
  | .staticField owner name =>
    let c ← Run.resolve owner
    k.readStatic c name
  | .call target method args =>
    let target ← k.eval target
    let args ← args.mapM k.eval
    k.callValue target method args
  | .staticCall owner method args =>
    let c ← Run.resolve owner
    let args ← args.mapM k.eval
    k.callStatic c method args
  | .index target i =>
    let target ← k.eval target
    let i ← k.eval i
    Run.ofExcept ((← Run.heap).index target i)
  | .unary op operand =>
    let v ← k.eval operand
    Run.ofExcept ((← Run.heap).unary op v)
  | .binary op lhs rhs => k.binary op lhs rhs
  | .await operand =>
    -- A task has its result from the beginning on, and any other value stands for itself.
    match ← k.eval operand with
    | .task a => return (← Run.heap).result a
    | v => return v

/-! ## Statements -/

def assign (k : Evaluator) (p : Image.Place) (value : Image.Expr) : Run Unit := do
  match p with
  | .slot slot =>
    let v ← k.eval value
    Run.setLocal slot v
  | .field target name =>
    let target ← k.eval target
    let v ← k.eval value
    k.setMember target name v
  | .staticField owner name =>
    let c ← Run.resolve owner
    let v ← k.eval value
    k.writeStatic c name v
  | .index target i =>
    let target ← k.eval target
    let i ← k.eval i
    let v ← k.eval value
    let heap ← Run.ofExcept ((← Run.heap).setIndex target i v)
    Run.modifyHeap fun _ => heap

/-- Rounds of a loop as long as its condition holds. -/
def whileRounds (k : Evaluator) (line : Nat) (cond : Image.Expr) (body : List Image.Stmt) :
    Nat → Run Flow
  | 0 => throw .outOfFuel
  | n + 1 => do
    Run.checkCancelled
    Run.setLine line
    if !(← k.eval cond).isTruthy then return .next
    match ← k.block body with
    | .breakLoop => return .next
    | .ret v => return .ret v
    | .next | .continueLoop => k.whileRounds line cond body n

/-- A round of a loop for each item. -/
def forRounds (k : Evaluator) (slot : Nat) (body : List Image.Stmt) : List Value → Run Flow
  | [] => return .next
  | item :: rest => do
    Run.checkCancelled
    Run.setLocal slot item
    match ← k.block body with
    | .breakLoop => return .next
    | .ret v => return .ret v
    | .next | .continueLoop => k.forRounds slot body rest

/-- What a loop goes through: the items a list has when the loop begins, or the characters of a
text. -/
def itemsOf (h : Heap) (v : Value) : Except Fault (List Value) :=
  match v with
  | .list a => .ok (h.items a).toList
  | .str s => .ok (s.toList.map fun c => .str (String.singleton c))
  | .null => .error .nullReference
  | v => .error (.notIterable (h.typeName v))

/-- Runs a handler if the body throws, in the calls that were in progress before the body. Being
cancelled is not handled. -/
def handle (body : Run Flow) (handler : Value → Run Flow) : Run Flow := fun env m =>
  let depth := m.frames.length
  match body env m with
  -- Calls that the body left open are gone, with their frames.
  | .error (.thrown v _) m =>
    handler v env { m with frames := m.frames.drop (m.frames.length - depth) }
  | result => result

def execStmt (k : Evaluator) (s : Image.Stmt) : Run Flow := do
  Run.setLine s.line
  match s with
  | .declare _ slot init =>
    match init with
    | some init => Run.setLocal slot (← k.eval init)
    | none => Run.setLocal slot .null
    return .next
  | .assign _ p value =>
    k.assign p value
    return .next
  | .expr _ value =>
    let _ ← k.eval value
    return .next
  | .cond _ cond thenBody elseBody =>
    if (← k.eval cond).isTruthy then k.block thenBody else k.block elseBody
  -- Rounds are no nesting, so a loop has a bound of its own.
  | .whileLoop line cond body => k.whileRounds line cond body k.fuel
  | .forLoop _ slot iterable body =>
    let v ← k.eval iterable
    -- The items are taken once: a round may change the list.
    let items ← Run.ofExcept (itemsOf (← Run.heap) v)
    k.forRounds slot body items
  | .ret _ value =>
    match value with
    | some value => return .ret (← k.eval value)
    | none => return .ret .null
  | .throw _ value =>
    let v ← k.eval value
    k.throwValue v
  | .tryCatch _ body slot handler =>
    handle (k.block body) fun v => do
      match slot with
      | some slot => Run.setLocal slot v
      | none => pure ()
      k.block handler
  | .breakLoop _ => return .breakLoop
  | .continueLoop _ => return .continueLoop
  | .block _ body => k.block body

/-! ## The knot -/

mutual

def evalTo : Nat → Image.Expr → Run Value
  | 0, _ => throw .outOfFuel
  | n + 1, e => evalExpr ⟨n, evalTo n, execTo n, displayTo n⟩ e

def execTo : Nat → Image.Stmt → Run Flow
  | 0, _ => throw .outOfFuel
  | n + 1, s => execStmt ⟨n, evalTo n, execTo n, displayTo n⟩ s

def displayTo : Nat → Value → Run String
  | 0, _ => throw .outOfFuel
  | n + 1, v => displayValue ⟨n, evalTo n, execTo n, displayTo n⟩ v

end

/-- Evaluation with an amount of fuel. -/
def ofFuel (n : Nat) : Evaluator :=
  ⟨n, evalTo n, execTo n, displayTo n⟩

end Evaluator

/-- How a run ends for those who started it. -/
inductive RuntimeError where
  | exception (info : ExceptionInfo)
  | cancelled
  | outOfFuel
deriving DecidableEq, Repr, Inhabited

namespace RuntimeError

def ofStop : Stop → RuntimeError
  | .thrown _ info => exception info
  | .cancelled => cancelled
  | .outOfFuel => outOfFuel

def message : RuntimeError → String
  | exception info => info.description
  | cancelled => "execution was cancelled"
  | outOfFuel => "execution ran out of fuel"

/-- The name and the message of the exception as which the end of a run is reported. -/
def summary : RuntimeError → String × String
  | exception info => (info.name, info.message)
  | cancelled => ("OperationCanceledException", "The operation was canceled.")
  | outOfFuel => ("OutOfFuelException", "The operation ran out of fuel.")

end RuntimeError

/-- What runs need that differs from program to program only by choice: how many calls may be in
progress, and how far a run is followed. -/
structure Limits where
  maxCallDepth : Nat := 256
  fuel : Nat := Nat.pow 2 62
deriving DecidableEq, Repr, Inhabited

namespace Machine

/-- Goes on with a run: its value or its end, and the state afterwards. -/
def run {α : Type} (m : Machine) (env : Environment) (body : Run α) :
    Except RuntimeError α × Machine :=
  match body env m with
  | .ok a m => (.ok a, m)
  | .error e m => (.error (.ofStop e), m)

end Machine

end GenLang
