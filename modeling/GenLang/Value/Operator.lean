import GenLang.Value
import GenLang.Fault
import GenLang.Decimal.Binary64

/-!
# Operators and elements

Integers have 64 bits and wrap around, division goes towards zero, and an operation on an integer
and a double is one on doubles. Joining texts is not here: it may run code of the program.
-/

namespace GenLang

namespace Heap

def unary (h : Heap) (op : UnaryOp) (v : Value) : Except Fault Value :=
  match op, v with
  | .not, v => .ok (.bool !v.isTruthy)
  | .neg, .int n => .ok (.int (-n))
  | .neg, .float x => .ok (.float (-x))
  | .neg, v => .error (.negatedOperand (h.typeName v))

end Heap

namespace Value

/-- A number as a double. -/
def asFloat? : Value → Option Float
  | int n => some n.toFloat
  | float x => some x
  | _ => none

/-- The order of two numbers or two texts; a double that is no number has none. -/
def compare? : Value → Value → Option Ordering
  | int a, int b => some (compare a.toInt b.toInt)
  | str a, str b => some (if a < b then .lt else if a == b then .eq else .gt)
  | a, b => do
    let x ← a.asFloat?
    let y ← b.asFloat?
    if x < y then some .lt
    else if x == y then some .eq
    else if y < x then some .gt
    else none

/-- Whether an order satisfies a comparison. -/
def satisfies (op : BinaryOp) (o : Ordering) : Bool :=
  match op with
  | .lt => o == .lt
  | .ltEq => o != .gt
  | .gt => o == .gt
  | _ => o != .lt

/-- Arithmetic of 64 bit integers. -/
def intArithmetic (op : BinaryOp) (a b : Int64) : Except Fault Int64 :=
  match op with
  | .add => .ok (a + b)
  | .sub => .ok (a - b)
  | .mul => .ok (a * b)
  | .div => if b == 0 then .error .divideByZero else .ok (a / b)
  | _ => if b == 0 then .error .divideByZero else .ok (a % b)

def floatArithmetic (op : BinaryOp) (a b : Float) : Float :=
  match op with
  | .add => a + b
  | .sub => a - b
  | .mul => a * b
  | .div => a / b
  | _ => Binary64.remainder a b

end Value

namespace Heap

def arithmetic (h : Heap) (op : BinaryOp) (a b : Value) : Except Fault (Value × Heap) :=
  match a, b, op with
  | .int a, .int b, op => do return (.int (← Value.intArithmetic op a b), h)
  | .list a, .list b, .add => .ok (h.newList (h.items a ++ h.items b))
  | a, b, op =>
    match a.asFloat?, b.asFloat? with
    | some x, some y => .ok (.float (Value.floatArithmetic op x y), h)
    | _, _ => .error (.binaryOperands op (h.typeName a) (h.typeName b))

/-- A binary operation on operands that are evaluated. -/
def binary (h : Heap) (op : BinaryOp) (a b : Value) : Except Fault (Value × Heap) :=
  match op with
  | .eq => .ok (.bool (a.equals b), h)
  | .notEq => .ok (.bool !a.equals b, h)
  | .and => .ok (.bool (a.isTruthy && b.isTruthy), h)
  | .or => .ok (.bool (a.isTruthy || b.isTruthy), h)
  | .lt | .ltEq | .gt | .gtEq =>
    match Value.compare? a b with
    | some o => .ok (.bool (Value.satisfies op o), h)
    | none => .error (.binaryOperands op (h.typeName a) (h.typeName b))
  | .add | .sub | .mul | .div | .rem => h.arithmetic op a b

/-- An index as a natural number. -/
def natural? (n : Int64) : Option Nat :=
  if n < 0 then none else some n.toInt.toNat

/-- The element of a list, or the character of a text, as a text. -/
def index (h : Heap) (target i : Value) : Except Fault Value :=
  match target, i with
  | .null, _ => .error .nullReference
  | .list a, .int n =>
    match (natural? n).bind ((h.items a)[·]?) with
    | some v => .ok v
    | none => .error .indexOutOfRange
  | .str s, .int n =>
    match (natural? n).bind (s.toList[·]?) with
    | some c => .ok (.str (String.singleton c))
    | none => .error .indexOutOfRange
  | target, i => .error (.notIndexable (h.typeName i) (h.typeName target))

/-- Writes the element of a list. -/
def setIndex (h : Heap) (target i v : Value) : Except Fault Heap :=
  match target, i with
  | .null, _ => .error .nullReference
  | .list a, .int n =>
    match natural? n with
    | some k =>
      if k < (h.items a).size then .ok (h.modifyList a fun items => items.setIfInBounds k v)
      else .error .indexOutOfRange
    | none => .error .indexOutOfRange
  | target, _ => .error (.notElementAssignable (h.typeName target))

end Heap

end GenLang
