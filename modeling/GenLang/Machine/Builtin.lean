import GenLang.Machine.Native
import GenLang.Value.Operator
import GenLang.Decimal.Integer
import GenLang.Text.Blank
import GenLang.Text.Case
import GenLang.Text.Search

/-!
# Built-in members and native methods

What texts, lists and tasks can do, and the native methods of the library `System`. Positions in
texts count characters.
-/

namespace GenLang

open Text

/-- A property of a text, a list or a task. -/
def Heap.builtinMember (h : Heap) (target : Value) (name : String) : Except Fault Value :=
  match target, name with
  | .str s, "Length" => .ok (.int (Int64.ofNat s.length))
  | .list a, "Count" => .ok (.int (Int64.ofNat (h.items a).size))
  | .task a, "Result" => .ok (h.result a)
  | target, name => .error (.missingMember (h.typeName target) name)

namespace NativeCode

/-! ## Arguments -/

/-- Refuses a number of arguments outside some bounds. -/
def expectArgs (method : String) (args : List Value) (least most : Nat) : NativeCode Unit := do
  if args.length < least || most < args.length then
    fail (.argumentCount method args.length)

def stringArg (method : String) (args : List Value) (index : Nat) : NativeCode String :=
  match args[index]?.bind (·.asString?) with
  | some s => return s
  | none => fail (.notAString (index + 1) method)

def intArg (method : String) (args : List Value) (index : Nat) : NativeCode Int64 :=
  match args[index]?.bind (·.asInt?) with
  | some n => return n
  | none => fail (.notAnInt (index + 1) method)

/-- The argument at a place; `null` if it is missing. -/
def argAt (args : List Value) (index : Nat) : Value :=
  args.getD index .null

/-! ## Texts -/

def position (n : Option Nat) : Value :=
  match n with
  | some n => .int (Int64.ofNat n)
  | none => .int (-1)

def substring (s : String) (start : Int64) (length : Option Int64) : NativeCode Value := do
  let found :=
    match Heap.natural? start, length with
    | some start, none => substring? s.toList start none
    | some start, some length =>
      (Heap.natural? length).bind fun n => substring? s.toList start (some n)
    | none, _ => none
  match found with
  | some cs => return .str (String.ofList cs)
  | none => fail .substringOutOfRange

def stringMethod (s method : String) (args : List Value) : NativeCode Value := do
  match method with
  | "ToUpper" =>
    expectArgs method args 0 0
    return .str (upper s)
  | "ToLower" =>
    expectArgs method args 0 0
    return .str (lower s)
  | "Trim" =>
    expectArgs method args 0 0
    return .str (trim s)
  | "Contains" =>
    expectArgs method args 1 1
    return .bool (hasInfix (← stringArg method args 0).toList s.toList)
  | "StartsWith" =>
    expectArgs method args 1 1
    return .bool ((← stringArg method args 0).toList.isPrefixOf s.toList)
  | "EndsWith" =>
    expectArgs method args 1 1
    return .bool ((← stringArg method args 0).toList.isSuffixOf s.toList)
  | "IndexOf" =>
    expectArgs method args 1 1
    return position (indexOf? (← stringArg method args 0).toList s.toList)
  | "Replace" =>
    expectArgs method args 2 2
    let pattern ← stringArg method args 0
    -- Refused before the new text is asked for, which may run code of the program.
    if pattern.isEmpty then fail .emptyPattern
    let new ← text (argAt args 1)
    return .str (replace pattern new s)
  | "Split" =>
    expectArgs method args 1 1
    let separator ← stringArg method args 0
    place (·.newList ((split separator s).map Value.str).toArray)
  | "Substring" =>
    expectArgs method args 1 2
    let start ← intArg method args 0
    let length ←
      match args[1]? with
      | some _ => some <$> intArg method args 1
      | none => pure none
    substring s start length
  | _ => fail (.missingMember "String" method)

/-! ## Lists -/

def listMethod (address : Nat) (method : String) (args : List Value) :
    NativeCode Value := do
  match method with
  | "Add" =>
    expectArgs method args 1 1
    modifyHeap fun h => h.modifyList address (·.push (argAt args 0))
    return .null
  | "Contains" =>
    expectArgs method args 1 1
    return .bool (((← heap).items address).any fun v => v.equals (argAt args 0))
  | "IndexOf" =>
    expectArgs method args 1 1
    return position (((← heap).items address).findIdx? fun v => v.equals (argAt args 0))
  | "RemoveAt" =>
    expectArgs method args 1 1
    let index ← intArg method args 0
    match Heap.natural? index with
    | some i =>
      if i < ((← heap).items address).size then
        modifyHeap fun h => h.modifyList address (·.eraseIdxIfInBounds i)
        return .null
      else fail .indexOutOfRange
    | none => fail .indexOutOfRange
  | "Join" =>
    expectArgs method args 1 1
    let separator ← stringArg method args 0
    let parts ← ((← heap).items address).toList.mapM text
    return .str (separator.intercalate parts)
  | _ => fail (.missingMember "List" method)

/-- A method of a value whose class does not declare it. -/
def builtinMethod (target : Value) (method : String) (args : List Value) :
    NativeCode Value := do
  match method, target with
  | "ToString", _ =>
    expectArgs method args 0 0
    return .str (← text target)
  | "Equals", _ =>
    expectArgs method args 1 1
    return .bool (target.equals (argAt args 0))
  | _, .str s => stringMethod s method args
  | _, .list address => listMethod address method args
  | _, _ => fail (.missingMember ((← heap).typeName target) method)

/-! ## Native methods -/

/-- The integer a value stands for: that of its digits, or the double without its fraction, as far
as it fits in 64 bits. -/
def toInt (h : Heap) : Value → Except Fault Int64
  | .null => .ok 0
  | .int n => .ok n
  | .float x => .ok x.toInt64
  | .bool b => .ok (if b then 1 else 0)
  | .str s =>
    match Decimal.readInt64? (trim s) with
    | some n => .ok n
    | none => .error .notANumber
  | v => .error (.invalidCast (h.typeName v))

def native (method : Native) (args : List Value) : NativeCode Value := do
  let v := argAt args 0
  match method with
  | .writeLine =>
    write ((← text v) ++ "\n")
    return .null
  | .write =>
    write (← text v)
    return .null
  | .toText => return .str (← text v)
  | .toInt => return .int (← ofExcept (toInt (← heap) v))
  | .fromResult => place (·.newTask v)

end NativeCode

end GenLang
