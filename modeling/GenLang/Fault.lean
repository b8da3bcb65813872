import GenLang.Image

/-!
# Faults and exceptions

What can go wrong in built-in code is a `Fault`; it becomes an exception of the program, with a name
and a message. An exception that nobody catches is described with the calls that led to it, the
innermost first.
-/

namespace GenLang

/-- What built-in code refuses. Types are given by the name they show. -/
inductive Fault where
  | nullReference
  | missingMember (type member : String)
  | argumentCount (method : String) (count : Nat)
  | noConstructor (type : String) (count : Nat)
  | binaryOperands (op : BinaryOp) (lhs rhs : String)
  | negatedOperand (type : String)
  | notIndexable (index target : String)
  | notElementAssignable (target : String)
  | notMemberAssignable (member type : String)
  | notIterable (type : String)
  | notActivatable (type : String)
  | notAString (argument : Nat) (method : String)
  | notAnInt (argument : Nat) (method : String)
  | emptyPattern
  | emptyHint
  | repeatedHint (hint : String)
  | unknownSeverity (message : String)
  | indexOutOfRange
  | substringOutOfRange
  | divideByZero
  | notANumber
  | invalidCast (type : String)
  | typeLoad (type : String)
  | notBound (type method : String)
  | notImplemented (type method : String)
  | stackOverflow
  /-- Stands for code of the program that stopped while built-in code waited for it. -/
  | interrupted (name message : String)
deriving DecidableEq, Repr, Inhabited

namespace Fault

/-- The name of the exception. -/
def name : Fault → String
  | nullReference => "NullReferenceException"
  | missingMember .. | argumentCount .. | noConstructor .. => "MissingMemberException"
  | binaryOperands .. | negatedOperand _ | notIndexable .. | notElementAssignable _
  | notMemberAssignable .. | notIterable _ | notActivatable _ => "InvalidOperationException"
  | notAString .. | notAnInt .. | emptyPattern | emptyHint | repeatedHint _
  | unknownSeverity _ => "ArgumentException"
  | indexOutOfRange => "IndexOutOfRangeException"
  | substringOutOfRange => "ArgumentOutOfRangeException"
  | divideByZero => "DivideByZeroException"
  | notANumber => "FormatException"
  | invalidCast _ => "InvalidCastException"
  | typeLoad _ => "TypeLoadException"
  | notBound .. | notImplemented .. => "MissingMethodException"
  | stackOverflow => "StackOverflowException"
  | interrupted name _ => name

def message : Fault → String
  | nullReference => "Object reference not set to an instance of an object."
  | missingMember type member =>
    "'" ++ type ++ "' does not contain a member named '" ++ member ++ "'."
  | argumentCount method count =>
    "No overload for method '" ++ method ++ "' takes " ++ toString count ++ " arguments."
  | noConstructor type count =>
    "'" ++ type ++ "' does not contain a constructor that takes " ++ toString count ++
      " arguments."
  | binaryOperands op lhs rhs =>
    "Operator '" ++ op.text ++ "' cannot be applied to operands of type '" ++ lhs ++ "' and '" ++
      rhs ++ "'."
  | negatedOperand type => "Operator '-' cannot be applied to operand of type '" ++ type ++ "'."
  | notIndexable index target =>
    "Cannot apply indexing with '" ++ index ++ "' to a value of type '" ++ target ++ "'."
  | notElementAssignable target =>
    "Cannot assign to an element of a value of type '" ++ target ++ "'."
  | notMemberAssignable member type =>
    "Cannot assign to member '" ++ member ++ "' of a value of type '" ++ type ++ "'."
  | notIterable type => "foreach cannot operate on a value of type '" ++ type ++ "'."
  | notActivatable type => "Cannot create an instance of '" ++ type ++ "'."
  | notAString argument method =>
    "Argument " ++ toString argument ++ " of '" ++ method ++ "' must be a String."
  | notAnInt argument method =>
    "Argument " ++ toString argument ++ " of '" ++ method ++ "' must be an Int."
  | emptyPattern => "String cannot be of zero length."
  | emptyHint => "The hintName of 'AddSource' must not be empty."
  | repeatedHint hint =>
    "The hintName '" ++ hint ++ "' of 'AddSource' must be unique within a generator."
  | unknownSeverity message => message
  | indexOutOfRange => "Index was outside the bounds of the array."
  | substringOutOfRange => "Index and length must refer to a location within the string."
  | divideByZero => "Attempted to divide by zero."
  | notANumber => "Input string was not in a correct format."
  | invalidCast type => "Unable to cast object of type '" ++ type ++ "' to 'Int'."
  | typeLoad type => "Could not load type '" ++ type ++ "'."
  | notBound type method =>
    "No native implementation is bound to '" ++ type ++ "." ++ method ++ "'."
  | notImplemented type method => "Method '" ++ type ++ "." ++ method ++ "' has no implementation."
  | stackOverflow => "Operation caused a stack overflow."
  | interrupted _ message => message

/-- What built-in code sees of a run that is cancelled. -/
def cancelled : Fault :=
  interrupted "OperationCanceledException" "The operation was canceled."

end Fault

/-- A call in progress: the member and the line it is at. -/
structure StackFrame where
  typeName : String
  method : String
  file : String
  line : Nat
deriving DecidableEq, Repr, Inhabited

def StackFrame.render (f : StackFrame) : String :=
  "   at " ++ f.typeName ++ "." ++ f.method ++ "() in " ++ f.file ++ ":line " ++ toString f.line

/-- What is told about an exception. -/
structure ExceptionInfo where
  name : String
  message : String
  /-- Calls in progress, the innermost first. -/
  trace : List StackFrame
deriving DecidableEq, Repr, Inhabited

/-- Name and message, then a line for each call. -/
def ExceptionInfo.description (e : ExceptionInfo) : String :=
  "\n".intercalate ((e.name ++ ": " ++ e.message) :: e.trace.map (·.render))

end GenLang
