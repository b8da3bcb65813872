import GenLang.Text.Position

/-!
# Diagnostics

What the compiler and the generators report: a severity, a code, a message and a place if there is
one. The compiler's own codes are the type `Code`; generators choose theirs freely, so a diagnostic
keeps its code as text.
-/

namespace GenLang

open Text

/-- How grave a diagnostic is. -/
inductive Severity where
  | error
  | warning
  | info
deriving DecidableEq, Repr, Inhabited

namespace Severity

/-- The word used in reports. -/
def name : Severity → String
  | error => "error"
  | warning => "warning"
  | info => "info"

/-- Reads a severity whatever the case of its ASCII letters; `information` also means `info`. -/
def ofName? (text : String) : Option Severity :=
  match String.ofList (text.toList.map Char.toLower) with
  | "error" => some error
  | "warning" => some warning
  | "info" => some info
  | "information" => some info
  | _ => none

/-- The complaint about a severity that `ofName?` does not know. -/
def unknownMessage (text : String) : String :=
  "unknown diagnostic severity '" ++ text ++ "'"

end Severity

/-- The codes of the compiler's own diagnostics. -/
inductive Code where
  | unexpectedChar
  | unexpectedEnd
  | unexpectedToken
  | unterminatedString
  | duplicateType
  | duplicateMember
  | unknownBaseType
  | inheritanceCycle
  | invalidBaseList
  | missingCapabilityMember
  | invalidMethodBody
  | nativeNotAllowed
  | unknownTypeName
  | unknownName
  | unknownMember
  | argumentCount
  | cannotInstantiate
  | selfInStaticContext
  | invalidAssignmentTarget
  | jumpOutsideLoop
  | instanceMemberInStaticContext
  | duplicateLocal
  | unusedLocal
  | unreachableCode
  | missingEntryPoint
  | generatorFailed
deriving DecidableEq, Repr, Inhabited

namespace Code

/-- The letter `P` is for syntax, `E01` for declarations, `E02` for bodies, `W` for warnings. -/
def text : Code → String
  | unexpectedChar => "P0001"
  | unexpectedEnd => "P0002"
  | unexpectedToken => "P0003"
  | unterminatedString => "P0004"
  | duplicateType => "E0101"
  | duplicateMember => "E0102"
  | unknownBaseType => "E0103"
  | inheritanceCycle => "E0104"
  | invalidBaseList => "E0105"
  | missingCapabilityMember => "E0106"
  | invalidMethodBody => "E0107"
  | nativeNotAllowed => "E0108"
  | unknownTypeName => "E0109"
  | unknownName => "E0201"
  | unknownMember => "E0202"
  | argumentCount => "E0203"
  | cannotInstantiate => "E0204"
  | selfInStaticContext => "E0205"
  | invalidAssignmentTarget => "E0206"
  | jumpOutsideLoop => "E0207"
  | instanceMemberInStaticContext => "E0208"
  | duplicateLocal => "E0209"
  | unusedLocal => "W0301"
  | unreachableCode => "W0302"
  | missingEntryPoint => "W0303"
  | generatorFailed => "GEN0001"

def isWarning : Code → Bool
  | unusedLocal | unreachableCode | missingEntryPoint => true
  | _ => false

/-- No code of the compiler is merely informational. -/
def isInfo (_ : Code) : Bool := false

def severity (c : Code) : Severity :=
  if c.isInfo then .info else if c.isWarning then .warning else .error

/-- Every code, in the order of the declaration. -/
def all : List Code :=
  [unexpectedChar, unexpectedEnd, unexpectedToken, unterminatedString, duplicateType,
   duplicateMember, unknownBaseType, inheritanceCycle, invalidBaseList, missingCapabilityMember,
   invalidMethodBody, nativeNotAllowed, unknownTypeName, unknownName, unknownMember,
   argumentCount, cannotInstantiate, selfInStaticContext, invalidAssignmentTarget,
   jumpOutsideLoop, instanceMemberInStaticContext, duplicateLocal, unusedLocal, unreachableCode,
   missingEntryPoint, generatorFailed]

end Code

/-- A message with its severity, its code and its place, if it has one. -/
structure Diagnostic where
  severity : Severity
  code : String
  message : String
  location : Option Location := none
deriving DecidableEq, Repr, Inhabited

namespace Diagnostic

/-- A diagnostic of the compiler, with the severity of its code. -/
def ofCode (code : Code) (message : String) : Diagnostic :=
  { severity := code.severity, code := code.text, message }

/-- The same diagnostic at a place. -/
def located (d : Diagnostic) (location : Location) : Diagnostic :=
  { d with location := some location }

def isError (d : Diagnostic) : Bool :=
  d.severity == .error

/-- Written `file(line,col): severity code: message`, without the place and its colon if there is
none. -/
def render (d : Diagnostic) : String :=
  (match d.location with
   | some l => l.render ++ ": "
   | none => "") ++ d.severity.name ++ " " ++ d.code ++ ": " ++ d.message

end Diagnostic

end GenLang
