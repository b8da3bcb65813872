import GenLang.Diagnostic

/-!
# Syntax errors

A syntax error is a cause at a span. Where it arose in the grammar may be added as context, how to
mend it as a hint.
-/

namespace GenLang

open Text

/-- What went wrong. -/
inductive SyntaxProblem where
  | unexpectedChar (text : String)
  | unexpectedEnd
  | unexpectedToken (text : String)
  | unterminatedString
  /-- A literal with no value, such as an integer that is too large. -/
  | invalidLiteral (message : String)
deriving DecidableEq, Repr, Inhabited

namespace SyntaxProblem

def message : SyntaxProblem → String
  | unexpectedChar c => "unexpected character '" ++ c ++ "'"
  | unexpectedEnd => "unexpected end of input"
  | unexpectedToken t => "unexpected token '" ++ t ++ "'"
  | unterminatedString => "unterminated string literal"
  | invalidLiteral m => m

/-- An invalid literal counts as an unexpected token. -/
def code : SyntaxProblem → Code
  | unexpectedChar _ => .unexpectedChar
  | unexpectedEnd => .unexpectedEnd
  | unexpectedToken _ | invalidLiteral _ => .unexpectedToken
  | unterminatedString => .unterminatedString

end SyntaxProblem

structure SyntaxError where
  problem : SyntaxProblem
  span : Span
  context : Option String := none
  hint : Option String := none
deriving DecidableEq, Repr, Inhabited

namespace SyntaxError

/-- The problem, and the context in parentheses if there is one. -/
def message (e : SyntaxError) : String :=
  e.problem.message ++
    match e.context with
    | some c => " (" ++ c ++ ")"
    | none => ""

/-- The error as a diagnostic of a file: the hint follows the message after a semicolon. -/
def toDiagnostic (e : SyntaxError) (file source : String) : Diagnostic :=
  let message :=
    match e.hint with
    | some h => e.message ++ "; " ++ h
    | none => e.message
  (Diagnostic.ofCode e.problem.code message).located (.ofByte file source e.span.start)

end SyntaxError

end GenLang
