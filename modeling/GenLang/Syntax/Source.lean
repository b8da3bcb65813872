import GenLang.Syntax.Parse
import GenLang.Syntax.Error
import GenLang.Text.Blank

/-!
# Sources and their syntax

`Parsed.ofSource` gives the declarations a source holds together with its syntax errors, in the
order of their places. The lexer's errors come from the tokens; a failure of the parser at such a
token says nothing new and is left out.
-/

namespace GenLang

open Text

/-- A named file of source text. -/
structure SourceUnit where
  name : String
  text : String
deriving DecidableEq, Repr, Inhabited

/-- Nothing but blank characters. -/
def SourceUnit.isBlank (u : SourceUnit) : Bool :=
  allBlank u.text

/-- Declarations and syntax errors of a source. -/
structure Parsed where
  types : List TypeDecl
  errors : List SyntaxError
deriving Inhabited

namespace Parsed

/-- The error at a token that the lexer could not make sense of. -/
def lexicalError? (t : Lexeme) : Option SyntaxError :=
  match t.token with
  | .error text => some { problem := .unexpectedChar text, span := t.span }
  | .unterminated _ =>
    some { problem := .unterminatedString, span := t.span, hint := some "add a closing '\"'" }
  | _ => none

/-- The error of a failure; the end of the text is the end of its last token. -/
def failureError? (finish : Nat) : Failure → Option SyntaxError
  | .invalid message span => some { problem := .invalidLiteral message, span }
  | .unexpected none => some { problem := .unexpectedEnd, span := ⟨finish, finish⟩ }
  | .unexpected (some t) =>
    if t.token.isLexicalError then none
    else some { problem := .unexpectedToken t.token.render, span := t.span }

/-- Reads a list of tokens without comments. -/
def ofLexemes (tokens : List Lexeme) : Parsed :=
  let finish := (tokens.getLast?.map (·.span.stop)).getD 0
  let (types, failures) := Parse.typeDecls (tokens.length + 1) tokens
  let errors := tokens.filterMap lexicalError? ++ failures.filterMap (failureError? finish)
  { types, errors := errors.mergeSort fun a b => a.span.start ≤ b.span.start }

def ofSource (source : String) : Parsed :=
  ofLexemes (Lexeme.ofSource source)

/-- No syntax error. -/
def isOk (p : Parsed) : Bool :=
  p.errors.isEmpty

/-- The errors as diagnostics of the file that was read. -/
def diagnostics (p : Parsed) (u : SourceUnit) : List Diagnostic :=
  p.errors.map (·.toDiagnostic u.name u.text)

end Parsed

end GenLang
