import GenLang.Text.Span

/-!
# Tokens

The words and signs of Gen source. A token keeps the text it was read from: literals, names and
comments as their payload, keywords and symbols as their one spelling.
-/

namespace GenLang

open Text

/-- The reserved words. -/
inductive Keyword where
  | type_
  | capability
  | abstract_
  | static_
  | native
  | async_
  | await
  | fn_
  | let_
  | if_
  | else_
  | while_
  | for_
  | in_
  | return_
  | throw_
  | try_
  | catch_
  | break_
  | continue_
  | new_
  | self_
  | true_
  | false_
  | null
deriving DecidableEq, Repr, Inhabited

namespace Keyword

def text : Keyword → String
  | type_ => "type"
  | capability => "capability"
  | abstract_ => "abstract"
  | static_ => "static"
  | native => "extern"
  | async_ => "async"
  | await => "await"
  | fn_ => "fn"
  | let_ => "let"
  | if_ => "if"
  | else_ => "else"
  | while_ => "while"
  | for_ => "for"
  | in_ => "in"
  | return_ => "return"
  | throw_ => "throw"
  | try_ => "try"
  | catch_ => "catch"
  | break_ => "break"
  | continue_ => "continue"
  | new_ => "new"
  | self_ => "self"
  | true_ => "true"
  | false_ => "false"
  | null => "null"

def all : List Keyword :=
  [type_, capability, abstract_, static_, native, async_, await, fn_, let_, if_, else_, while_,
   for_, in_, return_, throw_, try_, catch_, break_, continue_, new_, self_, true_, false_, null]

/-- The keyword a word spells. -/
def ofText? (word : String) : Option Keyword :=
  all.find? (·.text == word)

theorem ofText?_text (k : Keyword) : ofText? k.text = some k := by
  cases k <;> decide

end Keyword

/-- Brackets, separators and operators. -/
inductive Symbol where
  | leftBrace
  | rightBrace
  | leftParen
  | rightParen
  | leftBracket
  | rightBracket
  | comma
  | semicolon
  | dot
  | colon
  | arrow
  | equal
  | notEqual
  | lessEqual
  | greaterEqual
  | less
  | greater
  | assign
  | and
  | or
  | bang
  | plus
  | minus
  | star
  | slash
  | percent
deriving DecidableEq, Repr, Inhabited

namespace Symbol

def text : Symbol → String
  | leftBrace => "\x7b"
  | rightBrace => "\x7d"
  | leftParen => "("
  | rightParen => ")"
  | leftBracket => "["
  | rightBracket => "]"
  | comma => ","
  | semicolon => ";"
  | dot => "."
  | colon => ":"
  | arrow => "->"
  | equal => "=="
  | notEqual => "!="
  | lessEqual => "<="
  | greaterEqual => ">="
  | less => "<"
  | greater => ">"
  | assign => "="
  | and => "&&"
  | or => "||"
  | bang => "!"
  | plus => "+"
  | minus => "-"
  | star => "*"
  | slash => "/"
  | percent => "%"

/-- The longest symbol a text begins with. -/
def ofChars? : List Char → Option Symbol
  | '-' :: '>' :: _ => some arrow
  | '=' :: '=' :: _ => some equal
  | '!' :: '=' :: _ => some notEqual
  | '<' :: '=' :: _ => some lessEqual
  | '>' :: '=' :: _ => some greaterEqual
  | '&' :: '&' :: _ => some and
  | '|' :: '|' :: _ => some or
  | '\x7b' :: _ => some leftBrace
  | '\x7d' :: _ => some rightBrace
  | '(' :: _ => some leftParen
  | ')' :: _ => some rightParen
  | '[' :: _ => some leftBracket
  | ']' :: _ => some rightBracket
  | ',' :: _ => some comma
  | ';' :: _ => some semicolon
  | '.' :: _ => some dot
  | ':' :: _ => some colon
  | '<' :: _ => some less
  | '>' :: _ => some greater
  | '=' :: _ => some assign
  | '!' :: _ => some bang
  | '+' :: _ => some plus
  | '-' :: _ => some minus
  | '*' :: _ => some star
  | '/' :: _ => some slash
  | '%' :: _ => some percent
  | _ => none

theorem ofChars?_text (s : Symbol) : ofChars? s.text.toList = some s := by
  cases s <;> rfl

end Symbol

/-- One token. A payload is the text as it stands in the source, delimiters included. -/
inductive Token where
  /-- Digits, a point, digits. -/
  | float (text : String)
  /-- Digits. -/
  | int (text : String)
  /-- A quoted string with backslash escapes. -/
  | str (text : String)
  /-- A string written with a leading `@`, in which a doubled quote stands for one. -/
  | verbatim (text : String)
  /-- A string, of either kind, whose closing quote is missing. -/
  | unterminated (text : String)
  | ident (text : String)
  | comment (text : String)
  | keyword (word : Keyword)
  | symbol (sign : Symbol)
  /-- Text with which no token begins. -/
  | error (text : String)
deriving DecidableEq, Repr, Inhabited

namespace Token

/-- The source text of a token. -/
def text : Token → String
  | float t | int t | str t | verbatim t | unterminated t | ident t | comment t | error t => t
  | keyword k => k.text
  | symbol s => s.text

/-- How a message shows a token: its text, but a placeholder for an error. -/
def render : Token → String
  | error _ => "<error>"
  | t => t.text

/-- Comments mean nothing to the parser. -/
def isComment : Token → Bool
  | comment _ => true
  | _ => false

/-- Reported by the lexer, so of no interest as a token the parser did not expect. -/
def isLexicalError : Token → Bool
  | error _ | unterminated _ => true
  | _ => false

/-- Words at which the parser takes up its work after a broken declaration. -/
def startsType : Token → Bool
  | keyword .type_ | keyword .capability | keyword .abstract_ => true
  | _ => false

end Token

/-- A token at its place in the source. -/
structure Lexeme where
  token : Token
  span : Span
deriving DecidableEq, Repr, Inhabited

end GenLang
