import GenLang.Token

/-!
# The lexer

At every place the longest lexeme of any rule is taken; of equal length, a keyword wins over a name.
`measure` finds the rule and the number of characters after the first, and `lexemes` tiles the
source with what `measure` finds. Nothing is lost: what belongs to no lexeme is a space between two
of them, and a character that begins no lexeme is an error token of its own.
-/

namespace GenLang

open Text

namespace Lexer

/-- Characters skipped between tokens: space, tab, line feed, carriage return, form feed. -/
def isSpace (c : Char) : Bool :=
  c == ' ' || c == '\t' || c == '\n' || c == '\r' || c == '\x0c'

def isLetter (c : Char) : Bool :=
  ('a' ≤ c && c ≤ 'z') || ('A' ≤ c && c ≤ 'Z') || c == '_'

def isDigit (c : Char) : Bool :=
  '0' ≤ c && c ≤ '9'

def isWordChar (c : Char) : Bool :=
  isLetter c || isDigit c

/-- The characters of a quoted string after its opening quote, up to and with the closing one, and
whether there is one. A backslash takes the next character with it; where that is a line feed, or
missing, the string stops before the backslash. -/
def quoted : List Char → Nat × Bool
  | [] => (0, false)
  | '"' :: _ => (1, true)
  | '\\' :: [] => (0, false)
  | '\\' :: '\n' :: _ => (0, false)
  | '\\' :: _ :: rest =>
    let (n, closed) := quoted rest
    (n + 2, closed)
  | _ :: rest =>
    let (n, closed) := quoted rest
    (n + 1, closed)

/-- The characters of a verbatim string after its opening quote, up to and with the closing one,
and whether there is one. A doubled quote does not close it. -/
def verbatim : List Char → Nat × Bool
  | [] => (0, false)
  | '"' :: '"' :: rest =>
    let (n, closed) := verbatim rest
    (n + 2, closed)
  | '"' :: _ => (1, true)
  | _ :: rest =>
    let (n, closed) := verbatim rest
    (n + 1, closed)

/-- The characters of a block comment after its opening delimiter, up to and with the closing one,
and whether there is one. -/
def blockComment : List Char → Nat × Bool
  | [] => (0, false)
  | '*' :: '/' :: _ => (2, true)
  | _ :: rest =>
    let (n, closed) := blockComment rest
    (n + 1, closed)

/-- The rules of the lexer. -/
inductive Rule where
  | float
  | int
  | str
  | verbatim
  | unterminated
  | word
  | comment
  | symbol (sign : Symbol)
  | error
deriving DecidableEq, Repr, Inhabited

/-- The token that a rule makes of the text it matched. -/
def Rule.token (rule : Rule) (text : String) : Token :=
  match rule with
  | float => .float text
  | int => .int text
  | str => .str text
  | verbatim => .verbatim text
  | unterminated => .unterminated text
  | word =>
    match Keyword.ofText? text with
    | some k => .keyword k
    | none => .ident text
  | comment => .comment text
  | symbol s => .symbol s
  | error => .error text

/-- Digits, and with a point and more digits after them a float. -/
def number (rest : List Char) : Rule × Nat :=
  let digits := (rest.takeWhile isDigit).length
  match rest.dropWhile isDigit with
  | '.' :: fraction =>
    let places := (fraction.takeWhile isDigit).length
    -- A point without digits behind it is not part of the number.
    if places = 0 then (.int, digits) else (.float, digits + 1 + places)
  | _ => (.int, digits)

/-- The rule of the longest lexeme at the start of a text `c :: rest`, and how many characters of
`rest` belong to it. -/
def measure (c : Char) (rest : List Char) : Rule × Nat :=
  if isDigit c then number rest
  else if isLetter c then (.word, (rest.takeWhile isWordChar).length)
  else if c = '"' then
    let (n, closed) := quoted rest
    (if closed then .str else .unterminated, n)
  else
    match c, rest with
    | '@', '"' :: body =>
      let (n, closed) := verbatim body
      (if closed then .verbatim else .unterminated, n + 1)
    | '/', '/' :: body => (.comment, (body.takeWhile (· != '\n')).length + 1)
    | '/', '*' :: body =>
      let (n, closed) := blockComment body
      -- A block comment left open makes one error token of all that follows.
      (if closed then .comment else .error, n + 1)
    | c, rest =>
      match Symbol.ofChars? (c :: rest) with
      | some s => (.symbol s, s.text.length - 1)
      | none => (.error, 0)

/-- The lexemes of a text that stands at byte `start` of its source, comments included. -/
def lexemes (start : Nat) : List Char → List Lexeme
  | [] => []
  | c :: rest =>
    if isSpace c then lexemes (start + c.utf8Size) rest
    else
      let (rule, n) := measure c rest
      let taken := c :: rest.take n
      let stop := start + byteLength taken
      ⟨rule.token (String.ofList taken), ⟨start, stop⟩⟩ :: lexemes stop (rest.drop n)
termination_by cs => cs.length
decreasing_by
  · simp
  · simp only [List.length_drop, List.length_cons]; omega

end Lexer

/-- The lexemes of a source, comments included. -/
def Lexeme.scan (source : String) : List Lexeme :=
  Lexer.lexemes 0 source.toList

/-- The lexemes of a source without its comments. -/
def Lexeme.ofSource (source : String) : List Lexeme :=
  (scan source).filter (!·.token.isComment)

end GenLang
