import GenLang.Decimal.Integer
import GenLang.Json

/-!
# Reading JSON

The strict grammar: nothing behind the last element, no unknown escapes, no control characters in
quotes, no half of a surrogate pair. A name that an object has twice is kept twice.
-/

namespace GenLang.Json

def isSpace (c : Char) : Bool :=
  c == ' ' || c == '\n' || c == '\t' || c == '\r'

def skipSpace (cs : List Char) : List Char :=
  cs.dropWhile isSpace

/-! ## Quoted texts -/

def hexValue? (c : Char) : Option Nat :=
  if '0' ≤ c && c ≤ '9' then some (c.toNat - 48)
  else if 'a' ≤ c && c ≤ 'f' then some (c.toNat - 87)
  else if 'A' ≤ c && c ≤ 'F' then some (c.toNat - 55)
  else none

/-- The unit that four digits stand for. -/
def unit? (a b c d : Char) : Option Nat := do
  let a ← hexValue? a
  let b ← hexValue? b
  let c ← hexValue? c
  let d ← hexValue? d
  return ((a * 16 + b) * 16 + c) * 16 + d

def isHighSurrogate (n : Nat) : Bool :=
  0xD800 ≤ n && n < 0xDC00

def isLowSurrogate (n : Nat) : Bool :=
  0xDC00 ≤ n && n < 0xE000

/-- The character of a unit, which may be the second of a pair. -/
def unitChar? (high : Option Nat) (n : Nat) : Option Char :=
  match high with
  | some h =>
    if isLowSurrogate n then some (Char.ofNat (0x10000 + (h - 0xD800) * 0x400 + (n - 0xDC00)))
    else none
  | none => if isLowSurrogate n then none else some (Char.ofNat n)

/-- The character of a short escape. -/
def shortEscape? (c : Char) : Option Char :=
  match c with
  | '"' => some '"'
  | '\\' => some '\\'
  | '/' => some '/'
  | 'b' => some '\x08'
  | 'f' => some '\x0c'
  | 'n' => some '\n'
  | 'r' => some '\r'
  | 't' => some '\t'
  | _ => none

/-- The characters up to the closing quote, and the rest behind it. `high` is the first half of a
pair that waits for its second. -/
def readQuoted (high : Option Nat) : List Char → Option (List Char × List Char)
  | '\\' :: 'u' :: a :: b :: c :: d :: rest => do
    let n ← unit? a b c d
    if high.isNone && isHighSurrogate n then readQuoted (some n) rest
    else
      let ch ← unitChar? high n
      let (cs, rest) ← readQuoted none rest
      return (ch :: cs, rest)
  | '\\' :: e :: rest => do
    if high.isSome then none
    let ch ← shortEscape? e
    let (cs, rest) ← readQuoted none rest
    return (ch :: cs, rest)
  | '"' :: rest => if high.isSome then none else some ([], rest)
  | c :: rest => do
    if high.isSome || c.toNat < 0x20 then none
    let (cs, rest) ← readQuoted none rest
    return (c :: cs, rest)
  | [] => none

/-! ## Numbers -/

def isDigit (c : Char) : Bool :=
  '0' ≤ c && c ≤ '9'

/-- One digit or more. -/
def readDigits (cs : List Char) : Option (List Char × List Char) :=
  match cs.takeWhile isDigit with
  | [] => none
  | ds => some (ds, cs.dropWhile isDigit)

/-- Digits without a zero in front of others. -/
def readWhole (cs : List Char) : Option (List Char × List Char) :=
  match readDigits cs with
  | some ('0' :: _ :: _, _) => none
  | r => r

def readFraction (cs : List Char) : Option (List Char × List Char) :=
  match cs with
  | '.' :: cs => (readDigits cs).map fun (ds, rest) => ('.' :: ds, rest)
  | cs => some ([], cs)

def readExponent (cs : List Char) : Option (List Char × List Char) :=
  match cs with
  | e :: cs =>
    if e = 'e' || e = 'E' then
      match cs with
      | s :: ds =>
        if s = '+' || s = '-' then (readDigits ds).map fun (ds, rest) => (e :: s :: ds, rest)
        else (readDigits cs).map fun (ds, rest) => (e :: ds, rest)
      | [] => none
    else some ([], e :: cs)
  | [] => some ([], [])

def readUnsigned (cs : List Char) : Option (List Char × List Char) := do
  let (whole, cs) ← readWhole cs
  let (fraction, cs) ← readFraction cs
  let (exponent, cs) ← readExponent cs
  return (whole ++ fraction ++ exponent, cs)

/-- The spelling of a number. -/
def readNumber (cs : List Char) : Option (List Char × List Char) :=
  match cs with
  | '-' :: cs => (readUnsigned cs).map fun (l, rest) => ('-' :: l, rest)
  | cs => readUnsigned cs

/-! ## Values -/

mutual

def readValue : Nat → List Char → Option (Json × List Char)
  | 0, _ => none
  | fuel + 1, cs =>
    match skipSpace cs with
    | 'n' :: 'u' :: 'l' :: 'l' :: rest => some (null, rest)
    | 't' :: 'r' :: 'u' :: 'e' :: rest => some (bool true, rest)
    | 'f' :: 'a' :: 'l' :: 's' :: 'e' :: rest => some (bool false, rest)
    | '"' :: rest => (readQuoted none rest).map fun (s, rest) => (str (String.ofList s), rest)
    | '[' :: rest =>
      match skipSpace rest with
      | ']' :: rest => some (arr [], rest)
      | rest => (readItems fuel rest).map fun (items, rest) => (arr items, rest)
    | '\x7b' :: rest =>
      match skipSpace rest with
      | '\x7d' :: rest => some (obj [], rest)
      | rest => (readMembers fuel rest).map fun (members, rest) => (obj members, rest)
    | cs => (readNumber cs).map fun (l, rest) => (number (String.ofList l), rest)

/-- Values up to the closing bracket. -/
def readItems : Nat → List Char → Option (List Json × List Char)
  | 0, _ => none
  | fuel + 1, cs => do
    let (item, rest) ← readValue fuel cs
    match skipSpace rest with
    | ']' :: rest => return ([item], rest)
    | ',' :: rest =>
      let (items, rest) ← readItems fuel rest
      return (item :: items, rest)
    | _ => none

/-- Names and values up to the closing brace. -/
def readMembers : Nat → List Char → Option (List (String × Json) × List Char)
  | 0, _ => none
  | fuel + 1, cs =>
    match skipSpace cs with
    | '"' :: cs => do
      let (name, rest) ← readQuoted none cs
      match skipSpace rest with
      | ':' :: rest =>
        let (value, rest) ← readValue fuel rest
        let member := (String.ofList name, value)
        match skipSpace rest with
        | '\x7d' :: rest => return ([member], rest)
        | ',' :: rest =>
          let (members, rest) ← readMembers fuel rest
          return (member :: members, rest)
        | _ => none
      | _ => none
    | _ => none

end

/-- The value of a text. A step into an array or object and a step to its next element each read a
character and take two units of fuel at most, so twice the length suffices. -/
def read? (text : String) : Option Json :=
  match readValue (2 * text.length + 2) text.toList with
  | some (j, rest) => if (skipSpace rest).isEmpty then some j else none
  | none => none

/-! ## Views -/

/-- A number spelled by digits alone that fits in 64 bits. -/
def asWord? : Json → Option Nat
  | number literal =>
    match Decimal.readDigits? literal.toList with
    | some n => if n < UInt64.size then some n else none
    | none => none
  | _ => none

def asString? : Json → Option String
  | str s => some s
  | _ => none

def asBool? : Json → Option Bool
  | bool b => some b
  | _ => none

end GenLang.Json
