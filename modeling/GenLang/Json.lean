/-!
# JSON values

The values of JSON and how they are written, with line breaks and two blanks for each level of
nesting. A number is kept as it is spelled, and the members of an object keep their order.
-/

namespace GenLang

/-- A value of JSON. -/
inductive Json where
  | null
  | bool (value : Bool)
  | number (literal : String)
  | str (value : String)
  | arr (items : List Json)
  | obj (members : List (String × Json))
deriving Repr, Inhabited

namespace Json

def nat (n : Nat) : Json :=
  number (toString n)

/-- Null where there is nothing. -/
def ofOption {α : Type} (f : α → Json) : Option α → Json
  | none => null
  | some a => f a

/-! ## Writing -/

/-- A character in quotes: those below the blank and the two that have a meaning are escaped. -/
def escape (c : Char) : List Char :=
  if c = '"' then ['\\', '"']
  else if c = '\\' then ['\\', '\\']
  else if c = '\n' then ['\\', 'n']
  else if c = '\r' then ['\\', 'r']
  else if c = '\t' then ['\\', 't']
  else if c = '\x08' then ['\\', 'b']
  else if c = '\x0c' then ['\\', 'f']
  else if c.toNat < 0x20 then
    ['\\', 'u', '0', '0', Nat.digitChar (c.toNat / 16), Nat.digitChar (c.toNat % 16)]
  else [c]

def quote (s : String) : String :=
  "\"" ++ String.ofList (s.toList.flatMap escape) ++ "\""

def indent (depth : Nat) : String :=
  String.ofList (List.replicate (2 * depth) ' ')

mutual

/-- A value whose first line stands at some depth already. -/
def render (depth : Nat) : Json → String
  | null => "null"
  | bool b => if b then "true" else "false"
  | number literal => literal
  | str s => quote s
  | arr [] => "[]"
  | arr items => "[\n" ++ renderItems (depth + 1) items ++ "\n" ++ indent depth ++ "]"
  | obj [] => "\x7b\x7d"
  | obj members => "\x7b\n" ++ renderMembers (depth + 1) members ++ "\n" ++ indent depth ++ "\x7d"

def renderItems (depth : Nat) : List Json → String
  | [] => ""
  | [j] => indent depth ++ render depth j
  | j :: js => indent depth ++ render depth j ++ ",\n" ++ renderItems depth js

def renderMembers (depth : Nat) : List (String × Json) → String
  | [] => ""
  | [(k, j)] => indent depth ++ quote k ++ ": " ++ render depth j
  | (k, j) :: ms =>
    indent depth ++ quote k ++ ": " ++ render depth j ++ ",\n" ++ renderMembers depth ms

end

/-- A value by itself. -/
def pretty (j : Json) : String :=
  render 0 j

end Json

end GenLang
