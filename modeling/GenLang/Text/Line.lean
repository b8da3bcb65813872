import GenLang.Text.Search
import GenLang.Text.Span

/-!
# Lines of a text

Lines as they are displayed: any of the line breaks of Unicode ends a line, and a carriage return
with a line feed behind it is one break. A break at the end of a text begins no further line.
-/

namespace GenLang.Text

def isLineBreak (c : Char) : Bool :=
  let n := c.toNat
  (0x0A ≤ n && n ≤ 0x0D) || n == 0x85 || n == 0x2028 || n == 0x2029

/-- Lines with their breaks. -/
def splitLines : List Char → List (List Char)
  | [] => []
  | '\r' :: '\n' :: cs => ['\r', '\n'] :: splitLines cs
  | c :: cs => if isLineBreak c then [c] :: splitLines cs else consFirst c (splitLines cs)

/-- How many characters begin in the first bytes of a text. -/
def charsWithin : List Char → Nat → Nat
  | [], _ => 0
  | _, 0 => 0
  | c :: cs, n + 1 => charsWithin cs (n + 1 - c.utf8Size) + 1

/-- A place on a line that is displayed. -/
structure LinePlace where
  /-- The number of the line, counted from 0. -/
  row : Nat
  line : List Char
  /-- How many characters of the line are before the place. -/
  index : Nat
deriving DecidableEq, Repr, Inhabited

/-- The place of a byte offset. The end of the text is on its last line, behind the break if there
is one. -/
def LinePlace.ofByte (row : Nat) : List (List Char) → Nat → LinePlace
  | [], _ => ⟨row, [], 0⟩
  | [line], offset => ⟨row, line, charsWithin line offset⟩
  | line :: lines, offset =>
    if offset < byteLength line then ⟨row, line, charsWithin line offset⟩
    else ofByte (row + 1) lines (offset - byteLength line)

end GenLang.Text
