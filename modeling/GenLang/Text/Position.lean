import GenLang.Text.Span

/-!
# Lines and columns

A position is a line and a column, both counted from 1; columns count characters. An index of the
places where lines begin leads from byte offsets to positions and back, and clamps what lies outside
the text. Lines and columns are counted with 32 bits, so the counts wrap around in texts that are
too long for them.
-/

namespace GenLang.Text

/-- A line and a column, both counted from 1. -/
structure Position where
  line : UInt32
  column : UInt32
deriving DecidableEq, Repr, Inhabited

/-- The position that so many lines and, on its own line, so many characters are in front of. -/
def Position.behind (lines chars : Nat) : Position :=
  ⟨UInt32.ofNat lines + 1, UInt32.ofNat chars + 1⟩

/-! ## Search in a sorted list -/

/-- Bisects the items from index `low` up to index `high`, in as many steps as there are at most. -/
def bisect (items : List Nat) (x : Nat) : Nat → Nat → Nat → Except Nat Nat
  | 0, low, _ => .error low
  | steps + 1, low, high =>
    if low < high then
      let mid := low + (high - low) / 2
      match items[mid]? with
      | none => .error low
      | some item =>
        if item = x then .ok mid
        else if item < x then bisect items x steps (mid + 1) high
        else bisect items x steps low mid
    else .error low

/-- The index of an item of a sorted list, or as an error the index at which it could be put in. -/
def search (items : List Nat) (x : Nat) : Except Nat Nat :=
  bisect items x items.length 0 items.length

/-! ## The lines of a text -/

/-- A text and the byte offsets at which its lines begin. -/
structure LineIndex where
  text : String
  starts : List Nat
deriving DecidableEq, Repr

namespace LineIndex

/-- The offsets behind the line feeds of a text that begins at an offset. -/
def startsBehind (offset : Nat) : List Char → List Nat
  | [] => []
  | c :: cs =>
    let next := offset + c.utf8Size
    if c = '\n' then next :: startsBehind next cs else startsBehind next cs

def ofText (text : String) : LineIndex :=
  ⟨text, 0 :: startsBehind 0 text.toList⟩

/-- The index of the line that an offset is on. -/
def lineOf (x : LineIndex) (offset : Nat) : Nat :=
  match search x.starts offset with
  | .ok line => line
  | .error next => next - 1

/-- The position of a byte offset. A place inside a character is no end of any characters, and is
counted in bytes. -/
def position (x : LineIndex) (offset : Nat) : Position :=
  let offset := min offset (byteLength x.text.toList)
  let start := x.starts.getD (x.lineOf offset) 0
  let column := match (Span.mk start offset).text? x.text with
    | some chars => chars.length
    | none => offset - start
  .behind (x.lineOf offset) column

/-- The byte offset of a position. A column past the end of its line is its end, a line past the
last is the end of the text, and line or column 0 count as 1; `none` if the text could not be cut
where its lines begin and end. -/
def offset? (x : LineIndex) (p : Position) : Option Nat :=
  let line := max p.line.toNat 1 - 1
  match x.starts[line]? with
  | none => some (byteLength x.text.toList)
  | some start =>
    let stop := x.starts[line + 1]?.elim (byteLength x.text.toList) (· - 1)
    ((Span.mk start stop).text? x.text).map fun chars =>
      let passed := max p.column.toNat 1 - 1
      if passed < chars.length then start + byteLength (chars.toList.take passed) else stop

def lineCount (x : LineIndex) : Nat :=
  x.starts.length

end LineIndex

namespace Position

/-- The position of a byte offset. -/
def ofByte (text : String) (offset : Nat) : Position :=
  (LineIndex.ofText text).position offset

/-- The byte offset of a position. -/
def toByte? (text : String) (p : Position) : Option Nat :=
  (LineIndex.ofText text).offset? p

/-- Lines of a text. -/
def lineCount (text : String) : Nat :=
  (LineIndex.ofText text).lineCount

end Position

/-- A position in a named file. -/
structure Location where
  file : String
  position : Position
deriving DecidableEq, Repr, Inhabited

/-- Written `file(line,column)`. -/
def Location.render (l : Location) : String :=
  l.file ++ "(" ++ toString l.position.line ++ "," ++ toString l.position.column ++ ")"

/-- The location of a byte offset in a named file. -/
def Location.ofByte (file text : String) (offset : Nat) : Location :=
  ⟨file, .ofByte text offset⟩

end GenLang.Text
