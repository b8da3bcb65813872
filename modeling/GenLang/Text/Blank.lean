/-!
# Blank characters

White space in the sense of the Unicode property `White_Space`, and trimming by it.
-/

namespace GenLang.Text

/-- The characters with the Unicode property `White_Space`. -/
def isBlank (c : Char) : Bool :=
  let n := c.toNat
  (9 ≤ n && n ≤ 13) || n == 0x20 || n == 0x85 || n == 0xA0 || n == 0x1680 ||
  (0x2000 ≤ n && n ≤ 0x200A) || n == 0x2028 || n == 0x2029 || n == 0x202F || n == 0x205F ||
  n == 0x3000

/-- Without the leading characters that satisfy `p`. -/
def trimLeft (p : Char → Bool) (s : List Char) : List Char :=
  s.dropWhile p

/-- Without the trailing characters that satisfy `p`. -/
def trimRight (p : Char → Bool) (s : List Char) : List Char :=
  (s.reverse.dropWhile p).reverse

/-- Without blank characters at either end. -/
def trim (s : String) : String :=
  String.ofList (trimRight isBlank (trimLeft isBlank s.toList))

/-- Without trailing blank characters. -/
def trimEnd (s : String) : String :=
  String.ofList (trimRight isBlank s.toList)

/-- Without trailing line feeds. -/
def trimLineEnds (s : String) : String :=
  String.ofList (trimRight (· == '\n') s.toList)

/-- A text with nothing but blank characters. -/
def allBlank (s : String) : Bool :=
  s.toList.all isBlank

end GenLang.Text
