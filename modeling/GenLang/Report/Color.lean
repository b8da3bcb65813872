/-!
# Colors of a report

Colors of a terminal, and the sequence of colors that sets the labels of a report apart.
-/

namespace GenLang

/-- A color of a terminal. -/
inductive Color where
  | red
  | green
  | yellow
  /-- One of 256 by its number. -/
  | indexed (n : Nat)
deriving DecidableEq, Repr, Inhabited

namespace Color

def code : Color → String
  | red => "31"
  | green => "32"
  | yellow => "33"
  | indexed n => "38;5;" ++ toString n

/-- A text between the escape sequences that set a color and reset it. -/
def paint (c : Color) (text : String) : String :=
  "\x1b[" ++ c.code ++ "m" ++ text ++ "\x1b[0m"

end Color

/-- The state of the sequence of label colors: three numbers of 16 bits. -/
structure Palette where
  low : Nat := 30000
  middle : Nat := 15000
  high : Nat := 35000
deriving DecidableEq, Repr, Inhabited

/-- The next color. Each number moves on by its own multiple of 40503; the upper halves of the three
ranges of 180, 30 and 5 are then mixed. -/
def Palette.next (p : Palette) : Color × Palette :=
  let low := (p.low + 40503 * 1130) % 65536
  let middle := (p.middle + 40503 * 1134) % 65536
  let high := (p.high + 40503 * 1138) % 65536
  (.indexed (16 + (5 * (65535 + high) + 30 * (65535 + middle) + 180 * (65535 + low)) / 131070),
   ⟨low, middle, high⟩)

end GenLang
