import GenLang.Text.Range
import GenLang.Text.Width.Table

/-!
# Display width

How many columns of a terminal a character takes.
-/

namespace GenLang.Text

/-- Columns of a character. A control character counts as one. -/
def width (c : Char) : Nat :=
  if c.toNat < 0xA0 then 1
  else if c.toNat == 0x17D8 then 3
  else if inRanges zeroWidthRanges c then 0
  else if inRanges wideRanges c then 2
  else 1

end GenLang.Text
