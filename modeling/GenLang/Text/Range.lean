/-!
# Sets of characters

A set of characters as a list of ranges, both ends included.
-/

namespace GenLang.Text

def inRanges (ranges : List (Nat × Nat)) (c : Char) : Bool :=
  ranges.any fun r => r.1 ≤ c.toNat && c.toNat ≤ r.2

end GenLang.Text
