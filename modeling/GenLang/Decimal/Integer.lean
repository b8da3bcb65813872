import GenLang.Decimal.Shortest

/-!
# Reading integers

A sign, which may be missing, and decimal digits; the number has to fit in 64 bits.
-/

namespace GenLang.Decimal

/-- The value of a text of digits. -/
def readDigits? (cs : List Char) : Option Nat :=
  if cs.isEmpty || !cs.all (fun c => '0' ≤ c && c ≤ '9') then none else some (natOfDigits cs)

/-- The value of digits behind a sign. -/
def readSigned? : List Char → Option Int
  | '-' :: cs => (readDigits? cs).map fun n => -(n : Int)
  | '+' :: cs => (readDigits? cs).map fun n => (n : Int)
  | cs => (readDigits? cs).map fun n => (n : Int)

def readInt64? (s : String) : Option Int64 := do
  let n ← readSigned? s.toList
  if Int64.minValue.toInt ≤ n && n ≤ Int64.maxValue.toInt then some (Int64.ofInt n) else none

end GenLang.Decimal
