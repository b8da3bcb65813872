import GenLang.Decimal.Binary64

/-!
# Decimal texts of doubles

`Decimal.shortest` is the decimal with the fewest digits that reads back as the same double, the
nearest of those where there are several. A double is written positionally, or in a `Debug` form
that keeps a decimal point; `Decimal.read` reads digits around a point.
-/

namespace GenLang

/-- The number `digits · 10 ^ exponent`. -/
structure Decimal where
  digits : Nat
  exponent : Int
deriving DecidableEq, Repr, Inhabited

namespace Decimal

/-- The reals that round to a double, as fractions over one denominator. The ends belong to them
when the mantissa is even. -/
structure Interval where
  low : Nat
  mid : Nat
  high : Nat
  den : Nat
  closed : Bool

/-- Half a step to either side; below a power of two the steps are half as long. -/
def Interval.of (mantissa : Nat) (exponent : Int) : Interval :=
  let up := Nat.pow 2 (exponent - 2).toNat
  let below := if mantissa = Binary64.hidden ∧ -1074 < exponent then 1 else 2
  { low := (4 * mantissa - below) * up
    mid := 4 * mantissa * up
    high := (4 * mantissa + 2) * up
    den := Nat.pow 2 (2 - exponent).toNat
    closed := mantissa % 2 == 0 }

/-- Whether `c · 10 ^ e` lies in the interval, which is given over the denominator `unit` in units
of `10 ^ e`. -/
def Interval.holds (i : Interval) (c unit factor : Nat) : Bool :=
  if i.closed then i.low * factor ≤ c * unit && c * unit ≤ i.high * factor
  else i.low * factor < c * unit && c * unit < i.high * factor

/-- The point of the grid of multiples of `10 ^ e` in the interval that is nearest to its middle;
a tie goes up. -/
def Interval.onGrid? (i : Interval) (e : Int) : Option Decimal :=
  let unit := i.den * Nat.pow 10 e.toNat
  let factor := Nat.pow 10 (-e).toNat
  let c := i.mid * factor / unit
  let r := i.mid * factor % unit
  match i.holds c unit factor, i.holds (c + 1) unit factor with
  | true, true => some ⟨if 2 * r < unit then c else c + 1, e⟩
  | true, false => some ⟨c, e⟩
  | false, true => some ⟨c + 1, e⟩
  | false, false => none

/-- The first hit on grids that grow finer. -/
def Interval.search (i : Interval) : Nat → Int → Decimal
  | 0, e => ⟨i.mid * Nat.pow 10 (-e).toNat / (i.den * Nat.pow 10 e.toNat), e⟩
  | n + 1, e =>
    match i.onGrid? e with
    | some d => d
    | none => i.search n (e - 1)

/-- The shortest decimal of a positive double `mantissa · 2 ^ exponent`. The search begins on a
grid coarser than the number. -/
def shortest (mantissa : Nat) (exponent : Int) : Decimal :=
  -- 30103 / 100000 is a little more than the decimal logarithm of 2.
  let top := (Int.ofNat mantissa.log2 + 1 + exponent) * 30103 / 100000 + 2
  (Interval.of mantissa exponent).search 25 top

/-- The decimal digits of a number. -/
def digitChars (n : Nat) : List Char :=
  Nat.toDigits 10 n

/-- All digits before and after the point; no point if nothing is behind it. -/
def positional (d : Decimal) : List Char :=
  if 0 ≤ d.exponent then digitChars d.digits ++ List.replicate d.exponent.toNat '0'
  else
    let places := (-d.exponent).toNat
    let cs := digitChars d.digits
    let cs := List.replicate (places + 1 - cs.length) '0' ++ cs
    cs.take (cs.length - places) ++ '.' :: cs.drop (cs.length - places)

/-- The shortest text of a double, without exponent, and without a point if it is integral. -/
def plain (x : Float) : String :=
  match Binary64.ofFloat x with
  | .nan => "NaN"
  | .infinite negative => if negative then "-inf" else "inf"
  | .finite negative m e =>
    (if negative then "-" else "") ++
      (if m = 0 then "0" else String.ofList (positional (shortest m e)))

/-- The text of a double as a literal: the shortest one with a point. From 10 ^ 16 on and below
10 ^ -4 only one place after the point is written. -/
def literal (x : Float) : String :=
  match Binary64.ofFloat x with
  | .nan => "NaN"
  | .infinite negative => if negative then "-inf" else "inf"
  | .finite negative m e =>
    (if negative then "-" else "") ++
      (if m = 0 then "0.0"
       else
        let (num, den) := Binary64.scale m 1 (-e)
        if num * 10000 < den then "0.0"
        else if Nat.pow 10 16 * den ≤ num then toString (num / den) ++ ".0"
        else
          let d := shortest m e
          String.ofList (positional d) ++ (if 0 ≤ d.exponent then ".0" else ""))

/-- The value of a run of digits. -/
def natOfDigits (cs : List Char) : Nat :=
  cs.foldl (fun n c => 10 * n + (c.toNat - '0'.toNat)) 0

/-- The double nearest to a number written as digits, a point and digits. -/
def read (text : String) : Float :=
  let cs := text.toList
  let whole := cs.takeWhile (· != '.')
  let fraction := (cs.dropWhile (· != '.')).drop 1
  Binary64.nearest false (natOfDigits (whole ++ fraction)) (Nat.pow 10 fraction.length)

end Decimal

end GenLang
