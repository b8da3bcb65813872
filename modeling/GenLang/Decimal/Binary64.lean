/-!
# Doubles as integers

A finite double is `mantissa · 2 ^ exponent` with a sign. `Binary64.ofFloat` takes a double apart,
`Binary64.nearest` finds the double nearest to a fraction, a tie going to the even mantissa. Both
work in exact integer arithmetic.
-/

namespace GenLang

/-- What a double stands for. -/
inductive Binary64 where
  | nan
  | infinite (negative : Bool)
  | finite (negative : Bool) (mantissa : Nat) (exponent : Int)
deriving DecidableEq, Repr, Inhabited

namespace Binary64

/-- Mantissas of normal numbers begin here. -/
def hidden : Nat := Nat.pow 2 52

/-- The bit of the sign. -/
def signBit : Nat := Nat.pow 2 63

/-- Reads the sign bit, eleven bits of exponent and 52 bits of fraction. -/
def ofBits (bits : Nat) : Binary64 :=
  let negative := bits / signBit % 2 == 1
  let field := bits / hidden % 2048
  let fraction := bits % hidden
  if field = 2047 then
    if fraction = 0 then .infinite negative else .nan
  else if field = 0 then .finite negative fraction (-1074)
  else .finite negative (hidden + fraction) (field - 1075)

def ofFloat (x : Float) : Binary64 :=
  ofBits x.toBits.toNat

/-- The quotient, rounded to the nearest integer; a tie goes to the even one. -/
def roundDiv (num den : Nat) : Nat :=
  let q := num / den
  let r := num % den
  if 2 * r < den then q
  else if den < 2 * r then q + 1
  else q + q % 2

/-- The number `num · 2 ^ (-e) / den` as a fraction of natural numbers. -/
def scale (num den : Nat) (e : Int) : Nat × Nat :=
  if e < 0 then (num * Nat.pow 2 (-e).toNat, den) else (num, den * Nat.pow 2 e.toNat)

/-- The exponent at which the fraction `num / den` has a mantissa of 53 bits, but none below that
of the smallest doubles. -/
def exponentOf (num den : Nat) : Int :=
  let low := max (Int.ofNat num.log2 - Int.ofNat den.log2 - 53) (-1074)
  -- The logarithms leave out fractions, so that `low` is right or one too small.
  let (n, d) := scale num den low
  if n / d < 2 * hidden then low else low + 1

/-- Bits of the double nearest to `num / den`, or of infinity when that is out of range. The field
of the exponent is carried into by a mantissa that rounds up to 54 bits. -/
def nearestBits (num den : Nat) : Nat :=
  if num = 0 then 0
  else
    let e := exponentOf num den
    let (n, d) := scale num den e
    min ((e + 1074).toNat * hidden + roundDiv n d) (2047 * hidden)

/-- The double nearest to a fraction. -/
def nearest (negative : Bool) (num den : Nat) : Float :=
  Float.ofBits (UInt64.ofNat ((if negative then signBit else 0) + nearestBits num den))

/-- The remainder of truncated division, with the sign of the dividend. It is exact. -/
def remainder (x y : Float) : Float :=
  match ofFloat x, ofFloat y with
  | .finite negative m e, .finite _ m' e' =>
    if m' = 0 then Float.ofBits 0x7ff8000000000000
    else
      -- On the finer of the two grids both are integers, and so is what remains.
      let low := min e e'
      let r := m * Nat.pow 2 (e - low).toNat % (m' * Nat.pow 2 (e' - low).toNat)
      let (num, den) := scale r 1 (-low)
      nearest negative num den
  | .finite .., .infinite _ => x
  | _, _ => Float.ofBits 0x7ff8000000000000

end Binary64

end GenLang
