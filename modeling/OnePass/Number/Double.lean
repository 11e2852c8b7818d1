/-!
# Double-precision numbers

A double is its 64 bits: a sign, eleven bits of exponent and 52 bits of fraction. Its operations are exact
arithmetic on natural numbers followed by one rounding to the nearest double, ties to the even one.

* `Double.significand`, `Double.scale` — a finite double is `significand * 2 ^ scale`;
* `Double.ofRatio` — the double nearest to a quotient of natural numbers;
* `Double.ofInt` — the double nearest to an integer;
* `Double.ofScientific` — the double nearest to `mantissa * 10 ^ exponent`.
-/

namespace OnePass

/-- A double-precision number, given by its bits. Two doubles are equal when their bits are. -/
structure Double where
  bits : UInt64
deriving DecidableEq, Repr, Inhabited

namespace Double

/-! ### The fields of a double -/

def isNegative (d : Double) : Bool := Nat.pow 2 63 ≤ d.bits.toNat

def exponentField (d : Double) : Nat := d.bits.toNat / Nat.pow 2 52 % Nat.pow 2 11

def fraction (d : Double) : Nat := d.bits.toNat % Nat.pow 2 52

def specialExponent : Nat := 2047

def isNaN (d : Double) : Bool := d.exponentField == specialExponent && d.fraction != 0

def isInfinite (d : Double) : Bool := d.exponentField == specialExponent && d.fraction == 0

def significand (d : Double) : Nat :=
  if d.exponentField = 0 then d.fraction else Nat.pow 2 52 + d.fraction

def scale (d : Double) : Int :=
  if d.exponentField = 0 then -1074 else d.exponentField - 1075

/-! ### Rounding -/

def roundDiv (num den : Nat) : Nat :=
  let quotient := num / den
  let rest := num % den
  if 2 * rest < den then quotient
  else if den < 2 * rest then quotient + 1
  else quotient + quotient % 2

def powerFits (num den : Nat) (e : Int) : Bool :=
  den * Nat.pow 2 e.toNat ≤ num * Nat.pow 2 (-e).toNat

def binaryOrder (num den : Nat) : Int :=
  let guess : Int := num.log2 - den.log2
  if powerFits num den guess then guess else guess - 1

def infinityBits : Nat := specialExponent * Nat.pow 2 52

/-- The bits, without sign, of the double nearest to `num / den`. A significand that rounds up to
`2 ^ 53` carries into the exponent, which is the right result. -/
def magnitude (num den : Nat) : Nat :=
  if num = 0 then 0
  else
    let unit := max (binaryOrder num den - 52) (-1074)
    let rounded := roundDiv (num * Nat.pow 2 (-unit).toNat) (den * Nat.pow 2 unit.toNat)
    min ((unit + 1074).toNat * Nat.pow 2 52 + rounded) infinityBits

def ofSignMagnitude (negative : Bool) (rest : Nat) : Double :=
  ⟨UInt64.ofNat (if negative then Nat.pow 2 63 + rest else rest)⟩

def ofRatio (negative : Bool) (num den : Nat) : Double :=
  ofSignMagnitude negative (magnitude num den)

def ofInt (value : Int) : Double := ofRatio (value < 0) value.natAbs 1

/-- The double nearest to `mantissa * 10 ^ exponent`. Exponents beyond the range of doubles are settled
without computing the power: from `10 ^ 310` on everything rounds to infinity, and below `2 ^ (-1075)`
everything rounds to zero. -/
def ofScientific (mantissa : Nat) (exponent : Int) : Double :=
  if mantissa = 0 then ofSignMagnitude false 0
  else if 310 < exponent then ofSignMagnitude false infinityBits
  else if (mantissa.log2 : Int) + 1 + 3 * exponent < -1075 then ofSignMagnitude false 0
  else ofRatio false (mantissa * Nat.pow 10 exponent.toNat) (Nat.pow 10 (-exponent).toNat)

end Double

end OnePass
