import OnePass.Number.Double

/-!
# Shortest decimals

The decimal text of a double has the fewest digits that read back as the same double, and of those the
digits nearest to it. It is always positional.

* `Double.decimalOrder` — where the leading decimal digit stands;
* `Double.shortest` — the digits and their power of ten;
* `Double.text` — the text.
-/

namespace OnePass.Double

/-- A range of numbers `low / den` to `high / den` around `value / den`. -/
structure Neighbourhood where
  low : Nat
  value : Nat
  high : Nat
  den : Nat
  closed : Bool
deriving Repr

/-- The numbers that round to a finite double: up to half way to its neighbours. The neighbour below is
nearer where the significand is the smallest of its scale. -/
def neighbourhood (d : Double) : Neighbourhood :=
  let m := d.significand
  let below := if d.fraction = 0 ∧ d.exponentField ≠ 0 then 1 else 2
  let up := Nat.pow 2 (d.scale - 2).toNat
  { low := (4 * m - below) * up
    value := 4 * m * up
    high := (4 * m + 2) * up
    den := Nat.pow 2 (2 - d.scale).toNat
    closed := m % 2 = 0 }

def digitCount (n : Nat) : Nat := (Nat.toDigits 10 n).length

def decimalOrder (range : Neighbourhood) : Int :=
  digitCount (range.value * Nat.pow 10 342 / range.den) - 342

def Neighbourhood.holds (range : Neighbourhood) (count : Nat) (power : Int) : Bool :=
  let point := count * Nat.pow 10 power.toNat * range.den
  let grid := Nat.pow 10 (-power).toNat
  if range.closed then range.low * grid ≤ point && point ≤ range.high * grid
  else range.low * grid < point && point < range.high * grid

/-- The better of the two grid points around the value, if one of them lies in the range. A value half
way between them goes up. -/
def Neighbourhood.gridPoint (range : Neighbourhood) (power : Int) : Option Nat :=
  let num := range.value * Nat.pow 10 (-power).toNat
  let den := range.den * Nat.pow 10 power.toNat
  let down := num / den
  let upwards := den ≤ 2 * (num % den)
  match range.holds down power, range.holds (down + 1) power with
  | true, true => some (if upwards then down + 1 else down)
  | true, false => some down
  | false, true => some (down + 1)
  | false, false => none

def Neighbourhood.search (range : Neighbourhood) : Nat → Int → Nat × Int
  | 0, power => (range.value * Nat.pow 10 (-power).toNat / (range.den * Nat.pow 10 power.toNat), power)
  | tries + 1, power =>
      match range.gridPoint power with
      | some count => (count, power)
      | none => range.search tries (power - 1)

def shortest (d : Double) : Nat × Int :=
  let range := d.neighbourhood
  range.search 17 (decimalOrder range - 1)

def dropTrailingZeros (digits : List Char) : List Char :=
  (digits.reverse.dropWhile (· == '0')).reverse

def positional (count : Nat) (power : Int) : List Char :=
  let digits := Nat.toDigits 10 (count * Nat.pow 10 power.toNat)
  let places := (-power).toNat
  let padded := List.replicate (places + 1 - digits.length) '0' ++ digits
  let whole := padded.take (padded.length - places)
  let fraction := dropTrailingZeros (padded.drop (padded.length - places))
  if fraction.isEmpty then whole else whole ++ '.' :: fraction

def text (d : Double) : String :=
  if d.isNaN then "NaN"
  else
    let sign := if d.isNegative then "-" else ""
    if d.isInfinite then sign ++ "inf"
    else if d.significand = 0 then sign ++ "0"
    else
      let (count, power) := d.shortest
      sign ++ String.ofList (positional count power)

end OnePass.Double
