import OnePass.Number.Double

/-!
# Hexadecimal floating-point text

Target code writes doubles exactly: a leading digit, the hexadecimal fraction without zeros at its end, and
the binary exponent with its sign.

* `Double.hexText` — the text.
-/

namespace OnePass.Double

def fractionDigits (d : Double) : List Char :=
  let digits := Nat.toDigits 16 d.fraction
  List.replicate (13 - digits.length) '0' ++ digits

def trimmedFraction (d : Double) : List Char :=
  (d.fractionDigits.reverse.dropWhile (· == '0')).reverse

def exponentText (exponent : Int) : String :=
  if exponent < 0 then s!"-{exponent.natAbs}" else s!"+{exponent.natAbs}"

def leadAndExponent (d : Double) : String × Int :=
  if d.exponentField = 0 then ("0", -1022) else ("1", d.exponentField - 1023)

def hexText (d : Double) : String :=
  if d.isNaN then "nan"
  else
    let sign := if d.isNegative then "-" else ""
    if d.isInfinite then sign ++ "inf"
    else if d.significand = 0 then sign ++ "0x0p+0"
    else
      let (lead, exponent) := d.leadAndExponent
      let fraction := d.trimmedFraction
      let point := if fraction.isEmpty then "" else "." ++ String.ofList fraction
      sign ++ "0x" ++ lead ++ point ++ "p" ++ exponentText exponent

end OnePass.Double
