import OnePass.Toml.Quotation
import OnePass.Toml.Table

/-!
# Numbers, dates and words of TOML

* `integer` — an integer of 64 bits, decimal or in another base;
* `float` — a number with a fraction or an exponent, or one of the special ones;
* `moment` — a date, a time, or both;
* `scalar` — all of them, and the booleans.
-/

namespace OnePass.Toml

open Reading

/-! ### Numbers -/

def digitsWithin (holds : Char → Bool) : Nat → Reading (List Char)
  | 0 => failure
  | n + 1 => do
      let digits ← many holds
      guard !digits.isEmpty
      if ← accept ['_'] then return digits ++ (← digitsWithin holds n) else return digits

def digits (holds : Char → Bool) : Reading (List Char) := do digitsWithin holds ((← get).length + 1)

def sign : Reading Bool := do
  if ← accept ['-'] then return true
  discard (accept ['+'])
  return false

def decimalDigits : Reading (List Char) := do
  if ← accept ['0'] then return ['0'] else digits Char.isDigit

def fitsInteger (value : Int) : Bool := -0x8000000000000000 ≤ value && value < 0x8000000000000000

def basedInteger (mark : Char) (base : Nat) (holds : Char → Bool) : Reading Int := do
  literal ['0', mark]
  return number base (← digits holds)

def decimalInteger : Reading Int := do
  let negative ← sign
  let size := number 10 (← decimalDigits)
  return if negative then -size else size

def integer : Reading Int := do
  let value ← basedInteger 'x' 16 isHexDigit
    <|> basedInteger 'o' 8 (fun c => '0' ≤ c && c ≤ '7')
    <|> basedInteger 'b' 2 (fun c => c == '0' || c == '1')
    <|> decimalInteger
  guard (fitsInteger value)
  return value

def exponent : Reading Int := do
  discard (one fun c => c == 'e' || c == 'E')
  let negative ← sign
  let size := number 10 (← digits Char.isDigit)
  return if negative then -size else size

def fraction : Reading (List Char) := do
  literal ['.']
  digits Char.isDigit

def decimalFloat : Reading Double := do
  let negative ← sign
  let whole ← decimalDigits
  let part ← option fraction
  let power ← option exponent
  guard (part.isSome || power.isSome)
  let places := part.getD []
  let size := Double.ofScientific (number 10 (whole ++ places)) (power.getD 0 - places.length)
  guard (negative || !size.isInfinite)
  return .ofSignMagnitude negative size.bits.toNat

def specialFloat : Reading Double := do
  let negative ← sign
  if ← accept ['i', 'n', 'f'] then return .ofSignMagnitude negative Double.infinityBits
  literal ['n', 'a', 'n']
  return .ofSignMagnitude negative (Double.infinityBits + Nat.pow 2 51)

def float : Reading Double := decimalFloat <|> specialFloat

/-! ### Dates and times -/

def fixedNumber (count low high : Nat) : Reading Nat := do
  let value := number 10 (← exactly Char.isDigit count)
  guard (low ≤ value && value ≤ high)
  return value

def isLeapYear (year : Nat) : Bool := year % 4 == 0 && (year % 100 != 0 || year % 400 == 0)

def daysOfMonth (year month : Nat) : Nat :=
  if month = 2 then if isLeapYear year then 29 else 28
  else if month = 4 || month = 6 || month = 9 || month = 11 then 30
  else 31

def date : Reading Unit := do
  let year ← fixedNumber 4 0 9999
  literal ['-']
  let month ← fixedNumber 2 1 12
  literal ['-']
  discard (fixedNumber 2 1 (daysOfMonth year month))

def hourMinute : Reading Unit := do
  discard (fixedNumber 2 0 23)
  literal [':']
  discard (fixedNumber 2 0 59)

def time : Reading Unit := do
  hourMinute
  literal [':']
  discard (fixedNumber 2 0 60)
  discard (option fraction)
where
  fraction : Reading Unit := do
    literal ['.']
    guard !(← many Char.isDigit).isEmpty

def timeOffset : Reading Unit := do
  match ← one fun _ => true with
  | 'Z' | 'z' => pure ()
  | '+' | '-' => hourMinute
  | _ => failure

def moment : Reading Unit := dated <|> time
where
  dated : Reading Unit := do
    date
    discard (option do
      discard (one fun c => c == 'T' || c == 't' || c == ' ')
      time
      discard (option timeOffset))

/-! ### All of them -/

def scalar : Reading Item :=
  (do literal "true".toList; return .boolean true)
    <|> (do literal "false".toList; return .boolean false)
    <|> Item.moment <$> written moment
    <|> Item.float <$> float
    <|> Item.integer <$> integer

end OnePass.Toml
