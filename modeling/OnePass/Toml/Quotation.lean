import OnePass.Toml.Blank

/-!
# Strings and keys of TOML

Strings come in two kinds, with escapes between double quotes and without them between single quotes, and each on
one line or, between three quotes, on several.

* `quotation` — a string on one line;
* `longQuotation` — a string between three quotes;
* `key` — a dotted key.
-/

namespace OnePass.Toml

open Reading

/-- The two kinds of strings. -/
inductive Quote where
  | escaping
  | plain
deriving DecidableEq, Repr

def Quote.mark : Quote → Char
  | escaping => '"'
  | plain => '\''

def Quote.isOrdinary (quote : Quote) (c : Char) : Bool :=
  isPlain c && c != quote.mark && !(quote == .escaping && c == '\\')

/-! ### Escapes -/

def isHexDigit (c : Char) : Bool := c.isDigit || ('a' ≤ c && c ≤ 'f') || ('A' ≤ c && c ≤ 'F')

def hexDigit (c : Char) : Nat :=
  if c.isDigit then c.toNat - '0'.toNat
  else if 'a' ≤ c then c.toNat - 'a'.toNat + 10
  else c.toNat - 'A'.toNat + 10

def number (base : Nat) (digits : List Char) : Nat := digits.foldl (fun n c => n * base + hexDigit c) 0

def numbered (count : Nat) : Reading Char := do
  let code := number 16 (← exactly isHexDigit count)
  guard (code.isValidChar)
  return Char.ofNat code

def escaped : Reading Char := do
  match ← one fun _ => true with
  | 'b' => return '\x08'
  | 't' => return '\t'
  | 'n' => return '\n'
  | 'f' => return '\x0c'
  | 'r' => return '\r'
  | '"' => return '"'
  | '\\' => return '\\'
  | 'u' => numbered 4
  | 'U' => numbered 8
  | _ => failure

/-! ### Strings -/

def quotationWithin (quote : Quote) : Nat → Reading (List Char)
  | 0 => failure
  | n + 1 => do
      let plain ← many quote.isOrdinary
      if ← accept [quote.mark] then return plain
      literal ['\\']
      let c ← escaped
      return plain ++ c :: (← quotationWithin quote n)

def quotation (quote : Quote) : Reading String := do
  literal [quote.mark]
  String.ofList <$> quotationWithin quote ((← get).length + 1)

def joinedLine : Reading Unit := do
  literal ['\\']
  blanks
  newline
  gapOfBlanks (← get).length
where
  gapOfBlanks : Nat → Reading Unit
    | 0 => blanks
    | n + 1 => do
        blanks
        if (← option newline).isSome then gapOfBlanks n

def longPiece (quote : Quote) : Reading (List Char) := do
  match ← peek with
  | some '\n' | some '\r' => do
      newline
      return ['\n']
  | some '\\' =>
      if quote == .escaping then
        (do joinedLine; return []) <|> (do literal ['\\']; return [← escaped])
      else return [← one quote.isOrdinary]
  | _ => return [← one quote.isOrdinary]

/-- The rest of a string between three quotes, with its closing marks. Up to two quotes more belong to the
string. The number bounds the pieces. -/
def longQuotationWithin (quote : Quote) : Nat → Reading (List Char)
  | 0 => failure
  | n + 1 => do
      let marks := ((← get).take 5).takeWhile (· == quote.mark)
      literal marks
      if 3 ≤ marks.length then return marks.drop 3
      else
        let piece ← longPiece quote
        return marks ++ piece ++ (← longQuotationWithin quote n)

def longQuotation (quote : Quote) : Reading String := do
  literal (List.replicate 3 quote.mark)
  discard (option newline)
  String.ofList <$> longQuotationWithin quote ((← get).length + 1)

def string (quote : Quote) : Reading String := longQuotation quote <|> quotation quote

/-! ### Keys -/

def isKeyCharacter (c : Char) : Bool := c.isAlphanum || c == '_' || c == '-'

def keyPart : Reading String := do
  match ← peek with
  | some '"' => quotation .escaping
  | some '\'' => quotation .plain
  | _ => do
      let name ← many isKeyCharacter
      guard !name.isEmpty
      return String.ofList name

def depthLimit : Nat := 80

def keyWithin : Nat → Reading (List String)
  | 0 => failure
  | n + 1 => do
      blanks
      let part ← keyPart
      blanks
      if ← accept ['.'] then return part :: (← keyWithin n) else return [part]

def key : Reading (List String × String) := do
  let parts ← keyWithin (depthLimit - 1)
  match parts.getLast? with
  | some name => return (parts.dropLast, name)
  | none => failure

end OnePass.Toml
