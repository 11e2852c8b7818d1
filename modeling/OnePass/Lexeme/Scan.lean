import OnePass.Fault

/-!
# Lexemes of words, numbers and signs

A lexeme is the text of one token. A scan cuts the first lexeme off a text and says what it is, or which
fault stopped it; also a faulty scan takes the characters it has looked at for good.

* `Scan` — the characters taken, the outcome, and the characters left;
* `Scan.word` — identifiers, reserved words and type names;
* `Scan.number` — integer and double literals;
* `Scan.sign` — operators and punctuation.
-/

namespace OnePass

/-- The result of cutting one lexeme off a text. -/
structure Scan where
  taken : List Char
  outcome : Except Fault TokenKind
  rest : List Char

namespace Scan

def isDigit (c : Char) : Bool := '0' ≤ c && c ≤ '9'

def isLetter (c : Char) : Bool := ('a' ≤ c && c ≤ 'z') || ('A' ≤ c && c ≤ 'Z') || c == '_'

def isWordChar (c : Char) : Bool := isLetter c || isDigit c

/-! ### Words -/

def optionalMark? : List Char → Option (List Char)
  | '?' :: '?' :: _ => none
  | '?' :: rest => some rest
  | _ => none

def word (text : List Char) : Scan :=
  let taken := text.takeWhile isWordChar
  let rest := text.dropWhile isWordChar
  match TokenKind.ofWord (String.ofList taken), optionalMark? rest with
  | .typeName ty, some rest => ⟨taken ++ ['?'], .ok (.typeName ty.wrapped), rest⟩
  | kind, _ => ⟨taken, .ok kind, rest⟩

/-! ### Numbers -/

def decimalNumber (digits : List Char) : Nat :=
  digits.foldl (fun number c => number * 10 + (c.toNat - '0'.toNat)) 0

def exponentSign : List Char → List Char × List Char
  | '+' :: rest => (['+'], rest)
  | '-' :: rest => (['-'], rest)
  | rest => ([], rest)

def doubleValue (whole fraction sign exponent : List Char) : Double :=
  let power : Int := decimalNumber exponent
  .ofScientific (decimalNumber (whole ++ fraction))
    ((if sign = ['-'] then -power else power) - fraction.length)

def endNumber (taken rest : List Char) (outcome : Except Fault TokenKind) : Scan :=
  match rest with
  | c :: _ => if isLetter c then ⟨taken, .error (.letterAfterNumber c), rest⟩ else ⟨taken, outcome, rest⟩
  | [] => ⟨taken, outcome, rest⟩

def integer (digits : List Char) : Except Fault TokenKind :=
  let value := decimalNumber digits
  if value < Nat.pow 2 63 then .ok (.intLiteral value) else .error (.integerRange (String.ofList digits))

def exponent (taken whole fraction text : List Char) : Scan :=
  let (sign, text) := exponentSign text
  let digits := text.takeWhile isDigit
  let rest := text.dropWhile isDigit
  if digits.isEmpty then ⟨taken ++ sign, .error .missingExponent, rest⟩
  else
    endNumber (taken ++ sign ++ digits) rest
      (.ok (.doubleLiteral (doubleValue whole fraction sign digits)))

def scaled (taken whole fraction text : List Char) (plain : Except Fault TokenKind) : Scan :=
  match text with
  | 'e' :: rest => exponent (taken ++ ['e']) whole fraction rest
  | 'E' :: rest => exponent (taken ++ ['E']) whole fraction rest
  | rest => endNumber taken rest plain

def number (text : List Char) : Scan :=
  let whole := text.takeWhile isDigit
  match text.dropWhile isDigit with
  | '.' :: rest =>
      let fraction := rest.takeWhile isDigit
      let taken := whole ++ '.' :: fraction
      let rest := rest.dropWhile isDigit
      if fraction.isEmpty then ⟨taken, .error .missingFraction, rest⟩
      else scaled taken whole fraction rest (.ok (.doubleLiteral (doubleValue whole fraction [] [])))
  | rest => scaled whole whole [] rest (integer whole)

/-! ### Signs -/

def sign : List Char → Scan
  | '-' :: '>' :: rest => ⟨['-', '>'], .ok (.mark .arrow), rest⟩
  | '=' :: '=' :: rest => ⟨['=', '='], .ok (.mark .equal), rest⟩
  | '!' :: '=' :: rest => ⟨['!', '='], .ok (.mark .notEqual), rest⟩
  | '<' :: '=' :: rest => ⟨['<', '='], .ok (.mark .lessEqual), rest⟩
  | '>' :: '=' :: rest => ⟨['>', '='], .ok (.mark .greaterEqual), rest⟩
  | '?' :: '?' :: rest => ⟨['?', '?'], .ok (.mark .coalesce), rest⟩
  | '(' :: rest => ⟨['('], .ok (.mark .leftParen), rest⟩
  | ')' :: rest => ⟨[')'], .ok (.mark .rightParen), rest⟩
  | '\x7b' :: rest => ⟨['\x7b'], .ok (.mark .leftBrace), rest⟩
  | '\x7d' :: rest => ⟨['\x7d'], .ok (.mark .rightBrace), rest⟩
  | ',' :: rest => ⟨[','], .ok (.mark .comma), rest⟩
  | ':' :: rest => ⟨[':'], .ok (.mark .colon), rest⟩
  | '+' :: rest => ⟨['+'], .ok (.mark .plus), rest⟩
  | '-' :: rest => ⟨['-'], .ok (.mark .minus), rest⟩
  | '*' :: rest => ⟨['*'], .ok (.mark .star), rest⟩
  | '/' :: rest => ⟨['/'], .ok (.mark .slash), rest⟩
  | '=' :: rest => ⟨['='], .ok (.mark .assign), rest⟩
  | '!' :: rest => ⟨['!'], .ok (.mark .bang), rest⟩
  | '<' :: rest => ⟨['<'], .ok (.mark .less), rest⟩
  | '>' :: rest => ⟨['>'], .ok (.mark .greater), rest⟩
  | '?' :: rest => ⟨['?'], .error .loneQuestionMark, rest⟩
  | c :: rest => ⟨[c], .error (.unknownCharacter c), rest⟩
  | [] => ⟨[], .ok .eof, []⟩

end Scan

end OnePass
