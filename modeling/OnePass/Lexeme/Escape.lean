import OnePass.Fault

/-!
# Escapes in string literals

A backslash starts an escape: one of five letters and signs, or a code point in braces written with one to
eight hexadecimal digits. Every other character stands for itself.

* `Escape.decode` — resolves the escapes of a raw text, or names the first fault in it.
-/

namespace OnePass.Escape

def simple : Char → Option Char
  | 'n' => some '\n'
  | 't' => some '\t'
  | 'r' => some '\r'
  | '"' => some '"'
  | '\\' => some '\\'
  | _ => none

def hexValue? (c : Char) : Option Nat :=
  if '0' ≤ c ∧ c ≤ '9' then some (c.toNat - '0'.toNat)
  else if 'a' ≤ c ∧ c ≤ 'f' then some (c.toNat - 'a'.toNat + 10)
  else if 'A' ≤ c ∧ c ≤ 'F' then some (c.toNat - 'A'.toNat + 10)
  else none

def hexNumber (digits : List Char) : Nat :=
  digits.foldl (fun number c => number * 16 + (hexValue? c).getD 0) 0

def codePoint? (digits : List Char) : Option Char :=
  if digits.isEmpty then none
  else
    let code := hexNumber digits
    if code.isValidChar then some (Char.ofNat code) else none

/-- How far an escape has been read. -/
inductive Stage where
  | plain
  | escape
  | brace
  | digits (digits : List Char)

def decodeFrom : Stage → List Char → Except Fault (List Char)
  | .plain, [] => .ok []
  | .plain, c :: rest =>
      if c = '\\' then decodeFrom .escape rest else (c :: ·) <$> decodeFrom .plain rest
  | .escape, [] => .error .danglingEscape
  | .escape, c :: rest =>
      if c = 'u' then decodeFrom .brace rest
      else
        match simple c with
        | some meant => (meant :: ·) <$> decodeFrom .plain rest
        | none => .error (.unknownEscape c)
  | .brace, [] => .error .escapeWithoutBrace
  | .brace, c :: rest =>
      if c = '\x7b' then decodeFrom (.digits []) rest else .error .escapeWithoutBrace
  | .digits _, [] => .error .malformedCodePoint
  | .digits digits, c :: rest =>
      if c = '\x7d' then
        match codePoint? digits with
        | some meant => (meant :: ·) <$> decodeFrom .plain rest
        | none => .error (.invalidCodePoint (String.ofList digits))
      else if (hexValue? c).isSome ∧ digits.length < 8 then decodeFrom (.digits (digits ++ [c])) rest
      else .error .malformedCodePoint

def decode (raw : List Char) : Except Fault (List Char) := decodeFrom .plain raw

end OnePass.Escape
