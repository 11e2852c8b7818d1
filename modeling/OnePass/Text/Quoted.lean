import OnePass.Text.Printable

/-!
# Quotations

How diagnostics show a text: quotes, backslashes and characters that cannot be seen are written as escapes.

* `Text.quoted` — the quotation of a text, between double quotes.
-/

namespace OnePass.Text

def codeEscape (c : Char) : List Char :=
  ['\\', 'u', '\x7b'] ++ Nat.toDigits 16 c.toNat ++ ['\x7d']

def quotedChar (c : Char) : List Char :=
  match c with
  | '\x00' => ['\\', '0']
  | '\t' => ['\\', 't']
  | '\r' => ['\\', 'r']
  | '\n' => ['\\', 'n']
  | '\'' => ['\\', '\'']
  | '"' => ['\\', '"']
  | '\\' => ['\\', '\\']
  | c => if isPrintable c then [c] else codeEscape c

def quotedFirst (c : Char) : List Char :=
  if extendsGrapheme c then codeEscape c else quotedChar c

def quotedChars : List Char → List Char
  | [] => []
  | c :: rest => quotedFirst c ++ rest.flatMap quotedChar

def quoted (text : String) : String :=
  "\"" ++ String.ofList (quotedChars text.toList) ++ "\""

end OnePass.Text
