import OnePass.Lexeme.Escape
import OnePass.Lexeme.Scan
import OnePass.Text.Blank

/-!
# String literals

A string literal stands between quotes on one line. A text block stands between three quotes: its content
starts on the next line, the closing quotes stand alone on a line, and their indentation is taken away from
every line of the content.

* `Scan.line` — literals on one line;
* `Scan.block` — text blocks;
* `Scan.quotation` — either, after the opening quote.
-/

namespace OnePass.Scan

def tripleQuote : List Char := ['"', '"', '"']

def stringToken (decoded : Except Fault (List Char)) : Except Fault TokenKind :=
  decoded.map fun text => .stringLiteral (String.ofList text)

/-! ### Literals on one line -/

/-- The raw text up to the closing quote, or up to the end of the line, and the rest from there. A backslash
protects the character after it. -/
def rawLine : List Char → List Char × List Char
  | [] => ([], [])
  | '\\' :: c :: rest =>
      if c = '\n' then (['\\'], c :: rest)
      else
        let (raw, left) := rawLine rest
        ('\\' :: c :: raw, left)
  | c :: rest =>
      if c = '"' ∨ c = '\n' then ([], c :: rest)
      else
        let (raw, left) := rawLine rest
        (c :: raw, left)

def line (text : List Char) : Scan :=
  match rawLine text with
  | (raw, '"' :: rest) => ⟨'"' :: raw ++ ['"'], stringToken (Escape.decode raw), rest⟩
  | (raw, rest) => ⟨'"' :: raw, .error .unclosedString, rest⟩

/-! ### Text blocks -/

def isOpeningBlank (c : Char) : Bool := Text.isIndent c || c == '\r'

/-- The content lines, the indentation of the closing line, and what follows its quotes. There is none if
no line closes the block. The number bounds the lines that are looked at. -/
def blockLines : Nat → List Char → Option (List (List Char) × List Char × List Char)
  | 0, _ => none
  | n + 1, text =>
      let line := text.takeWhile (· != '\n')
      let rest := text.dropWhile (· != '\n')
      if line.dropWhile Text.isIndent = tripleQuote then some ([], line.takeWhile Text.isIndent, rest)
      else
        match rest with
        | [] => none
        | _ :: rest =>
            (blockLines n rest).map fun (lines, indentation, rest) => (line :: lines, indentation, rest)

def dropReturns (line : List Char) : List Char := (line.reverse.dropWhile (· == '\r')).reverse

def outdent (indentation line : List Char) : Except Fault (List Char) :=
  match indentation.isPrefixOf? line with
  | some rest => .ok rest
  | none => if line.all Text.isBlank then .ok [] else .error .shallowLine

def blockLine (indentation line : List Char) : Except Fault (List Char) := do
  Escape.decode (dropReturns (← outdent indentation line))

def blockText (lines : List (List Char)) (indentation : List Char) : Except Fault (List Char) := do
  pure (['\n'].intercalate (← lines.mapM (blockLine indentation)))

def blockSource (lines : List (List Char)) (indentation : List Char) : List Char :=
  lines.flatMap (· ++ ['\n']) ++ indentation ++ tripleQuote

def block (text : List Char) : Scan :=
  let opening := tripleQuote ++ text.takeWhile isOpeningBlank
  match text.dropWhile isOpeningBlank with
  | '\n' :: body =>
      match blockLines (body.length + 1) body with
      | some (lines, indentation, rest) =>
          ⟨opening ++ '\n' :: blockSource lines indentation, stringToken (blockText lines indentation), rest⟩
      | none => ⟨opening ++ '\n' :: body, .error .unclosedBlock, []⟩
  | rest => ⟨opening, .error .textAfterOpening, rest⟩

def quotation : List Char → Scan
  | '"' :: '"' :: rest => block rest
  | '"' :: rest => ⟨['"', '"'], .ok (.stringLiteral ""), rest⟩
  | text => line text

end OnePass.Scan
