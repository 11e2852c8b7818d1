/-!
# Characters and line ends of TOML

* `Reading` — a reader of characters that may fail;
* `lineEnd` — the end of a line, with a comment before it;
* `gap` — what may stand between the values of an array.
-/

namespace OnePass.Toml

abbrev Reading := StateT (List Char) Option

namespace Reading

def peek : Reading (Option Char) := return (← get).head?

def one (holds : Char → Bool) : Reading Char := fun
  | c :: rest => if holds c then some (c, rest) else none
  | [] => none

def many (holds : Char → Bool) : Reading (List Char) := fun cs => some (cs.takeWhile holds, cs.dropWhile holds)

def exactly (holds : Char → Bool) (count : Nat) : Reading (List Char) := fun cs =>
  let found := cs.take count
  if found.length = count && found.all holds then some (found, cs.drop count) else none

def literal (text : List Char) : Reading Unit := fun cs =>
  if text.isPrefixOf cs then some ((), cs.drop text.length) else none

def accept (text : List Char) : Reading Bool := fun cs =>
  if text.isPrefixOf cs then some (true, cs.drop text.length) else some (false, cs)

def option {α : Type} (reading : Reading α) : Reading (Option α) := fun cs =>
  match reading cs with
  | some (a, rest) => some (some a, rest)
  | none => some (none, cs)

def written (reading : Reading Unit) : Reading String := fun cs =>
  (reading cs).map fun (_, rest) => (String.ofList (cs.take (cs.length - rest.length)), rest)

end Reading

open Reading

def isBlank (c : Char) : Bool := c == ' ' || c == '\t'

def isPlain (c : Char) : Bool := c == '\t' || (' ' ≤ c && c != '\x7f')

def blanks : Reading Unit := discard (many isBlank)

def newline : Reading Unit := literal ['\n'] <|> literal ['\r', '\n']

def comment : Reading Unit := do
  literal ['#']
  discard (many isPlain)

def lineBreak : Reading Unit := do
  if (← peek).isSome then newline

def lineEnd : Reading Unit := do
  blanks
  if (← peek) == some '#' then comment
  lineBreak

def gapWithin : Nat → Reading Unit
  | 0 => blanks
  | n + 1 => do
      blanks
      match ← peek with
      | some '#' => do
          comment
          newline
          gapWithin n
      | some '\n' | some '\r' => do
          newline
          gapWithin n
      | _ => pure ()

def gap : Reading Unit := do gapWithin (← get).length

end OnePass.Toml
