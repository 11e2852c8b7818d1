import OnePass.Location
import OnePass.Text.Blank

/-!
# Trivia between lexemes

Blanks, comments to the end of a line, and nested block comments separate lexemes. Of them only the line
breaks are kept, as a single flag.

* `Trivia.skip` — the trivia at the start of a text.
-/

namespace OnePass.Trivia

/-- What a position between lexemes is inside of. -/
inductive Region where
  | blanks
  | lineComment
  | blockComment (depth : Nat) (opened : Location)

/-- Where the trivia at the start of a text lead. -/
inductive Gap where
  | lexeme (place : Location) (afterBreak : Bool) (rest : List Char)
  | unclosed (opened stop : Location)

def skipFrom : Region → Location → Bool → List Char → Gap
  | .blockComment _ opened, place, _, [] => .unclosed opened place
  | _, place, afterBreak, [] => .lexeme place afterBreak []
  | .blanks, place, afterBreak, '/' :: '/' :: rest =>
      skipFrom .lineComment (place.after ['/', '/']) afterBreak rest
  | .blanks, place, afterBreak, '/' :: '*' :: rest =>
      skipFrom (.blockComment 0 place) (place.after ['/', '*']) afterBreak rest
  | .blanks, place, afterBreak, c :: rest =>
      if Text.isBlank c then skipFrom .blanks (place.step c) (afterBreak || c == '\n') rest
      else .lexeme place afterBreak (c :: rest)
  | .lineComment, place, afterBreak, c :: rest =>
      if c = '\n' then skipFrom .blanks (place.step c) true rest
      else skipFrom .lineComment (place.step c) afterBreak rest
  | .blockComment depth opened, place, afterBreak, '/' :: '*' :: rest =>
      skipFrom (.blockComment (depth + 1) opened) (place.after ['/', '*']) afterBreak rest
  | .blockComment 0 _, place, afterBreak, '*' :: '/' :: rest =>
      skipFrom .blanks (place.after ['*', '/']) afterBreak rest
  | .blockComment (depth + 1) opened, place, afterBreak, '*' :: '/' :: rest =>
      skipFrom (.blockComment depth opened) (place.after ['*', '/']) afterBreak rest
  | .blockComment depth opened, place, afterBreak, c :: rest =>
      skipFrom (.blockComment depth opened) (place.step c) (afterBreak || c == '\n') rest

def skip (place : Location) (text : List Char) : Gap := skipFrom .blanks place false text

end OnePass.Trivia
