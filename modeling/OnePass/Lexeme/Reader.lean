import OnePass.Feed
import OnePass.Lexeme.Quotation
import OnePass.Lexeme.Trivia

/-!
# Reading tokens from a source text

A reader holds the text that is left and the place where it starts. Each call skips trivia and takes one
lexeme. After a fault the next call goes on behind the characters that the faulty lexeme took, and at the end
of the text every call gives the end of the input.

* `Reader.next` — one call;
* `Reader.steps` — a number of calls;
* `Feed.ofSource` — the feed of a source text, up to the end of the input;
* `tokenize` — the tokens of a source text, or the first fault in it.
-/

namespace OnePass

/-- A position in a source text: the place, and the characters that are left. -/
structure Reader where
  place : Location
  rest : List Char

namespace Reader

def ofSource (source : String) : Reader := ⟨.start, source.toList⟩

def lexeme : List Char → Scan
  | '"' :: rest => .quotation rest
  | c :: rest =>
      if Scan.isLetter c then .word (c :: rest)
      else if Scan.isDigit c then .number (c :: rest)
      else .sign (c :: rest)
  | [] => .sign []

def take (place : Location) (afterBreak : Bool) (text : List Char) : Except Diagnostic Token × Reader :=
  let scan := lexeme text
  let result := match scan.outcome with
    | .ok kind => .ok ⟨kind, place, afterBreak⟩
    | .error fault => .error ⟨fault, some place⟩
  (result, ⟨place.after scan.taken, scan.rest⟩)

def next (reader : Reader) : Except Diagnostic Token × Reader :=
  match Trivia.skip reader.place reader.rest with
  | .lexeme place afterBreak rest => take place afterBreak rest
  | .unclosed opened stop => (.error ⟨.unclosedComment, some opened⟩, ⟨stop, []⟩)

def steps : Nat → Reader → List (Except Diagnostic Token)
  | 0, _ => []
  | n + 1, reader =>
      let (result, reader) := reader.next
      result :: steps n reader

def isEnd : Except Diagnostic Token → Bool
  | .ok token => token.kind == .eof
  | .error _ => false

/-- The feed from a reader on, up to the first end of the input. Every other call takes a character, so the
number of characters that are left, plus one, bounds the calls. -/
def feed : Nat → Reader → Feed
  | 0, reader => ⟨[], reader.place⟩
  | n + 1, reader =>
      let (result, reader) := reader.next
      if isEnd result then ⟨[result], reader.place⟩
      else
        let later := feed n reader
        { later with results := result :: later.results }

end Reader

def Feed.ofSource (source : String) : Feed :=
  let reader := Reader.ofSource source
  reader.feed (reader.rest.length + 1)

def tokenize (source : String) : Except Diagnostic (List Token) := (Feed.ofSource source).tokens

end OnePass
