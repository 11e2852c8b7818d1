import OnePass.Feed
import OnePass.Grammar.Event

/-!
# Parsing with one token of lookahead

A parser holds a current token and at most one token beyond it. Tokens are asked for only when they are
needed. The answer to a request is an event, and so is every move to another token.

* `Cursor` — the current token, the lookahead, the feed, and the events so far;
* `Parse` — parsers: they move the cursor and may fail, and events survive a failure;
* `Parse.advance`, `peek`, `accept`, `expect` — moving over tokens.
-/

namespace OnePass

/-- Where a parser stands. -/
structure Cursor where
  current : Token
  ahead : Option Token := none
  feed : Feed
  events : List Event := []

abbrev Parse := ExceptT Diagnostic (StateM Cursor)

namespace Parse

def emit (event : Event) : Parse Unit :=
  modify fun cursor => { cursor with events := event :: cursor.events }

def fetch : Parse Token := do
  let (result, feed) := (← get).feed.next
  modify fun cursor => { cursor with feed }
  match result with
  | .ok token =>
      emit (.read token)
      pure token
  | .error diagnostic =>
      emit (.refused diagnostic)
      throw diagnostic

def current : Parse Token := return (← get).current

def isAt (kind : TokenKind) : Parse Bool := return (← get).current.kind == kind

def peek : Parse Token := do
  match (← get).ahead with
  | some token => pure token
  | none =>
      let token ← fetch
      modify fun cursor => { cursor with ahead := some token }
      pure token

def advance : Parse Token := do
  let cursor ← get
  match cursor.ahead with
  | some token =>
      set { cursor with current := token, ahead := none }
      emit (.moved token)
      pure cursor.current
  | none =>
      let token ← fetch
      modify fun cursor => { cursor with current := token }
      emit (.moved token)
      pure cursor.current

def failHere {α : Type} (fault : TokenKind → Fault) : Parse α := do
  let token ← current
  throw ⟨fault token.kind, some token.location⟩

def accept (kind : TokenKind) : Parse Bool := do
  if ← isAt kind then
    let _ ← advance
    pure true
  else pure false

def expect (sign : Mark) : Parse Unit := do
  unless ← accept (.mark sign) do failHere (.expected sign.text)

def identifier (role : String) : Parse (String × Location) := do
  let token ← current
  match token.identifier? with
  | some name =>
      let _ ← advance
      pure (name, token.location)
  | none => failHere (.expectedName role)

def typeChoices : List String := ["Int", "Double", "String", "Int?", "Double?", "String?"]

def typeName : Parse Ty := do
  match (← current).kind with
  | .typeName ty =>
      let _ ← advance
      pure ty
  | _ => failHere (.expectedOneOf typeChoices)

/-- A list of items with commas between them, and how many there are. The number bounds the commas; with no
token left an item fails. -/
def commaSeparated (item : Nat → Parse Unit) : Nat → Nat → Parse Nat
  | 0, index => do
      item index
      pure (index + 1)
  | n + 1, index => do
      item index
      if ← accept (.mark .comma) then commaSeparated item n (index + 1) else pure (index + 1)

def parenthesized (bound : Nat) (item : Nat → Parse Unit) : Parse Nat := do
  let count ← if ← isAt (.mark .rightParen) then pure 0 else commaSeparated item bound 0
  expect .rightParen
  pure count

end Parse

end OnePass
