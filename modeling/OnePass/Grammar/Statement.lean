import OnePass.Builtin
import OnePass.Grammar.Expression

/-!
# Statements

Statements are read by recursive descent. All but the first statement of a sequence start on a new line, and
functions are defined at the top level only.

* `Parse.declaration`, `assignment`, `callStatement`, `conditional`, `loop`, `returning`, `function` — the
  kinds of statements; those with blocks take the parser of block contents as an argument;
* `Parse.statements` — sequences of statements;
* `Transcript`, `parse` — the events of a whole program, and the fault that ended them, if any.
-/

namespace OnePass

namespace Parse

/-! ### Calls and right-hand sides -/

def callAhead? : Parse (Option String) := do
  match (← current).identifier? with
  | none => pure none
  | some name => if (← peek).kind == .mark .leftParen then pure (some name) else pure none

def argumentLabel : Parse (Option String) := do
  match (← current).identifier? with
  | none => pure none
  | some name =>
      if (← peek).kind == .mark .colon then
        let _ ← advance
        let _ ← advance
        pure (some name)
      else pure none

def argument (callee : String) : Parse Unit := do
  let place := (← current).location
  let label ← argumentLabel
  unless (← current).kind.isTerm do failHere (.expected "引数")
  let term ← advance
  emit (.argument callee label term place)

def call (bound : Nat) (purpose : CallUse) : Parse Unit := do
  let (callee, place) ← identifier "関数名"
  expect .leftParen
  let _ ← parenthesized bound fun _ => argument callee
  emit (.call callee place purpose)

def rightHandSide (bound : Nat) (receiver : Receiver) : Parse ValueSource := do
  match ← callAhead? with
  | some callee =>
      emit (.receiveCall callee receiver)
      call bound (.received receiver)
      pure (.call callee)
  | none =>
      expression bound
      pure .expression

/-! ### Statements without blocks -/

def declaration (bound : Nat) : Parse Unit := do
  let keyword ← advance
  let (name, place) ← identifier "変数名"
  emit (.declareName name place)
  let stated ← if ← accept (.mark .colon) then some <$> typeName else pure none
  emit (.reserve name)
  let source ← if ← accept (.mark .assign) then
      some <$> rightHandSide bound (.declared name place stated)
    else pure none
  emit (.bind (keyword.kind == .keyword .varWord) name place stated source)

def assignment (bound : Nat) : Parse Unit := do
  let (name, place) ← identifier "代入先"
  expect .assign
  emit (.assignee name place)
  let source ← rightHandSide bound (.assigned name place)
  emit (.assign name place source)

def named (bound : Nat) : Parse Unit := do
  let next ← peek
  match next.kind with
  | .mark .assign => assignment bound
  | .mark .leftParen => call bound .dropped
  | kind => throw ⟨.expectedOneOf ["=", "("] kind, some next.location⟩

def returning (bound : Nat) : Parse Unit := do
  let keyword ← advance
  let token ← current
  let hasValue := !(token.kind == .mark .rightBrace || token.kind == .eof || token.afterBreak)
  emit (.beginReturn hasValue keyword.location)
  if hasValue then expression bound
  emit (.endReturn hasValue keyword.location)

/-! ### Statements with blocks -/

def condition (bound : Nat) : Parse Unit := do
  if ← accept (.keyword .letWord) then
    let (name, place) ← identifier "if let の変数"
    emit (.ifLet name place)
  else
    let place := (← current).location
    expression bound
    emit (.ifCondition place)

def thenOpening (bound : Nat) : Parse Unit := do
  let _ ← advance
  emit .beginIf
  condition bound
  expect .leftBrace

def elseOpening : Parse Bool := do
  expect .rightBrace
  emit .endThen
  if ← accept (.keyword .elseWord) then
    emit .beginElse
    expect .leftBrace
    pure true
  else pure false

def conditional (bound : Nat) (body : Parse Unit) : Parse Unit := do
  thenOpening bound
  body
  if ← elseOpening then
    body
    expect .rightBrace
    emit .endElse
  emit .endIf

def loopOpening (bound : Nat) : Parse Unit := do
  let _ ← advance
  emit .beginWhile
  let place := (← current).location
  expression bound
  emit (.whileCondition place)
  expect .leftBrace

def loop (bound : Nat) (body : Parse Unit) : Parse Unit := do
  loopOpening bound
  body
  expect .rightBrace
  emit .endWhile

def parameterName (role : String) : Parse (Option String) := do
  if ← accept (.keyword .underscore) then pure none
  else
    let (name, _) ← identifier role
    pure (some name)

def parameter (index : Nat) : Parse Unit := do
  let place := (← current).location
  let label ← parameterName "パラメータの外部名"
  let name ← parameterName "パラメータの内部名"
  expect .colon
  let ty ← typeName
  emit (.parameter index label name ty place)

def functionOpening (bound : Nat) : Parse String := do
  let _ ← advance
  let (name, place) ← identifier "関数名"
  emit (.functionName name place)
  expect .leftParen
  emit (.beginParameters name)
  let parameters ← parenthesized bound parameter
  let returns ← if ← accept (.mark .arrow) then typeName else pure .void
  emit (.beginBody name place parameters returns)
  expect .leftBrace
  pure name

def function (bound : Nat) (body : Parse Unit) : Parse Unit := do
  let name ← functionOpening bound
  body
  expect .rightBrace
  emit (.endFunction name)

/-! ### Sequences -/

def statement (bound : Nat) (topLevel : Bool) (body : Parse Unit) : Parse Unit := do
  match (← current).kind with
  | .keyword .letWord | .keyword .varWord => declaration bound
  | .keyword .funcWord => if topLevel then function bound body else failHere fun _ => .nestedFunction
  | .keyword .ifWord => conditional bound body
  | .keyword .whileWord => loop bound body
  | .keyword .returnWord => returning bound
  | .identifier _ => named bound
  | _ => failHere .unexpected

def sequenceEnds : Parse Bool := return (← isAt (.mark .rightBrace)) || (← isAt .eof)

/-- A sequence of statements. Every statement takes a token, so the number of tokens that are left bounds
both the sequence and the nesting of blocks; with none left the sequence has ended. -/
def statements : Nat → (topLevel first : Bool) → Parse Unit
  | 0, _, _ => pure ()
  | n + 1, topLevel, first => do
      unless ← sequenceEnds do
        unless first || (← current).afterBreak do failHere .missingBreak
        statement n topLevel (statements n false true)
        statements n topLevel false

def program (bound : Nat) : Parse Unit := do
  statements bound true true
  unless ← isAt .eof do failHere .unexpected

end Parse

/-- What a parser makes of a feed: the events, and the fault that ended them, if any. -/
structure Transcript where
  events : List Event
  fault : Option Diagnostic
deriving Repr

def parse (feed : Feed) : Transcript :=
  match feed.next with
  | (.error diagnostic, _) => { events := [.refused diagnostic], fault := some diagnostic }
  | (.ok token, rest) =>
      let cursor : Cursor :=
        { current := token, feed := rest, events := [.start, .moved token, .read token] }
      let (result, cursor) := (Parse.program (feed.results.length + 1)).run.run cursor
      { events := cursor.events.reverse
        fault := match result with
          | .ok () => none
          | .error diagnostic => some diagnostic }

end OnePass
