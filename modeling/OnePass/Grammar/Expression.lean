import OnePass.Grammar.Cursor
import OnePass.Grammar.Terminal

/-!
# Expressions

Expressions are read by operator precedence. Terminals wait on a stack until the relation to the next terminal
says that they complete something; each completed operand or operation is reported as an event, so that the
events of an expression are its operands and operators in postfix order.

* `Pending` — what waits on the stack;
* `Pending.complete` — what completing it reports;
* `Shelf.settle` — completes what the next terminal lets complete;
* `Shelf.move` — what a token does to the stack;
* `Parse.expression` — a whole expression.
-/

namespace OnePass

/-- What waits on the stack. `left` says whether a value stands to the left. -/
inductive Pending where
  | operand (token : Token)
  | binary (left : Bool) (operator : Operator) (place : Location)
  | unwrap (left : Bool) (place : Location)
  | opened
  | closed (inner : Bool)
deriving Repr

/-- A stack of pending terminals, topmost first, and whether a value stands on top of them. -/
structure Shelf where
  pending : List Pending := []
  value : Bool := false
  complete : Bool := false
deriving Repr

namespace Pending

def terminal : Pending → Terminal
  | operand _ => .operand
  | binary _ operator _ => .operator operator
  | unwrap .. => .unwrap
  | opened => .leftParen
  | closed _ => .rightParen

/-- The events of completing what is on top of the stack, given whether a value stands above it. An operation
without its operands cannot be completed. -/
def complete (value : Bool) : Pending → Option (List Event)
  | operand token => some [.operand token]
  | binary left operator place => if left && value then some [.binary operator place] else none
  | unwrap left place => if left then some [.unwrap place] else none
  | opened => none
  | closed inner => if inner then some [] else none

end Pending

/-- What a token comes to on a stack. -/
inductive Move where
  | ended
  | taken (shelf : Shelf)
  | stuck (fault : TokenKind → Fault)

namespace Shelf

def top (shelf : Shelf) : Terminal :=
  match shelf.pending with
  | pending :: _ => pending.terminal
  | [] => .stop

/-- The terminal that a token is after what has been read: an operand on a new line does not continue a
complete operand. -/
def next (shelf : Shelf) (token : Token) : Terminal :=
  let terminal := Terminal.ofKind token.kind
  if token.afterBreak && terminal.startsOperand && shelf.complete then .stop else terminal

/-- The stack with one more token on top, which is read as a terminal. A value on top becomes the left operand
of an operator. -/
def push (shelf : Shelf) (token : Token) (terminal : Terminal) : Shelf :=
  let pending : Pending := match terminal with
    | .operator operator => .binary shelf.value operator token.location
    | .unwrap => .unwrap shelf.value token.location
    | .operand => .operand token
    | .leftParen | .rightParen | .stop => .opened
  { pending := pending :: shelf.pending, complete := terminal.endsOperand }

def close (shelf : Shelf) : Shelf :=
  { pending := .closed shelf.value :: shelf.pending.tail, complete := true }

/-- Completes pending terminals as long as the next terminal demands it: what is reported, and the stack and
the value that are left, if everything can be completed. -/
def settle (next : Terminal) : List Pending → Bool → List Event × Option Shelf
  | [], value => ([], some { value })
  | pending :: rest, value =>
      if pending.terminal.relation next = .reduce then
        match pending.complete value with
        | some events => (settle next rest true).map (events ++ ·) id
        | none => ([], none)
      else ([], some { pending := pending :: rest, value })

def place (shelf : Shelf) (next : Terminal) (token : Token) : Move :=
  if shelf.pending.isEmpty ∧ next = .stop then
    if shelf.value then .ended else .stuck (.expected "式")
  else
    match shelf.top.relation next with
    | .shift => .taken (shelf.push token next)
    | .matching => .taken shelf.close
    | _ => .stuck .malformedExpression

def move (shelf : Shelf) (next : Terminal) (token : Token) : List Event × Move :=
  (settle next shelf.pending shelf.value).map id fun
    | some shelf => shelf.place next token
    | none => .stuck .malformedExpression

end Shelf

namespace Parse

def follow (proceed : Shelf → Parse Unit) : Move → Parse Unit
  | .ended => pure ()
  | .taken shelf => do
      let _ ← advance
      proceed shelf
  | .stuck fault => failHere fault

/-- One step of reading an expression: completes what the current token lets complete, then moves over the
token and goes on with `proceed`, or ends the expression. -/
def step (shelf : Shelf) (proceed : Shelf → Parse Unit) : Parse Unit := do
  let token ← current
  let outcome := shelf.move (shelf.next token) token
  outcome.1.forM emit
  follow proceed outcome.2

/-- Reads an expression from a stack on. The number bounds the tokens that are left; with none left an
expression can only end. -/
def expressionFrom : Nat → Shelf → Parse Unit
  | 0, shelf => step shelf fun _ => failHere .malformedExpression
  | n + 1, shelf => step shelf (expressionFrom n)

def expression (bound : Nat) : Parse Unit := expressionFrom bound {}

end Parse

end OnePass
