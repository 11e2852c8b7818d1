import OnePass.Operator

/-!
# Operator precedence

Expressions are read with a stack of terminals. The relation between the topmost terminal and the next one
says whether to go on reading or to complete what is on the stack.

From the strongest to the weakest: postfix `!`, then `*` and `/`, then `+` and `-`, then the comparisons, all
grouping to the left, then `??`, which groups to the right.

* `Terminal` — the terminals of expressions;
* `Terminal.relation` — what to do with a terminal on the stack and the next one.
-/

namespace OnePass

/-- The terminals of expressions. -/
inductive Terminal where
  | operator (operator : Operator)
  | unwrap
  | leftParen
  | rightParen
  | operand
  | stop
deriving DecidableEq, Repr, Inhabited

/-- What to do with the topmost terminal on the stack and the next one. -/
inductive Relation where
  | shift
  | reduce
  | matching
  | clash
deriving DecidableEq, Repr, Inhabited

namespace Terminal

def all : List Terminal :=
  [.operator .add, .operator .subtract, .operator .multiply, .operator .divide, .operator .less,
    .operator .greater, .operator .lessEqual, .operator .greaterEqual, .operator .notEqual, .operator .equal,
    unwrap, .operator .coalesce, leftParen, rightParen, operand, stop]

def index (terminal : Terminal) : Nat := all.idxOf terminal

def ofMark : Mark → Terminal
  | .plus => .operator .add
  | .minus => .operator .subtract
  | .star => .operator .multiply
  | .slash => .operator .divide
  | .less => .operator .less
  | .greater => .operator .greater
  | .lessEqual => .operator .lessEqual
  | .greaterEqual => .operator .greaterEqual
  | .notEqual => .operator .notEqual
  | .equal => .operator .equal
  | .bang => unwrap
  | .coalesce => .operator .coalesce
  | .leftParen => leftParen
  | .rightParen => rightParen
  | .assign | .leftBrace | .rightBrace | .colon | .comma | .arrow => stop

def ofKind : TokenKind → Terminal
  | .mark sign => ofMark sign
  | kind => if kind.isTerm then operand else stop

def isBinary : Terminal → Bool
  | .operator _ => true
  | _ => false

def endsOperand : Terminal → Bool
  | operand | rightParen | unwrap => true
  | _ => false

def startsOperand : Terminal → Bool
  | operand | leftParen => true
  | _ => false

/-- An operator on the stack and an operator after its right operand: the stronger one goes first, and of
equally strong ones the left one, but for `??`. -/
def between (top next : Operator) : Relation :=
  if top.strength < next.strength then .shift
  else if next.strength < top.strength then .reduce
  else if top = .coalesce then .shift
  else .reduce

def relation : Terminal → Terminal → Relation
  | .operator top, .operator next => between top next
  | .operator _, unwrap | .operator _, operand | .operator _, leftParen => .shift
  | .operator _, rightParen | .operator _, stop => .reduce
  | leftParen, rightParen => .matching
  | leftParen, stop => .clash
  | leftParen, _ => .shift
  | stop, rightParen | stop, stop => .clash
  | stop, _ => .shift
  -- the rest completes an operand
  | _, operand | _, leftParen => .clash
  | _, _ => .reduce

end Terminal

end OnePass
