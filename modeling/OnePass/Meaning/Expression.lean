import OnePass.Meaning.Context

/-!
# The meaning of expressions

Operands push values; operators take the values on top and leave their result. Numbers are converted as late
as possible: an integer that comes from literals only is rewritten to a double where a double is needed, any
other integer is converted when the program runs.

* `Meaning.promote` — turns an integer made of literals into a double;
* `Meaning.unify` — brings two numbers to one type;
* `Meaning.operand`, `binary`, `unwrap` — the meaning of the events of an expression;
* `Meaning.finish` — takes the value of a whole expression.
-/

namespace OnePass

def Origin.combine : Origin → Origin → Origin
  | literal, literal => literal
  | _, _ => compound

def Value.isIntLiteral (value : Value) : Bool := value.ty == .int && value.origin == .literal

def Instruction.promote (instruction : Instruction) : Instruction :=
  match instruction.kind with
  | .pushLiteral => instruction.toDouble
  | .intDiv => { instruction with kind := .div }
  | _ => instruction

def Ty.comparable (left right : Ty) : Bool :=
  if left = right then left.isStorable || left == .nil
  else
    (left.isOptional && (right == left.unwrapped || right == .nil)) ||
      (right.isOptional && (left == right.unwrapped || left == .nil))

namespace Meaning

/-! ### The values at hand -/

def pushValue (value : Value) : Meaning Unit :=
  modify fun context => { context with values := value :: context.values }

def popValue : Meaning Value := do
  match (← get).values with
  | value :: values =>
      modify fun context => { context with values }
      pure value
  | [] => throw { fault := .missingOperand }

/-! ### Conversions of numbers -/

def promote (value : Value) : Meaning Value := do
  modify fun context =>
    { context with
      stream := context.stream.modify (context.stream.range value.first value.last) Instruction.promote }
  pure { value with ty := .double }

def unify (left right : Value) : Meaning (Value × Value) := do
  match left.ty, right.ty with
  | .int, .double =>
      if left.origin = .literal then return (← promote left, right)
      let last ← insertBefore right.first (← instruction .intToDouble (← here))
      report .leftConverted
      return ({ left with ty := .double, last }, right)
  | .double, .int =>
      if right.origin = .literal then return (left, ← promote right)
      let last ← emit .intToDouble
      report .rightConverted
      return (left, { right with ty := .double, last })
  | _, _ => return (left, right)

/-! ### Operators -/

def arithmeticKind (operator : Operator) (ty : Ty) : InstructionKind :=
  match operator with
  | .add => .add
  | .subtract => .sub
  | .multiply => .mul
  | _ => if ty = .int then .intDiv else .div

def arithmetic (operator : Operator) (left right : Value) (place : Location) : Meaning Value := do
  if left.ty = .string ∧ right.ty = .string then
    if operator ≠ .add then failAt place .stringArithmetic
    let last ← emit .concat
    return { ty := .string, origin := left.origin.combine right.origin, first := left.first, last }
  unless left.ty.isNumeric && right.ty.isNumeric do failAt place (.operandTypes operator left.ty right.ty)
  let (left, right) ← unify left right
  let last ← emit (arithmeticKind operator left.ty)
  return { ty := left.ty, origin := left.origin.combine right.origin, first := left.first, last }

def comparisonKind : Operator → InstructionKind
  | .less => .lt
  | .greater => .gt
  | .lessEqual => .le
  | .greaterEqual => .ge
  | .equal => .eq
  | _ => .neq

def truth (operator : Operator) (first : Nat) : Meaning Value := do
  let last ← emit (comparisonKind operator)
  return { ty := .bool, origin := .compound, first, last }

def ordering (operator : Operator) (left right : Value) (place : Location) : Meaning Value := do
  if left.ty = .string ∧ right.ty = .string then truth operator left.first
  else if left.ty.isNumeric && right.ty.isNumeric then
    let (left, _) ← unify left right
    truth operator left.first
  else failAt place (.operandTypes operator left.ty right.ty)

def equality (operator : Operator) (left right : Value) (place : Location) : Meaning Value := do
  if left.ty.isNumeric && right.ty.isNumeric then
    let _ ← unify left right
  else if left.ty = .optional .double ∧ right.isIntLiteral then
    let _ ← promote right
  else if right.ty = .optional .double ∧ left.isIntLiteral then
    let _ ← promote left
  else unless left.ty.comparable right.ty do failAt place (.operandTypes operator left.ty right.ty)
  truth operator left.first

def coalesce (left right : Value) (place : Location) : Meaning Value := do
  unless left.ty.isOptional || left.ty == .nil do failAt place (.coalesceLeft left.ty)
  let base := if left.ty = .nil then right.ty.unwrapped else left.ty.unwrapped
  let right ← if base = .double ∧ right.isIntLiteral then promote right else pure right
  if right.ty ≠ .nil ∧ (right.ty.unwrapped ≠ base ∨ !right.ty.isStorable) then
    failAt place (.operandTypes .coalesce left.ty right.ty)
  let counter ← nextLabel
  let last ← append { ← instruction .coalesce (← here) with counter }
  let ty := if right.ty.isOptional || right.ty == .nil then base.wrapped else base
  return { ty, origin := .compound, first := left.first, last }

/-! ### The events of an expression -/

def literalOf : TokenKind → Ty × Payload
  | .intLiteral value => (.int, .int value)
  | .doubleLiteral value => (.double, .double value)
  | .stringLiteral text => (.string, .string text)
  | _ => (.nil, .nil)

def operand (token : Token) : Meaning Unit := do
  match token.kind with
  | .identifier name =>
      let (symbol, push) ← reference .pushVariable name token.location
      unless symbol.isDefined do failAt token.location (.uninitialized name)
      let id ← append push
      pushValue { ty := symbol.ty, origin := .identifier, first := id, last := id }
  | kind =>
      let (ty, payload) := literalOf kind
      let id ← append (← literal payload)
      pushValue { ty, origin := .literal, first := id, last := id }

def binary (operator : Operator) (place : Location) : Meaning Unit := do
  let right ← popValue
  let left ← popValue
  let value ← match operator with
    | .add | .subtract | .multiply | .divide => arithmetic operator left right place
    | .less | .greater | .lessEqual | .greaterEqual => ordering operator left right place
    | .equal | .notEqual => equality operator left right place
    | .coalesce => coalesce left right place
  pushValue value

def unwrap (place : Location) : Meaning Unit := do
  let value ← popValue
  unless value.ty.isOptional do failAt place (.unwrapOperand value.ty)
  let counter ← nextLabel
  let last ← append { ← instruction .unwrap (← here) with counter }
  pushValue { ty := value.ty.unwrapped, origin := .compound, first := value.first, last }

/-- Takes the value of a whole expression. Where a double is wanted, an integer that comes from literals only
becomes one. -/
def finish (wanted : Option Ty) : Meaning Value := do
  let value ← popValue
  let value ← if wanted.any (·.unwrapped == .double) && value.isIntLiteral then promote value else pure value
  report (.expressionTyped value.ty value.origin)
  pure value

end Meaning

end OnePass
