import OnePass.Meaning.Variable

/-!
# The meaning of calls

The arguments of a call are pushed from left to right. The function may not be known yet: a dropped result is
assumed to exist and is taken off the stack by an instruction that is removed later if there is none. Written
arguments are written one by one, without a call.

* `Meaning.argument` — an argument;
* `Meaning.receiveCall` — a call whose result a variable gets;
* `Meaning.call` — the call itself.
-/

namespace OnePass.Meaning

def argumentPush (term : Token) : Meaning (Ty × Bool × Bool × Instruction) := do
  match term.kind with
  | .identifier name =>
      let (symbol, push) ← reference .pushVariable name term.location
      return (symbol.ty, symbol.isDefined, false, push)
  | kind =>
      let (ty, payload) := literalOf kind
      return (ty, true, true, ← literal payload)

def argument (callee : String) (label : Option String) (term : Token) (place : Location) : Meaning Unit := do
  let (ty, initialized, literal, instruction) ← argumentPush term
  let push ← append instruction
  if Builtin.isVariadic callee then
    let _ ← emit .write
  let argument : Argument := { label, ty, initialized, literal, push, location := some place }
  modify fun context => { context with arguments := argument :: context.arguments }

def receivedTy (callee : String) : Receiver → Meaning Ty
  | .declared _ _ (some ty) => pure ty
  | .declared name place none => resultTy callee name place
  | .assigned name place => assigneeTy name place

def receiveCall (callee : String) (receiver : Receiver) : Meaning Unit := do
  let _ ← receivedTy callee receiver

def purposeOf (callee : String) : CallUse → Meaning (Option Ty × Bool)
  | .received receiver => return (some (← receivedTy callee receiver), false)
  | .dropped =>
      return (none, !Builtin.isVariadic callee && (← get).scopes.functionResult? callee != some .void)

def callInstructions (callee : String) (callId : Nat) (scaffolded : Bool) : Meaning Unit := do
  unless Builtin.isVariadic callee do
    let _ ← append
      { ← instruction .call (← here) with counter := callId, payload := some (.name callee) }
    if scaffolded then
      let _ ← emit .discardResult

def call (callee : String) (place : Location) (purpose : CallUse) : Meaning Unit := do
  let (target, scaffolded) ← purposeOf callee purpose
  let context ← get
  let callId := context.calls.nextId
  callInstructions callee callId scaffolded
  let site : CallSite :=
    { name := callee, target, arguments := context.arguments.reverse, callId, scaffolded
      scope := context.scopes.current, location := some place }
  report (.callRecorded callee callId)
  modify fun context => { context with calls := context.calls.record site, arguments := [] }

end OnePass.Meaning
