import OnePass.Builtin
import OnePass.CallSite
import OnePass.Grammar.Event
import OnePass.Log
import OnePass.Stream

/-!
# The context in which a program gets its meaning

A program is given its meaning event by event. The context is what has been built so far: scopes, instructions
and calls, the values of the expression at hand, the arguments of the call at hand, and the conditionals and
loops that are still open.

* `Value` — a typed value and the instructions that compute it;
* `Context` — everything built so far, with the log;
* `Meaning` — actions on a context, which may fail; the context survives a failure.
-/

namespace OnePass

/-- The value of an expression: its type, and the first and last instruction that compute it. -/
structure Value where
  ty : Ty
  origin : Origin
  first : Nat
  last : Nat
deriving DecidableEq, Repr, Inhabited

/-- A conditional or loop whose end has not been reached: its scope, and the variable whose type it narrows
together with the type to go back to. -/
structure OpenBlock where
  scope : Nat
  narrowed : Option (String × Ty) := none
deriving DecidableEq, Repr, Inhabited

/-- What has been built so far. -/
structure Context where
  scopes : ScopeTree
  stream : Stream
  calls : Calls
  labels : Nat := 0
  values : List Value := []
  arguments : List Argument := []
  blocks : List OpenBlock := []
  log : List LogRecord := []
deriving Inhabited

namespace Context

def start : Context := { scopes := .withBuiltins, stream := .start, calls := {} }

end Context

abbrev Meaning := ExceptT Diagnostic (StateM Context)

namespace Meaning

def report (record : LogRecord) : Meaning Unit :=
  modify fun context => { context with log := record :: context.log }

def failAt {α : Type} (place : Location) (fault : Fault) : Meaning α := throw ⟨fault, some place⟩

def orFail {α : Type} (result : Except Diagnostic α) : Meaning α :=
  match result with
  | .ok a => pure a
  | .error diagnostic => throw diagnostic

/-! ### Scopes -/

def here : Meaning Nat := return (← get).scopes.current

def scope (id : Nat) : Meaning Scope := return (← get).scopes.scope id

def modifyScopes (change : ScopeTree → ScopeTree) : Meaning Unit :=
  modify fun context => { context with scopes := change context.scopes }

def createScope (parent : Nat) (kind : ScopeKind) (name : String) : Meaning Nat := do
  let (scopes, id) := (← get).scopes.createChild parent kind name
  modify fun context => { context with scopes }
  report (.scopeCreated name kind parent)
  pure id

def enterScope (kind : ScopeKind) (name : String) : Meaning Nat := do
  let id ← createScope (← here) kind name
  modifyScopes (·.goTo id)
  report (.scopeEntered name)
  pure id

def leaveScope : Meaning Unit := do
  let left ← scope (← here)
  let scopes ← orFail (← get).scopes.leave
  report (.scopeLeft left.name)
  modify fun context => { context with scopes }

def createNumbered (kind : ScopeKind) : Meaning Nat := do
  let parent ← here
  let (scopes, name) := (← get).scopes.nextConditionalName kind
  modify fun context => { context with scopes }
  createScope parent kind name

def insertSymbol (id : Nat) (symbol : Symbol) : Meaning Unit := do
  let table ← orFail ((← scope id).table.insert symbol)
  modifyScopes (·.setTable id table)

/-! ### Instructions -/

def instruction (kind : InstructionKind) (id : Nat) : Meaning Instruction :=
  return { kind, scope := id, frame := (← scope id).frame }

def append (instruction : Instruction) : Meaning Nat := do
  let (stream, id) := (← get).stream.append instruction
  modify fun context => { context with stream }
  pure id

def emit (kind : InstructionKind) : Meaning Nat := do
  append (← instruction kind (← here))

def mark (kind : InstructionKind) (id : Nat) : Meaning Unit := do
  let _ ← append (← instruction kind id)

def literal (payload : Payload) : Meaning Instruction :=
  return { ← instruction .pushLiteral (← here) with payload := some payload }

def insertBefore (id : Nat) (instruction : Instruction) : Meaning Nat := do
  let (stream, inserted) ← orFail (((← get).stream.setCursor id).insertBefore instruction)
  modify fun context => { context with stream }
  pure inserted

def nextLabel : Meaning Nat := do
  let label := (← get).labels + 1
  modify fun context => { context with labels := label }
  pure label

/-! ### Variables -/

def storageName (name : String) (owner : Nat) : String := s!"{name}${owner}"

def reference (kind : InstructionKind) (name : String) (place : Location) : Meaning (Symbol × Instruction) := do
  let scopes := (← get).scopes
  match scopes.owner? scopes.current name with
  | none => failAt place (.unknownVariable name)
  | some owner =>
      match (scopes.scope owner).table.get? name with
      | none => failAt place (.unknownVariable name)
      | some symbol =>
          if symbol.isFunction then failAt place (.unknownVariable name)
          else
            pure (symbol,
              { kind, scope := scopes.current, frame := (scopes.scope owner).frame,
                payload := some (.name (storageName name owner)) })

end Meaning

end OnePass
