import OnePass.Grammar.Statement
import OnePass.Meaning.Block
import OnePass.Meaning.Call
import OnePass.Meaning.Validation

/-!
# Programs

A program is what is left of a source text: its scopes, its instructions and its calls.

* `Meaning.act` — the meaning of one event;
* `Meaning.checked`, `Meaning.program` — the meaning of a transcript, with the checks at its end;
* `Program.ofFeed` — the program of a feed of tokens.
-/

namespace OnePass

/-- A program that has passed all checks. -/
structure Program where
  scopes : ScopeTree
  stream : Stream
  calls : Calls
deriving Inhabited

namespace Meaning

def reportBuiltins : Meaning Unit := do
  Builtin.all.forM fun builtin => report (.scopeCreated builtin.name .functionHeader ScopeTree.root)
  report (.builtinsRegistered Builtin.all.length)

def act : Event → Meaning Unit
  | .read token => report (.tokenRead token)
  | .refused _ | .moved _ => pure ()
  | .start => reportBuiltins
  | .operand token => operand token
  | .binary operator place => binary operator place
  | .unwrap place => unwrap place
  | .declareName name place => declareName name place
  | .reserve name => reserve name
  | .bind mutable name place stated source => bind mutable name place stated source
  | .assignee name place => discard (assigneeTy name place)
  | .assign name place source => assign name place source
  | .receiveCall callee receiver => receiveCall callee receiver
  | .argument callee label term place => argument callee label term place
  | .call callee place purpose => call callee place purpose
  | .beginIf => beginIf
  | .ifCondition place => ifCondition place
  | .ifLet name place => ifLet name place
  | .endThen => endThen
  | .beginElse => beginElse
  | .endElse => endElse
  | .endIf => endIf
  | .beginWhile => beginWhile
  | .whileCondition place => whileCondition place
  | .endWhile => endWhile
  | .functionName name place => functionName name place
  | .beginParameters name => beginParameters name
  | .parameter index label name ty place => parameter index label name ty place
  | .beginBody name place parameters returns => beginBody name place parameters returns
  | .endFunction name => endFunction name
  | .beginReturn hasValue place => beginReturn hasValue place
  | .endReturn hasValue place => endReturn hasValue place

/-- The meaning of the tokens of a program. A fault in the tokens counts once everything before it has been
given its meaning. -/
def read (transcript : Transcript) : Meaning Unit := do
  transcript.events.forM act
  if let some diagnostic := transcript.fault then throw diagnostic

def checked (transcript : Transcript) : Meaning Unit := do
  read transcript
  let context ← get
  report (.parsed context.stream.length context.scopes.size context.calls.length)
  checkCalls

def program (transcript : Transcript) : Meaning Program := do
  checked transcript
  let context ← get
  orFail context.scopes.checkReturns
  return { scopes := context.scopes, stream := context.stream, calls := context.calls }

end Meaning

/-- The outcome of some work, with the log of it. -/
structure Outcome (α : Type) where
  result : Except Diagnostic α
  log : List LogRecord

namespace Program

def ofFeed (feed : Feed) : Outcome Program :=
  let (result, context) := (Meaning.program (parse feed)).run.run .start
  { result, log := context.log.reverse }

end Program

end OnePass
