import OnePass.Lexeme.Reader
import OnePass.Program
import OnePass.Target.Sink

/-!
# Compiling

* `compileProgram` — from tokens to a checked program;
* `compileFeed`, `compile` — from tokens, or from a source text, to target code;
* `compileTo` — the same, into a sink that gets nothing unless all is well.
-/

namespace OnePass

def version : String := "0.1.0"

def compileProgram (settings : Settings) (feed : Feed) : Outcome Program :=
  match settings.check with
  | .ok () => Program.ofFeed feed
  | .error diagnostic => { result := .error diagnostic, log := [] }

def renderProgram (settings : Settings) (program : Program) : Outcome Target.Listing :=
  let listing := Target.render settings program.scopes program.stream
  let called := Target.calledBuiltins (program.stream.toList.map Entry.instruction)
  let before := .rendering program.stream.length :: called.map LogRecord.bodyWritten
  match listing.fault with
  | some diagnostic => { result := .error diagnostic, log := before }
  | none =>
      let bytes := (Target.textOf listing.lines).utf8ByteSize
      { result := .ok listing
        log := before ++ [.finished program.scopes.size program.calls.length bytes] }

def compileListing (settings : Settings) (feed : Feed) : Outcome Target.Listing :=
  let front := compileProgram settings feed
  match front.result with
  | .error diagnostic => { result := .error diagnostic, log := front.log }
  | .ok program =>
      let back := renderProgram settings program
      { back with log := front.log ++ back.log }

def compileFeed (settings : Settings) (feed : Feed) : Outcome String :=
  let outcome := compileListing settings feed
  { result := outcome.result.map fun listing => Target.textOf listing.lines, log := outcome.log }

def compile (settings : Settings) (source : String) : Outcome String :=
  compileFeed settings (.ofSource source)

def compileTo (settings : Settings) (feed : Feed) (sink : Sink) : Delivery :=
  match (compileListing settings feed).result with
  | .error diagnostic => { kept := .empty, result := .error diagnostic }
  | .ok listing => sink.flush (sink.write .empty (Target.textOf listing.lines).toUTF8)

end OnePass
