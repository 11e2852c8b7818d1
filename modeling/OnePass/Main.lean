import OnePass.Shell.Run

/-!
# The command line program

* `systemHost` — the files and streams of the system;
* `main` — the program.
-/

namespace OnePass.Shell

def reasonOf (error : IO.Error) : String :=
  match error with
  | .noFileOrDirectory _ code details | .interrupted _ code details | .inappropriateType _ code details
  | .permissionDenied _ code details | .resourceExhausted _ code details | .invalidArgument _ code details
  | .alreadyExists _ code details | .noSuchThing _ code details | .resourceBusy code details
  | .resourceVanished code details | .unsupportedOperation code details | .hardwareFault code details
  | .unsatisfiedConstraints code details | .illegalOperation code details | .protocolError code details
  | .timeExpired code details | .otherError code details => s!"{details} (os error {code})"
  | other => toString other

def attempt {α : Type} (action : IO α) : IO (Except String α) := do
  match ← action.toBaseIO with
  | .ok result => return .ok result
  | .error error => return .error (reasonOf error)

partial def readAll (stream : IO.FS.Stream) (before : ByteArray) : IO ByteArray := do
  let more ← stream.read 65536
  if more.isEmpty then return before else readAll stream (before ++ more)

def systemHost : Host IO where
  readFile path := attempt do (← IO.FS.Handle.mk path .read).readBinToEnd
  readInput := attempt do readAll (← IO.getStdin) .empty
  writeFile path text := attempt (IO.FS.writeFile path text)
  writeOutput text := attempt do
    let stream ← IO.getStdout
    stream.putStr text
    stream.flush
  writeError text := IO.eprint text
  note level message := IO.eprintln s!"[{level}] {message}"

end OnePass.Shell

def main (arguments : List String) : IO UInt32 := do
  let force ← IO.getEnv "CLICOLOR_FORCE"
  let never ← IO.getEnv "NO_COLOR"
  let wanted ← IO.getEnv "CLICOLOR"
  let colors := OnePass.Shell.showsColors force never wanted (← (← IO.getStdout).isTty)
  return UInt32.ofNat (← OnePass.Shell.execute OnePass.Shell.systemHost colors arguments)
