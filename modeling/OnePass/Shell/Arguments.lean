/-!
# Arguments of the command line

Arguments are read from left to right. The value of an option is checked when the next argument is understood, so
that an argument that is not known at all is reported first.

* `Arguments` — what can be said on the command line;
* `Usage` — why the program does not run;
* `Arguments.parse` — the arguments of a command line.
-/

namespace OnePass.Shell

/-- What can be said on the command line. -/
structure Arguments where
  input : Option String := none
  output : Option String := none
  config : Option String := none
  comments : Bool := false
  verbose : Nat := 0
  noColor : Bool := false
deriving DecidableEq, Repr, Inhabited

/-- Why the program does not run. -/
inductive Usage where
  | unknownArgument
  | invalidValue
  | argumentConflict
  | tooManyValues
  | displayHelp
  | displayVersion
deriving DecidableEq, Repr, Inhabited

/-! ### Options -/

/-- The places for values. -/
inductive Slot where
  | input
  | output
  | config
deriving DecidableEq, Repr

/-- The options without a value. -/
inductive Switch where
  | comments
  | verbose
  | noColor
  | help
  | version
deriving DecidableEq, Repr

/-- The options. -/
inductive Choice where
  | slot (slot : Slot)
  | switch (switch : Switch)
deriving DecidableEq, Repr

def Choice.ofName? : String → Option Choice
  | "output" => some (.slot .output)
  | "config" => some (.slot .config)
  | "comments" => some (.switch .comments)
  | "verbose" => some (.switch .verbose)
  | "no-color" => some (.switch .noColor)
  | "help" => some (.switch .help)
  | "version" => some (.switch .version)
  | _ => none

def Choice.ofLetter? : Char → Option Choice
  | 'o' => some (.slot .output)
  | 'c' => some (.slot .config)
  | 'v' => some (.switch .verbose)
  | 'h' => some (.switch .help)
  | 'V' => some (.switch .version)
  | _ => none

namespace Arguments

def get (arguments : Arguments) : Slot → Option String
  | .input => arguments.input
  | .output => arguments.output
  | .config => arguments.config

def set (arguments : Arguments) (value : String) : Slot → Arguments
  | .input => { arguments with input := some value }
  | .output => { arguments with output := some value }
  | .config => { arguments with config := some value }

def fill (arguments : Arguments) (slot : Slot) (value : String) : Except Usage Arguments :=
  if (arguments.get slot).isSome then .error .argumentConflict
  else if value.isEmpty then .error .invalidValue
  else .ok (arguments.set value slot)

def maxVerbose : Nat := 255

def turnOn (arguments : Arguments) : Switch → Except Usage Arguments
  | .comments =>
      if arguments.comments then .error .argumentConflict else .ok { arguments with comments := true }
  | .verbose => .ok { arguments with verbose := min (arguments.verbose + 1) maxVerbose }
  | .noColor =>
      if arguments.noColor then .error .argumentConflict else .ok { arguments with noColor := true }
  | .help => .error .displayHelp
  | .version => .error .displayVersion

/-! ### Reading -/

/-- The arguments read so far. -/
structure Progress where
  arguments : Arguments := {}
  pending : Option (Slot × Option String) := none
  positioned : Bool := false
  ended : Bool := false

namespace Progress

def settle (progress : Progress) : Except Usage Progress :=
  match progress.pending with
  | none => .ok progress
  | some (_, none) => .error .invalidValue
  | some (slot, some value) => do
      return { progress with arguments := ← progress.arguments.fill slot value, pending := none }

def switch (progress : Progress) (switch : Switch) : Except Usage Progress := do
  let settled ← progress.settle
  return { settled with arguments := ← settled.arguments.turnOn switch }

def attach (progress : Progress) (slot : Slot) (value : String) : Except Usage Progress := do
  let settled ← progress.settle
  return { settled with arguments := ← settled.arguments.fill slot value }

def await (progress : Progress) (slot : Slot) : Except Usage Progress := do
  return { ← progress.settle with pending := some (slot, none) }

def word (progress : Progress) (value : String) : Except Usage Progress :=
  match progress.pending, progress.ended with
  | some (slot, none), false => .ok { progress with pending := some (slot, some value) }
  | _, _ =>
      if progress.positioned then .error .unknownArgument
      else do return { ← progress.settle with pending := some (.input, some value), positioned := true }

def long (progress : Progress) (name : String) (value : Option String) : Except Usage Progress :=
  match Choice.ofName? name, value with
  | none, _ => .error .unknownArgument
  | some (.slot slot), some value => progress.attach slot value
  | some (.slot slot), none => progress.await slot
  | some (.switch _), some _ => .error .tooManyValues
  | some (.switch switch), none => progress.switch switch

def short (progress : Progress) : List Char → Except Usage Progress
  | [] => .ok progress
  | letter :: rest =>
      match Choice.ofLetter? letter, rest with
      | none, _ => .error .unknownArgument
      | some (.slot slot), [] => progress.await slot
      | some (.slot slot), '=' :: value => progress.attach slot (String.ofList value)
      | some (.slot slot), value => progress.attach slot (String.ofList value)
      | some (.switch switch), rest => do (← progress.switch switch).short rest

def divide (text : List Char) : String × Option String :=
  let name := text.takeWhile (· != '=')
  match text.drop name.length with
  | [] => (String.ofList name, none)
  | _ :: value => (String.ofList name, some (String.ofList value))

def step (progress : Progress) (argument : String) : Except Usage Progress :=
  if progress.ended then progress.word argument
  else
    match argument.toList with
    | ['-', '-'] => .ok { progress with ended := true }
    | '-' :: '-' :: text =>
        let (name, value) := divide text
        progress.long name value
    | '-' :: letter :: rest => progress.short (letter :: rest)
    | _ => progress.word argument

end Progress

def parse (arguments : List String) : Except Usage Arguments := do
  let progress ← arguments.foldlM Progress.step {}
  return (← progress.settle).arguments

end Arguments

end OnePass.Shell
