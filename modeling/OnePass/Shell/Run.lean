import OnePass.Compile
import OnePass.Report
import OnePass.Settings.File
import OnePass.Shell.Arguments
import OnePass.Shell.Host

/-!
# Running the program

* `loadSettings` — the settings of the command line and of its file;
* `runCompiler` — from the input to the output;
* `execute` — the whole program, up to its exit code.
-/

namespace OnePass.Shell

/-! ### Failures -/

/-- Why the program fails. -/
inductive Failure where
  | settingsUnreadable (path reason : String)
  | settingsMalformed (path : String)
  | fileUnreadable (path reason : String)
  | inputUnreadable (reason : String)
  | fileUnwritable (path reason : String)
  | outputUnwritable (reason : String)
  | refused (diagnostic : Diagnostic)

namespace Failure

def text : Failure → String
  | settingsUnreadable path reason => s!"設定ファイル {path} を読み込めませんでした: {reason}"
  | settingsMalformed path => s!"設定ファイル {path} の形式が正しくありません: TOML parse error"
  | fileUnreadable path reason => s!"入力ファイル {path} を読み込めませんでした: {reason}"
  | inputUnreadable reason => s!"標準入力を読み込めませんでした: {reason}"
  | fileUnwritable path reason => s!"出力ファイル {path} に書き込めませんでした: {reason}"
  | outputUnwritable reason => s!"標準出力に書き込めませんでした: {reason}"
  | refused diagnostic => diagnostic.text

def isRefusal : Failure → Bool
  | refused _ => true
  | _ => false

def exitCode : Failure → Nat
  | refused diagnostic => diagnostic.exitCode
  | _ => FaultKind.internal.exitCode

def report (failure : Failure) (file : Option String) (colors : Bool) : String :=
  match failure with
  | refused diagnostic => diagnostic.report file colors
  | other => s!"{Diagnostic.heading colors}: {other.text}\n"

end Failure

def notText : String := "stream did not contain valid UTF-8"

def readText (bytes : Except String ByteArray) : Except String String := do
  match String.fromUTF8? (← bytes) with
  | some text => return text
  | none => throw notText

/-! ### Settings -/

def Arguments.apply (arguments : Arguments) (settings : Settings) : Settings :=
  { settings with emitComments := settings.emitComments || arguments.comments
                  verbosity := max settings.verbosity arguments.verbose }

variable {m : Type → Type} [Monad m]

def readSettings (host : Host m) (path : String) : m (Except Failure Settings) := do
  match readText (← host.readFile path) with
  | .error reason => return .error (.settingsUnreadable path reason)
  | .ok text =>
      match Settings.ofToml? text with
      | some settings => return .ok settings
      | none => return .error (.settingsMalformed path)

def loadSettings (host : Host m) (arguments : Arguments) : m (Except Failure Settings) := do
  match arguments.config with
  | none => return .ok (arguments.apply {})
  | some path => return (← readSettings host path).map arguments.apply

/-! ### Compiling -/

def readSource (host : Host m) : Option String → m (Except Failure String)
  | some path => return (readText (← host.readFile path)).mapError (.fileUnreadable path)
  | none => return (readText (← host.readInput)).mapError .inputUnreadable

def writeCode (host : Host m) (code : String) : Option String → m (Except Failure Unit)
  | some path => return (← host.writeFile path code).mapError (.fileUnwritable path)
  | none => return (← host.writeOutput code).mapError .outputUnwritable

def noteAbout (host : Host m) (settings : Settings) (level : LogLevel) (message : String) : m Unit := do
  if level.rank ≤ (LogLevel.ofVerbosity settings.verbosity).rank then host.note level.text message

def runCompiler (host : Host m) (arguments : Arguments) (settings : Settings) : m (Except Failure Unit) := do
  match ← readSource host arguments.input with
  | .error failure => return .error failure
  | .ok source =>
      noteAbout host settings .info
        s!"swiftlet コンパイラ v{version}: {source.utf8ByteSize}バイトを読み込みました"
      let outcome := compile settings source
      for record in outcome.log do
        noteAbout host settings record.level record.message
      match outcome.result with
      | .error diagnostic => return .error (.refused diagnostic)
      | .ok code => writeCode host code arguments.output

/-! ### Colours -/

def isYes (setting : String) : Bool := setting != "0"

/-- Whether the terminal shows colours, by the variables `CLICOLOR_FORCE`, `NO_COLOR` and `CLICOLOR` of the
environment, in this order; else it depends on whether the output is a terminal. -/
def showsColors (force never wanted : Option String) (isTerminal : Bool) : Bool :=
  if force.any isYes then true
  else if never.isSome then false
  else wanted.all isYes && isTerminal

/-! ### The whole program -/

def runArguments (host : Host m) (arguments : Arguments) : m (Except Failure Unit) := do
  match ← loadSettings host arguments with
  | .error failure => return .error failure
  | .ok settings =>
      noteAbout host settings .debug settings.text
      runCompiler host arguments settings

def synopsis : String := "Usage: swiftlet [OPTIONS] [INPUT]\n"

def helpText : String :=
  "swiftlet言語のコンパイラ（IFJcode23を生成）\n\n" ++ synopsis ++
    "\nArguments:\n" ++
    "  [INPUT]  入力ファイル（省略時は標準入力）\n" ++
    "\nOptions:\n" ++
    "  -o, --output <FILE>  出力ファイル（省略時は標準出力）\n" ++
    "  -c, --config <FILE>  コンパイル設定ファイル（TOML）へのパス\n" ++
    "      --comments       関数の先頭にコメント行を出力する\n" ++
    "  -v, --verbose...     ログの詳細度（-v, -vv, -vvv）\n" ++
    "      --no-color       色付き出力を無効にする\n" ++
    "  -h, --help           Print help\n" ++
    "  -V, --version        Print version\n"

def Usage.text : Usage → String
  | .unknownArgument => "unexpected argument"
  | .invalidValue => "a value is required"
  | .argumentConflict => "an argument cannot be used multiple times"
  | .tooManyValues => "unexpected value"
  | .displayHelp | .displayVersion => ""

def usageExitCode : Nat := 2

def answerUsage (host : Host m) : Usage → m Nat
  | .displayHelp => do
      discard (host.writeOutput helpText)
      return 0
  | .displayVersion => do
      discard (host.writeOutput s!"swiftlet {version}\n")
      return 0
  | usage => do
      host.writeError (s!"error: {usage.text}\n\n" ++ synopsis ++ "\nFor more information, try '--help'.\n")
      return usageExitCode

def execute (host : Host m) (colors : Bool) (words : List String) : m Nat := do
  match Arguments.parse words with
  | .error usage => answerUsage host usage
  | .ok arguments =>
      match ← runArguments host arguments with
      | .ok () => return 0
      | .error failure =>
          if !failure.isRefusal then host.note "ERROR" failure.text
          host.writeError (failure.report arguments.input (colors && !arguments.noColor))
          return failure.exitCode

end OnePass.Shell
