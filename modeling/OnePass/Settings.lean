import OnePass.Fault

/-!
# Settings of the compiler

* `Settings` — what can be set, with the defaults;
* `Settings.check` — which settings are refused.
-/

namespace OnePass

structure Settings where
  unwrapExitCode : Nat := 7
  emitComments : Bool := false
  verbosity : Nat := 0
deriving DecidableEq, Repr, Inhabited

namespace Settings

def maxExitCode : Nat := 49

def check (settings : Settings) : Except Diagnostic Unit :=
  if maxExitCode < settings.unwrapExitCode then
    .error { fault := .unwrapExitCode maxExitCode settings.unwrapExitCode }
  else .ok ()

def flag (b : Bool) : String := if b then "true" else "false"

def text (settings : Settings) : String :=
  "コンパイラ設定:\n" ++
    s!"  アンラップ失敗時の終了コード: {settings.unwrapExitCode}\n" ++
    s!"  コメント出力: {flag settings.emitComments}\n" ++
    s!"  詳細レベル: {settings.verbosity}"

end Settings

end OnePass
