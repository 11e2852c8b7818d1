import OnePass.Fault

/-!
# Diagnostics for the terminal

* `Style.apply` — a text in colour;
* `Diagnostic.report` — a diagnostic on its own lines, with the name of the file.
-/

namespace OnePass

/-- The looks of a text on a terminal. -/
inductive Style where
  | boldRed
  | yellow
  | boldWhite
  | cyan
  | boldCyan
deriving DecidableEq, Repr

namespace Style

def codes : Style → String
  | boldRed => "1;31"
  | yellow => "33"
  | boldWhite => "1;37"
  | cyan => "36"
  | boldCyan => "1;36"

def reset : String := "\x1b[0m"

def opening (style : Style) : String := s!"\x1b[{style.codes}m"

def apply (style : Style) (colors : Bool) (text : String) : String :=
  if colors then style.opening ++ text.replace reset (reset ++ style.opening) ++ reset else text

end Style

namespace Diagnostic

def pointer (d : Diagnostic) (file : Option String) (colors : Bool) : String :=
  match file, d.location with
  | some name, some place => Style.cyan.apply colors name ++ ":" ++ Style.boldCyan.apply colors place.text
  | some name, none => Style.cyan.apply colors name
  | none, some place => Style.boldCyan.apply colors place.text
  | none, none => ""

def heading (colors : Bool) : String := Style.boldRed.apply colors "エラー"

def report (d : Diagnostic) (file : Option String) (colors : Bool) : String :=
  let pointer := d.pointer file colors
  let kind := Style.yellow.apply colors d.kind.text
  let message := Style.boldWhite.apply colors d.message
  s!"{heading colors}: [{kind}] {message}\n" ++ if pointer.isEmpty then "" else s!"  --> {pointer}\n"

end Diagnostic

end OnePass
