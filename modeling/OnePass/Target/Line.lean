import OnePass.Instruction
import OnePass.Number.Hexadecimal

/-!
# Target code

Programs are compiled to IFJcode23, the code of a stack machine with frames of variables. A line of target
code is an operation on operands; labels are names.

* `Operand` — variables and literals;
* `Line` — the operations that the compiler uses;
* `Line.text` — how a line is written;
* `escapeText` — how a string literal is written.
-/

namespace OnePass

namespace Target

/-! ### Operands -/

/-- A variable of a frame. -/
structure Place where
  frame : Frame
  name : String
deriving DecidableEq, Repr

/-- What an operation works on. -/
inductive Operand where
  | place (place : Place)
  | int (value : Int)
  | double (value : Double)
  | string (text : String)
  | bool (value : Bool)
  | nil
deriving DecidableEq, Repr

def threeDigits (n : Nat) : List Char :=
  let digits := Nat.toDigits 10 n
  List.replicate (3 - digits.length) '0' ++ digits

def needsEscape (c : Char) : Bool := c.toNat ≤ 32 || c == '#' || c == '\\'

def escapeChar (c : Char) : List Char := if needsEscape c then '\\' :: threeDigits c.toNat else [c]

def escapeText (text : String) : String := String.ofList (text.toList.flatMap escapeChar)

def Place.text (place : Place) : String := s!"{place.frame.text}@{place.name}"

def Operand.text : Operand → String
  | .place target => target.text
  | int value => s!"int@{value}"
  | double value => s!"float@{value.hexText}"
  | string text => s!"string@{escapeText text}"
  | bool value => if value then "bool@true" else "bool@false"
  | nil => "nil@nil"

/-! ### Lines -/

/-- The types of values that can be read. -/
inductive InputType where
  | string
  | int
  | float
deriving DecidableEq, Repr

def InputType.text : InputType → String
  | string => "string"
  | int => "int"
  | float => "float"

/-- The lines of target code. -/
inductive Line where
  | header
  | comment (text : String)
  -- frames and calls
  | defVar (target : Place)
  | move (target : Place) (value : Operand)
  | createFrame
  | pushFrame
  | popFrame
  | call (label : String)
  | ret
  -- the data stack
  | push (value : Operand)
  | pop (target : Place)
  | adds
  | subs
  | muls
  | divs
  | idivs
  | lts
  | gts
  | eqs
  | nots
  | int2floats
  | float2ints
  | int2chars
  -- operations on variables
  | add (target : Place) (left right : Operand)
  | lt (target : Place) (left right : Operand)
  | gt (target : Place) (left right : Operand)
  | concat (target : Place) (left right : Operand)
  | strLen (target : Place) (text : Operand)
  | getChar (target : Place) (text index : Operand)
  | stri2int (target : Place) (text index : Operand)
  -- input and output
  | read (target : Place) (ty : InputType)
  | write (value : Operand)
  -- control
  | label (name : String)
  | jump (label : String)
  | jumpIfEq (label : String) (left right : Operand)
  | jumpIfNeq (label : String) (left right : Operand)
  | jumpIfEqs (label : String)
  | jumpIfNeqs (label : String)
  | exit (code : Operand)
deriving DecidableEq, Repr

def storing (operation : String) (target : Place) (operands : List Operand) : String :=
  " ".intercalate (operation :: target.text :: operands.map Operand.text)

def comparing (operation label : String) (left right : Operand) : String :=
  s!"{operation} {label} {left.text} {right.text}"

def Line.text : Line → String
  | header => ".IFJcode23"
  | .comment text => s!"# {text}"
  | defVar target => s!"DEFVAR {target.text}"
  | move target value => storing "MOVE" target [value]
  | createFrame => "CREATEFRAME"
  | pushFrame => "PUSHFRAME"
  | popFrame => "POPFRAME"
  | .call target => s!"CALL {target}"
  | ret => "RETURN"
  | push value => s!"PUSHS {value.text}"
  | pop target => s!"POPS {target.text}"
  | adds => "ADDS"
  | subs => "SUBS"
  | muls => "MULS"
  | divs => "DIVS"
  | idivs => "IDIVS"
  | lts => "LTS"
  | gts => "GTS"
  | eqs => "EQS"
  | nots => "NOTS"
  | int2floats => "INT2FLOATS"
  | float2ints => "FLOAT2INTS"
  | int2chars => "INT2CHARS"
  | add target left right => storing "ADD" target [left, right]
  | lt target left right => storing "LT" target [left, right]
  | gt target left right => storing "GT" target [left, right]
  | concat target left right => storing "CONCAT" target [left, right]
  | strLen target text => storing "STRLEN" target [text]
  | getChar target text index => storing "GETCHAR" target [text, index]
  | stri2int target text index => storing "STRI2INT" target [text, index]
  | read target ty => s!"READ {target.text} {ty.text}"
  | write value => s!"WRITE {value.text}"
  | label name => s!"LABEL {name}"
  | .jump target => s!"JUMP {target}"
  | .jumpIfEq target left right => comparing "JUMPIFEQ" target left right
  | .jumpIfNeq target left right => comparing "JUMPIFNEQ" target left right
  | .jumpIfEqs target => s!"JUMPIFEQS {target}"
  | .jumpIfNeqs target => s!"JUMPIFNEQS {target}"
  | exit code => s!"EXIT {code.text}"

def textOf (lines : List Line) : String := String.join (lines.map fun line => line.text ++ "\n")

end Target

end OnePass
