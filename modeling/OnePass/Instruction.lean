import OnePass.Number.Shortest
import OnePass.Text.Quoted

/-!
# Abstract instructions

The compiler emits instructions of an abstract stack machine. Each names the scope it was emitted for, the
frame of the variable it touches, a counter that keeps labels apart, and a literal or a name.

* `InstructionKind` — the operations;
* `Payload` — literals and names;
* `Instruction` — an operation with its scope, frame, counter and payload.
-/

namespace OnePass

/-- Where a variable lives. -/
inductive Frame where
  | global
  | local
deriving DecidableEq, Repr, Inhabited

def Frame.text : Frame → String
  | .global => "GF"
  | .local => "LF"

/-- The operations of the abstract machine. -/
inductive InstructionKind where
  | programStart
  | defineVariable
  | pushLiteral
  | pushVariable
  | popVariable
  | add
  | sub
  | mul
  | div
  | intDiv
  | concat
  | lt
  | gt
  | le
  | ge
  | eq
  | neq
  | intToDouble
  | unwrap
  | coalesce
  | ifCondition
  | ifLetCondition
  | elseMark
  | endIf
  | whileLabel
  | whileCondition
  | endWhile
  | functionBegin
  | paramPop
  | returnValue
  | functionEnd
  | call
  | discardResult
  | write
deriving DecidableEq, Repr, Inhabited

def InstructionKind.text : InstructionKind → String
  | programStart => "ProgramStart"
  | defineVariable => "DefineVariable"
  | pushLiteral => "PushLiteral"
  | pushVariable => "PushVariable"
  | popVariable => "PopVariable"
  | add => "Add"
  | sub => "Sub"
  | mul => "Mul"
  | div => "Div"
  | intDiv => "IDiv"
  | concat => "Concat"
  | lt => "Lt"
  | gt => "Gt"
  | le => "Le"
  | ge => "Ge"
  | eq => "Eq"
  | neq => "Neq"
  | intToDouble => "Int2Float"
  | unwrap => "Unwrap"
  | coalesce => "Coalesce"
  | ifCondition => "IfCondition"
  | ifLetCondition => "IfLetCondition"
  | elseMark => "Else"
  | endIf => "EndIf"
  | whileLabel => "WhileLabel"
  | whileCondition => "WhileCondition"
  | endWhile => "EndWhile"
  | functionBegin => "FunctionBegin"
  | paramPop => "ParamPop"
  | returnValue => "Return"
  | functionEnd => "FunctionEnd"
  | call => "Call"
  | discardResult => "DiscardResult"
  | write => "Write"

/-- What an instruction carries. -/
inductive Payload where
  | int (value : Int)
  | double (value : Double)
  | string (text : String)
  | nil
  | name (name : String)
deriving DecidableEq, Repr, Inhabited

def Payload.text : Payload → String
  | .int value => s!"{value}"
  | .double value => value.text
  | .string text => Text.quoted text
  | .nil => "nil"
  | .name target => target

/-- An instruction of the abstract machine. -/
structure Instruction where
  kind : InstructionKind
  scope : Nat
  frame : Frame
  counter : Nat := 0
  payload : Option Payload := none
deriving DecidableEq, Repr, Inhabited

def Instruction.name? (instruction : Instruction) : Option String :=
  match instruction.payload with
  | some (.name name) => some name
  | _ => none

def Instruction.toDouble (instruction : Instruction) : Instruction :=
  match instruction.payload with
  | some (.int value) => { instruction with payload := some (.double (.ofInt value)) }
  | _ => instruction

end OnePass
