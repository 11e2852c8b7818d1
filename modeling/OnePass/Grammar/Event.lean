import OnePass.Fault

/-!
# What a program says

A parser reports what it has recognised as a list of events, in the order in which the program is to be given
its meaning. Each event stands directly behind the tokens that it needs, so that of two faults in a program
the one that is noticed first in reading is reported.

* `Receiver` — who takes the value of a right-hand side;
* `Event` — one piece of meaning.
-/

namespace OnePass

/-- Who takes the value of a right-hand side. -/
inductive Receiver where
  | declared (name : String) (place : Location) (stated : Option Ty)
  | assigned (name : String) (place : Location)
deriving DecidableEq, Repr

/-- What is done with the result of a call. -/
inductive CallUse where
  | dropped
  | received (receiver : Receiver)
deriving DecidableEq, Repr

/-- Where a right-hand side gets its value from. -/
inductive ValueSource where
  | expression
  | call (callee : String)
deriving DecidableEq, Repr

/-- The pieces of meaning of a program. -/
inductive Event where
  | read (token : Token)
  | refused (diagnostic : Diagnostic)
  | moved (token : Token)
  | start
  -- expressions, operands before operators
  | operand (token : Token)
  | binary (operator : Operator) (place : Location)
  | unwrap (place : Location)
  -- variables
  | declareName (name : String) (place : Location)
  | reserve (name : String)
  | bind (mutable : Bool) (name : String) (place : Location) (stated : Option Ty)
      (source : Option ValueSource)
  | assignee (name : String) (place : Location)
  | assign (name : String) (place : Location) (source : ValueSource)
  -- calls
  | receiveCall (callee : String) (receiver : Receiver)
  | argument (callee : String) (label : Option String) (term : Token) (place : Location)
  | call (callee : String) (place : Location) (purpose : CallUse)
  -- conditionals
  | beginIf
  | ifCondition (place : Location)
  | ifLet (name : String) (place : Location)
  | endThen
  | beginElse
  | endElse
  | endIf
  -- loops
  | beginWhile
  | whileCondition (place : Location)
  | endWhile
  -- functions
  | functionName (name : String) (place : Location)
  | beginParameters (name : String)
  | parameter (index : Nat) (label name : Option String) (ty : Ty) (place : Location)
  | beginBody (name : String) (place : Location) (parameters : Nat) (returns : Ty)
  | endFunction (name : String)
  | beginReturn (hasValue : Bool) (place : Location)
  | endReturn (hasValue : Bool) (place : Location)
deriving DecidableEq, Repr

end OnePass
