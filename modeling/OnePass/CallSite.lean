import OnePass.Location
import OnePass.Ty

/-!
# Call sites

A function may be called before it is defined, so calls are only recorded while a program is read, and
checked against the signatures at its end.

* `CallSite` — a recorded call;
* `Calls` — the calls of a program in order.
-/

namespace OnePass

/-- An argument of a recorded call. -/
structure Argument where
  label : Option String := none
  ty : Ty
  initialized : Bool := true
  literal : Bool := false
  push : Nat := 0
  location : Option Location := none
deriving DecidableEq, Repr, Inhabited

/-- A recorded call. -/
structure CallSite where
  name : String
  target : Option Ty := none
  arguments : List Argument
  callId : Nat
  scaffolded : Bool := false
  scope : Nat
  location : Option Location := none
deriving DecidableEq, Repr, Inhabited

/-- The calls of a program, last first. -/
structure Calls where
  recorded : List CallSite := []
deriving Repr, Inhabited

namespace Calls

def toList (calls : Calls) : List CallSite := calls.recorded.reverse

def length (calls : Calls) : Nat := calls.recorded.length

def nextId (calls : Calls) : Nat := calls.length + 1

def record (calls : Calls) (site : CallSite) : Calls := { recorded := site :: calls.recorded }

end Calls

end OnePass
