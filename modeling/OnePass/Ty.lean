/-!
# Static types

A program can name three types and their optional forms. Comparisons, the literal `nil` and functions
without a result have types of their own, which no variable can hold.

* `Ty` — the nine types;
* `Ty.accepts` — which values may be stored in a variable of a type.
-/

namespace OnePass

/-- The types of values that are always present. -/
inductive Base where
  | int
  | double
  | string
deriving DecidableEq, Repr, Inhabited

/-- Static types. -/
inductive Ty where
  | base (base : Base)
  | optional (base : Base)
  | bool
  | nil
  | void
deriving DecidableEq, Repr, Inhabited

namespace Base

def text : Base → String
  | int => "Int"
  | double => "Double"
  | string => "String"

end Base

namespace Ty

@[match_pattern] abbrev int : Ty := .base .int
@[match_pattern] abbrev double : Ty := .base .double
@[match_pattern] abbrev string : Ty := .base .string

def all : List Ty :=
  [int, double, string, .optional .int, .optional .double, .optional .string, .bool, .nil, .void]

def text : Ty → String
  | .base b => b.text
  | .optional b => b.text ++ "?"
  | .bool => "Bool"
  | .nil => "nil"
  | .void => "Void"

def isOptional : Ty → Bool
  | .optional _ => true
  | _ => false

def isNumeric : Ty → Bool
  | int | double => true
  | _ => false

def isStorable : Ty → Bool
  | .base _ | .optional _ => true
  | _ => false

def unwrapped : Ty → Ty
  | .optional b => .base b
  | ty => ty

def wrapped : Ty → Ty
  | .base b => .optional b
  | ty => ty

/-- Whether a variable of this type takes a value of the other type. An optional variable takes its
base type and `nil` too; numbers are not converted. -/
def accepts (ty other : Ty) : Bool :=
  if ty = other then ty.isStorable
  else ty.isOptional && (other == .nil || other == ty.unwrapped)

end Ty

end OnePass
