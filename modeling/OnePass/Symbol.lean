import OnePass.Location
import OnePass.Ty

/-!
# Symbols

What a name stands for in a scope: a variable, a function or a parameter.

* `Symbol` — a name, what it stands for, and where it was declared;
* `Symbol.isDefined` — whether it has a value to read.
-/

namespace OnePass

/-- What a name stands for. -/
inductive SymbolKind where
  | var (mutable : Bool) (ty : Ty) (defined : Bool)
  | function (returns : Ty) (builtin : Bool)
  | parameter (index : Nat) (label : Option String) (ty : Ty)
deriving DecidableEq, Repr, Inhabited

def SymbolKind.text : SymbolKind → String
  | var true _ _ => "変数"
  | var false _ _ => "定数"
  | function .. => "関数"
  | parameter .. => "パラメータ"

/-- A named entry of a scope. -/
structure Symbol where
  name : String
  kind : SymbolKind
  location : Option Location := none
deriving DecidableEq, Repr, Inhabited

namespace Symbol

def ty (symbol : Symbol) : Ty :=
  match symbol.kind with
  | .var _ ty _ => ty
  | .function returns _ => returns
  | .parameter _ _ ty => ty

def isDefined (symbol : Symbol) : Bool :=
  match symbol.kind with
  | .var _ _ defined => defined
  | .function .. => false
  | .parameter .. => true

def isFunction (symbol : Symbol) : Bool :=
  match symbol.kind with
  | .function .. => true
  | _ => false

def isParameterAt (index : Nat) (symbol : Symbol) : Bool :=
  match symbol.kind with
  | .parameter position _ _ => position == index
  | _ => false

def withTy (ty : Ty) (symbol : Symbol) : Symbol :=
  match symbol.kind with
  | .var mutable _ defined => { symbol with kind := .var mutable ty defined }
  | .function _ builtin => { symbol with kind := .function ty builtin }
  | .parameter index label _ => { symbol with kind := .parameter index label ty }

def withDefined (defined : Bool) (symbol : Symbol) : Symbol :=
  match symbol.kind with
  | .var mutable ty _ => { symbol with kind := .var mutable ty defined }
  | _ => symbol

end Symbol

end OnePass
