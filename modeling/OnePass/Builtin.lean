import OnePass.Scope

/-!
# Built-in functions

The functions that every program can call without defining them.

* `Builtin.all` — their signatures;
* `ScopeTree.register` — declares them in the global scope;
* `ScopeTree.withBuiltins` — the tree that every compilation starts with.
-/

namespace OnePass

/-- A parameter of a built-in function. -/
structure BuiltinParameter where
  label : Option String
  name : String
  ty : Ty
deriving Repr

/-- The signature of a built-in function. -/
structure Builtin where
  name : String
  parameters : List BuiltinParameter := []
  returns : Ty
  variadic : Bool := false
deriving Repr

namespace Builtin

def all : List Builtin :=
  [{ name := "readString", returns := .optional .string },
    { name := "readInt", returns := .optional .int },
    { name := "readDouble", returns := .optional .double },
    { name := "write", returns := .void, variadic := true },
    { name := "Int2Double", parameters := [⟨none, "term", .int⟩], returns := .double },
    { name := "Double2Int", parameters := [⟨none, "term", .double⟩], returns := .int },
    { name := "length", parameters := [⟨none, "s", .string⟩], returns := .int },
    { name := "substring",
      parameters :=
        [⟨some "of", "s", .string⟩, ⟨some "startingAt", "i", .int⟩, ⟨some "endingBefore", "j", .int⟩],
      returns := .optional .string },
    { name := "ord", parameters := [⟨none, "c", .string⟩], returns := .int },
    { name := "chr", parameters := [⟨none, "i", .int⟩], returns := .string }]

def find? (name : String) : Option Builtin := all.find? (·.name == name)

def isVariadic (name : String) : Bool := (find? name).any (·.variadic)

def symbol (builtin : Builtin) : Symbol :=
  { name := builtin.name, kind := .function builtin.returns true }

def parameterSymbols (builtin : Builtin) : List Symbol :=
  builtin.parameters.mapIdx fun index parameter =>
    { name := parameter.name, kind := .parameter index parameter.label parameter.ty }

def parameterTable (builtin : Builtin) : SymbolTable :=
  { tree := builtin.parameterSymbols.foldl (fun tree symbol => tree.insert symbol) .leaf
    size := builtin.parameters.length }

end Builtin

namespace ScopeTree

def addHeader (tree : ScopeTree) (builtin : Builtin) : ScopeTree :=
  let (tree, id) := tree.createChild root .functionHeader builtin.name
  tree.modify id fun scope =>
    { scope with table := builtin.parameterTable, parameters := builtin.parameters.length }

def register : List Builtin → ScopeTree → Except Diagnostic Unit × ScopeTree
  | [], tree => (.ok (), tree)
  | builtin :: later, tree =>
      match (tree.scope root).table.insert builtin.symbol with
      | .ok table => register later ((tree.setTable root table).addHeader builtin)
      | .error diagnostic => (.error diagnostic, tree)

def withBuiltins : ScopeTree := (register Builtin.all start).2

end ScopeTree

end OnePass
