import OnePass.Fault
import OnePass.Symbol

/-!
# Symbol tables

The symbols of one scope, in a search tree that is balanced by height. Names are compared character by
character by code point. Every node stores the height of its tree.

* `SymbolTree` — the tree, with `toList` as its view;
* `SymbolTree.insert` — inserts below the leaves and restores the balance with at most two rotations;
* `SymbolTree.check` — whether order, stored heights and balance are right;
* `SymbolTable` — a tree with the number of its symbols.
-/

namespace OnePass

/-- A search tree of symbols. -/
inductive SymbolTree where
  | leaf
  | node (left : SymbolTree) (symbol : Symbol) (height : Int) (right : SymbolTree)
deriving Repr, Inhabited

namespace SymbolTree

def toList : SymbolTree → List Symbol
  | leaf => []
  | node left symbol _ right => left.toList ++ symbol :: right.toList

def height : SymbolTree → Int
  | leaf => 0
  | node _ _ height _ => height

def get? (name : String) : SymbolTree → Option Symbol
  | leaf => none
  | node left symbol _ right =>
      if name = symbol.name then some symbol
      else if name < symbol.name then get? name left
      else get? name right

def modify (name : String) (change : Symbol → Symbol) : SymbolTree → SymbolTree
  | leaf => leaf
  | node left symbol height right =>
      if name = symbol.name then node left (change symbol) height right
      else if name < symbol.name then node (modify name change left) symbol height right
      else node left symbol height (modify name change right)

/-! ### Balance -/

def join (left : SymbolTree) (symbol : Symbol) (right : SymbolTree) : SymbolTree :=
  node left symbol (1 + max left.height right.height) right

def rotateRight : SymbolTree → SymbolTree
  | node (node left pivot _ middle) symbol _ right => join left pivot (join middle symbol right)
  | tree => tree

def rotateLeft : SymbolTree → SymbolTree
  | node left symbol _ (node middle pivot _ right) => join (join left symbol middle) pivot right
  | tree => tree

def rootName (test : String → Bool) : SymbolTree → Bool
  | leaf => false
  | node _ symbol _ _ => test symbol.name

/-- Restores the balance of a node after the insertion of a name below it. The side on which the name went
into the heavy subtree decides between a single and a double rotation. -/
def rebalance (name : String) (left : SymbolTree) (symbol : Symbol) (right : SymbolTree) : SymbolTree :=
  let slope := left.height - right.height
  if 1 < slope then
    rotateRight (join (if left.rootName (· < name) then rotateLeft left else left) symbol right)
  else if slope < -1 then
    rotateLeft (join left symbol (if right.rootName (name < ·) then rotateRight right else right))
  else join left symbol right

def insert (entry : Symbol) : SymbolTree → SymbolTree
  | leaf => join leaf entry leaf
  | node left symbol _ right =>
      if entry.name < symbol.name then rebalance entry.name (insert entry left) symbol right
      else rebalance entry.name left symbol (insert entry right)

/-- The true height of a tree whose names lie between two bounds in strict order, whose stored heights are
right and which is balanced everywhere; none if it is not such a tree. -/
def check (lower upper : Option String) : SymbolTree → Option Int
  | leaf => some 0
  | node left symbol height right =>
      if lower.any (symbol.name ≤ ·) || upper.any (· ≤ symbol.name) then none
      else
        match check lower (some symbol.name) left, check (some symbol.name) upper right with
        | some leftHeight, some rightHeight =>
            let trueHeight := 1 + max leftHeight rightHeight
            if 1 < (leftHeight - rightHeight).natAbs || height != trueHeight then none else some trueHeight
        | _, _ => none

def isBalanced (tree : SymbolTree) : Bool := (tree.check none none).isSome

end SymbolTree

/-- The symbols of a scope. -/
structure SymbolTable where
  tree : SymbolTree := .leaf
  size : Nat := 0
deriving Repr, Inhabited

namespace SymbolTable

def toList (table : SymbolTable) : List Symbol := table.tree.toList

def get? (table : SymbolTable) (name : String) : Option Symbol := table.tree.get? name

def contains (table : SymbolTable) (name : String) : Bool := (table.get? name).isSome

def insert (table : SymbolTable) (symbol : Symbol) : Except Diagnostic SymbolTable :=
  match table.get? symbol.name with
  | some earlier => .error ⟨.symbolRedefined earlier.kind.text symbol.name, symbol.location⟩
  | none => .ok { tree := table.tree.insert symbol, size := table.size + 1 }

def modify (table : SymbolTable) (name : String) (change : Symbol → Symbol) : SymbolTable :=
  { table with tree := table.tree.modify name change }

def parameterAt? (table : SymbolTable) (index : Nat) : Option Symbol :=
  table.toList.find? (·.isParameterAt index)

end SymbolTable

end OnePass
